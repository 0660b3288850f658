import Mathlib.Order.WellFounded

/-!
# Loops turn by turn

A loop is a function that gives the next state, the result, or a fault. A run with a number of
turns gives the result if it comes in time. What holds in every state a run visits, and whether
it comes to an end, is asked of one turn.
-/
namespace LosAltos.Lib

variable {σ β : Type}

inductive Turn (σ β : Type) where
  | again (s : σ)
  | done (b : β)
  | fault

/-- The result within a number of turns. -/
def run (turn : σ → Turn σ β) : Nat → σ → Option β
  | 0, _ => none
  | k + 1, s =>
    match turn s with
    | .again t => run turn k t
    | .done b => some b
    | .fault => none

/-- The states before the turns of a run. -/
inductive Visits (turn : σ → Turn σ β) (s : σ) : σ → Prop where
  | start : Visits turn s s
  | again {t u : σ} : Visits turn s t → turn t = .again u → Visits turn s u

/-- The run comes to a result or a fault. -/
inductive Ends (turn : σ → Turn σ β) : σ → Prop where
  | stop {s : σ} : (∀ t, turn s ≠ .again t) → Ends turn s
  | again {s t : σ} : turn s = .again t → Ends turn t → Ends turn s

/-- The states before the turns of a run that starts at the number `n`, each with the number
kept beside it. -/
inductive Tallies (turn : σ → Turn σ β) (tally : σ → Nat → Nat) (s : σ) (n : Nat) :
    σ → Nat → Prop where
  | start : Tallies turn tally s n s n
  | again {t u : σ} {r : Nat} :
      Tallies turn tally s n t r → turn t = .again u → Tallies turn tally s n u (tally t r)

/-- One more for each marked state. -/
def bump (Mark : σ → Prop) [DecidablePred Mark] (s : σ) (r : Nat) : Nat :=
  if Mark s then r + 1 else r

/-- The run comes to a marked state with `k` marked ones before it. -/
def Reaches (turn : σ → Turn σ β) (Mark : σ → Prop) [DecidablePred Mark] (k : Nat) (s : σ) : Prop :=
  ∃ t, Tallies turn (bump Mark) s 0 t k ∧ Mark t

variable {turn : σ → Turn σ β} {s t u : σ} {b : β}

theorem Visits.trans (first : Visits turn s t) (second : Visits turn t u) : Visits turn s u := by
  induction second with
  | start => exact first
  | again _ next ih => exact ih.again next

theorem Visits.head (next : turn s = .again t) (rest : Visits turn t u) : Visits turn s u :=
  (Visits.start.again next).trans rest

theorem Visits.of_again (visited : Visits turn s u) (next : turn s = .again t) :
    u = s ∨ Visits turn t u := by
  induction visited with
  | start => exact Or.inl rfl
  | again _ step ih =>
    rcases ih with rfl | later
    · rw [next] at step
      cases step
      exact Or.inr .start
    · exact Or.inr (later.again step)

theorem Visits.of_done (visited : Visits turn s u) (last : turn s = .done b) : u = s := by
  induction visited with
  | start => rfl
  | again _ step ih =>
    rw [ih, last] at step
    cases step

/-- What one turn keeps holds in every state visited. -/
theorem Visits.keeps {P : σ → Prop} (visited : Visits turn s t) (start : P s)
    (step : ∀ t u, P t → turn t = .again u → P u) : P t := by
  induction visited with
  | start => exact start
  | again _ next ih => exact step _ _ ih next

/-- A result comes from a state visited. -/
theorem run_some {k : Nat} (result : run turn k s = some b) :
    ∃ t, Visits turn s t ∧ turn t = .done b := by
  induction k generalizing s with
  | zero => cases result
  | succ k ih =>
    rw [run] at result
    split at result
    · rename_i t next
      obtain ⟨u, visited, last⟩ := ih result
      exact ⟨u, visited.head next, last⟩
    · rename_i last
      cases result
      exact ⟨s, .start, last⟩
    · cases result

theorem ends_of_run {k : Nat} (result : run turn k s = some b) : Ends turn s := by
  induction k generalizing s with
  | zero => cases result
  | succ k ih =>
    rw [run] at result
    split at result
    · rename_i next
      exact .again next (ih result)
    · rename_i last
      exact .stop fun t next => by rw [last] at next; cases next
    · cases result

theorem run_fault (stuck : turn s = .fault) (k : Nat) :
    run turn k s = none := by
  cases k with
  | zero => rfl
  | succ k => rw [run, stuck]

theorem run_again (next : turn s = .again t) :
    (∃ k, run turn k s = some b) ↔ ∃ k, run turn k t = some b := by
  constructor
  · rintro ⟨k, result⟩
    cases k with
    | zero => cases result
    | succ k =>
      rw [run, next] at result
      exact ⟨k, result⟩
  · rintro ⟨k, result⟩
    refine ⟨k + 1, ?_⟩
    rw [run, next]
    exact result

/-- More turns change nothing. -/
theorem run_mono {k l : Nat} (more : k ≤ l) (result : run turn k s = some b) :
    run turn l s = some b := by
  induction k generalizing s l with
  | zero => cases result
  | succ k ih =>
    obtain ⟨l, rfl⟩ : ∃ j, l = j + 1 := ⟨l - 1, by omega⟩
    rw [run] at result ⊢
    split at result
    · exact ih (by omega) result
    · exact result
    · exact result

/-- A run that ends without a fault has its result. -/
theorem Ends.run (ends : Ends turn s) (sound : ∀ t, Visits turn s t → turn t ≠ .fault) :
    ∃ k b, run turn k s = some b := by
  induction ends with
  | stop last =>
    rename_i s
    cases here : turn s with
    | again t => exact absurd here (last t)
    | done b => exact ⟨1, b, by rw [Lib.run, here]⟩
    | fault => exact absurd here (sound s .start)
  | again next _ ih =>
    obtain ⟨k, b, result⟩ := ih fun t visited => sound t (visited.head next)
    refine ⟨k + 1, b, ?_⟩
    rw [Lib.run, next]
    exact result

/-- A run ends where every turn makes a measure smaller or goes to where it ends. -/
theorem ends_of_measure_or {α : Type} [LT α] [WellFoundedLT α] (μ : σ → α)
    (down : ∀ t u, Visits turn s t → turn t = .again u → μ u < μ t ∨ Ends turn u) :
    Ends turn s := by
  induction size : μ s using WellFoundedLT.induction generalizing s with
  | _ x ih =>
    by_cases last : ∃ t, turn s = .again t
    · obtain ⟨t, next⟩ := last
      refine .again next ?_
      rcases down s t .start next with less | ends
      · exact ih (μ t) (size ▸ less) (fun u v visited => down u v (visited.head next)) rfl
      · exact ends
    · exact .stop fun t next => last ⟨t, next⟩

theorem ends_of_measure {α : Type} [LT α] [WellFoundedLT α] (μ : σ → α)
    (down : ∀ t u, Visits turn s t → turn t = .again u → μ u < μ t) : Ends turn s :=
  ends_of_measure_or μ fun t u visited next => Or.inl (down t u visited next)

/-- Where every turn makes a number smaller, that number bounds the turns. -/
theorem run_of_measure (μ : σ → Nat)
    (down : ∀ t u, Visits turn s t → turn t = .again u → μ u < μ t)
    (sound : ∀ t, Visits turn s t → turn t ≠ .fault) {k : Nat} (enough : μ s < k) :
    ∃ b, run turn k s = some b := by
  induction k generalizing s with
  | zero => omega
  | succ k ih =>
    cases here : turn s with
    | again t =>
      rw [run, here]
      have less := down s t .start here
      exact ih (fun u v visited => down u v (visited.head here))
        (fun u visited => sound u (visited.head here)) (by omega)
    | done b => exact ⟨b, by rw [run, here]⟩
    | fault => exact absurd here (sound s .start)

/-- A run that always goes on does not end. -/
theorem not_ends_of_again {P : σ → Prop} (start : P s)
    (step : ∀ t, P t → ∃ u, turn t = .again u ∧ P u) : ¬Ends turn s := by
  intro ends
  induction ends with
  | stop last =>
    obtain ⟨u, next, -⟩ := step _ start
    exact last u next
  | again next _ ih =>
    obtain ⟨u, next', holds⟩ := step _ start
    rw [next] at next'
    cases next'
    exact ih holds

section Tally

variable {tally : σ → Nat → Nat} {n r k : Nat}

theorem Tallies.keeps {P : σ → Nat → Prop} (visited : Tallies turn tally s n t r) (start : P s n)
    (step : ∀ t u r, P t r → turn t = .again u → P u (tally t r)) : P t r := by
  induction visited with
  | start => exact start
  | again _ next ih => exact step _ _ _ ih next

theorem Tallies.head (next : turn s = .again u) (rest : Tallies turn tally u (tally s n) t r) :
    Tallies turn tally s n t r := by
  induction rest with
  | start => exact Tallies.start.again next
  | again _ step ih => exact ih.again step

theorem Tallies.cases_head (visited : Tallies turn tally s n t r) :
    (t = s ∧ r = n) ∨ ∃ u, turn s = .again u ∧ Tallies turn tally u (tally s n) t r := by
  induction visited with
  | start => exact Or.inl ⟨rfl, rfl⟩
  | again _ step ih =>
    rcases ih with ⟨rfl, rfl⟩ | ⟨v, next, rest⟩
    · exact Or.inr ⟨_, step, .start⟩
    · exact Or.inr ⟨v, next, rest.again step⟩

theorem Tallies.retally (visited : Tallies turn tally s n t r) (other : σ → Nat → Nat) (l : Nat) :
    ∃ k, Tallies turn other s l t k := by
  induction visited with
  | start => exact ⟨l, .start⟩
  | again _ next ih =>
    obtain ⟨k, before⟩ := ih
    exact ⟨_, before.again next⟩

variable {Mark : σ → Prop} [DecidablePred Mark]

theorem not_reaches_iff : ¬Reaches turn Mark k s ↔
    ∀ t r, Tallies turn (bump Mark) s 0 t r → Mark t → r ≠ k := by
  constructor
  · rintro never t r visited marked rfl
    exact never ⟨t, visited, marked⟩
  · rintro other ⟨t, visited, marked⟩
    exact other t k visited marked rfl

/-- Before any marked state there is a first one. -/
theorem Reaches.first (reached : Reaches turn Mark k s) : Reaches turn Mark 0 s := by
  obtain ⟨t, visited, marked⟩ := reached
  have early : k = 0 ∨ Reaches turn Mark 0 s := by
    clear marked
    induction visited with
    | start => exact Or.inl rfl
    | @again t u r before _ ih =>
      by_cases here : Mark t
      · rcases ih with rfl | found
        · exact Or.inr ⟨t, before, here⟩
        · exact Or.inr found
      · rwa [bump, if_neg here]
  rcases early with rfl | found
  · exact ⟨t, visited, marked⟩
  · exact found

theorem Visits.reaches (visited : Visits turn s t) (marked : Mark t) : Reaches turn Mark 0 s := by
  have counted : ∃ k, Tallies turn (bump Mark) s 0 t k := by
    clear marked
    induction visited with
    | start => exact ⟨0, .start⟩
    | again _ next ih =>
      obtain ⟨k, before⟩ := ih
      exact ⟨_, before.again next⟩
  obtain ⟨k, before⟩ := counted
  exact Reaches.first ⟨t, before, marked⟩

theorem bump_succ (s : σ) (r : Nat) : bump Mark s (r + 1) = bump Mark s r + 1 := by
  unfold bump
  split <;> rfl

theorem Tallies.shift (visited : Tallies turn (bump Mark) s n t r) :
    Tallies turn (bump Mark) s (n + 1) t (r + 1) := by
  induction visited with
  | start => exact .start
  | again _ next ih =>
    rw [← bump_succ]
    exact ih.again next

theorem Tallies.unshift (visited : Tallies turn (bump Mark) s (n + 1) t r) :
    ∃ k, r = k + 1 ∧ Tallies turn (bump Mark) s n t k := by
  induction visited with
  | start => exact ⟨n, rfl, .start⟩
  | again _ next ih =>
    obtain ⟨k, rfl, before⟩ := ih
    exact ⟨_, bump_succ _ _, before.again next⟩

theorem reaches_zero (marked : Mark s) : Reaches turn Mark 0 s := ⟨s, .start, marked⟩

theorem reaches_succ (marked : Mark s) :
    Reaches turn Mark (k + 1) s ↔ ∃ u, turn s = .again u ∧ Reaches turn Mark k u := by
  constructor
  · rintro ⟨t, visited, last⟩
    rcases visited.cases_head with ⟨-, more⟩ | ⟨u, next, rest⟩
    · omega
    · rw [bump, if_pos marked] at rest
      obtain ⟨j, same, rest⟩ := rest.unshift
      obtain rfl : k = j := by omega
      exact ⟨u, next, t, rest, last⟩
  · rintro ⟨u, next, t, rest, last⟩
    refine ⟨t, Tallies.head next ?_, last⟩
    rw [bump, if_pos marked]
    exact rest.shift

theorem reaches_skip (plain : ¬Mark s) :
    Reaches turn Mark k s ↔ ∃ u, turn s = .again u ∧ Reaches turn Mark k u := by
  constructor
  · rintro ⟨t, visited, last⟩
    rcases visited.cases_head with ⟨rfl, -⟩ | ⟨u, next, rest⟩
    · exact absurd last plain
    · rw [bump, if_neg plain] at rest
      exact ⟨u, next, t, rest, last⟩
  · rintro ⟨u, next, t, rest, last⟩
    refine ⟨t, Tallies.head next ?_, last⟩
    rw [bump, if_neg plain]
    exact rest

/-- A run that stays among plain states comes to no mark. -/
theorem not_reaches {P : σ → Prop} (start : P s) (step : ∀ t u, P t → turn t = .again u → P u)
    (plain : ∀ t, P t → ¬Mark t) : ¬Reaches turn Mark k s := by
  rintro ⟨t, visited, last⟩
  exact plain t (visited.keeps (P := fun t _ => P t) start fun t u _ => step t u) last

end Tally

end LosAltos.Lib
