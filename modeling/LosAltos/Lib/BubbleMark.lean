import LosAltos.Lib.Bubble

/-!
# A mark that follows an element through the sweeps

The mark is moved when the element it is on is exchanged with its right neighbour, and only then.
Once no higher element stands before the marked one it never goes left again; until then the mark
stays where it was put, and the element leaves it behind at the first exchange.
-/
namespace LosAltos.Lib.Sorter

variable {α β : Type} [LinearOrder β] (S : Sorter α β) (hit : α → Bool)

/-- The mark after the comparison at `m`. -/
def advance (f : Nat → α) (mark m : Nat) : Nat :=
  if S.Due f m ∧ hit (f m) then m + 1 else mark

def follow (f : Nat → α) (mark : Nat) : Nat → Nat
  | 0 => mark
  | m + 1 => S.advance hit (S.sweep f m) (follow f mark m) m

def follows (n : Nat) : Nat → (Nat → α) → Nat → Nat
  | 0, _, mark => mark
  | k + 1, f, mark => follows n k (S.sweep f n) (S.follow hit f mark n)

/-- The element looked for is at `p` and nowhere else. -/
def Marked (f : Nat → α) (p : Nat) : Prop := ∀ k, hit (f k) = true ↔ k = p

/-- Nothing after `i` in its stretch is below it. -/
def Bottoms (f : Nat → α) (i : Nat) : Prop :=
  ∀ j, i < j → S.Joined f i j → S.key (f i) ≤ S.key (f j)

/-- The first of the lowest of all but the last. -/
def Foremost (n : Nat) (f : Nat → α) (p : Nat) : Prop :=
  p < n - 1 ∧ (∀ i, i < p → S.key (f p) < S.key (f i)) ∧
    ∀ i, i < n - 1 → S.key (f p) ≤ S.key (f i)

variable {S} {hit} {f : Nat → α} {n m k i j p mark : Nat}

/-- What every comparison of a sweep keeps, whatever the row, is kept by the sweeps. -/
theorem follows_keeps {I : (Nat → α) → Nat → Prop} (hit : α → Bool) (k mark : Nat)
    (step : ∀ g mark m, m < n → S.present (g n) = false → S.Tops g m → I g mark →
      I (S.exchange g m) (S.advance hit g mark m))
    (absent : S.present (f n) = false) (start : I f mark) :
    I (S.sweeps n k f) (S.follows hit n k f mark) := by
  induction k generalizing f mark with
  | zero => exact start
  | succ k ih =>
    refine ih _ (by rw [present_sweep, absent]) ?_
    have pass : ∀ m, m ≤ n → I (S.sweep f m) (S.follow hit f mark m) := by
      intro m bound
      induction m with
      | zero => exact start
      | succ m inner =>
        exact step _ _ m bound (by rw [present_sweep, absent]) (sweep_tops S f m)
          (inner (by omega))
    exact pass n le_rfl

theorem follows_of_fixed (fixed : S.sweep f n = f) (stays : S.follow hit f mark n = mark) :
    S.follows hit n k f mark = mark := by
  induction k with
  | zero => rfl
  | succ k ih => rw [follows, fixed, stays, ih]

theorem Marked.unique {q : Nat} (first : Marked hit f p) (second : Marked hit f q) : p = q :=
  (second p).mp ((first p).mpr rfl)

theorem Marked.left (marked : Marked hit f m) (due : S.Due f m) :
    Marked hit (S.exchange f m) (m + 1) := by
  intro k
  by_cases first : k = m
  · rw [first, exchange_left due, marked]
    omega
  · by_cases second : k = m + 1
    · rw [second, exchange_right due, marked]
      omega
    · rw [exchange_other first second, marked]
      omega

theorem Marked.right (marked : Marked hit f (m + 1)) (due : S.Due f m) :
    Marked hit (S.exchange f m) m := by
  intro k
  by_cases first : k = m
  · rw [first, exchange_left due, marked]
    omega
  · by_cases second : k = m + 1
    · rw [second, exchange_right due, marked]
      omega
    · rw [exchange_other first second, marked]
      omega

theorem Marked.other (marked : Marked hit f p) (first : p ≠ m) (second : p ≠ m + 1) :
    Marked hit (S.exchange f m) p := by
  intro k
  by_cases due : S.Due f m
  · by_cases left : k = m
    · rw [left, exchange_left due, marked]
      omega
    · by_cases right : k = m + 1
      · rw [right, exchange_right due, marked]
        omega
      · rw [exchange_other left right, marked]
  · rw [exchange_idle due, marked]

/-- The mark is moved only with the element. -/
theorem Marked.advance_stays (marked : Marked hit f p) (still : p = m → ¬S.Due f m) :
    S.advance hit f mark m = mark := by
  refine if_neg fun moved => ?_
  exact still ((marked m).mp moved.2).symm moved.1

theorem Marked.advance_moves (marked : Marked hit f m) (due : S.Due f m) :
    S.advance hit f mark m = m + 1 := if_pos ⟨due, (marked m).mpr rfl⟩

/-- Where the marked element goes in one comparison. -/
theorem Marked.exchange_cases (marked : Marked hit f p) (m : Nat) :
    (¬S.Due f m ∧ S.exchange f m = f) ∨
    (S.Due f m ∧ p = m ∧ Marked hit (S.exchange f m) (m + 1)) ∨
    (S.Due f m ∧ p = m + 1 ∧ Marked hit (S.exchange f m) m) ∨
    (S.Due f m ∧ p ≠ m ∧ p ≠ m + 1 ∧ Marked hit (S.exchange f m) p) := by
  by_cases due : S.Due f m
  · by_cases first : p = m
    · subst first
      exact Or.inr (Or.inl ⟨due, rfl, marked.left due⟩)
    · by_cases second : p = m + 1
      · subst second
        exact Or.inr (Or.inr (Or.inl ⟨due, rfl, marked.right due⟩))
      · exact Or.inr (Or.inr (Or.inr ⟨due, first, second, marked.other first second⟩))
  · exact Or.inl ⟨due, exchange_idle due⟩

/-- Once nothing before it is above it, the element and its mark stay together. -/
theorem Marked.held (marked : Marked hit f mark) (tops : S.Tops f mark) :
    Marked hit (S.exchange f m) (S.advance hit f mark m) ∧
      S.Tops (S.exchange f m) (S.advance hit f mark m) := by
  rcases marked.exchange_cases (S := S) m with ⟨idle, same⟩ | ⟨due, here, moved⟩ | ⟨due, here, -⟩ |
    ⟨due, first, second, moved⟩
  · rw [marked.advance_stays fun _ => idle, same]
    exact ⟨marked, tops⟩
  · subst here
    rw [marked.advance_moves due]
    exact ⟨moved, tops.advance⟩
  · subst here
    exact absurd due tops.not_due
  · rw [marked.advance_stays fun same => absurd same first]
    exact ⟨moved, tops.exchange first second⟩

/-- Something below the element after it stays there until they change places. -/
theorem not_bottoms_other (below : ¬S.Bottoms f p) (due : S.Due f m) (first : p ≠ m)
    (second : p ≠ m + 1) : ¬S.Bottoms (S.exchange f m) p := by
  intro bottoms
  refine below fun j after joined => ?_
  by_cases left : j = m
  · have order := bottoms (m + 1) (by omega) (joined_exchange.mpr fun k low high => by
      rcases (by omega : k ≤ m ∨ k = m + 1) with early | rfl
      · exact joined k low (by omega)
      · exact due.2.1)
    rwa [exchange_other first second, exchange_right due, ← left] at order
  · by_cases right : j = m + 1
    · have order := bottoms m (by omega) (joined_exchange.mpr fun k low high =>
        joined k low (by omega))
      rwa [exchange_other first second, exchange_left due, ← right] at order
    · have order := bottoms j after (joined_exchange.mpr joined)
      rwa [exchange_other first second, exchange_other left right] at order

theorem not_bottoms_right (below : ¬S.Bottoms f (m + 1)) (due : S.Due f m) :
    ¬S.Bottoms (S.exchange f m) m := by
  intro bottoms
  refine below fun j after joined => ?_
  have order := bottoms j (by omega) (joined_exchange.mpr fun k low high => by
    rcases (by omega : k = m ∨ m + 1 ≤ k) with rfl | late
    · exact due.1
    · exact joined k late high)
  rwa [exchange_left due, exchange_other (by omega) (by omega)] at order

/-- The element is held, or the mark has not moved and something below it is still ahead. -/
def Ahead (S : Sorter α β) (hit : α → Bool) (p : Nat) (f : Nat → α) (mark : Nat) : Prop :=
  (Marked hit f mark ∧ S.Tops f mark) ∨
    (mark = p ∧ ∃ q, Marked hit f q ∧ ¬S.Bottoms f q)

theorem Ahead.step (ahead : Ahead S hit p f mark) (tops : S.Tops f m) :
    Ahead S hit p (S.exchange f m) (S.advance hit f mark m) := by
  rcases ahead with ⟨marked, held⟩ | ⟨start, q, marked, below⟩
  · exact Or.inl (marked.held held)
  · rcases marked.exchange_cases (S := S) m with ⟨idle, same⟩ | ⟨due, here, moved⟩ |
      ⟨due, here, moved⟩ | ⟨due, first, second, moved⟩
    · rw [marked.advance_stays fun _ => idle, same]
      exact Or.inr ⟨start, q, marked, below⟩
    · subst here
      rw [marked.advance_moves due]
      exact Or.inl ⟨moved, tops.advance⟩
    · subst here
      rw [marked.advance_stays fun same => by omega]
      exact Or.inr ⟨start, m, moved, not_bottoms_right below due⟩
    · rw [marked.advance_stays fun same => absurd same first]
      exact Or.inr ⟨start, q, moved, not_bottoms_other below due first second⟩

/-- Something that is not above the element stays before it. -/
def Behind (S : Sorter α β) (hit : α → Bool) (f : Nat → α) : Prop :=
  ∃ i q, i < q ∧ Marked hit f q ∧ S.key (f i) ≤ S.key (f q)

theorem Behind.step (behind : Behind S hit f) : Behind S hit (S.exchange f m) := by
  obtain ⟨i, q, before, marked, low⟩ := behind
  rcases marked.exchange_cases (S := S) m with ⟨-, same⟩ | ⟨due, here, moved⟩ |
    ⟨due, here, moved⟩ | ⟨due, first, second, moved⟩
  · rw [same]
    exact ⟨i, q, before, marked, low⟩
  · subst here
    refine ⟨i, q + 1, by omega, moved, ?_⟩
    rwa [exchange_right due, exchange_other (by omega) (by omega)]
  · subst here
    have strict : i ≠ m := by
      rintro rfl
      exact absurd due.2.2 (not_lt.mpr low)
    refine ⟨i, m, by omega, moved, ?_⟩
    rwa [exchange_left due, exchange_other strict (by omega)]
  · by_cases left : i = m
    · refine ⟨m + 1, q, by omega, moved, ?_⟩
      rwa [exchange_right due, exchange_other first second, ← left]
    · by_cases right : i = m + 1
      · refine ⟨m, q, by omega, moved, ?_⟩
        rwa [exchange_left due, exchange_other first second, ← right]
      · refine ⟨i, q, before, moved, ?_⟩
        rwa [exchange_other left right, exchange_other first second]

/-- The element is never exchanged to the right: nothing after it is below it. -/
theorem bottoms_exchange (bottoms : S.Bottoms f p) (marked : Marked hit f p) (mark m : Nat) :
    S.advance hit f mark m = mark ∧
      ∃ q, q ≤ p ∧ Marked hit (S.exchange f m) q ∧ S.Bottoms (S.exchange f m) q ∧
        (S.Due f m → p = m + 1 → q = m) := by
  rcases marked.exchange_cases (S := S) m with ⟨idle, same⟩ | ⟨due, here, -⟩ |
    ⟨due, here, moved⟩ | ⟨due, first, second, moved⟩
  · rw [marked.advance_stays fun _ => idle, same]
    exact ⟨rfl, p, le_rfl, marked, bottoms, fun due => absurd due idle⟩
  · subst here
    exact absurd due.2.2 (not_lt.mpr (bottoms (p + 1) (by omega) due.joined))
  · subst here
    rw [marked.advance_stays fun same => by omega]
    refine ⟨rfl, m, by omega, moved, fun j after joined => ?_, fun _ _ => rfl⟩
    rw [joined_exchange] at joined
    rw [exchange_left due]
    by_cases next : j = m + 1
    · rw [next, exchange_right due]
      exact le_of_lt due.2.2
    · rw [exchange_other (by omega) next]
      exact bottoms j (by omega) fun k low high => joined k (by omega) high
  · rw [marked.advance_stays fun same => absurd same first]
    refine ⟨rfl, p, le_rfl, moved, fun j after joined => ?_, fun _ same => absurd same second⟩
    rw [joined_exchange] at joined
    rw [exchange_other first second]
    by_cases left : j = m
    · rw [left, exchange_left due]
      refine bottoms (m + 1) (by omega) fun k low high => ?_
      rcases (by omega : k ≤ m ∨ k = m + 1) with early | rfl
      · exact joined k low (by omega)
      · exact due.2.1
    · by_cases right : j = m + 1
      · rw [right, exchange_right due]
        exact bottoms m (by omega) fun k low high => joined k low (by omega)
      · rw [exchange_other left right]
        exact bottoms j after joined

theorem not_tops_exchange (above : ¬S.Tops f j) (first : j ≠ m) (second : j ≠ m + 1) :
    ¬S.Tops (S.exchange f m) j := by
  by_cases due : S.Due f m
  · intro tops
    refine above fun i before joined => ?_
    by_cases left : i = m
    · have order := tops (m + 1) (by omega) (joined_exchange.mpr fun k low high =>
        joined k (by omega) high)
      rwa [exchange_other first second, exchange_right due, ← left] at order
    · by_cases right : i = m + 1
      · have order := tops m (by omega) (joined_exchange.mpr fun k low high => by
          rcases (by omega : k = m ∨ i ≤ k) with rfl | late
          · exact due.1
          · exact joined k late high)
        rwa [exchange_other first second, exchange_left due, ← right] at order
      · have order := tops i before (joined_exchange.mpr joined)
        rwa [exchange_other first second, exchange_other left right] at order
  · rwa [exchange_idle due]

theorem due_of_not_tops (tops : S.Tops f m) (above : ¬S.Tops f (m + 1)) : S.Due f m := by
  by_contra idle
  have advanced := tops.advance
  rw [exchange_idle idle] at advanced
  exact above advanced

/-- The first sweep takes an element with something above it before it to the left. -/
theorem first_sweep_leaves (marked : Marked hit f p) (above : ¬S.Tops f p)
    (bottoms : S.Bottoms f p) (inside : p < n) :
    S.follow hit f p n = p ∧
      ∃ q, q < p ∧ Marked hit (S.sweep f n) q ∧ S.Bottoms (S.sweep f n) q := by
  have positive : 0 < p := by
    by_contra zero
    exact above fun i before => by omega
  have untouched : ∀ m, m < p → ¬S.Tops (S.sweep f m) p := by
    intro m early
    induction m with
    | zero => exact above
    | succ m ih => exact not_tops_exchange (ih (by omega)) (by omega) (by omega)
  have pass : ∀ m, S.follow hit f p m = p ∧ ∃ q, q ≤ p ∧ Marked hit (S.sweep f m) q ∧
      S.Bottoms (S.sweep f m) q ∧ (p ≤ m → q < p) := by
    intro m
    induction m with
    | zero => exact ⟨rfl, p, le_rfl, marked, bottoms, by omega⟩
    | succ m ih =>
      obtain ⟨stays, q, left, here, low, gone⟩ := ih
      obtain ⟨still, r, further, there, kept, moved⟩ :=
        bottoms_exchange low here (S.follow hit f p m) m
      refine ⟨by rw [follow, still, stays], r, by omega, there, kept, fun late => ?_⟩
      rcases (by omega : p ≤ m ∨ p = m + 1) with earlier | rfl
      · have := gone earlier
        omega
      · have place : m + 1 = q := by
          rw [← here, sweep_of_gt (by omega)]
          exact (marked (m + 1)).mpr rfl
        have due := due_of_not_tops (sweep_tops S f m) (untouched m (by omega))
        have := moved due place.symm
        omega
  obtain ⟨stays, q, -, here, low, gone⟩ := pass n
  exact ⟨stays, q, gone (by omega), here, low⟩

/-- The element is the first of the lowest, but for those of value `v`. -/
def Leads (S : Sorter α β) (hit : α → Bool) (n : Nat) (v : β) (f : Nat → α) : Prop :=
  ∃ q, Marked hit f q ∧ S.key (f q) ≠ v ∧
    (∀ i, i < q → S.key (f i) ≠ v → S.key (f q) < S.key (f i)) ∧
    ∀ i, i < n → S.key (f i) ≠ v → S.key (f q) ≤ S.key (f i)

theorem Leads.step {v : β} (leads : Leads S hit n v f) (absent : S.present (f n) = false)
    (inside : m < n) : Leads S hit n v (S.exchange f m) := by
  obtain ⟨q, marked, other, first, lowest⟩ := leads
  have bound : ∀ i, i < n → S.key (S.exchange f m i) ≠ v →
      S.key (f q) ≤ S.key (S.exchange f m i) := by
    intro i within different
    obtain ⟨k, range, same, -⟩ := exchange_within (m := m) absent within
    rw [same] at different ⊢
    exact lowest k range different
  rcases marked.exchange_cases (S := S) m with ⟨-, same⟩ | ⟨due, here, moved⟩ |
    ⟨due, here, moved⟩ | ⟨due, left, right, moved⟩
  · rw [same]
    exact ⟨q, marked, other, first, lowest⟩
  · subst here
    refine ⟨q + 1, moved, ?_, fun i before different => ?_, ?_⟩
    · rwa [exchange_right due]
    · rw [exchange_right due]
      by_cases last : i = q
      · rw [last, exchange_left due] at different
        have past := due.ne_absent absent
        exact absurd due.2.2 (not_lt.mpr (lowest (q + 1) (by omega) different))
      · rw [exchange_other last (by omega)] at different ⊢
        exact first i (by omega) different
    · rw [exchange_right due]
      exact bound
  · subst here
    refine ⟨m, moved, ?_, fun i before different => ?_, ?_⟩
    · rwa [exchange_left due]
    · rw [exchange_left due]
      rw [exchange_other (by omega) (by omega)] at different ⊢
      exact first i (by omega) different
    · rw [exchange_left due]
      exact bound
  · refine ⟨q, moved, ?_, fun i before different => ?_, ?_⟩
    · rwa [exchange_other left right]
    · rw [exchange_other left right]
      by_cases low : i = m
      · rw [low, exchange_left due] at different ⊢
        exact first (m + 1) (by omega) different
      · by_cases high : i = m + 1
        · rw [high, exchange_right due] at different ⊢
          exact first m (by omega) different
        · rw [exchange_other low high] at different ⊢
          exact first i before different
    · rw [exchange_other left right]
      exact bound

theorem one_le_advance (positive : 1 ≤ mark) : 1 ≤ S.advance hit f mark m := by
  unfold advance
  split
  · omega
  · exact positive

theorem bottoms_follows (marked : Marked hit f i) (bottoms : S.Bottoms f i) (left : i < p)
    (absent : S.present (f n) = false) :
    ¬Marked hit (S.sweeps n k f) (S.follows hit n k f p) := by
  have kept := follows_keeps (S := S) hit k p
    (I := fun g mark => mark = p ∧ ∃ q, q < p ∧ Marked hit g q ∧ S.Bottoms g q)
    (fun g mark m _ _ _ ⟨same, q, early, here, low⟩ => by
      obtain ⟨still, r, further, there, kept, -⟩ := bottoms_exchange low here mark m
      exact ⟨by rw [still, same], r, by omega, there, kept⟩)
    absent ⟨rfl, i, left, marked, bottoms⟩
  obtain ⟨same, q, early, here, -⟩ := kept
  intro there
  have := here.unique there
  omega

/-- In a full row whose last element is the lowest, the first of the lowest of the others ends at
the left. -/
theorem foremost_sweeps (marked : Marked hit f p) (absent : S.present (f n) = false)
    (last : S.LastLowest n f) (first : S.Foremost n f p) (three : 3 ≤ n) :
    Marked hit (S.sweeps n (n - 2) f) 0 := by
  obtain ⟨lone, second⟩ := last.second absent
  obtain ⟨two, full, lowest⟩ := last
  obtain ⟨place, before, others⟩ := first
  have leads : Leads S hit n (S.key (f (n - 1))) f := by
    refine ⟨p, marked, (lowest p place).ne', fun i early _ => before i early,
      fun i inside different => ?_⟩
    rcases (by omega : i < n - 1 ∨ i = n - 1) with early | rfl
    · exact others i early
    · exact absurd rfl different
  obtain ⟨q, here, other, strict, -⟩ := follows_keeps (S := S) hit (n - 2) 0
    (I := fun g _ => Leads S hit n (S.key (f (n - 1))) g)
    (fun g mark m inside ends _ held => held.step ends inside) absent leads
  have ends : S.present (S.sweeps n (n - 2) f n) = false := by rw [present_sweeps, absent]
  have zero : q = 0 := by
    by_contra positive
    have past : q ≠ 1 := by
      rintro rfl
      rw [second] at other
      exact other rfl
    have inside : q < n := by
      obtain ⟨j, within, found⟩ := sweeps_mem (S := S) (k := n - 2) absent (show p < n by omega)
      have := (here j).mp (by rw [found]; exact (marked p).mpr rfl)
      omega
    have joined : S.Joined (S.sweeps n (n - 2) f) 0 q := by
      intro k _ high
      rw [present_sweeps]
      exact full k (by omega)
    have order := (settled_sweeps S n (n - 2) f).le ends (by omega) inside joined
      (Or.inl (by omega))
    have apart : S.key (S.sweeps n (n - 2) f 0) ≠ S.key (f (n - 1)) := by
      rw [← second]
      exact (lone.2 0 (by omega) (by omega)).ne'
    exact absurd (strict 0 (by omega) apart) (not_lt.mpr order)
  rwa [zero] at here

/-- A marked element left with something below it after it: the row was full, its last element
the lowest, and the marked one the first of the lowest of the others. -/
theorem foremost_of_not_bottoms (marked : Marked hit f p) (absent : S.present (f n) = false)
    (inside : p < n) (here : Marked hit (S.sweeps n (n - 2) f) i)
    (below : ¬S.Bottoms (S.sweeps n (n - 2) f) i) : S.LastLowest n f ∧ S.Foremost n f p := by
  have settled := settled_sweeps S n (n - 2) f
  have ends : S.present (S.sweeps n (n - 2) f n) = false := by rw [present_sweeps, absent]
  obtain ⟨place, within, found⟩ := sweeps_mem (S := S) (k := n - 2) absent inside
  have same : place = i := (here place).mp (by rw [found]; exact (marked p).mpr rfl)
  subst same
  unfold Bottoms at below
  push Not at below
  obtain ⟨j, after, joined, inverted⟩ := below
  have bound : j < n := by
    by_contra outside
    simp [joined n (by omega) (by omega)] at ends
  have short : ¬(2 ≤ j ∨ ∃ e, e < n ∧ S.present (S.sweeps n (n - 2) f e) = false) := fun some =>
    absurd inverted (not_lt.mpr (settled.le ends after bound joined some))
  have zero : place = 0 := by omega
  have one : j = 1 := by omega
  subst zero one
  have full : ∀ e, e < n → S.present (f e) := by
    intro e range
    by_contra gap
    exact short (Or.inr ⟨e, range, by rw [present_sweeps]; simpa using gap⟩)
  have last : S.LastLowest n f := by
    by_contra ordered
    have apart : S.Apart n f := by
      intro i e j _ _ _ _ gap
      simp [full e (by omega)] at gap
    have sorted := (sorted_sweeps_iff absent).mpr ⟨apart, ordered⟩
    exact absurd inverted (not_lt.mpr (sorted 0 1 (by omega) bound (joined 0 (by omega) (by omega))
      (joined 1 (by omega) (by omega))))
  have strict : ∀ i, i < p → S.key (f p) < S.key (f i) := by
    intro i before
    by_contra above
    obtain ⟨i, q, early, there, -⟩ := follows_keeps (S := S) hit (n - 2) 0
      (I := fun g _ => Behind S hit g) (fun g mark m _ _ _ held => held.step) absent
      ⟨i, p, before, marked, not_lt.mp above⟩
    have := here.unique there
    omega
  obtain ⟨-, second⟩ := last.second absent
  have final : p ≠ n - 1 := by
    rintro rfl
    have := (here 1).mp (by rw [second]; exact (marked (n - 1)).mpr rfl)
    omega
  refine ⟨last, by omega, strict, fun i early => ?_⟩
  obtain ⟨k, range, value⟩ := sweeps_mem (S := S) (k := n - 2) absent (show i < n by omega)
  have past : k ≠ 1 := by
    rintro rfl
    have lower := last.2.2 i early
    rw [← value, second] at lower
    exact absurd lower (lt_irrefl _)
  rw [← value, ← found]
  by_cases zero : k = 0
  · rw [zero]
  · refine settled.le ends (by omega) range (fun e _ high => ?_) (Or.inl (by omega))
    rw [present_sweeps]
    exact full e (by omega)

/-- When the mark is on its element after `n - 2` sweeps: nothing before it was above it, or it was
exchanged to the right on the way. -/
theorem marked_follows_iff (marked : Marked hit f p) (absent : S.present (f n) = false)
    (inside : p < n) :
    Marked hit (S.sweeps n (n - 2) f) (S.follows hit n (n - 2) f p) ↔
      n ≤ 2 ∨ S.Tops f p ∨
        (¬S.Bottoms f p ∧ ¬(S.LastLowest n f ∧ S.Foremost n f p)) := by
  constructor
  · intro followed
    by_contra fails
    push Not at fails
    obtain ⟨three, above, exception⟩ := fails
    by_cases bottoms : S.Bottoms f p
    · obtain ⟨k, more⟩ : ∃ k, n - 2 = k + 1 := ⟨n - 3, by omega⟩
      obtain ⟨stays, q, left, here, low⟩ := first_sweep_leaves marked above bottoms inside
      rw [more, sweeps, follows, stays] at followed
      exact bottoms_follows here low left (by rw [present_sweep, absent]) followed
    · obtain ⟨last, first⟩ := exception bottoms
      have positive : 1 ≤ p := by
        by_contra zero
        exact above fun i before => by omega
      have mark := follows_keeps (S := S) (I := fun _ mark => 1 ≤ mark) hit (n - 2) p
        (fun g mark m _ _ _ held => one_le_advance held) absent positive
      have := (foremost_sweeps marked absent last first (by omega)).unique followed
      omega
  · rintro (few | tops | ⟨below, regular⟩)
    · rw [show n - 2 = 0 by omega]
      exact marked
    · exact (follows_keeps (S := S) hit (n - 2) p
        (I := fun g mark => Marked hit g mark ∧ S.Tops g mark)
        (fun g mark m _ _ _ held => held.1.held held.2) absent ⟨marked, tops⟩).1
    · have ahead := follows_keeps (S := S) (I := Ahead S hit p) hit (n - 2) p
        (fun g mark m _ _ tops held => held.step tops) absent
        (Or.inr ⟨rfl, p, marked, below⟩)
      rcases ahead with ⟨followed, -⟩ | ⟨-, q, here, left⟩
      · exact followed
      · exact absurd (foremost_of_not_bottoms marked absent inside here left) regular

end LosAltos.Lib.Sorter
