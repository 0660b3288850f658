import LosAltos.Rfs.Positions

/-!
# The positions of one logical block

The positions that start at a logical block are listed here, `nuevas`, the data first and its
indirection blocks outwards: the shrink branch of `truncarArchivo` (`funciones_rfs.c:516-559`)
frees them in that order, and the grow branch fills all but the first the other way round.
-/
namespace LosAltos.Rfs

/-- The tails of a position that start where it does: as long as the indices are 0. -/
def iniciadas : List Nat → List (List Nat)
  | [] => []
  | [i] => [[i]]
  | i :: j :: pos => (i :: j :: pos) :: if i = 0 then iniciadas (j :: pos) else []

/-- The positions that start at logical block `k`. -/
def nuevas (p k : Nat) : List (List Nat) := iniciadas (camino p k)

/-- The positions of the `m` logical blocks from `n` on, from the last one down. -/
def bajada (p n : Nat) : Nat → List (List Nat)
  | 0 => []
  | m + 1 => nuevas p (n + m) ++ bajada p n m

variable {p k n m : Nat} {pos q : List Nat} {T : List Nat → Prop}

theorem mem_nuevas (bound : k < 12 + p + p * p + p * p * p) : q ∈ nuevas p k ↔ Inicia p k q := by
  rw [nuevas]
  cases region bound with
  | directo h =>
    rw [camino_directo h, inicia_directo h]
    simp [iniciadas]
  | @simple a ha =>
    rw [camino_simple ha, inicia_simple ha]
    by_cases zero : a = 0 <;> simp [iniciadas, zero]
  | @doble a b ha hb =>
    rw [camino_doble ha hb, inicia_doble ha hb]
    by_cases zero : b = 0 <;> by_cases zero' : a = 0 <;> simp [iniciadas, zero, zero']
  | @triple a b c ha hb hc =>
    rw [camino_triple hb hc, inicia_triple ha hb hc]
    by_cases zero : c = 0 <;> by_cases zero' : b = 0 <;> by_cases zero'' : a = 0 <;>
      simp [iniciadas, zero, zero', zero'']

theorem nuevas_cons (bound : k < 12 + p + p * p + p * p * p) :
    nuevas p k = camino p k :: (nuevas p k).tail := by
  obtain ⟨i, pos, shape⟩ := List.exists_cons_of_ne_nil (inicia_camino bound).ne_nil
  rw [nuevas, shape]
  cases pos <;> rfl

theorem iniciadas_length (member : q ∈ iniciadas pos) : q.length ≤ pos.length := by
  induction pos using iniciadas.induct with
  | case1 => cases member
  | case2 i =>
    obtain rfl := List.mem_singleton.mp member
    exact Nat.le_refl _
  | case3 i j pos ih =>
    rw [iniciadas] at member
    rcases List.mem_cons.mp member with rfl | inner
    · exact Nat.le_refl _
    · split at inner
      · exact (ih inner).trans (Nat.le_succ _)
      · cases inner

theorem iniciadas_count (pos : List Nat) : (iniciadas pos).length ≤ pos.length := by
  induction pos using iniciadas.induct with
  | case1 => exact Nat.le_refl _
  | case2 i => exact Nat.le_refl _
  | case3 i j pos ih =>
    rw [iniciadas, List.length_cons, List.length_cons]
    split
    · omega
    · simp

theorem mem_bajada (bound : n + m ≤ 12 + p + p * p + p * p * p) :
    q ∈ bajada p n m ↔ Vivo p (n + m) q ∧ ¬Vivo p n q := by
  induction m with
  | zero => simp [bajada]
  | succ m ih =>
    rw [bajada, List.mem_append, mem_nuevas (by omega), ih (by omega), ← Nat.add_assoc, vivo_succ]
    constructor
    · rintro (here | ⟨old, out⟩)
      · exact ⟨.inr here, not_vivo_of_inicia here (by omega)⟩
      · exact ⟨.inl old, out⟩
    · rintro ⟨old | here, out⟩
      · exact .inr ⟨old, out⟩
      · exact .inl here

/-! ### Leaves first -/

/-- Each position of the list is a leaf of `T` once those before it are gone. -/
def Podable (T : List Nat → Prop) : List (List Nat) → Prop
  | [] => True
  | q :: qs => T q ∧ (∀ j, ¬T (j :: q)) ∧ Podable (fun r => T r ∧ r ≠ q) qs

theorem Podable.of_iff {S : List Nat → Prop} {qs : List (List Nat)} (same : ∀ r, S r ↔ T r)
    (prunable : Podable T qs) : Podable S qs := by
  obtain rfl : S = T := funext fun r => propext (same r)
  exact prunable

theorem Podable.append {qs rs : List (List Nat)} (first : Podable T qs)
    (second : Podable (fun r => T r ∧ r ∉ qs) rs) : Podable T (qs ++ rs) := by
  induction qs generalizing T with
  | nil => exact second.of_iff fun r => by simp
  | cons q qs ih =>
    refine ⟨first.1, first.2.1, ih first.2.2 (second.of_iff fun r => ?_)⟩
    simp [and_assoc]

theorem Podable.mem {qs : List (List Nat)} (prunable : Podable T qs) (member : q ∈ qs) : T q := by
  induction qs generalizing T with
  | nil => cases member
  | cons r qs ih =>
    rcases List.mem_cons.mp member with rfl | inner
    · exact prunable.1
    · exact (ih prunable.2.2 inner).1

theorem Podable.nodup {qs : List (List Nat)} (prunable : Podable T qs) : qs.Nodup := by
  induction qs generalizing T with
  | nil => exact List.nodup_nil
  | cons q qs ih =>
    refine List.nodup_cons.mpr ⟨fun inner => ?_, ih prunable.2.2⟩
    exact (prunable.2.2.mem inner).2 rfl

/-- A slot inside the block of one of the positions is one of them too. -/
theorem podable_iniciadas (inside : ∀ q ∈ iniciadas pos, T q)
    (above : ∀ q ∈ iniciadas pos, ∀ j, T (j :: q) → j :: q ∈ iniciadas pos) :
    Podable T (iniciadas pos) := by
  induction pos using iniciadas.induct generalizing T with
  | case1 => trivial
  | case2 i =>
    refine ⟨inside _ (List.mem_singleton_self _), fun j slot => ?_, trivial⟩
    have long := iniciadas_length (above _ (List.mem_singleton_self _) j slot)
    simp at long
  | case3 i j pos ih =>
    have first : i :: j :: pos ∈ iniciadas (i :: j :: pos) := by
      rw [iniciadas]
      exact List.mem_cons_self
    have leaf : ∀ a, ¬T (a :: i :: j :: pos) := by
      intro a slot
      have long := iniciadas_length (above _ first a slot)
      simp at long
    rw [iniciadas] at inside above ⊢
    refine ⟨inside _ List.mem_cons_self, leaf, ?_⟩
    split
    · rename_i zero
      rw [if_pos zero] at inside above
      have shorter : ∀ q ∈ iniciadas (j :: pos), q ≠ i :: j :: pos := by
        rintro q member rfl
        have long := iniciadas_length member
        simp at long
      refine ih (fun q member => ⟨inside q (List.mem_cons_of_mem _ member), shorter q member⟩) ?_
      intro q member a slot
      rcases List.mem_cons.mp (above q (List.mem_cons_of_mem _ member) a slot.1) with same | inner
      · exact absurd same slot.2
      · exact inner
    · trivial

theorem podable_nuevas (bound : k < 12 + p + p * p + p * p * p) :
    Podable (Vivo p (k + 1)) (nuevas p k) := by
  apply podable_iniciadas
  · intro q member
    exact ⟨k, Nat.lt_succ_self k, (mem_nuevas bound).mp member⟩
  · rintro q member j ⟨k', below, slot⟩
    apply (mem_nuevas bound).mpr
    cases q with
    | nil => exact absurd rfl ((mem_nuevas bound).mp member).ne_nil
    | cons i q =>
      obtain ⟨-, k'', earlier, up⟩ := slot.parent
      have same := ((mem_nuevas bound).mp member).unique up
      obtain rfl : k' = k := by omega
      exact slot

theorem podable_bajada (bound : n + m ≤ 12 + p + p * p + p * p * p) :
    Podable (Vivo p (n + m)) (bajada p n m) := by
  induction m with
  | zero => trivial
  | succ m ih =>
    rw [← Nat.add_assoc, bajada]
    refine (podable_nuevas (by omega)).append ((ih (by omega)).of_iff fun r => ?_)
    rw [vivo_succ, mem_nuevas (by omega)]
    constructor
    · rintro ⟨old | here, out⟩
      · exact old
      · exact absurd here out
    · intro old
      refine ⟨.inl old, fun here => ?_⟩
      exact not_vivo_of_inicia here (Nat.le_refl _) old

/-! ### Roots first -/

/-- Each position of the list is new to `T` with those before it, and lies in a block of theirs. -/
def Plantable (p : Nat) (T : List Nat → Prop) : List (List Nat) → Prop
  | [] => True
  | q :: qs => (q.tail ≠ [] → T q.tail ∧ q.headD 0 < p) ∧ q ≠ [] ∧ ¬T q ∧
      Plantable p (fun r => T r ∨ r = q) qs

theorem Plantable.of_append {qs rs : List (List Nat)} (all : Plantable p T (qs ++ rs)) :
    Plantable p T qs ∧ Plantable p (fun r => T r ∨ r ∈ qs) rs := by
  induction qs generalizing T with
  | nil =>
    have same : (fun r => T r ∨ r ∈ ([] : List (List Nat))) = T := by simp
    rw [same]
    exact ⟨trivial, all⟩
  | cons q qs ih =>
    obtain ⟨first, second⟩ := ih all.2.2.2
    have same : (fun r => (T r ∨ r = q) ∨ r ∈ qs) = fun r => T r ∨ r ∈ q :: qs := by
      funext r
      simp [or_assoc]
    exact ⟨⟨all.1, all.2.1, all.2.2.1, first⟩, same ▸ second⟩

theorem iniciadas_sorted (pos : List Nat) :
    (iniciadas pos).Pairwise fun a b => b.length < a.length := by
  induction pos using iniciadas.induct with
  | case1 => exact List.Pairwise.nil
  | case2 i => exact List.pairwise_singleton _ _
  | case3 i j pos ih =>
    rw [iniciadas]
    refine List.pairwise_cons.mpr ⟨fun q member => ?_, ?_⟩
    · split at member
      · have long := iniciadas_length member
        simp only [List.length_cons] at long ⊢
        omega
      · cases member
    · split
      · exact ih
      · exact List.Pairwise.nil

/-- Shorter positions come first, so that the block a position lies in is there. -/
theorem plantable_of_sorted {qs : List (List Nat)}
    (sorted : qs.Pairwise fun a b => a.length < b.length)
    (parent : ∀ q ∈ qs, q.tail ≠ [] → (T q.tail ∨ q.tail ∈ qs) ∧ q.headD 0 < p)
    (new : ∀ q ∈ qs, q ≠ [] ∧ ¬T q) : Plantable p T qs := by
  induction qs generalizing T with
  | nil => trivial
  | cons q qs ih =>
    obtain ⟨longer, rest⟩ := List.pairwise_cons.mp sorted
    refine ⟨fun filled => ?_, (new q List.mem_cons_self).1, (new q List.mem_cons_self).2, ?_⟩
    · obtain ⟨there | later, index⟩ := parent q List.mem_cons_self filled
      · exact ⟨there, index⟩
      · exfalso
        rcases List.mem_cons.mp later with same | inner
        · have length := congrArg List.length same
          rw [List.length_tail] at length
          have positive := List.length_pos_of_ne_nil (new q List.mem_cons_self).1
          omega
        · have less := longer _ inner
          rw [List.length_tail] at less
          omega
    · refine ih rest (fun r member filled => ?_) fun r member => ?_
      · obtain ⟨there | later, index⟩ := parent r (List.mem_cons_of_mem q member) filled
        · exact ⟨.inl (.inl there), index⟩
        · rcases List.mem_cons.mp later with same | inner
          · exact ⟨.inl (.inr same), index⟩
          · exact ⟨.inr inner, index⟩
      · obtain ⟨filled, out⟩ := new r (List.mem_cons_of_mem q member)
        refine ⟨filled, ?_⟩
        rintro (old | rfl)
        · exact out old
        · exact lt_irrefl _ (longer r member)

theorem plantable_nuevas (bound : k < 12 + p + p * p + p * p * p) :
    Plantable p (Vivo p k) (nuevas p k).reverse := by
  apply plantable_of_sorted
  · exact List.pairwise_reverse.mpr (iniciadas_sorted _)
  · intro q member filled
    have starts := (mem_nuevas bound).mp (List.mem_reverse.mp member)
    match q with
    | i :: j :: r =>
      obtain ⟨index, k', earlier, up⟩ := starts.parent
      refine ⟨?_, index⟩
      rcases Nat.lt_or_eq_of_le earlier with before | rfl
      · exact .inl ⟨k', before, up⟩
      · exact .inr (List.mem_reverse.mpr ((mem_nuevas bound).mpr up))
  · intro q member
    have starts := (mem_nuevas bound).mp (List.mem_reverse.mp member)
    exact ⟨starts.ne_nil, not_vivo_of_inicia starts (Nat.le_refl k)⟩

end LosAltos.Rfs
