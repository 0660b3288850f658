import Mathlib.Data.List.Nodup
import Mathlib.Logic.Function.Basic

/-!
# Chains of linked cells

Cells in a heap, each with the address of the next. The cells of a chain are named by address and
content; a change of the heap is felt by the chains that have the cell changed, and chains of
one family have no cell in common.
-/
namespace LosAltos.Lib

/-- What an allocated cell holds, and where the next one is. -/
structure Cell (α : Type) where
  data : α
  next : Option Nat

abbrev Heap (α : Type) := Nat → Option (Cell α)

variable {α : Type}

/-- The address of the first cell, or what comes after them all. -/
def first : List (Nat × α) → Option Nat → Option Nat
  | [], q => q
  | e :: _, _ => some e.1

/-- Each cell leads to the next one, and the last to `q`. -/
def Linked (h : Heap α) (q : Option Nat) : List (Nat × α) → Prop
  | [] => True
  | e :: c => h e.1 = some ⟨e.2, first c q⟩ ∧ Linked h q c

def addresses (c : List (Nat × α)) : List Nat := c.map Prod.fst

/-- The address after `n` cells. -/
def walk (h : Heap α) : Nat → Option Nat → Option (Option Nat)
  | 0, p => some p
  | n + 1, p => do
    let a ← p
    let e ← h a
    walk h n e.next

variable {h h' : Heap α} {q r : Option Nat} {c d pre suf : List (Nat × α)} {e : Nat × α}
  {a fresh fresh' : Nat} {x y : α}

@[simp] theorem addresses_nil : addresses ([] : List (Nat × α)) = [] := rfl

@[simp] theorem addresses_cons : addresses (e :: c) = e.1 :: addresses c := rfl

@[simp] theorem addresses_append : addresses (c ++ d) = addresses c ++ addresses d :=
  List.map_append

theorem first_append (c d : List (Nat × α)) (q : Option Nat) :
    first (c ++ d) q = first c (first d q) := by
  cases c <;> rfl

/-- What is behind a cell does not move the start. -/
theorem first_middle (pre : List (Nat × α)) (e : Nat × α) (c d : List (Nat × α))
    (q r : Option Nat) : first (pre ++ e :: c) q = first (pre ++ e :: d) r := by
  cases pre <;> rfl

theorem first_replace (pre suf : List (Nat × α)) (a : Nat) (x y : α) (q : Option Nat) :
    first (pre ++ (a, x) :: suf) q = first (pre ++ (a, y) :: suf) q := by
  cases pre <;> rfl

theorem linked_append : Linked h q (c ++ d) ↔ Linked h (first d q) c ∧ Linked h q d := by
  induction c with
  | nil => simp [Linked]
  | cons e c ih =>
    rw [List.cons_append, Linked, Linked, ih, first_append]
    exact and_assoc.symm

namespace Linked

theorem congr (linked : Linked h q c) (same : ∀ a ∈ addresses c, h' a = h a) :
    Linked h' q c := by
  induction c with
  | nil => trivial
  | cons e c ih =>
    obtain ⟨here, rest⟩ := linked
    have keeps := ih rest fun a member => same a (List.mem_cons_of_mem _ member)
    exact ⟨(same e.1 List.mem_cons_self).trans here, keeps⟩

theorem update (linked : Linked h q c) (out : a ∉ addresses c) (v : Option (Cell α)) :
    Linked (Function.update h a v) q c := by
  apply linked.congr
  intro b member
  apply Function.update_of_ne
  rintro rfl
  exact out member

theorem cell (linked : Linked h q (pre ++ e :: suf)) :
    h e.1 = some ⟨e.2, first suf q⟩ :=
  (linked_append.mp linked).2.1

theorem walk_eq (linked : Linked h q (pre ++ suf)) :
    walk h pre.length (first (pre ++ suf) q) = some (first suf q) := by
  induction pre with
  | nil => rfl
  | cons e pre ih =>
    obtain ⟨here, rest⟩ := linked
    rw [List.cons_append, List.length_cons, first, walk]
    simp only [Option.bind_eq_bind, Option.bind_some, here]
    exact ih rest

/-- The last of the cells is made to lead to others. -/
theorem splice (before : Linked h r (pre ++ [e])) (behind : Linked h q c)
    (out : e.1 ∉ addresses pre) (apart : e.1 ∉ addresses c) :
    Linked (Function.update h e.1 (some ⟨e.2, first c q⟩)) q (pre ++ e :: c) := by
  rw [linked_append] at before ⊢
  exact ⟨before.1.update out _, Function.update_self .., behind.update apart _⟩

/-- A cell is given other contents. -/
theorem replace (linked : Linked h q (pre ++ (a, x) :: suf)) (out : a ∉ addresses pre)
    (apart : a ∉ addresses suf) :
    Linked (Function.update h a (some ⟨y, first suf q⟩)) q (pre ++ (a, y) :: suf) := by
  rw [linked_append] at linked ⊢
  exact ⟨linked.1.update out _, Function.update_self .., linked.2.2.update apart _⟩

end Linked

/-! ### Chains side by side -/

section
variable {ι : Type}

/-- The chains of a family, with addresses that were handed out. -/
structure Chains (h : Heap α) (fresh : Nat) (cells : ι → List (Nat × α)) : Prop where
  linked : ∀ i, Linked h none (cells i)
  nodup : ∀ i, (addresses (cells i)).Nodup
  apart : ∀ i j a, a ∈ addresses (cells i) → a ∈ addresses (cells j) → i = j
  old : ∀ i, ∀ a ∈ addresses (cells i), a < fresh

namespace Chains

variable [DecidableEq ι] {cells : ι → List (Nat × α)} {i : ι}

omit [DecidableEq ι] in
theorem empty : Chains (fun _ => none : Heap α) 0 (fun _ : ι => []) where
  linked _ := trivial
  nodup _ := List.nodup_nil
  apart _ _ _ member := absurd member List.not_mem_nil
  old _ _ member := absurd member List.not_mem_nil

/-- One chain changes, in cells of its own and in new ones. -/
theorem update (chains : Chains h fresh cells) (linked : Linked h' none c)
    (nodup : (addresses c).Nodup) (more : fresh ≤ fresh')
    (own : ∀ a ∈ addresses c, a ∈ addresses (cells i) ∨ fresh ≤ a ∧ a < fresh')
    (frame : ∀ a < fresh, a ∉ addresses (cells i) → h' a = h a) :
    Chains h' fresh' (Function.update cells i c) := by
  have elsewhere : ∀ j a, j ≠ i → a ∈ addresses c → a ∉ addresses (cells j) := by
    intro j a other member there
    rcases own a member with mine | new
    · exact other (chains.apart j i a there mine)
    · have := chains.old j a there
      omega
  refine ⟨fun j => ?_, fun j => ?_, fun j k a first second => ?_, fun j a member => ?_⟩
  · by_cases here : j = i
    · rw [here, Function.update_self]
      exact linked
    · rw [Function.update_of_ne here]
      apply (chains.linked j).congr
      intro a member
      exact frame a (chains.old j a member) fun mine => here (chains.apart j i a member mine)
  · by_cases here : j = i
    · rw [here, Function.update_self]
      exact nodup
    · rw [Function.update_of_ne here]
      exact chains.nodup j
  · by_cases one : j = i
    · by_cases two : k = i
      · exact one.trans two.symm
      · rw [one, Function.update_self] at first
        rw [Function.update_of_ne two] at second
        exact absurd second (elsewhere k a two first)
    · rw [Function.update_of_ne one] at first
      by_cases two : k = i
      · rw [two, Function.update_self] at second
        exact absurd first (elsewhere j a one second)
      · rw [Function.update_of_ne two] at second
        exact chains.apart j k a first second
  · by_cases here : j = i
    · rw [here, Function.update_self] at member
      rcases own a member with mine | new
      · exact Nat.lt_of_lt_of_le (chains.old i a mine) more
      · exact new.2
    · rw [Function.update_of_ne here] at member
      exact Nat.lt_of_lt_of_le (chains.old j a member) more

omit [DecidableEq ι] in
theorem split (chains : Chains h fresh cells) (parts : cells i = pre ++ e :: suf) :
    e.1 ∉ addresses pre ∧ e.1 ∉ addresses suf ∧ (addresses (pre ++ suf)).Nodup := by
  have nodup := chains.nodup i
  rw [parts, addresses_append, addresses_cons] at nodup
  have apart := List.nodup_middle.mp nodup
  rw [List.nodup_cons, List.mem_append, not_or] at apart
  rw [addresses_append]
  exact ⟨apart.1.1, apart.1.2, apart.2⟩

omit [DecidableEq ι] in
theorem new_out (chains : Chains h fresh cells) : fresh ∉ addresses (cells i) := fun member =>
  Nat.lt_irrefl _ (chains.old i _ member)

/-- A new cell before all the others. -/
theorem push (chains : Chains h fresh cells) (x : α) :
    Chains (Function.update h fresh (some ⟨x, first (cells i) none⟩)) (fresh + 1)
      (Function.update cells i ((fresh, x) :: cells i)) := by
  have out : fresh ∉ addresses (cells i) := chains.new_out
  apply chains.update (i := i)
  · exact ⟨Function.update_self .., (chains.linked i).update out _⟩
  · exact List.nodup_cons.mpr ⟨out, chains.nodup i⟩
  · exact Nat.le_succ _
  · intro a member
    rcases List.mem_cons.mp member with rfl | mine
    · exact .inr ⟨Nat.le_refl _, Nat.lt_succ_self _⟩
    · exact .inl mine
  · intro a below _
    exact Function.update_of_ne (Nat.ne_of_lt below) ..

/-- A new cell after one of the chain. -/
theorem insert (chains : Chains h fresh cells) (parts : cells i = pre ++ e :: suf) (x : α) :
    Chains (Function.update (Function.update h fresh (some ⟨x, first suf none⟩)) e.1
      (some ⟨e.2, some fresh⟩)) (fresh + 1)
      (Function.update cells i (pre ++ e :: (fresh, x) :: suf)) := by
  have out : fresh ∉ addresses (cells i) := chains.new_out
  have linked := chains.linked i
  obtain ⟨left, right, -⟩ := chains.split parts
  rw [parts] at out linked
  rw [addresses_append, addresses_cons, List.mem_append, List.mem_cons, not_or, not_or] at out
  obtain ⟨outLeft, other, outRight⟩ := out
  have before : Linked h (first suf none) (pre ++ [e]) := by
    rw [List.append_cons, linked_append] at linked
    exact linked.1
  have behind : Linked (Function.update h fresh (some ⟨x, first suf none⟩)) none
      ((fresh, x) :: suf) := by
    rw [linked_append] at linked
    exact ⟨Function.update_self .., linked.2.2.update outRight _⟩
  have apart : fresh ∉ addresses (pre ++ [e]) := by
    rw [addresses_append, List.mem_append, not_or]
    exact ⟨outLeft, by simpa using other⟩
  apply chains.update (i := i)
  · apply (before.update apart _).splice behind left
    rw [addresses_cons, List.mem_cons, not_or]
    exact ⟨fun same => other same.symm, right⟩
  · have nodup := chains.nodup i
    rw [parts, List.append_cons, addresses_append, addresses_append] at nodup
    rw [List.append_cons, addresses_append, addresses_cons, List.nodup_middle, List.nodup_cons,
      addresses_append]
    refine ⟨?_, nodup⟩
    rw [List.mem_append, not_or, ← addresses_append]
    exact ⟨apart, outRight⟩
  · exact Nat.le_succ _
  · intro a member
    rw [parts]
    simp only [addresses_append, addresses_cons, List.mem_append, List.mem_cons] at member ⊢
    rcases member with inside | rfl | rfl | inside
    · exact .inl (.inl inside)
    · exact .inl (.inr (.inl rfl))
    · exact .inr ⟨Nat.le_refl _, Nat.lt_succ_self _⟩
    · exact .inl (.inr (.inr inside))
  · intro a below outside
    have different : a ≠ e.1 := by
      intro same
      apply outside
      rw [parts, same]
      simp
    rw [Function.update_of_ne different, Function.update_of_ne (Nat.ne_of_lt below)]

/-- A cell is given other contents. -/
theorem replace (chains : Chains h fresh cells) (parts : cells i = pre ++ (a, x) :: suf) (y : α) :
    Chains (Function.update h a (some ⟨y, first suf none⟩)) fresh
      (Function.update cells i (pre ++ (a, y) :: suf)) := by
  have linked := chains.linked i
  have nodup := chains.nodup i
  obtain ⟨left, right, -⟩ := chains.split parts
  rw [parts] at linked nodup
  apply chains.update (i := i)
  · exact linked.replace left right
  · rwa [addresses_append, addresses_cons] at nodup ⊢
  · exact Nat.le_refl _
  · intro b member
    rw [parts]
    exact .inl (by rwa [addresses_append, addresses_cons] at member ⊢)
  · intro b _ outside
    apply Function.update_of_ne
    rintro rfl
    apply outside
    rw [parts]
    simp

/-- The first cell goes. -/
theorem pop (chains : Chains h fresh cells) (parts : cells i = e :: suf) :
    Chains (Function.update h e.1 none) fresh (Function.update cells i suf) := by
  have linked := chains.linked i
  have whole : cells i = [] ++ e :: suf := parts
  obtain ⟨-, right, nodup⟩ := chains.split whole
  rw [parts] at linked
  apply chains.update (i := i)
  · exact linked.2.update right _
  · exact nodup
  · exact Nat.le_refl _
  · intro a member
    rw [parts]
    exact .inl (List.mem_cons_of_mem _ member)
  · intro a _ outside
    apply Function.update_of_ne
    rintro rfl
    apply outside
    rw [parts]
    simp

/-- The cell after another one goes. -/
theorem remove {d : Nat × α} (chains : Chains h fresh cells)
    (parts : cells i = pre ++ e :: d :: suf) :
    Chains (Function.update (Function.update h e.1 (some ⟨e.2, first suf none⟩)) d.1 none) fresh
      (Function.update cells i (pre ++ e :: suf)) := by
  have linked := chains.linked i
  obtain ⟨left, right, -⟩ := chains.split parts
  have again : cells i = (pre ++ [e]) ++ d :: suf := by rw [parts]; simp
  obtain ⟨outLeft, outRight, nodup⟩ := chains.split again
  rw [addresses_cons, List.mem_cons, not_or] at right
  rw [again, linked_append] at linked
  have whole : pre ++ e :: suf = (pre ++ [e]) ++ suf := List.append_cons ..
  apply chains.update (i := i)
  · apply (linked.1.splice linked.2.2 left right.2).update
    rw [whole, addresses_append, List.mem_append, not_or]
    exact ⟨outLeft, outRight⟩
  · rwa [whole]
  · exact Nat.le_refl _
  · intro a member
    rw [parts]
    simp only [addresses_append, addresses_cons, List.mem_append, List.mem_cons] at member ⊢
    tauto
  · intro a _ outside
    rw [parts] at outside
    simp only [addresses_append, addresses_cons, List.mem_append, List.mem_cons, not_or]
      at outside
    rw [Function.update_of_ne outside.2.2.1, Function.update_of_ne outside.2.1]

end Chains

end

end LosAltos.Lib
