import Mathlib.Data.Int.Order.Basic
import Mathlib.Tactic.Linarith

/-!
# Byte memories

A memory is a total map from addresses to bytes. Addresses are integers, so that
an offset may fall on either side of the base pointer it is taken from.
-/
namespace LosAltos.Lib

abbrev Memoria := Int → UInt8

/-- The `n` bytes at `dir`. -/
def leer (mem : Memoria) (dir : Int) (n : Nat) : List UInt8 :=
  (List.range n).map fun j : Nat => mem (dir + j)

/-- `memcpy` of `bytes` to `dir`. -/
def escribir (mem : Memoria) (dir : Int) (bytes : List UInt8) : Memoria := fun j =>
  if dir ≤ j ∧ j < dir + bytes.length then bytes.getD (j - dir).toNat 0 else mem j

@[simp]
theorem leer_length (mem : Memoria) (dir : Int) (n : Nat) : (leer mem dir n).length = n := by
  simp [leer]

/-- Two copies, the second one where the first one ends. -/
theorem escribir_append (mem : Memoria) (dir : Int) (us vs : List UInt8) :
    escribir (escribir mem dir us) (dir + us.length) vs = escribir mem dir (us ++ vs) := by
  funext j
  simp only [escribir, List.length_append, Nat.cast_add, List.getD_eq_getElem?_getD,
    List.getElem?_append]
  by_cases second : dir + us.length ≤ j ∧ j < dir + us.length + vs.length
  · rw [if_pos second, if_pos (by omega), if_neg (by omega),
      show (j - (dir + us.length)).toNat = (j - dir).toNat - us.length by omega]
  · rw [if_neg second]
    by_cases first : dir ≤ j ∧ j < dir + us.length
    · rw [if_pos first, if_pos (by omega), if_pos (by omega)]
    · rw [if_neg first, if_neg (by omega)]

/-- Reading depends on the bytes of the range only. -/
theorem leer_congr (mem mem' : Memoria) (dir : Int) (n : Nat)
    (same : ∀ j : Nat, j < n → mem (dir + j) = mem' (dir + j)) :
    leer mem dir n = leer mem' dir n := by
  apply List.map_congr_left
  intro j member
  exact same j (List.mem_range.mp member)

theorem leer_add (mem : Memoria) (dir : Int) (m n : Nat) :
    leer mem dir (m + n) = leer mem dir m ++ leer mem (dir + m) n := by
  simp only [leer, List.range_add, List.map_append, List.map_map, List.append_cancel_left_eq]
  apply List.map_congr_left
  intro j _
  simp [Int.add_assoc]

/-- Bytes one after the other are each read at its place. -/
theorem leer_append {mem : Memoria} {dir : Int} {us vs : List UInt8}
    (both : leer mem dir (us ++ vs).length = us ++ vs) :
    leer mem dir us.length = us ∧ leer mem (dir + us.length) vs.length = vs := by
  rw [List.length_append, leer_add] at both
  exact List.append_inj both (leer_length ..)

theorem leer_escribir_self (mem : Memoria) (dir : Int) (bytes : List UInt8) :
    leer (escribir mem dir bytes) dir bytes.length = bytes := by
  apply List.ext_getElem (by simp)
  intro j left right
  simp [leer, escribir, right]

/-- A part of what was written. -/
theorem leer_escribir_part (mem : Memoria) (dir : Int) (us vs ws : List UInt8) :
    leer (escribir mem dir (us ++ (vs ++ ws))) (dir + us.length) vs.length = vs := by
  apply List.ext_getElem (by simp)
  intro j left right
  have inside : dir ≤ dir + (us.length : Int) + j ∧
      dir + (us.length : Int) + j < dir + ((us ++ (vs ++ ws)).length : Nat) := by
    simp only [List.length_append]
    omega
  have index : (dir + (us.length : Int) + j - dir).toNat = us.length + j := by omega
  simp only [leer, List.getElem_map, List.getElem_range, escribir, inside, and_self, ↓reduceIte,
    index]
  rw [List.getD_eq_getElem?_getD, List.getElem?_append_right (Nat.le_add_right ..),
    Nat.add_sub_cancel_left, List.getElem?_append_left right, List.getElem?_eq_getElem right,
    Option.getD_some]

/-- A write leaves every range that ends before it or starts after it as it was. -/
theorem leer_escribir_disjoint (mem : Memoria) (dir other : Int) (n : Nat) (bytes : List UInt8)
    (apart : other + n ≤ dir ∨ dir + bytes.length ≤ other) :
    leer (escribir mem dir bytes) other n = leer mem other n := by
  apply leer_congr
  intro j below
  have outside : ¬(dir ≤ other + (j : Int) ∧ other + (j : Int) < dir + bytes.length) := by omega
  simp [escribir, outside]

/-! ### Scattered copies -/

/-- `mem'` is `mem` with `data i` stored at `lugar i`, for each `i` from `lo` up to `hi`. -/
structure Copiado {α β : Type} (lugar : Nat → α) (data : Nat → β) (lo hi : Nat)
    (mem mem' : α → β) : Prop where
  copia : ∀ i, lo ≤ i → i < hi → mem' (lugar i) = data i
  marco : ∀ a, (∀ i, lo ≤ i → i < hi → a ≠ lugar i) → mem' a = mem a

namespace Copiado

variable {α β : Type} {lugar : Nat → α} {data : Nat → β} {lo mid hi : Nat} {mem mem' mem'' : α → β}

/-- Two copies one after the other, to places that do not meet. -/
theorem trans (first : Copiado lugar data lo mid mem mem')
    (second : Copiado lugar data mid hi mem' mem'') (left : lo ≤ mid) (right : mid ≤ hi)
    (apart : ∀ i j, lo ≤ i → i < mid → mid ≤ j → j < hi → lugar i ≠ lugar j) :
    Copiado lugar data lo hi mem mem'' := by
  constructor
  · intro i from_lo below
    by_cases early : i < mid
    · rw [second.marco _ fun j late bound => apart i j from_lo early late bound,
        first.copia i from_lo early]
    · exact second.copia i (by omega) below
  · intro a outside
    rw [second.marco a fun i late below => outside i (by omega) below,
      first.marco a fun i from_lo early => outside i from_lo (by omega)]

end Copiado

end LosAltos.Lib
