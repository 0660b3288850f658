import Mathlib.Data.List.Basic
import Mathlib.Tactic.Ring

/-!
# Little-endian fixed-width words

What `memcpy` of an unsigned integer writes and reads back on the little-endian
machines the project targets. `toLe width n` is exactly `width` bytes, least
significant first; `fromLe` is its inverse on lists of that length.
-/
namespace LosAltos.Lib

def toLe : Nat → Nat → List UInt8
  | 0, _ => []
  | width + 1, n => UInt8.ofNat n :: toLe width (n / 256)

def fromLe : List UInt8 → Nat
  | [] => 0
  | b :: rest => b.toNat + 256 * fromLe rest

@[simp] theorem toLe_length (width n : Nat) : (toLe width n).length = width := by
  induction width generalizing n with
  | zero => rfl
  | succ width ih => simp [toLe, ih]

theorem fromLe_toLe (width n : Nat) : fromLe (toLe width n) = n % 256 ^ width := by
  induction width generalizing n with
  | zero => simp [toLe, fromLe, Nat.mod_one]
  | succ width ih =>
    have low : (UInt8.ofNat n).toNat = n % 256 := by simp
    rw [toLe, fromLe, ih, low, Nat.pow_succ, Nat.mul_comm (256 ^ width) 256, Nat.mod_mul]

theorem fromLe_toLe_of_lt {width n : Nat} (bound : n < 256 ^ width) :
    fromLe (toLe width n) = n := by
  rw [fromLe_toLe, Nat.mod_eq_of_lt bound]

theorem fromLe_lt (bytes : List UInt8) : fromLe bytes < 256 ^ bytes.length := by
  induction bytes with
  | nil => simp [fromLe]
  | cons b rest ih =>
    have byte : b.toNat < 256 := b.toNat_lt
    simp only [fromLe, List.length_cons, Nat.pow_succ]
    omega

/-- Two byte lists of one length with the same value are the same list. -/
theorem fromLe_injective {left right : List UInt8} (length : left.length = right.length)
    (value : fromLe left = fromLe right) : left = right := by
  induction left generalizing right with
  | nil => exact (List.eq_nil_of_length_eq_zero length.symm).symm
  | cons b rest ih =>
    cases right with
    | nil => simp at length
    | cons c tail =>
      have low : b.toNat < 256 := b.toNat_lt
      have low' : c.toNat < 256 := c.toNat_lt
      simp only [fromLe] at value
      have head : b.toNat = c.toNat := by omega
      have tails : fromLe rest = fromLe tail := by omega
      rw [UInt8.toNat_inj.mp head, ih (by simpa using length) tails]

end LosAltos.Lib
