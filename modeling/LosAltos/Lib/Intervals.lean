import Mathlib.Algebra.Order.BigOperators.Group.Finset
import Mathlib.Data.Finset.Union
import Mathlib.Logic.Function.Basic
import Mathlib.Order.Interval.Finset.Nat
import Mathlib.Tactic.Linarith

/-!
# Families of disjoint intervals

`n` intervals `[ini i, ini i + tam i)` of natural numbers, some of them empty,
that lie below `tope` and share no point. The four rules are what a partition
table does with its parts: shrink them, permute them, cut one, join two.
-/
namespace LosAltos.Lib

/-- Point `x` lies in interval `i`. -/
def Cubre (ini tam : Nat → Nat) (i x : Nat) : Prop := ini i ≤ x ∧ x < ini i + tam i

structure Separados (n tope : Nat) (ini tam : Nat → Nat) : Prop where
  dentro : ∀ i x, i < n → Cubre ini tam i x → x < tope
  unico : ∀ i j x, i < n → j < n → Cubre ini tam i x → Cubre ini tam j x → i = j

namespace Separados

variable {n tope : Nat} {ini tam ini' tam' : Nat → Nat}

/-- In terms of the ends of the intervals. -/
theorem inside (sep : Separados n tope ini tam) {i : Nat} (bound : i < n) (nonempty : 0 < tam i) :
    ini i + tam i ≤ tope := by
  have last := sep.dentro i (ini i + tam i - 1) bound ⟨by omega, by omega⟩
  omega

theorem apart (sep : Separados n tope ini tam) {i j : Nat} (left : i < n) (right : j < n)
    (different : i ≠ j) (first : 0 < tam i) (second : 0 < tam j) :
    ini i + tam i ≤ ini j ∨ ini j + tam j ≤ ini i := by
  by_contra overlap
  apply different
  apply sep.unico i j (max (ini i) (ini j)) left right
  · constructor <;> omega
  · constructor <;> omega

/-- Together they are no longer than the whole. -/
theorem sum_le (sep : Separados n tope ini tam) : ∑ i ∈ Finset.range n, tam i ≤ tope := by
  have member : ∀ i x, x ∈ Finset.Ico (ini i) (ini i + tam i) ↔ Cubre ini tam i x := by
    intro i x
    exact Finset.mem_Ico
  have apart : ∀ i ∈ Finset.range n, ∀ j ∈ Finset.range n, i ≠ j →
      Disjoint (Finset.Ico (ini i) (ini i + tam i)) (Finset.Ico (ini j) (ini j + tam j)) := by
    intro i left j right different
    rw [Finset.disjoint_left]
    intro x first second
    exact different (sep.unico i j x (Finset.mem_range.mp left) (Finset.mem_range.mp right)
      ((member i x).mp first) ((member j x).mp second))
  have within : (Finset.range n).biUnion (fun i => Finset.Ico (ini i) (ini i + tam i)) ⊆
      Finset.range tope := by
    intro x inside
    obtain ⟨i, bound, here⟩ := Finset.mem_biUnion.mp inside
    exact Finset.mem_range.mpr (sep.dentro i x (Finset.mem_range.mp bound) ((member i x).mp here))
  have counted := Finset.card_le_card within
  rw [Finset.card_biUnion apart, Finset.card_range] at counted
  simpa using counted

theorem shrink (sep : Separados n tope ini tam)
    (smaller : ∀ i x, i < n → Cubre ini' tam' i x → Cubre ini tam i x) :
    Separados n tope ini' tam' where
  dentro i x bound here := sep.dentro i x bound (smaller i x bound here)
  unico i j x left right first second :=
    sep.unico i j x left right (smaller i x left first) (smaller j x right second)

theorem permute (sep : Separados n tope ini tam) (σ : Nat → Nat) (injective : Function.Injective σ)
    (range : ∀ i, i < n → σ i < n)
    (moved : ∀ i x, i < n → Cubre ini' tam' i x → Cubre ini tam (σ i) x) :
    Separados n tope ini' tam' where
  dentro i x bound here := sep.dentro (σ i) x (range i bound) (moved i x bound here)
  unico i j x left right first second :=
    injective (sep.unico (σ i) (σ j) x (range i left) (range j right) (moved i x left first)
      (moved j x right second))

/-- Interval `i` is cut at `corte`; what lies from there on goes to interval `p`. -/
theorem split (sep : Separados n tope ini tam) {i p : Nat} (corte : Nat) (bound : i < n)
    (apart : i ≠ p)
    (kept : ∀ x, Cubre ini' tam' i x → Cubre ini tam i x ∧ x < corte)
    (fresh : ∀ x, Cubre ini' tam' p x → Cubre ini tam i x ∧ corte ≤ x)
    (others : ∀ j x, j < n → j ≠ i → j ≠ p → Cubre ini' tam' j x → Cubre ini tam j x) :
    Separados n tope ini' tam' where
  dentro j x below here := by
    by_cases first : j = i
    · subst first
      exact sep.dentro j x bound (kept x here).1
    · by_cases second : j = p
      · subst second
        exact sep.dentro i x bound (fresh x here).1
      · exact sep.dentro j x below (others j x below first second here)
  unico j k x left right here there := by
    by_cases same : j = k
    · exact same
    · have owner : ∀ l, l < n → Cubre ini' tam' l x →
          (l ≠ i ∧ l ≠ p ∧ Cubre ini tam l x) ∨
          (l = i ∧ Cubre ini tam i x ∧ x < corte) ∨ (l = p ∧ Cubre ini tam i x ∧ corte ≤ x) := by
        intro l below inside
        by_cases first : l = i
        · subst first
          exact Or.inr (Or.inl ⟨rfl, kept x inside⟩)
        · by_cases second : l = p
          · subst second
            exact Or.inr (Or.inr ⟨rfl, fresh x inside⟩)
          · exact Or.inl ⟨first, second, others l x below first second inside⟩
      rcases owner j left here with ⟨ji, jp, jx⟩ | ⟨rfl, jx, low⟩ | ⟨rfl, jx, high⟩
      · rcases owner k right there with ⟨ki, kp, kx⟩ | ⟨rfl, kx, _⟩ | ⟨rfl, kx, _⟩
        · exact sep.unico j k x left right jx kx
        · exact absurd (sep.unico j k x left bound jx kx) ji
        · exact absurd (sep.unico j i x left bound jx kx) ji
      · rcases owner k right there with ⟨ki, kp, kx⟩ | ⟨rfl, _, _⟩ | ⟨rfl, _, high⟩
        · exact absurd (sep.unico k j x right bound kx jx) ki
        · rfl
        · omega
      · rcases owner k right there with ⟨ki, kp, kx⟩ | ⟨rfl, _, low⟩ | ⟨rfl, _, _⟩
        · exact absurd (sep.unico k i x right bound kx jx) ki
        · omega
        · rfl

/-- Interval `q` takes in interval `h`, which becomes empty. -/
theorem join (sep : Separados n tope ini tam) {q h : Nat} (kept : q < n) (gone : h < n)
    (union : ∀ x, Cubre ini' tam' q x → Cubre ini tam q x ∨ Cubre ini tam h x)
    (empty : ∀ x, q ≠ h → ¬Cubre ini' tam' h x)
    (others : ∀ j x, j < n → j ≠ q → j ≠ h → Cubre ini' tam' j x → Cubre ini tam j x) :
    Separados n tope ini' tam' where
  dentro j x below here := by
    by_cases first : j = q
    · subst first
      rcases union x here with own | taken
      · exact sep.dentro j x kept own
      · exact sep.dentro h x gone taken
    · by_cases second : j = h
      · subst second
        exact absurd here (empty x (Ne.symm first))
      · exact sep.dentro j x below (others j x below first second here)
  unico j k x left right here there := by
    have owner : ∀ l, l < n → Cubre ini' tam' l x →
        (l = q ∧ (Cubre ini tam q x ∨ Cubre ini tam h x)) ∨
        (l ≠ q ∧ l ≠ h ∧ Cubre ini tam l x) := by
      intro l below inside
      by_cases first : l = q
      · subst first
        exact Or.inl ⟨rfl, union x inside⟩
      · by_cases second : l = h
        · subst second
          exact absurd inside (empty x (Ne.symm first))
        · exact Or.inr ⟨first, second, others l x below first second inside⟩
    rcases owner j left here with ⟨rfl, jx⟩ | ⟨jq, jh, jx⟩
    · rcases owner k right there with ⟨rfl, _⟩ | ⟨kq, kh, kx⟩
      · rfl
      · rcases jx with own | taken
        · exact sep.unico j k x kept right own kx
        · exact absurd (sep.unico k h x right gone kx taken) kh
    · rcases owner k right there with ⟨rfl, kx⟩ | ⟨kq, kh, kx⟩
      · rcases kx with own | taken
        · exact sep.unico j k x left kept jx own
        · exact absurd (sep.unico j h x left gone jx taken) jh
      · exact sep.unico j k x left right jx kx

end Separados

end LosAltos.Lib
