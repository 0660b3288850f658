import Mathlib.Algebra.BigOperators.Group.Finset.Basic
import Mathlib.Algebra.Order.BigOperators.Group.Multiset
import Mathlib.Data.Multiset.Count

/-!
# Counting named links

Containers hold multisets of links, each a target with a name. A target is counted once for
each link to it.
-/
namespace LosAltos.Lib

variable {α ν : Type} [DecidableEq α]

/-- How many links of the containers in `P` lead to `b`. -/
def referencias (P : Finset α) (f : α → Multiset (α × ν)) (b : α) : Nat :=
  ∑ p ∈ P, (f p).countP (·.1 = b)

variable {P : Finset α} {f f' : α → Multiset (α × ν)} {x : α} {link : α × ν}

theorem referencias_congr (same : ∀ p ∈ P, f' p = f p) (b : α) :
    referencias P f' b = referencias P f b :=
  Finset.sum_congr rfl fun p member => by rw [same p member]

/-- One link more in one container is one reference more to its target. -/
theorem referencias_cons (member : x ∈ P) (one : f' x = link ::ₘ f x)
    (others : ∀ p ∈ P, p ≠ x → f' p = f p) (b : α) :
    referencias P f' b = referencias P f b + if link.1 = b then 1 else 0 := by
  have rest : ∑ p ∈ P.erase x, (f' p).countP (·.1 = b) = ∑ p ∈ P.erase x, (f p).countP (·.1 = b) :=
    Finset.sum_congr rfl fun p inside => by
      rw [others p (Finset.mem_of_mem_erase inside) (Finset.ne_of_mem_erase inside)]
  rw [referencias, referencias, ← Finset.add_sum_erase P _ member, rest, one,
    ← Finset.add_sum_erase P (fun p => (f p).countP (·.1 = b)) member, Multiset.countP_cons]
  omega

theorem exists_link_of_referencias {b : α} (some_link : referencias P f b ≠ 0) :
    ∃ p ∈ P, ∃ l ∈ f p, l.1 = b := by
  obtain ⟨p, member, count⟩ := Finset.exists_ne_zero_of_sum_ne_zero some_link
  obtain ⟨l, inside, target⟩ := Multiset.countP_pos.mp (Nat.pos_of_ne_zero count)
  exact ⟨p, member, l, inside, target⟩

omit [DecidableEq α] in
/-- One link more in one part of a container. -/
theorem sum_cons_at {n k : Nat} {g g' : Nat → Multiset (α × ν)} (below : k < n)
    (one : g' k = link ::ₘ g k) (others : ∀ l < n, l ≠ k → g' l = g l) :
    ∑ l ∈ Finset.range n, g' l = link ::ₘ ∑ l ∈ Finset.range n, g l := by
  have member := Finset.mem_range.mpr below
  have rest : ∑ l ∈ (Finset.range n).erase k, g' l = ∑ l ∈ (Finset.range n).erase k, g l :=
    Finset.sum_congr rfl fun l inside => others l
      (Finset.mem_range.mp (Finset.mem_of_mem_erase inside)) (Finset.ne_of_mem_erase inside)
  rw [← Finset.add_sum_erase _ g' member, ← Finset.add_sum_erase _ g member, rest, one,
    Multiset.cons_add]

end LosAltos.Lib
