import Mathlib.Data.List.Basic
import Mathlib.Tactic.Common

/-!
# Chains of records

Records of varying length laid one after another: `en a` is the record read at `a`, and
the next one starts `largo (en a)` further on. Whatever is read elsewhere does not matter,
so that a stretch of the chain may be written anew on its own.
-/
namespace LosAltos.Lib

variable {α : Type}

/-- The records from `a` up to `b`. -/
inductive Tramo (en : Nat → α) (largo : α → Nat) : Nat → Nat → List α → Prop where
  | nil {a : Nat} : Tramo en largo a a []
  | cons {a b : Nat} {es : List α} (rest : Tramo en largo (a + largo (en a)) b es) :
      Tramo en largo a b (en a :: es)

namespace Tramo

variable {en en' : Nat → α} {largo : α → Nat} {a b c m : Nat} {e : α} {es us vs : List α}

theorem nil_iff : Tramo en largo a b [] ↔ a = b := by
  constructor
  · intro chain
    cases chain
    rfl
  · rintro rfl
    exact .nil

theorem cons_iff :
    Tramo en largo a b (e :: es) ↔ en a = e ∧ Tramo en largo (a + largo e) b es := by
  constructor
  · intro chain
    cases chain with
    | cons rest => exact ⟨rfl, rest⟩
  · rintro ⟨rfl, rest⟩
    exact .cons rest

instance decidableTramo [DecidableEq α] :
    (es : List α) → (a : Nat) → Decidable (Tramo en largo a b es)
  | [], _ => decidable_of_iff _ nil_iff.symm
  | e :: es, a =>
    have : Decidable (Tramo en largo (a + largo e) b es) := decidableTramo es (a + largo e)
    decidable_of_iff _ cons_iff.symm

theorem append_iff : Tramo en largo a b (us ++ vs) ↔
    ∃ c, Tramo en largo a c us ∧ Tramo en largo c b vs := by
  induction us generalizing a with
  | nil => simp [nil_iff]
  | cons u us ih => simp [cons_iff, ih, and_assoc]

theorem append (first : Tramo en largo a c us) (second : Tramo en largo c b vs) :
    Tramo en largo a b (us ++ vs) := append_iff.mpr ⟨c, first, second⟩

theorem le (chain : Tramo en largo a b es) : a ≤ b := by
  induction chain with
  | nil => exact Nat.le_refl _
  | cons rest ih => omega

/-- Every record of a chain is read somewhere. -/
theorem leido (chain : Tramo en largo a b es) (member : e ∈ es) : ∃ p, en p = e := by
  induction chain with
  | nil => cases member
  | @cons a b es rest ih =>
    rcases List.mem_cons.mp member with rfl | later
    · exact ⟨a, rfl⟩
    · exact ih later

/-- A chain that is not at its end goes on behind its first record. -/
theorem avanza (chain : Tramo en largo a b es) (more : a ≠ b) :
    ∃ us, Tramo en largo (a + largo (en a)) b us := by
  cases chain with
  | nil => exact absurd rfl more
  | cons rest => exact ⟨_, rest⟩

/-- No chain goes past a record of length zero. -/
theorem sin_avance (chain : Tramo en largo a b es) (zero : largo (en a) = 0) : a = b := by
  induction chain with
  | nil => rfl
  | @cons a b es rest ih =>
    rw [zero, Nat.add_zero] at ih
    exact ih zero

/-- Records of some length are no more than the bytes they lie in. -/
theorem length_le (chain : Tramo en largo a b es) (positive : ∀ e ∈ es, 0 < largo e) :
    a + es.length ≤ b := by
  induction chain with
  | nil => simp
  | @cons a b es rest ih =>
    have here := positive (en a) (by simp)
    have tail := ih fun e member => positive e (by simp [member])
    simp only [List.length_cons]
    omega

/-- The chain sees its own records only. -/
theorem congr (chain : Tramo en largo a b es)
    (same : ∀ p, a ≤ p → p + largo (en p) ≤ b → en p ∈ es → en' p = en p) :
    Tramo en' largo a b es := by
  induction chain with
  | nil => exact .nil
  | @cons a b es rest ih =>
    have here : en' a = en a := same a (Nat.le_refl a) rest.le (List.mem_cons_self ..)
    refine cons_iff.mpr ⟨here, ih fun p after inside member => same p ?_ inside ?_⟩
    · omega
    · exact List.mem_cons_of_mem _ member

/-- The records from `c` to `m` are written anew. -/
theorem reemplazar (first : Tramo en largo a c us) (middle : Tramo en' largo c m vs)
    (last : Tramo en largo m b es)
    (before : ∀ p, p + largo (en p) ≤ c → en p ∈ us → en' p = en p)
    (after : ∀ p, m ≤ p → en p ∈ es → en' p = en p) :
    Tramo en' largo a b (us ++ (vs ++ es)) :=
  (first.congr fun p _ => before p).append
    (middle.append (last.congr fun p inside _ => after p inside))

/-- A chain that goes further starts with the same records. -/
theorem sigue (short : Tramo en largo a c us) (long : Tramo en largo a b es) (further : c ≤ b)
    (positive : ∀ e ∈ us, 0 < largo e) : ∃ vs, es = us ++ vs ∧ Tramo en largo c b vs := by
  induction short generalizing es with
  | nil => exact ⟨es, rfl, long⟩
  | @cons a c us rest ih =>
    cases long with
    | nil =>
      have := positive _ (List.mem_cons_self ..)
      have := rest.le
      omega
    | cons tail =>
      obtain ⟨vs, rfl, after⟩ := ih tail further fun e member => positive e (by simp [member])
      exact ⟨vs, rfl, after⟩

/-- Between two places there is one chain of records of some length. -/
theorem unico (one : Tramo en largo a b us) (other : Tramo en largo a b vs)
    (positive : ∀ e ∈ us, 0 < largo e) (positive' : ∀ e ∈ vs, 0 < largo e) : us = vs := by
  obtain ⟨ws, rfl, rest⟩ := one.sigue other (Nat.le_refl b) positive
  have short := rest.length_le fun e member => positive' e (List.mem_append_right us member)
  have empty : ws = [] := List.eq_nil_of_length_eq_zero (by omega)
  rw [empty, List.append_nil]

end Tramo

end LosAltos.Lib
