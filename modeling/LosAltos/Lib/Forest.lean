import Mathlib.Data.List.Basic
import Mathlib.Tactic.Common

/-!
# Forests of pointer blocks

A tree has root words of its own; a block that is not a leaf is an array of words,
each the number of a block one level down. A position is the list of indices that
leads from a slot back to its root word, so that the tail of a position is the
position of the block the slot lies in.

`Libro` is the ledger of a block allocator over such a forest: the marked blocks are
the blocks some position of `S` holds, each held by one position only, and those of a
set `E` kept outside the forest (a block handed out and not yet stored, say).
-/
namespace LosAltos.Lib

variable {ι : Type}

structure Punteros (ι : Type) where
  raiz : ι → Nat → Nat
  palabra : Nat → Nat → Nat

/-- The block number stored at a position. -/
def Punteros.valor (m : Punteros ι) (x : ι) : List Nat → Nat
  | [] => 0
  | [i] => m.raiz x i
  | i :: j :: p => m.palabra (m.valor x (j :: p)) i

/-- `m'` is `m` with `n` stored in the slot `i :: p` of `x`. Words outside the `cota`
blocks of `ancho` words each may differ. -/
structure Pone [DecidableEq ι] (ancho cota : Nat) (m m' : Punteros ι) (x : ι) (i : Nat)
    (p : List Nat) (n : Nat) : Prop where
  raiz : ∀ y j, m'.raiz y j = if p = [] ∧ y = x ∧ j = i then n else m.raiz y j
  palabra : ∀ b j, b < cota → j < ancho →
    m'.palabra b j = if p ≠ [] ∧ b = m.valor x p ∧ j = i then n else m.palabra b j

structure Libro (ancho cota : Nat) (m : Punteros ι) (usado : Nat → Prop)
    (S : ι → List Nat → Prop) (E : Nat → Prop) : Prop where
  vacio : ∀ x, ¬S x []
  cerrado : ∀ x i j p, S x (i :: j :: p) → S x (j :: p)
  indice : ∀ x i j p, S x (i :: j :: p) → i < ancho
  rango : ∀ x p, S x p → m.valor x p < cota
  inyectivo : ∀ x p y q, S x p → S y q → m.valor x p = m.valor y q → x = y ∧ p = q
  marca : ∀ b, usado b ↔ E b ∨ ∃ x p, S x p ∧ m.valor x p = b
  ajeno : ∀ b x p, E b → S x p → m.valor x p ≠ b

namespace Libro

variable {ancho cota n i : Nat} {m m' : Punteros ι} {usado usado' E : Nat → Prop}
  {S T : ι → List Nat → Prop} {x : ι} {p : List Nat}

theorem usado_of_mem (libro : Libro ancho cota m usado S E) (member : S x p) :
    usado (m.valor x p) :=
  (libro.marca _).mpr (.inr ⟨x, p, member, rfl⟩)

theorem parent_of_mem (libro : Libro ancho cota m usado S E) (member : S x (i :: p))
    (filled : p ≠ []) : S x p := by
  obtain ⟨k, q, rfl⟩ := List.exists_cons_of_ne_nil filled
  exact libro.cerrado x i k q member

theorem width_of_mem (libro : Libro ancho cota m usado S E) (member : S x (i :: p))
    (filled : p ≠ []) : i < ancho := by
  obtain ⟨k, q, rfl⟩ := List.exists_cons_of_ne_nil filled
  exact libro.indice x i k q member

/-- A closed part of the forest that does not hold the slot written is as it was. -/
theorem valor_eq [DecidableEq ι] (libro : Libro ancho cota m usado S E)
    (pone : Pone ancho cota m m' x i p n)
    (parent : p ≠ [] → S x p) (sub : ∀ y q, T y q → S y q)
    (closed : ∀ y j k q, T y (j :: k :: q) → T y (k :: q)) (out : ¬T x (i :: p))
    (y : ι) (q : List Nat) (member : T y q) : m'.valor y q = m.valor y q := by
  induction q with
  | nil => rfl
  | cons j q ih =>
    cases q with
    | nil =>
      have other : ¬(p = [] ∧ y = x ∧ j = i) := by
        rintro ⟨rfl, rfl, rfl⟩
        exact out member
      simp [Punteros.valor, pone.raiz, other]
    | cons k q =>
      have above := closed y j k q member
      have other : ¬(p ≠ [] ∧ m.valor y (k :: q) = m.valor x p ∧ j = i) := by
        rintro ⟨filled, same, rfl⟩
        obtain ⟨rfl, rfl⟩ := libro.inyectivo _ _ _ _ (sub _ _ above) (parent filled) same
        exact out member
      simp only [Punteros.valor, ih above]
      rw [pone.palabra _ _ (libro.rango _ _ (sub _ _ above))
        (libro.indice _ _ _ _ (sub _ _ member)), if_neg other]

/-- What the slot itself reads back. -/
theorem valor_self [DecidableEq ι] (libro : Libro ancho cota m usado S E)
    (pone : Pone ancho cota m m' x i p n)
    (parent : p ≠ [] → S x p) (width : p ≠ [] → i < ancho) (out : ¬S x (i :: p)) :
    m'.valor x (i :: p) = n := by
  cases p with
  | nil => simp [Punteros.valor, pone.raiz]
  | cons k q =>
    have same := libro.valor_eq pone parent (fun _ _ => id) libro.cerrado out x _ (parent (by simp))
    simp only [Punteros.valor, same]
    rw [pone.palabra _ _ (libro.rango _ _ (parent (by simp))) (width (by simp))]
    simp

/-- A free block is marked: it waits in `E`. -/
theorem pedir (libro : Libro ancho cota m usado S E) (free : ¬usado n)
    (marked : ∀ b, usado' b ↔ b = n ∨ usado b) :
    Libro ancho cota m usado' S fun b => E b ∨ b = n where
  vacio := libro.vacio
  cerrado := libro.cerrado
  indice := libro.indice
  rango := libro.rango
  inyectivo := libro.inyectivo
  marca b := by rw [marked, libro.marca, or_comm (a := b = n), or_right_comm]
  ajeno b x p member owned := by
    rcases member with outside | rfl
    · exact libro.ajeno b x p outside owned
    · rintro rfl
      exact free (libro.usado_of_mem owned)

/-- A waiting block goes into an empty slot whose own block is in the forest. -/
theorem asignar [DecidableEq ι] (libro : Libro ancho cota m usado S fun b => E b ∨ b = n)
    (waiting : ¬E n)
    (pone : Pone ancho cota m m' x i p n) (parent : p ≠ [] → S x p)
    (width : p ≠ [] → i < ancho) (bound : n < cota) (out : ¬S x (i :: p)) :
    Libro ancho cota m' usado (fun y q => S y q ∨ y = x ∧ q = i :: p) E := by
  have same := libro.valor_eq pone parent (fun _ _ => id) libro.cerrado out
  have here := libro.valor_self pone parent width out
  have fresh : ∀ y q, S y q → m.valor y q ≠ n := fun y q => libro.ajeno n y q (.inr rfl)
  exact
  { vacio := by
      rintro y (old | ⟨-, impossible⟩)
      · exact libro.vacio y old
      · cases impossible
    cerrado := by
      rintro y a b q (old | ⟨rfl, equal⟩)
      · exact .inl (libro.cerrado y a b q old)
      · obtain ⟨rfl, rfl⟩ := List.cons.inj equal
        exact .inl (parent (by simp))
    indice := by
      rintro y a b q (old | ⟨rfl, equal⟩)
      · exact libro.indice y a b q old
      · obtain ⟨rfl, rfl⟩ := List.cons.inj equal
        exact width (by simp)
    rango := by
      rintro y q (old | ⟨rfl, rfl⟩)
      · rw [same y q old]
        exact libro.rango y q old
      · rwa [here]
    inyectivo := by
      rintro y q z r (old | ⟨rfl, rfl⟩) (older | ⟨rfl, rfl⟩) equal
      · rw [same y q old, same z r older] at equal
        exact libro.inyectivo y q z r old older equal
      · rw [same y q old, here] at equal
        exact absurd equal (fresh y q old)
      · rw [same z r older, here] at equal
        exact absurd equal.symm (fresh z r older)
      · exact ⟨rfl, rfl⟩
    marca := by
      intro b
      rw [libro.marca]
      constructor
      · rintro ((outside | rfl) | ⟨y, q, old, value⟩)
        · exact .inl outside
        · exact .inr ⟨x, i :: p, .inr ⟨rfl, rfl⟩, here⟩
        · exact .inr ⟨y, q, .inl old, by rw [same y q old, value]⟩
      · rintro (outside | ⟨y, q, old | ⟨rfl, rfl⟩, value⟩)
        · exact .inl (.inl outside)
        · exact .inr ⟨y, q, old, by rw [← same y q old, value]⟩
        · exact .inl (.inr (by rw [← value, here]))
    ajeno := by
      rintro b y q outside (old | ⟨rfl, rfl⟩)
      · rw [same y q old]
        exact libro.ajeno b y q (.inl outside) old
      · rw [here]
        rintro rfl
        exact waiting outside }

/-- What a leaf leaves behind is closed. -/
theorem cerrado_leaf (libro : Libro ancho cota m usado S E) (leaf : ∀ j, ¬S x (j :: i :: p))
    (y : ι) (j k : Nat) (q : List Nat)
    (inside : S y (j :: k :: q) ∧ ¬(y = x ∧ j :: k :: q = i :: p)) :
    S y (k :: q) ∧ ¬(y = x ∧ k :: q = i :: p) := by
  refine ⟨libro.cerrado y j k q inside.1, ?_⟩
  rintro ⟨rfl, equal⟩
  exact leaf j (equal ▸ inside.1)

/-- The other positions do not see the slot of a leaf. -/
theorem valor_leaf [DecidableEq ι] (libro : Libro ancho cota m usado S E)
    (pone : Pone ancho cota m m' x i p n) (member : S x (i :: p)) (leaf : ∀ j, ¬S x (j :: i :: p))
    (y : ι) (q : List Nat) (inside : S y q ∧ ¬(y = x ∧ q = i :: p)) :
    m'.valor y q = m.valor y q :=
  libro.valor_eq (T := fun y q => S y q ∧ ¬(y = x ∧ q = i :: p)) pone
    (libro.parent_of_mem member) (fun _ _ => And.left) (libro.cerrado_leaf leaf)
    (fun inside => inside.2 ⟨rfl, rfl⟩) y q inside

/-- The block of a leaf goes back; its slot may be written with anything. -/
theorem liberar [DecidableEq ι] (libro : Libro ancho cota m usado S E)
    (pone : Pone ancho cota m m' x i p n) (member : S x (i :: p)) (leaf : ∀ j, ¬S x (j :: i :: p))
    (marked : ∀ b, usado' b ↔ usado b ∧ b ≠ m.valor x (i :: p)) :
    Libro ancho cota m' usado' (fun y q => S y q ∧ ¬(y = x ∧ q = i :: p)) E := by
  have same := libro.valor_leaf pone member leaf
  exact
  { vacio := fun y inside => libro.vacio y inside.1
    cerrado := libro.cerrado_leaf leaf
    indice := fun y a b q inside => libro.indice y a b q inside.1
    rango := by
      intro y q inside
      rw [same y q inside]
      exact libro.rango y q inside.1
    inyectivo := by
      intro y q z r left right equal
      rw [same y q left, same z r right] at equal
      exact libro.inyectivo y q z r left.1 right.1 equal
    marca := by
      intro b
      rw [marked, libro.marca]
      constructor
      · rintro ⟨outside | ⟨y, q, old, rfl⟩, other⟩
        · exact .inl outside
        · have kept : ¬(y = x ∧ q = i :: p) := by
            rintro ⟨rfl, rfl⟩
            exact other rfl
          exact .inr ⟨y, q, ⟨old, kept⟩, same y q ⟨old, kept⟩⟩
      · rintro (outside | ⟨y, q, inside, rfl⟩)
        · exact ⟨.inl outside, fun equal => libro.ajeno b x _ outside member equal.symm⟩
        · rw [same y q inside]
          refine ⟨.inr ⟨y, q, inside.1, rfl⟩, fun equal => inside.2 ?_⟩
          exact libro.inyectivo y q x _ inside.1 member equal
    ajeno := by
      intro b y q outside inside
      rw [same y q inside]
      exact libro.ajeno b y q outside inside.1 }

/-- The ledger only sees the words of its positions. -/
theorem congr (libro : Libro ancho cota m usado S E)
    (roots : ∀ y j, S y [j] → m'.raiz y j = m.raiz y j)
    (words : ∀ y j k q, S y (j :: k :: q) →
      m'.palabra (m.valor y (k :: q)) j = m.palabra (m.valor y (k :: q)) j) :
    Libro ancho cota m' usado S E ∧ ∀ y q, S y q → m'.valor y q = m.valor y q := by
  have same : ∀ y q, S y q → m'.valor y q = m.valor y q := by
    intro y q member
    induction q with
    | nil => rfl
    | cons j q ih =>
      cases q with
      | nil => exact roots y j member
      | cons k q =>
        simp only [Punteros.valor, ih (libro.cerrado y j k q member)]
        exact words y j k q member
  refine ⟨?_, same⟩
  exact
  { vacio := libro.vacio
    cerrado := libro.cerrado
    indice := libro.indice
    rango := fun y q member => by
      rw [same y q member]
      exact libro.rango y q member
    inyectivo := fun y q z r left right equal => by
      rw [same y q left, same z r right] at equal
      exact libro.inyectivo y q z r left right equal
    marca := fun b => by
      rw [libro.marca]
      constructor
      · rintro (outside | ⟨y, q, member, value⟩)
        · exact .inl outside
        · exact .inr ⟨y, q, member, by rw [same y q member, value]⟩
      · rintro (outside | ⟨y, q, member, value⟩)
        · exact .inl outside
        · exact .inr ⟨y, q, member, by rw [← same y q member, value]⟩
    ajeno := fun b y q outside member => by
      rw [same y q member]
      exact libro.ajeno b y q outside member }

/-- Positions may be given up: their blocks stay marked, outside the forest. -/
theorem olvidar (libro : Libro ancho cota m usado S E) (sub : ∀ y q, T y q → S y q)
    (closed : ∀ y j k q, T y (j :: k :: q) → T y (k :: q)) :
    Libro ancho cota m usado T fun b => E b ∨ ∃ y q, S y q ∧ ¬T y q ∧ m.valor y q = b where
  vacio y member := libro.vacio y (sub y _ member)
  cerrado := closed
  indice y a b q member := libro.indice y a b q (sub y _ member)
  rango y q member := libro.rango y q (sub y q member)
  inyectivo y q z r left right := libro.inyectivo y q z r (sub y q left) (sub z r right)
  marca b := by
    rw [libro.marca]
    constructor
    · rintro (outside | ⟨y, q, member, value⟩)
      · exact .inl (.inl outside)
      · by_cases kept : T y q
        · exact .inr ⟨y, q, kept, value⟩
        · exact .inl (.inr ⟨y, q, member, kept, value⟩)
    · rintro ((outside | ⟨y, q, member, -, value⟩) | ⟨y, q, member, value⟩)
      · exact .inl outside
      · exact .inr ⟨y, q, member, value⟩
      · exact .inr ⟨y, q, sub y q member, value⟩
  ajeno b y q outside member := by
    rcases outside with outside | ⟨z, r, old, lost, value⟩
    · exact libro.ajeno b y q outside (sub y q member)
    · rintro rfl
      obtain ⟨rfl, rfl⟩ := libro.inyectivo z r y q old (sub y q member) value
      exact lost member

/-- The same set of positions, written otherwise. -/
theorem of_iff (libro : Libro ancho cota m usado S E) (same : ∀ y q, T y q ↔ S y q) :
    Libro ancho cota m usado T E := by
  have equal : T = S := funext fun y => funext fun q => propext (same y q)
  rwa [equal]

end Libro

end LosAltos.Lib
