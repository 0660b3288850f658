import LosAltos.Rfs.EntryRemoval
import LosAltos.Rfs.PositionLists

/-!
# The blocks of one file

A file of `n` logical blocks holds a block at each position of `Vivo p n`, and nothing is said
here of other files or of the tables: `Arbol` is the part of the ledger one file needs. A leaf
may be freed, whatever becomes of its bytes, and a position whose own block is held may be filled
with a block the tree does not hold.
-/
namespace LosAltos.Rfs

open Lib

variable {q : List Nat} {T : List Nat → Prop} {n : Nat}

/-! ### The tree of a file on a disk -/

variable (sb : Superblock)

/-- The positions of `T` hold blocks of the image, each another one. -/
structure Arbol (d : Disco) (x : Nat) (T : List Nat → Prop) : Prop where
  vacio : ¬T []
  cerrado : ∀ i j q, T (i :: j :: q) → T (j :: q)
  indice : ∀ i j q, T (i :: j :: q) → i < ptrsPorBloque sb
  lleno : ∀ q, T q → (punteros sb d).valor x q ≠ 0
  rango : ∀ q, T q → (punteros sb d).valor x q < sb.blocks
  inyectivo : ∀ q r, T q → T r →
    (punteros sb d).valor x q = (punteros sb d).valor x r → q = r

/-- The first `n` logical blocks of `x` are mapped as ext2 prescribes: each of them and each
indirection block they need is a block of the image, and no two are the same. -/
structure Mapeado (d : Disco) (x n : Nat) : Prop where
  lleno : ∀ q, Vivo (ptrsPorBloque sb) n q → (punteros sb d).valor x q ≠ 0
  rango : ∀ q, Vivo (ptrsPorBloque sb) n q → (punteros sb d).valor x q < sb.blocks
  inyectivo : ∀ q r, Vivo (ptrsPorBloque sb) n q → Vivo (ptrsPorBloque sb) n r →
    (punteros sb d).valor x q = (punteros sb d).valor x r → q = r

variable {sb} {d d' : Disco} {x i b : Nat}

theorem Mapeado.arbol (mapped : Mapeado sb d x n) :
    Arbol sb d x (Vivo (ptrsPorBloque sb) n) where
  vacio := by
    rintro ⟨k, -, starts⟩
    exact starts.ne_nil rfl
  cerrado _ _ _ here := here.parent
  indice := by
    rintro i j q ⟨k, -, starts⟩
    exact starts.parent.1
  lleno := mapped.lleno
  rango := mapped.rango
  inyectivo := mapped.inyectivo

theorem Arbol.mapeado (tree : Arbol sb d x (Vivo (ptrsPorBloque sb) n)) : Mapeado sb d x n :=
  ⟨tree.lleno, tree.rango, tree.inyectivo⟩

theorem Arbol.of_iff {S : List Nat → Prop} (tree : Arbol sb d x T) (same : ∀ r, S r ↔ T r) :
    Arbol sb d x S := by
  obtain rfl : S = T := funext fun r => propext (same r)
  exact tree

/-- The ledger in which only `x` has blocks. -/
theorem Arbol.libro (tree : Arbol sb d x T) :
    Libro (ptrsPorBloque sb) sb.blocks (punteros sb d)
      (fun b => ∃ q, T q ∧ (punteros sb d).valor x q = b) (fun y q => y = x ∧ T q)
      (fun _ => False) where
  vacio _ here := tree.vacio here.2
  cerrado _ i j q here := ⟨here.1, tree.cerrado i j q here.2⟩
  indice _ i j q here := tree.indice i j q here.2
  rango := by
    rintro y q ⟨rfl, here⟩
    exact tree.rango q here
  inyectivo := by
    rintro y q z r ⟨rfl, here⟩ ⟨rfl, there⟩ same
    exact ⟨rfl, tree.inyectivo q r here there same⟩
  marca b := by simp
  ajeno _ _ _ outside := outside.elim

theorem Arbol.of_valor {S : List Nat → Prop} (tree : Arbol sb d x T) (sub : ∀ q, S q → T q)
    (closed : ∀ i j q, S (i :: j :: q) → S (j :: q))
    (same : ∀ q, S q → (punteros sb d').valor x q = (punteros sb d).valor x q) :
    Arbol sb d' x S where
  vacio here := tree.vacio (sub _ here)
  cerrado := closed
  indice i j q here := tree.indice i j q (sub _ here)
  lleno q here := by
    rw [same q here]
    exact tree.lleno q (sub q here)
  rango q here := by
    rw [same q here]
    exact tree.rango q (sub q here)
  inyectivo q r here there equal := by
    rw [same q here, same r there] at equal
    exact tree.inyectivo q r (sub q here) (sub r there) equal

/-- What a leaf leaves behind is closed. -/
theorem Arbol.cerrado_leaf (tree : Arbol sb d x T) (leaf : ∀ j, ¬T (j :: q)) (i j : Nat)
    (r : List Nat) (inside : T (i :: j :: r) ∧ i :: j :: r ≠ q) : T (j :: r) ∧ j :: r ≠ q := by
  refine ⟨tree.cerrado i j r inside.1, ?_⟩
  rintro rfl
  exact leaf i inside.1

/-! ### A block is freed -/

variable (sb)

/-- The bytes of block `b` become those of `m`. -/
def Disco.pisa (d : Disco) (b : Nat) (m : Memoria) : Disco :=
  { d with mem := fun a =>
      if posicionarInicioBloque sb b ≤ a ∧ a < posicionarInicioBloque sb b + tamanioDeBloque sb
      then m a else d.mem a }

/-- `liberarBloque`, after which the bytes of the block are whatever `f` makes of them. -/
def liberarYPisar (f : Disco → Memoria) (d : Disco) (slot : Slot) : Option Disco :=
  (liberarBloque sb d slot).map fun d' => d'.pisa sb (leerSlot d slot) (f d')

def Hecho.liberado : Hecho → Option Nat
  | .libera b => some b
  | _ => none

/-- The block numbers `liberarBloque` was given, the last one first. -/
def liberados (d : Disco) : List Nat := d.hechos.filterMap Hecho.liberado

variable {sb}

theorem liberarYPisar_mem : liberarYPisar sb Disco.mem = liberarBloque sb := by
  funext d slot
  rw [liberarYPisar]
  cases liberarBloque sb d slot <;> simp [Disco.pisa]

theorem liberados_grabarSlot (d : Disco) (slot : Slot) (n : Nat) :
    liberados (grabarSlot d slot n) = liberados d := by
  cases slot <;> rfl

theorem grabarSlot_size (d : Disco) (slot : Slot) (n : Nat) (y : Nat) :
    ((grabarSlot d slot n).inodo y).size = (d.inodo y).size := by
  cases slot with
  | disco dir => rfl
  | inodo z i =>
    by_cases here : y = z <;> simp [grabarSlot, Disco.ponInodo, INode.ponBloque, here]

theorem liberarBloque_liberados {slot : Slot} (run : liberarBloque sb d slot = some d') :
    liberados d' = leerSlot d slot :: liberados d := by
  simp only [liberarBloque, Option.bind_eq_bind, Option.bind_eq_some_iff, Option.some.injEq] at run
  obtain ⟨grupo, -, rfl⟩ := run
  rw [liberados_grabarSlot]
  rfl

/-- A tree does not see the bytes of a block it does not hold. -/
theorem Arbol.pisa (geo : Geometria sb) (tree : Arbol sb d x T) (bound : b < sb.blocks)
    (other : ∀ r, T r → (punteros sb d).valor x r ≠ b) (m : Memoria) (r : List Nat) (here : T r) :
    (punteros sb (d.pisa sb b m)).valor x r = (punteros sb d).valor x r := by
  have four := geo.ptrs
  refine (tree.libro.congr ?_ ?_).2 x r ⟨rfl, here⟩
  · exact fun _ _ _ => rfl
  rintro y j k q ⟨rfl, slot⟩
  have up := tree.cerrado j k q slot
  have far := geo.apart (tree.rango _ up) bound (other _ up)
  have width := tree.indice j k q slot
  have bytes : leer (d.pisa sb b m).mem (desplazarme sb ((punteros sb d).valor y (k :: q)) (j * 4))
      4 = leer d.mem (desplazarme sb ((punteros sb d).valor y (k :: q)) (j * 4)) 4 := by
    apply leer_congr
    intro a below
    refine if_neg ?_
    rw [desplazarme]
    omega
  simp only [punteros, slotDeBloque, leerSlot, leer32]
  exact congrArg fromLe bytes

/-- A leaf goes: the rest of the tree does not see its slot, nor the bytes of its block. -/
theorem Arbol.liberar (geo : Geometria sb) (covered : Cubierta sb) (tree : Arbol sb d x T)
    (member : T q) (leaf : ∀ j, ¬T (j :: q)) (f : Disco → Memoria) :
    ∃ d', liberarYPisar sb f d (slotDe sb d x q) = some d' ∧
      (∀ r, T r → r ≠ q → (punteros sb d').valor x r = (punteros sb d).valor x r) ∧
      liberados d' = (punteros sb d).valor x q :: liberados d ∧
      ∀ y, (d'.inodo y).size = (d.inodo y).size := by
  obtain ⟨i, p, rfl⟩ := List.exists_cons_of_ne_nil fun empty : q = [] => tree.vacio (empty ▸ member)
  have reads := leerSlot_slotDe sb d x i p
  obtain ⟨d1, freed⟩ := liberarBloque_vuelve geo covered (by rw [reads]; exact tree.lleno _ member)
    (by rw [reads]; exact tree.rango _ member)
  have trace := liberarBloque_liberados freed
  obtain ⟨d0, solo, rfl⟩ := liberarBloque_solo freed
  have parent : p ≠ [] → (punteros sb d0).valor x p < sb.blocks := by
    intro filled
    rw [solo.punteros]
    exact tree.rango p (tree.libro.parent_of_mem ⟨rfl, member⟩ filled).2
  have pone := pone_grabarSlot geo d0 parent (tree.libro.width_of_mem ⟨rfl, member⟩)
    (show 0 < 2 ^ 32 by omega)
  rw [solo.punteros, solo.slotDe] at pone
  have cleared : ∀ r, T r ∧ r ≠ i :: p →
      (punteros sb (grabarSlot d0 (slotDe sb d x (i :: p)) 0)).valor x r =
        (punteros sb d).valor x r := fun r rest =>
    tree.libro.valor_leaf pone ⟨rfl, member⟩ (fun j slot => leaf j slot.2) x r
      ⟨⟨rfl, rest.1⟩, fun same => rest.2 same.2⟩
  have pruned := tree.of_valor (S := fun r => T r ∧ r ≠ i :: p) (fun _ => And.left)
    (tree.cerrado_leaf leaf) cleared
  refine ⟨_, by rw [liberarYPisar, freed, Option.map_some], fun r old kept => ?_, ?_, fun y => ?_⟩
  · rw [reads, pruned.pisa geo (tree.rango _ member) ?_ _ r ⟨old, kept⟩, cleared r ⟨old, kept⟩]
    intro s rest same
    rw [cleared s rest] at same
    exact rest.2 (tree.inyectivo s _ rest.1 member same)
  · rw [← reads]
    exact trace
  · rw [← solo.inodo]
    exact grabarSlot_size d0 _ 0 y

/-! ### A block is stored -/

/-- The bytes of block `b` are the same on both disks. -/
def MismosBytes (sb : Superblock) (b : Nat) (d d' : Disco) : Prop :=
  ∀ j : Nat, j < tamanioDeBloque sb →
    d'.mem (posicionarInicioBloque sb b + j) = d.mem (posicionarInicioBloque sb b + j)

theorem MismosBytes.trans {d'' : Disco} (first : MismosBytes sb b d d')
    (second : MismosBytes sb b d' d'') : MismosBytes sb b d d'' := fun j below =>
  (second j below).trans (first j below)

/-- A block the tree does not hold is stored at a position that lies in a block of the tree. -/
theorem Arbol.asignar (geo : Geometria sb) (tree : Arbol sb d x T)
    (parent : q.tail ≠ [] → T q.tail ∧ q.headD 0 < ptrsPorBloque sb) (filled : q ≠ [])
    (out : ¬T q) (nonzero : b ≠ 0) (bound : b < sb.blocks)
    (fresh : ∀ r, T r → (punteros sb d).valor x r ≠ b) :
    Arbol sb (asignar d (slotDe sb d x q) b) x (fun r => T r ∨ r = q) ∧
      (∀ r, T r → (punteros sb (asignar d (slotDe sb d x q) b)).valor x r =
        (punteros sb d).valor x r) ∧
      (punteros sb (asignar d (slotDe sb d x q) b)).valor x q = b ∧
      ∀ r, T r → r ≠ q.tail →
        MismosBytes sb ((punteros sb d).valor x r) d (asignar d (slotDe sb d x q) b) := by
  obtain ⟨i, p, rfl⟩ := List.exists_cons_of_ne_nil filled
  simp only [List.tail_cons, List.headD_cons] at parent ⊢
  have below : p ≠ [] → (punteros sb d).valor x p < sb.blocks := fun inner =>
    tree.rango p (parent inner).1
  have pone := pone_grabarSlot geo d below (fun inner => (parent inner).2)
    (bound.trans geo.blocks_lt)
  have same : ∀ r, T r → (punteros sb (Rfs.asignar d (slotDe sb d x (i :: p)) b)).valor x r =
      (punteros sb d).valor x r := fun r here =>
    tree.libro.valor_eq pone (fun inner => ⟨rfl, (parent inner).1⟩) (fun _ _ => id)
      tree.libro.cerrado (fun slot => out slot.2) x r ⟨rfl, here⟩
  have self : (punteros sb (Rfs.asignar d (slotDe sb d x (i :: p)) b)).valor x (i :: p) = b :=
    tree.libro.valor_self pone (fun inner => ⟨rfl, (parent inner).1⟩)
      (fun inner => (parent inner).2) fun slot => out slot.2
  refine ⟨?_, same, self, fun r here other => ?_⟩
  · constructor
    · rintro (empty | empty)
      · exact tree.vacio empty
      · cases empty
    · rintro a j r (old | new)
      · exact .inl (tree.cerrado a j r old)
      · obtain ⟨rfl, rfl⟩ := List.cons.inj new
        exact .inl (parent (by simp)).1
    · rintro a j r (old | new)
      · exact tree.indice a j r old
      · obtain ⟨rfl, rfl⟩ := List.cons.inj new
        exact (parent (by simp)).2
    · rintro r (old | rfl)
      · rw [same r old]
        exact tree.lleno r old
      · rwa [self]
    · rintro r (old | rfl)
      · rw [same r old]
        exact tree.rango r old
      · rwa [self]
    · rintro r s (old | rfl) (older | rfl) equal
      · rw [same r old, same s older] at equal
        exact tree.inyectivo r s old older equal
      · rw [same r old, self] at equal
        exact absurd equal (fresh r old)
      · rw [same s older, self] at equal
        exact absurd equal.symm (fresh s older)
      · rfl
  · have frame : Marco sb x (fun c => c = (punteros sb d).valor x p) d
        (grabarSlot d (slotDe sb d x (i :: p)) b) :=
      .grabarSlot geo below (fun inner => (parent inner).2) fun _ => rfl
    cases p with
    | nil => exact fun j _ => rfl
    | cons k s =>
      refine frame.bytes _ (tree.rango r here) fun equal => other ?_
      exact tree.inyectivo r (k :: s) here (parent (by simp)).1 equal

/-- A tree does not see the bytes of its leaves. -/
theorem Arbol.copia (geo : Geometria sb) (tree : Arbol sb d x T) (member : T q)
    (leaf : ∀ j, ¬T (j :: q)) {desp : Nat} {bytes : List UInt8}
    (inside : desp + bytes.length ≤ tamanioDeBloque sb) (r : List Nat) (here : T r) :
    (punteros sb (d.copia (desplazarme sb ((punteros sb d).valor x q) desp) bytes)).valor x r =
      (punteros sb d).valor x r := by
  have four := geo.ptrs
  refine (tree.libro.congr ?_ ?_).2 x r ⟨rfl, here⟩
  · exact fun _ _ _ => rfl
  rintro y j k s ⟨rfl, slot⟩
  have up := tree.cerrado j k s slot
  have width := tree.indice j k s slot
  have different : (punteros sb d).valor y q ≠ (punteros sb d).valor y (k :: s) := by
    intro equal
    obtain rfl := tree.inyectivo q (k :: s) member up equal
    exact leaf j slot
  have far := geo.apart (tree.rango q member) (tree.rango _ up) different
  apply leer32_copia_disjoint d
  rw [desplazarme, desplazarme]
  omega

theorem mismosBytes_copia (geo : Geometria sb) {c desp : Nat} {bytes : List UInt8}
    (bound : b < sb.blocks) (other : c < sb.blocks) (different : b ≠ c)
    (inside : desp + bytes.length ≤ tamanioDeBloque sb) :
    MismosBytes sb c d (d.copia (desplazarme sb b desp) bytes) := fun j below =>
  (Marco.copia (x := 0) (W := fun e => e = b) geo bound inside rfl).bytes c other different.symm j
    below

end LosAltos.Rfs
