import LosAltos.Rfs.Resize

/-!
# Every block has one owner

What the five operations of `funciones_rfs.c` keep: each block an inode needs for its
size is marked, not zero, and stored in one slot of one inode. The invariant, `Duenio`,
ranges over all inodes of the tables, allocated or not, since a path may lead to either.
-/
namespace LosAltos.Rfs

open Lib

section
variable (sb : Superblock)

/-- An inode of the tables. -/
def esInodo (x : Nat) : Prop := 1 ≤ x ∧ (x - 1) / sb.inodesPerGroup < cantidadDeGrupos sb

/-- The positions each inode needs for its size. -/
def deTamanio (d : Disco) : Nat → List Nat → Prop := fun x q =>
  esInodo sb x ∧ Vivo (ptrsPorBloque sb) (bloquesDe sb (d.inodo x).size.toNat) q

def Duenio (d : Disco) : Prop := ∃ E, Obra sb (deTamanio sb d) E d

/-- What an operation may not do if blocks are to keep one owner. -/
def Permitido : Hecho → Prop
  | .pide _ => True
  | .libera _ => sb.firstDataBlock = 1
  | .asigna b => b ≠ 0
  | .escribe _ _ => True
  | .crece eof offset => eof ≤ offset
  | .entrada desp len => desp + len ≤ tamanioDeBloque sb
  | .ensancha k => k < 12 ∨ (k - 12) % ptrsPorBloque sb ≠ 0
  | .vacia => False

def Cumple (d : Disco) : Prop := ∀ h ∈ d.hechos, Permitido sb h

end

variable {sb : Superblock} {S : Nat → List Nat → Prop} {E : Nat → Prop} {d d' : Disco} {x k : Nat}

instance : DecidablePred (Permitido sb)
  | .pide _ => isTrue trivial
  | .libera _ => inferInstanceAs (Decidable (_ = _))
  | .asigna _ => inferInstanceAs (Decidable (_ ≠ _))
  | .escribe _ _ => isTrue trivial
  | .crece _ _ => inferInstanceAs (Decidable (_ ≤ _))
  | .entrada _ _ => inferInstanceAs (Decidable (_ ≤ _))
  | .ensancha _ => inferInstanceAs (Decidable (_ ∨ _))
  | .vacia => isFalse id

namespace Cumple

theorem antes (meets : Cumple sb d') (derives : Deriva d d') : Cumple sb d := fun h member =>
  meets h (derives.mem_hechos member)

theorem stored (meets : Cumple sb d) : Hecho.asigna 0 ∉ d.hechos := fun member =>
  meets _ member rfl

theorem freed (meets : Cumple sb d) (b : Nat) (member : Hecho.libera b ∈ d.hechos) :
    sb.firstDataBlock = 1 := meets _ member

theorem grown (meets : Cumple sb d) (eof n : Nat) (member : Hecho.crece eof n ∈ d.hechos) :
    eof ≤ n := meets _ member

end Cumple

theorem getInodo_of_esInodo (valid : esInodo sb x) : getInodo sb x = some (some x) := by
  have positive := valid.1
  rw [getInodo, if_neg (by omega), if_pos valid.2]

theorem getInodo_some {n : Nat} {node : Option Nat} (run : getInodo sb n = some node)
    (present : node = some x) : x = n ∧ esInodo sb x := by
  subst present
  rw [getInodo] at run
  split at run
  · cases run
  split at run
  · rename_i positive inside
    cases run
    exact ⟨rfl, by omega, inside⟩
  · cases run

/-! ### Forests and sizes -/

theorem deTamanio_closed (d : Disco) (y i j : Nat) (q : List Nat)
    (member : deTamanio sb d y (i :: j :: q)) : deTamanio sb d y (j :: q) :=
  ⟨member.1, member.2.parent⟩

/-- Positions nobody needs any more may be given up. -/
theorem Obra.duenio (obra : Obra sb S E d) (sub : ∀ y q, deTamanio sb d y q → S y q) :
    Duenio sb d :=
  ⟨_, obra.libro.olvidar sub (deTamanio_closed d), obra.tablas⟩

theorem Obra.soltar (obra : Obra sb S E d) (x : Nat) :
    ∃ F, Obra sb (conBloques sb S x 0) F d := by
  refine ⟨_, obra.libro.olvidar ?_ ?_, obra.tablas⟩
  · rintro y q (⟨-, old⟩ | ⟨-, live⟩)
    · exact old
    · exact absurd live not_vivo_zero
  · rintro y i j q (⟨other, old⟩ | ⟨-, live⟩)
    · exact .inl ⟨other, obra.libro.cerrado y i j q old⟩
    · exact absurd live not_vivo_zero

theorem punteros_congr (mem : d'.mem = d.mem)
    (words : ∀ y j, (d'.inodo y).blocks j = (d.inodo y).blocks j) :
    punteros sb d' = punteros sb d := by
  simp only [punteros, leerSlot, slotDeBloque, leer32, words, mem]

/-- The tables of inodes and the fields of inodes other than the block numbers. -/
theorem Obra.inodos (obra : Obra sb S E d) (same : MismosBloques d d') (mem : d'.mem = d.mem)
    (words : ∀ y j, (d'.inodo y).blocks j = (d.inodo y).blocks j) : Obra sb S E d' :=
  obra.con_libro same (by rw [punteros_congr mem words]; exact obra.libro)

theorem ponInodo_blocks {node : INode} (words : ∀ j, node.blocks j = (d.inodo x).blocks j)
    (y j : Nat) : ((d.ponInodo x node).inodo y).blocks j = (d.inodo y).blocks j := by
  by_cases here : y = x <;> simp [Disco.ponInodo, here, words]

theorem ponSize_size (d : Disco) (x size y : Nat) :
    ((ponSize d x size).inodo y).size.toNat =
      if y = x then size % 2 ^ 32 else (d.inodo y).size.toNat := by
  by_cases here : y = x <;> simp [ponSize, Disco.ponInodo, here]

@[simp] theorem punteros_ponSize (d : Disco) (x size : Nat) :
    punteros sb (ponSize d x size) = punteros sb d :=
  punteros_congr rfl (ponInodo_blocks fun _ => rfl)

theorem Obra.ponSize (obra : Obra sb S E d) (x size : Nat) : Obra sb S E (ponSize d x size) :=
  obra.inodos ⟨rfl, rfl, fun _ => rfl⟩ rfl (ponInodo_blocks fun _ => rfl)

theorem conBloques_deTamanio (valid : esInodo sb x) (y : Nat) (q : List Nat) :
    conBloques sb (deTamanio sb d) x (bloquesDe sb (d.inodo x).size.toNat) y q ↔
      deTamanio sb d y q := by
  by_cases here : y = x
  · subst here
    simp [conBloques, deTamanio, valid]
  · simp [conBloques, here]

/-- The positions after the inode `x` has been given another size. -/
theorem deTamanio_sub {n : Nat} (others : ∀ y, y ≠ x → bloquesDe sb (d'.inodo y).size.toNat ≤
    bloquesDe sb (d.inodo y).size.toNat) (size : bloquesDe sb (d'.inodo x).size.toNat ≤ n)
    (y : Nat) (q : List Nat) (member : deTamanio sb d' y q) :
    conBloques sb (deTamanio sb d) x n y q := by
  obtain ⟨valid, k, below, starts⟩ := member
  by_cases here : y = x
  · subst here
    exact .inr ⟨rfl, k, by omega, starts⟩
  · have := others y here
    exact .inl ⟨here, valid, k, by omega, starts⟩

theorem deTamanio_mono (le : ∀ y, bloquesDe sb (d'.inodo y).size.toNat ≤
    bloquesDe sb (d.inodo y).size.toNat) (y : Nat) (q : List Nat)
    (member : deTamanio sb d' y q) : deTamanio sb d y q := by
  obtain ⟨valid, k, below, starts⟩ := member
  exact ⟨valid, k, below.trans_le (le y), starts⟩

theorem bloquesDe_le (size : ∀ y, (d'.inodo y).size = (d.inodo y).size ∨ (d'.inodo y).size = 0)
    (y : Nat) : bloquesDe sb (d'.inodo y).size.toNat ≤ bloquesDe sb (d.inodo y).size.toNat := by
  rcases size y with same | zero
  · rw [same]
  · rw [zero]
    exact bloquesDe_mono (Nat.zero_le _)

/-! ### Truncation -/

theorem duenio_truncarInodo (geo : Geometria sb) (valid : esInodo sb x) (owner : Duenio sb d)
    {offset code : Nat} (limit : offset < 2 ^ 32)
    (run : truncarInodo sb d x offset = some (code, d')) (meets : Cumple sb d') :
    Duenio sb d' := by
  obtain ⟨E, obra⟩ := owner
  have start : Obra sb (conBloques sb (deTamanio sb d) x (bloquesDe sb (d.inodo x).size.toNat))
      E d := ⟨obra.libro.of_iff (conBloques_deTamanio valid), obra.tablas⟩
  rcases Paso.truncarInodo geo limit start run meets.stored meets.freed meets.grown with
    ⟨-, rfl⟩ | ⟨-, d1, rfl, step⟩
  · exact ⟨E, obra⟩
  refine (step.obra.ponSize x offset).duenio (deTamanio_sub ?_ ?_)
  · intro y other
    have same := step.marco.otros y other
    rw [ponSize_size, if_neg other, same]
  · rw [ponSize_size, if_pos rfl, Nat.mod_eq_of_lt limit]

theorem duenio_liberarInodo (geo : Geometria sb) (owner : Duenio sb d)
    (run : liberarInodo sb d x = some d') (meets : Cumple sb d') : Duenio sb d' := by
  simp only [liberarInodo, Option.bind_eq_bind, Option.bind_eq_some_iff] at run
  obtain ⟨node, found, y, present, run⟩ := run
  obtain ⟨rfl, valid⟩ := getInodo_some found present
  split at run
  · simp only [Option.bind_eq_some_iff, Option.some.injEq] at run
    obtain ⟨d1, freed, grupo, group, rfl⟩ := run
    obtain ⟨E, obra⟩ := owner
    have vivos : ∀ q, deTamanio sb d y q ↔
        Vivo (ptrsPorBloque sb) (bloquesDe sb (d.inodo y).size.toNat) q := by
      simp [deTamanio, valid]
    have start : Obra sb (sinDatos sb (deTamanio sb d) y 0) E d := by
      refine ⟨obra.libro.of_iff fun z q => ⟨And.left, fun old => ⟨old, ?_⟩⟩, obra.tablas⟩
      rintro ⟨-, k, below, -⟩
      omega
    rw [List.range_eq_range'] at freed
    have step := Paso.liberarBloques geo _ start vivos (by omega) freed meets.freed
    apply Obra.duenio (S := sinDatos sb (deTamanio sb d) y
      (0 + bloquesDe sb (d.inodo y).size.toNat)) (E := E)
    · refine step.obra.inodos ⟨rfl, rfl, fun g => ?_⟩ rfl (ponInodo_blocks fun _ => rfl)
      rw [leerGroupDescriptor] at group
      split at group
      · cases group
        by_cases here : g = resta32 y sb.firstDataBlock / sb.inodesPerGroup <;>
          simp [Disco.ponInodo, Disco.ponGrupo, Disco.ponBitInodo, here]
      · cases group
    · rintro z q ⟨valid', live⟩
      by_cases here : z = y
      · subst here
        simp only [Disco.ponInodo, ↓reduceIte] at live
        rw [show (0 : UInt32).toNat = 0 from rfl, bloquesDe_zero] at live
        exact absurd live not_vivo_zero
      · have same := step.marco.otros z here
        simp only [Disco.ponInodo, here, ↓reduceIte, Disco.ponGrupo, Disco.ponBitInodo, same] at live
        exact ⟨⟨valid', live⟩, fun gone => here gone.1⟩
  · cases run

/-! ### Entries of a directory -/

section
variable (sb)

/-- Bytes of data blocks were written, and sizes at most set to 0. -/
structure Escritura (S : Nat → List Nat → Prop) (E : Nat → Prop) (d d' : Disco) : Prop where
  obra : Obra sb S E d'
  valor : ∀ y q, S y q → (punteros sb d').valor y q = (punteros sb d).valor y q
  size : ∀ y, (d'.inodo y).size = (d.inodo y).size ∨ (d'.inodo y).size = 0

end

theorem Escritura.trans {d'' : Disco} (first : Escritura sb S E d d')
    (second : Escritura sb S E d' d'') : Escritura sb S E d d'' := by
  refine ⟨second.obra, fun y q member => ?_, fun y => ?_⟩
  · rw [second.valor y q member, first.valor y q member]
  · rcases second.size y with same | zero
    · rw [same]
      exact first.size y
    · exact .inr zero

theorem Escritura.duenio (wrote : Escritura sb (deTamanio sb d) E d d') : Duenio sb d' :=
  wrote.obra.duenio (deTamanio_mono (bloquesDe_le wrote.size))

section
variable (geo : Geometria sb) {n desp : Nat} {inicio : Int}
include geo

/-- An entry written inside block `k` of the directory `x`. -/
theorem Escritura.grabarEntrada {e : DirEntry} (obra : Obra sb S E d)
    (vivos : ∀ q, S x q ↔ Vivo (ptrsPorBloque sb) n q)
    (bound : k < 12 + ptrsPorBloque sb + ptrsPorBloque sb * ptrsPorBloque sb +
      ptrsPorBloque sb * ptrsPorBloque sb * ptrsPorBloque sb) (owned : k < n)
    (start : inicio = desplazarme sb ((punteros sb d).valor x (camino (ptrsPorBloque sb) k)) 0)
    (meets : Cumple sb (grabarEntrada d inicio desp e)) :
    Escritura sb S E d (Rfs.grabarEntrada d inicio desp e) := by
  have inside : desp + e.bytes.length ≤ tamanioDeBloque sb := meets _ (List.mem_cons_self ..)
  have step := Paso.bloque geo obra vivos bound owned inside
  have place : inicio + desp =
      desplazarme sb ((punteros sb d).valor x (camino (ptrsPorBloque sb) k)) desp := by
    rw [start, desplazarme, desplazarme]
    omega
  rw [Rfs.grabarEntrada, place]
  have noted := step.crecer (.anota step.obra (.entrada desp e.bytes.length)) (fun _ _ => id)
    fun _ _ => id
  exact ⟨noted.obra, fun y q member => noted.valor y q member member, fun y => .inl rfl⟩

end

theorem getInodoLibre_solo {n : Nat} (run : getInodoLibre sb d = some (n, d')) :
    MismosBloques d d' ∧ d'.mem = d.mem ∧ d'.inodo = d.inodo := by
  rw [getInodoLibre] at run
  split at run
  · cases run
    exact ⟨⟨rfl, rfl, fun _ => rfl⟩, rfl, rfl⟩
  · simp only [actualizarEstructurasCuandoPidoInodo, Option.bind_eq_bind, Option.bind_eq_some_iff,
      Option.some.injEq] at run
    obtain ⟨nro, -, after, ⟨grupo, group, rfl⟩, run⟩ := run
    cases run
    rw [leerGroupDescriptor] at group
    split at group
    · cases group
      refine ⟨⟨rfl, rfl, fun g => ?_⟩, rfl, rfl⟩
      by_cases here : g = (n - 1) / sb.inodesPerGroup <;>
        simp [Disco.ponGrupo, Disco.ponBitInodo, here]
    · cases group

theorem agregarNuevaEntrada_escritura (geo : Geometria sb) {n desp size code : Nat} {inicio : Int}
    {nombre : Cadena} (obra : Obra sb S E d) (vivos : ∀ q, S x q ↔ Vivo (ptrsPorBloque sb) n q)
    (bound : k < 12 + ptrsPorBloque sb + ptrsPorBloque sb * ptrsPorBloque sb +
      ptrsPorBloque sb * ptrsPorBloque sb * ptrsPorBloque sb) (owned : k < n)
    (start : inicio = desplazarme sb ((punteros sb d).valor x (camino (ptrsPorBloque sb) k)) 0)
    (run : agregarNuevaEntrada sb d inicio desp nombre size = some (code, d'))
    (meets : Cumple sb d') : Escritura sb S E d d' := by
  simp only [agregarNuevaEntrada, Option.bind_eq_bind, Option.bind_eq_some_iff] at run
  obtain ⟨⟨nro, d1⟩, asked, run⟩ := run
  obtain ⟨same, mem, inodes⟩ := getInodoLibre_solo asked
  have taken : Escritura sb S E d d1 := by
    refine ⟨obra.inodos same mem fun y j => by rw [inodes], fun y q _ => ?_, fun y => ?_⟩
    · rw [punteros_congr mem fun y j => by rw [inodes]]
    · rw [inodes]
      exact .inl rfl
  split at run
  · simp only [Option.bind_eq_some_iff] at run
    obtain ⟨node, -, y, -, run⟩ := run
    cases run
    have start1 : inicio =
        desplazarme sb ((punteros sb d1).valor x (camino (ptrsPorBloque sb) k)) 0 := by
      rw [start, taken.valor x _ ((vivos _).mpr ⟨k, owned, inicia_camino bound⟩)]
    have wrote := Escritura.grabarEntrada geo taken.obra vivos bound owned start1 meets
    refine (taken.trans wrote).trans ⟨wrote.obra.ponSize y 0, fun z q _ => ?_, fun z => ?_⟩
    · rw [punteros_ponSize]
    by_cases here : z = y
    · exact .inr (by simp [ponSize, Disco.ponInodo, here])
    · exact .inl (by simp [ponSize, Disco.ponInodo, here])
  · cases run
    exact taken

theorem primerBloque_mem {α : Type} {f : Nat → Option (Option α)} {ks : List Nat} {a : α}
    (run : primerBloque f ks = some (some (k, a))) : k ∈ ks ∧ f k = some (some a) := by
  induction ks with
  | nil => cases run
  | cons j ks ih =>
    simp only [primerBloque, Option.bind_eq_bind, Option.bind_eq_some_iff] at run
    obtain ⟨answer, found, run⟩ := run
    cases answer with
    | some a =>
      cases run
      exact ⟨List.mem_cons_self .., found⟩
    | none =>
      obtain ⟨member, value⟩ := ih run
      exact ⟨List.mem_cons_of_mem _ member, value⟩

/-- An entry is found in a block of the directory. -/
theorem buscarEntrada_some {p : DirEntry → Bool} {desp anterior : Nat} {e : DirEntry}
    (run : buscarEntrada sb d x p = some (some (k, desp, anterior, e))) :
    k < bloquesDe sb (d.inodo x).size.toNat ∧ ∃ inicio, posicionarme sb d x k 0 = some inicio ∧
      recorrerBloque sb d inicio p pasosMaximos 0 0 = some (some (desp, anterior, e)) := by
  simp only [buscarEntrada, Option.bind_eq_bind, Option.bind_eq_some_iff] at run
  obtain ⟨hallada, walked, run⟩ := run
  split at run
  · cases run
    obtain ⟨member, value⟩ := primerBloque_mem walked
    simp only [Option.bind_eq_some_iff] at value
    exact ⟨List.mem_range.mp member, value⟩
  · cases run

theorem deTamanio_vivo (valid : esInodo sb x) (q : List Nat) : deTamanio sb d x q ↔
    Vivo (ptrsPorBloque sb) (bloquesDe sb (d.inodo x).size.toNat) q := by
  simp [deTamanio, valid]

/-- A directory whose blocks are all full gets another one. -/
theorem duenio_ensanchar (geo : Geometria sb) (valid : esInodo sb x) (owner : Duenio sb d)
    {nombre : Cadena} {b code : Nat} {d1 d2 d3 : Disco} {inicio : Int} (nonzero : b ≠ 0)
    (size : k = bloquesDe sb (d.inodo x).size.toNat)
    (asked : getBloqueLibre sb d = some (b, d1))
    (stores : agregarAInodo sb (d1.anota (.ensancha k)) x k b = some d2)
    (found : posicionarme sb d2 x k 0 = some inicio)
    (wrote : agregarNuevaEntrada sb d2 inicio 0 nombre (tamanioDeBloque sb) = some (code, d3))
    (meets : Cumple sb d3) :
    ∃ E, Obra sb (conBloques sb (deTamanio sb d) x (k + 1)) E d3 ∧
      ∀ y, (d3.inodo y).size = (d.inodo y).size ∨ (d3.inodo y).size = 0 := by
  obtain ⟨E, obra⟩ := owner
  obtain ⟨bound, rfl⟩ := posicionarme_camino found
  have vivos := size ▸ deTamanio_vivo (d := d) valid
  obtain ⟨small, waiting, taken⟩ := Paso.pedir (x := x) geo obra asked nonzero
  have noted := Paso.anota (x := x) taken.obra (.ensancha k)
  have widened : Permitido sb (.ensancha k) := by
    refine meets _ ((agregarNuevaEntrada_deriva wrote).mem_hechos ?_)
    exact (agregarAInodo_deriva stores).mem_hechos (List.mem_cons_self ..)
  -- away from the boundaries the block needs no indirection block of its own
  have start : Obra sb (conHasta sb (deTamanio sb d) x k (camino (ptrsPorBloque sb) k).length)
      (fun c => E c ∨ c = b) (d1.anota (.ensancha k)) := by
    refine ⟨noted.obra.libro.of_iff fun y q => ⟨?_, .inl⟩, noted.obra.tablas⟩
    rintro (old | ⟨-, starts, short⟩)
    · exact old
    · rw [inicia_solo bound widened starts] at short
      omega
  have stored := Paso.agregarAInodo geo start waiting small vivos stores
  have whole : Obra sb (conBloques sb (deTamanio sb d) x (k + 1)) E d2 := by
    refine ⟨stored.obra.libro.of_iff fun y q => ?_, stored.obra.tablas⟩
    rw [conBloques_succ, size, conBloques_deTamanio valid]
  have written := agregarNuevaEntrada_escritura geo whole conBloques_self bound (by omega) rfl wrote
    meets
  refine ⟨E, written.obra, fun y => ?_⟩
  have sizes : (d2.inodo y).size = (d.inodo y).size := by
    have taken_inodo := (getBloqueLibre_solo asked).inodo
    by_cases here : y = x
    · subst here
      rw [stored.marco.size]
      exact congrArg (fun f => (f y).size) taken_inodo
    · rw [stored.marco.otros y here]
      exact congrArg (fun f => (f y).size) taken_inodo
  rw [← sizes]
  exact written.size y

theorem duenio_agregarEntradaDirectorio (geo : Geometria sb) (valid : esInodo sb x)
    (owner : Duenio sb d) {nombre : Cadena} {code : Nat}
    (run : agregarEntradaDirectorio sb d x nombre = some (code, d')) (meets : Cumple sb d') :
    Duenio sb d' := by
  simp only [agregarEntradaDirectorio, Option.bind_eq_bind, Option.bind_eq_some_iff] at run
  obtain ⟨hallada, found, run⟩ := run
  cases hallada with
  | some entrada =>
    obtain ⟨k, desp, anterior, e⟩ := entrada
    simp only [Option.bind_eq_some_iff] at run
    obtain ⟨inicio, place, ⟨error, d1⟩, wrote, run⟩ := run
    obtain ⟨E, obra⟩ := owner
    obtain ⟨bound, start⟩ := posicionarme_camino place
    have vivos := deTamanio_vivo (d := d) valid
    have owned := (buscarEntrada_some found).1
    split at run
    · cases run
      have first := agregarNuevaEntrada_escritura geo obra vivos bound owned start wrote
        (meets.antes (grabarEntrada_deriva ..))
      have start1 : inicio =
          desplazarme sb ((punteros sb d1).valor x (camino (ptrsPorBloque sb) k)) 0 := by
        rw [start, first.valor x _ ((vivos _).mpr ⟨k, owned, inicia_camino bound⟩)]
      have second := Escritura.grabarEntrada geo first.obra vivos bound owned start1 meets
      exact (first.trans second).duenio
    · cases run
      exact (agregarNuevaEntrada_escritura geo obra vivos bound owned start wrote meets).duenio
  | none =>
    simp only [Option.bind_eq_some_iff] at run
    obtain ⟨⟨b, d1⟩, asked, run⟩ := run
    split at run
    · rename_i zero
      cases run
      obtain ⟨E, obra⟩ := owner
      rcases obra.pedir geo asked with ⟨-, same⟩ | ⟨nonzero, -⟩
      · refine same.duenio fun y q member => ?_
        rwa [deTamanio, (getBloqueLibre_solo asked).inodo] at member
      · exact absurd zero nonzero
    rename_i nonzero
    simp only [Option.bind_eq_some_iff] at run
    obtain ⟨d2, stores, inicio, place, ⟨error, d3⟩, wrote, run⟩ := run
    split at run
    · cases run
      obtain ⟨E, obra, size⟩ := duenio_ensanchar geo valid owner nonzero rfl asked stores place
        wrote (meets.antes (.of_eq rfl rfl))
      refine (obra.ponSize x _).duenio (deTamanio_sub ?_ ?_)
      · intro y other
        rw [ponSize_size, if_neg other]
        exact bloquesDe_le size y
      · rw [ponSize_size, if_pos rfl]
        calc bloquesDe sb (((d3.inodo x).size.toNat + tamanioDeBloque sb) % 2 ^ 32)
          _ ≤ bloquesDe sb ((d3.inodo x).size.toNat + tamanioDeBloque sb) :=
            bloquesDe_mono (Nat.mod_le ..)
          _ = bloquesDe sb (d3.inodo x).size.toNat + 1 := bloquesDe_add
          _ ≤ bloquesDe sb (d.inodo x).size.toNat + 1 := Nat.succ_le_succ (bloquesDe_le size x)
    · cases run
      obtain ⟨E, obra, size⟩ := duenio_ensanchar geo valid owner nonzero rfl asked stores place
        wrote meets
      exact obra.duenio (deTamanio_sub (fun y _ => bloquesDe_le size y)
        (Nat.le_succ_of_le (bloquesDe_le size x)))

theorem duenio_eliminarEntradaDirectorio (geo : Geometria sb) (valid : esInodo sb x)
    (owner : Duenio sb d) {nombre : Cadena}
    (run : eliminarEntradaDirectorio sb d x nombre = some d') (meets : Cumple sb d') :
    Duenio sb d' := by
  simp only [eliminarEntradaDirectorio, Option.bind_eq_bind, Option.bind_eq_some_iff] at run
  obtain ⟨hallada, found, ⟨k, desp, anterior, e⟩, rfl, run⟩ := run
  split at run
  · simp only [Option.bind_eq_some_iff] at run
    obtain ⟨slot, -, freed⟩ := run
    exact (meets _ ((liberarBloque_deriva freed).mem_hechos (List.mem_cons_self ..))).elim
  · simp only [Option.bind_eq_some_iff, Option.some.injEq] at run
    obtain ⟨inicio, place, rfl⟩ := run
    obtain ⟨E, obra⟩ := owner
    obtain ⟨bound, start⟩ := posicionarme_camino place
    exact (Escritura.grabarEntrada geo obra (deTamanio_vivo valid) bound
      (buscarEntrada_some found).1 start meets).duenio

/-! ### A new inode -/

/-- An inode set up as a directory has its first block, any other none. -/
theorem duenio_setearInodo (geo : Geometria sb) (owner : Duenio sb d)
    {mode : UInt16} {code : Nat} (run : setearInodo sb d x mode = some (code, d')) :
    Duenio sb d' := by
  obtain ⟨E, obra⟩ := owner
  rw [setearInodo] at run
  split at run
  · simp only [Option.bind_eq_bind, Option.bind_eq_some_iff] at run
    obtain ⟨⟨b, d1⟩, asked, run⟩ := run
    have inodes := (getBloqueLibre_solo asked).inodo
    have sizes : ∀ y, (d1.inodo y).size = (d.inodo y).size := by
      intro y
      rw [inodes]
      by_cases here : y = x <;> simp [Disco.ponInodo, here]
    obtain ⟨F, empty⟩ := obra.soltar x
    split at run
    · rename_i zero
      cases run
      have same : Obra sb (deTamanio sb d) E (d.ponInodo x { d.inodo x with mode, links := 2 }) :=
        obra.inodos ⟨rfl, rfl, fun _ => rfl⟩ rfl (ponInodo_blocks fun _ => rfl)
      rcases same.pedir geo asked with ⟨-, same⟩ | ⟨nonzero, -⟩
      · refine same.duenio fun y q member => ?_
        rwa [deTamanio, sizes] at member
      · exact absurd zero nonzero
    · rename_i nonzero
      cases run
      have same : Obra sb (conBloques sb (deTamanio sb d) x 0) F
          (d.ponInodo x { d.inodo x with mode, links := 2 }) :=
        empty.inodos ⟨rfl, rfl, fun _ => rfl⟩ rfl (ponInodo_blocks fun _ => rfl)
      obtain ⟨small, waiting, taken⟩ := Paso.pedir (x := x) geo same asked nonzero
      have stored := taken.obra.asignar (x := x) (i := 0) (p := []) geo waiting small
        (by simp) (by simp) (by rw [conBloques_self]; exact not_vivo_zero)
      refine (stored.ponSize x (tamanioDeBloque sb)).duenio fun y q member => ?_
      have one : conBloques sb (deTamanio sb d) x (0 + 1) y q := by
        refine deTamanio_sub (fun z other => ?_) ?_ y q member
        · rw [ponSize_size, if_neg other]
          simp [asignar, grabarSlot, slotDe, Disco.anota, Disco.ponInodo, other, sizes]
        · rw [ponSize_size, if_pos rfl]
          calc bloquesDe sb (tamanioDeBloque sb % 2 ^ 32)
            _ ≤ bloquesDe sb (1 * tamanioDeBloque sb) := bloquesDe_mono (by
              rw [Nat.one_mul]
              exact Nat.mod_le ..)
            _ = 1 := bloquesDe_mul
      rwa [conBloques_succ, inicia_directo (by omega)] at one
  · cases run
    have same : Obra sb (deTamanio sb d) E
        (d.ponInodo x { d.inodo x with mode, links := 1, size := 0 }) :=
      obra.inodos ⟨rfl, rfl, fun _ => rfl⟩ rfl (ponInodo_blocks fun _ => rfl)
    refine same.duenio (deTamanio_mono (bloquesDe_le fun y => ?_))
    by_cases here : y = x <;> simp [Disco.ponInodo, here]

/-- The mode of a regular file is not that of a directory, whatever else it has. -/
theorem modo_archivo (mode : UInt16) : (mode ||| S_IFREG) &&& 0xF000 ≠ S_IFDIR := by
  intro same
  have bit := congrArg (fun m => m.toBitVec.getLsbD 15) same
  simp [S_IFREG, S_IFDIR] at bit

/-- A regular file takes no block. -/
theorem setearInodo_archivo {mode : UInt32} {code : Nat}
    (run : setearInodo sb d x (mode.toUInt16 ||| S_IFREG) = some (code, d')) :
    code = 0 ∧ d' = d.ponInodo x
      { d.inodo x with mode := mode.toUInt16 ||| S_IFREG, links := 1, size := 0 } := by
  rw [setearInodo, if_neg (modo_archivo _)] at run
  cases run
  exact ⟨rfl, rfl⟩

theorem setearInodo_size {mode : UInt16} {code : Nat} (kind : mode &&& 0xF000 = S_IFDIR)
    (run : setearInodo sb d x mode = some (code, d')) (done : code = 0) :
    (d'.inodo x).size.toNat = tamanioDeBloque sb % 2 ^ 32 := by
  subst done
  rw [setearInodo, if_pos kind] at run
  simp only [Option.bind_eq_bind, Option.bind_eq_some_iff] at run
  obtain ⟨⟨b, d1⟩, -, run⟩ := run
  split at run
  · cases run
  · cases run
    rw [ponSize_size, if_pos rfl]

theorem duenio_inicializarEntradasNuevoDir (geo : Geometria sb) (valid : esInodo sb x)
    (owner : Duenio sb d) {nro : Nat} (filled : 0 < (d.inodo x).size.toNat)
    (run : inicializarEntradasNuevoDir sb d x nro = some d') (meets : Cumple sb d') :
    Duenio sb d' := by
  simp only [inicializarEntradasNuevoDir, Option.bind_eq_bind, Option.bind_eq_some_iff,
    Option.some.injEq] at run
  obtain ⟨inicio, place, inicio', place', rfl⟩ := run
  obtain ⟨E, obra⟩ := owner
  obtain ⟨bound, start⟩ := posicionarme_camino place
  obtain ⟨-, start'⟩ := posicionarme_camino place'
  have owned : 0 < bloquesDe sb (d.inodo x).size.toNat := by
    rw [bloquesDe_pos filled]
    exact Nat.succ_pos _
  have vivos := deTamanio_vivo (d := d) valid
  have first := Escritura.grabarEntrada geo obra vivos bound owned start
    (meets.antes (grabarEntrada_deriva ..))
  have second := Escritura.grabarEntrada geo first.obra vivos bound owned start' meets
  exact (first.trans second).duenio

theorem duenio_contarDirectorio (owner : Duenio sb d) {nro : Nat} {f : UInt16 → UInt16}
    (run : contarDirectorio sb d nro f = some d') : Duenio sb d' := by
  simp only [contarDirectorio, Option.bind_eq_bind, Option.bind_eq_some_iff,
    Option.some.injEq] at run
  obtain ⟨grupo, group, rfl⟩ := run
  obtain ⟨E, obra⟩ := owner
  rw [leerGroupDescriptor] at group
  split at group
  · cases group
    refine ⟨E, obra.inodos ⟨rfl, rfl, fun g => ?_⟩ rfl fun _ _ => rfl⟩
    by_cases here : g = resta32 nro 1 / sb.inodesPerGroup <;> simp [Disco.ponGrupo, here]
  · cases group

/-! ### The five operations -/

section
variable (geo : Geometria sb) (owner : Duenio sb d) {path : Cadena} {code : Nat}
include geo owner

theorem duenio_crearArchivo {mode : UInt32} (run : crearArchivo sb d path mode = some (code, d'))
    (meets : Cumple sb d') : Duenio sb d' := by
  simp only [crearArchivo, Option.bind_eq_bind, Option.bind_eq_some_iff] at run
  obtain ⟨nro, -, run⟩ := run
  split at run
  · simp only [Option.bind_eq_some_iff] at run
    obtain ⟨node, here, y, present, found, -, run⟩ := run
    obtain ⟨-, valid⟩ := getInodo_some here present
    split at run
    · simp only [Option.bind_eq_some_iff] at run
      obtain ⟨⟨error, d1⟩, added, run⟩ := run
      split at run
      · simp only [Option.bind_eq_some_iff] at run
        obtain ⟨nro', -, node', here', z, present', run⟩ := run
        have old := duenio_agregarEntradaDirectorio geo valid owner added
          (meets.antes (setearInodo_deriva run))
        exact duenio_setearInodo geo old run
      · cases run
        exact duenio_agregarEntradaDirectorio geo valid owner added meets
    · cases run
      exact owner
  · cases run
    exact owner

theorem duenio_truncarArchivo {offset : Nat} (limit : offset < 2 ^ 32)
    (run : truncarArchivo sb d path offset = some (code, d')) (meets : Cumple sb d') :
    Duenio sb d' := by
  simp only [truncarArchivo, Option.bind_eq_bind, Option.bind_eq_some_iff] at run
  obtain ⟨nro, -, run⟩ := run
  split at run
  · simp only [Option.bind_eq_some_iff] at run
    obtain ⟨nro', -, run⟩ := run
    split at run
    · simp only [Option.bind_eq_some_iff] at run
      obtain ⟨node, here, y, present, run⟩ := run
      exact duenio_truncarInodo geo (getInodo_some here present).2 owner limit run meets
    · cases run
      exact owner
  · cases run
    exact owner

theorem duenio_eliminarArchivo (run : eliminarArchivo sb d path = some (code, d'))
    (meets : Cumple sb d') : Duenio sb d' := by
  simp only [eliminarArchivo, Option.bind_eq_bind, Option.bind_eq_some_iff] at run
  obtain ⟨nro, -, node, here, run⟩ := run
  split at run
  · simp only [Option.bind_eq_some_iff] at run
    obtain ⟨nro', -, run⟩ := run
    split at run
    · simp only [Option.bind_eq_some_iff] at run
      obtain ⟨⟨error, d1⟩, cut, d2, gone, y, present, d3, dropped, run⟩ := run
      cases run
      have meets2 := meets.antes (eliminarEntradaDirectorio_deriva dropped)
      have meets1 := meets2.antes (liberarInodo_deriva gone)
      have short := duenio_truncarArchivo geo owner (by decide) cut meets1
      exact duenio_eliminarEntradaDirectorio geo (getInodo_some here present).2
        (duenio_liberarInodo geo short gone meets2) dropped meets
    · cases run
      exact owner
  · cases run
    exact owner

theorem duenio_eliminarDirectorio (run : eliminarDirectorio sb d path = some (code, d'))
    (meets : Cumple sb d') : Duenio sb d' := by
  simp only [eliminarDirectorio, Option.bind_eq_bind, Option.bind_eq_some_iff] at run
  obtain ⟨nro, -, node, here, run⟩ := run
  split at run
  · simp only [Option.bind_eq_some_iff] at run
    obtain ⟨nro', -, run⟩ := run
    split at run
    · simp only [Option.bind_eq_some_iff] at run
      obtain ⟨vacio, -, run⟩ := run
      split at run
      · simp only [Option.bind_eq_some_iff] at run
        obtain ⟨y, present, d1, dropped, d2, gone, d3, counted, run⟩ := run
        cases run
        have meets2 := meets.antes (contarDirectorio_deriva counted)
        have meets1 := meets2.antes (liberarInodo_deriva gone)
        have first := duenio_eliminarEntradaDirectorio geo (getInodo_some here present).2 owner
          dropped meets1
        exact duenio_contarDirectorio (duenio_liberarInodo geo first gone meets2) counted
      · cases run
        exact owner
    · cases run
      exact owner
  · cases run
    exact owner

theorem duenio_iniciarDirectorio {ruta : Cadena} {mode : UInt32}
    (kind : (mode.toUInt16 ||| S_IFDIR) &&& 0xF000 = S_IFDIR)
    (run : iniciarDirectorio sb d path ruta mode = some (code, d')) (meets : Cumple sb d') :
    Duenio sb d' := by
  simp only [iniciarDirectorio, Option.bind_eq_bind, Option.bind_eq_some_iff] at run
  obtain ⟨nro, -, node, here, y, present, ⟨error, d1⟩, set, run⟩ := run
  have valid := (getInodo_some here present).2
  split at run
  · rename_i zero
    simp only [Option.bind_eq_some_iff] at run
    obtain ⟨nueva, -, padre, -, d2, wrote, d3, counted, run⟩ := run
    cases run
    have filled : 0 < (d1.inodo y).size.toNat := by
      rw [setearInodo_size kind set zero]
      rcases geo.tamanio with size | size | size <;> rw [size] <;> decide
    have meets2 := meets.antes (contarDirectorio_deriva counted)
    have old := duenio_setearInodo geo owner set
    exact duenio_contarDirectorio
      (duenio_inicializarEntradasNuevoDir geo valid old filled wrote meets2) counted
  · cases run
    exact duenio_setearInodo geo owner set

theorem duenio_crearDirectorio {mode : UInt32}
    (kind : (mode.toUInt16 ||| S_IFDIR) &&& 0xF000 = S_IFDIR)
    (run : crearDirectorio sb d path mode = some (code, d')) (meets : Cumple sb d') :
    Duenio sb d' := by
  simp only [crearDirectorio, Option.bind_eq_bind, Option.bind_eq_some_iff] at run
  obtain ⟨nro, -, node, here, run⟩ := run
  split at run
  · simp only [Option.bind_eq_some_iff] at run
    obtain ⟨found, -, run⟩ := run
    split at run
    · simp only [Option.bind_eq_some_iff] at run
      obtain ⟨y, present, ⟨error, d1⟩, added, run⟩ := run
      have valid := (getInodo_some here present).2
      split at run
      · have old := duenio_agregarEntradaDirectorio geo valid owner added
          (meets.antes (iniciarDirectorio_deriva run))
        exact duenio_iniciarDirectorio geo old kind run meets
      · cases run
        exact duenio_agregarEntradaDirectorio geo valid owner added meets
    · cases run
      exact owner
  · cases run
    exact owner

end

end LosAltos.Rfs
