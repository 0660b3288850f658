import LosAltos.Rfs.FreeBlocks
import LosAltos.Rfs.Inodes

/-!
# Free inodes come and go

`getInodoLibre` and `liberarInodo`, `funciones_rfs.c:181-208, 976-1031, 1201-1234`, on the
bitmaps and counters of inodes. The group of an inode is counted from inode 1 as it is taken,
and from `first_data_block` as it is released.
-/
namespace LosAltos.Rfs

open Lib

section
variable (sb : Superblock)

/-- Where the bit of an inode stands. -/
def grupoDeInodo (n : Nat) : Nat := (n - 1) / sb.inodesPerGroup

def bitDeInodo (n : Nat) : Nat := (n - 1) % sb.inodesPerGroup

/-- What a consistent image says of its inodes. -/
structure InodosConsistentes (d : Disco) : Prop where
  bloque : sb.logBlockSize ≤ 2
  primero : sb.firstDataBlock = if sb.logBlockSize = 0 then 1 else 0
  inodos : sb.inodes < 2 ^ 32
  enteros : sb.inodes = sb.inodesPerGroup * cantidadDeGrupos sb
  cuentaGrupo : ∀ g < cantidadDeGrupos sb,
    (d.grupo g).freeInodesCount.toNat = inodosLibresDe sb d g
  cuentaTotal : d.freeInodes.toNat =
    ∑ g ∈ Finset.range (cantidadDeGrupos sb), inodosLibresDe sb d g

/-- The inode `n` was free and is taken, and nothing else changes in the tables. -/
structure InodoTomado (d d' : Disco) (n : Nat) : Prop where
  dentro : 1 ≤ n ∧ n ≤ sb.inodes
  libre : d.bitmapInodos (grupoDeInodo sb n) (bitDeInodo sb n) = false
  bits : ∀ g i, d'.bitmapInodos g i =
    if g = grupoDeInodo sb n ∧ i = bitDeInodo sb n then true else d.bitmapInodos g i
  cuentaGrupo : (d'.grupo (grupoDeInodo sb n)).freeInodesCount =
    (d.grupo (grupoDeInodo sb n)).freeInodesCount - 1
  otrosGrupos : ∀ g, g ≠ grupoDeInodo sb n → d'.grupo g = d.grupo g
  cuentaTotal : d'.freeInodes = d.freeInodes - 1
  bloques : MismosBloques d d'

/-- The inode `n` is released, and nothing else changes in the tables. -/
structure InodoDevuelto (d d' : Disco) (n : Nat) : Prop where
  bits : ∀ g i, d'.bitmapInodos g i =
    if g = grupoDeInodo sb n ∧ i = bitDeInodo sb n then false else d.bitmapInodos g i
  cuentaGrupo : (d'.grupo (grupoDeInodo sb n)).freeInodesCount =
    (d.grupo (grupoDeInodo sb n)).freeInodesCount + 1
  otrosGrupos : ∀ g, g ≠ grupoDeInodo sb n → d'.grupo g = d.grupo g
  cuentaTotal : d'.freeInodes = d.freeInodes + 1
  bloques : MismosBloques d d'

end

variable {sb : Superblock} {d d' : Disco} {n g i : Nat}

theorem InodosConsistentes.numerable (image : InodosConsistentes sb d) : Numerable sb := by
  rw [Numerable, ← image.enteros]
  exact image.inodos

/-! ### An inode is taken -/

/-- A group with a clear bit has a number to give. -/
theorem getInodoLibreDelBitmap_of_clear (few : Numerable sb) (hg : g < cantidadDeGrupos sb)
    (hi : i < sb.inodesPerGroup) (clear : d.bitmapInodos g i = false) :
    getInodoLibreDelBitmap sb d g ≠ 0 := by
  rw [getInodoLibreDelBitmap]
  cases found : (List.range sb.inodesPerGroup).find? fun i => !d.bitmapInodos g i with
  | none =>
    have set := List.find?_eq_none.mp found i (List.mem_range.mpr hi)
    simp [clear] at set
  | some j =>
    have hj : j < sb.inodesPerGroup := List.mem_range.mp (List.mem_of_find?_eq_some found)
    have limit := inodo_lt few hg hj
    simp only [nroInodoInicioDeGrupo]
    omega

theorem buscarInodoLibre_exists {groups : List Nat} (member : g ∈ groups)
    (found : getInodoLibreDelBitmap sb d g ≠ 0) : ∃ n, buscarInodoLibre sb d groups = some n := by
  induction groups with
  | nil => cases member
  | cons h groups ih =>
    simp only [buscarInodoLibre]
    split
    · exact ⟨_, rfl⟩
    · rename_i nothing
      refine ih ((List.mem_cons.mp member).resolve_left ?_)
      rintro rfl
      exact nothing found

theorem grupoDeInodo_bitDeInodo (hi : i < sb.inodesPerGroup) :
    grupoDeInodo sb (sb.inodesPerGroup * g + i + 1) = g ∧
      bitDeInodo sb (sb.inodesPerGroup * g + i + 1) = i :=
  (coords_inodo hi (Nat.le_add_left ..)).mpr rfl

/-- The bit of an inode within its group, as both functions count it. -/
theorem bit_inodo (positive : 1 ≤ n) (limit : n < 2 ^ 32) :
    resta32 (reducir n sb.inodesPerGroup) 1 = bitDeInodo sb n := by
  have above : (n - 1) % sb.inodesPerGroup ≤ n - 1 := Nat.mod_le ..
  rw [reducir, if_neg (by omega), resta32_of_le (by omega) (by omega), Nat.add_sub_cancel, bitDeInodo]

theorem inodoTomado (positive : 1 ≤ n) (limit : n < 2 ^ 32) (inside : n ≤ sb.inodes)
    (hg : grupoDeInodo sb n < cantidadDeGrupos sb)
    (clear : d.bitmapInodos (grupoDeInodo sb n) (bitDeInodo sb n) = false) :
    ∃ d', actualizarEstructurasCuandoPidoInodo sb d n = some d' ∧ InodoTomado sb d d' n := by
  have there : leerGroupDescriptor sb d (grupoDeInodo sb n) =
      some (d.grupo (grupoDeInodo sb n)) := if_pos hg
  rw [actualizarEstructurasCuandoPidoInodo, bit_inodo positive limit, ← grupoDeInodo, there]
  refine ⟨_, rfl, ⟨positive, inside⟩, clear, fun g i => rfl, ?_, fun g other => ?_, rfl, rfl, rfl,
    fun g => ?_⟩
  · simp [Disco.ponGrupo]
  · simp [Disco.ponGrupo, Disco.ponBitInodo, other]
  · by_cases here : g = grupoDeInodo sb n <;> simp [Disco.ponGrupo, Disco.ponBitInodo, here]

theorem getInodoLibre_exacto (image : InodosConsistentes sb d) (some_free : d.freeInodes ≠ 0) :
    ∃ n d', getInodoLibre sb d = some (n, d') ∧ InodoTomado sb d d' n := by
  have few := image.numerable
  -- some group has a clear bit
  have total : ∑ g ∈ Finset.range (cantidadDeGrupos sb), inodosLibresDe sb d g ≠ 0 := by
    rw [← image.cuentaTotal]
    exact fun zero => some_free (UInt32.toNat_inj.mp zero)
  obtain ⟨g, inside, count⟩ := Finset.exists_ne_zero_of_sum_ne_zero total
  obtain ⟨i, member⟩ := Finset.card_ne_zero.mp count
  rw [Finset.mem_filter, Finset.mem_range] at member
  obtain ⟨n, found⟩ := buscarInodoLibre_exists (List.mem_range.mpr (Finset.mem_range.mp inside))
    (getInodoLibreDelBitmap_of_clear few (Finset.mem_range.mp inside) member.1 member.2)
  obtain ⟨h, hh, j, hj, clear, rfl⟩ := buscarInodoLibre_some few (fun g => List.mem_range.mp) found
  obtain ⟨group, bit⟩ := grupoDeInodo_bitDeInodo (g := h) hj
  have last : sb.inodesPerGroup * (h + 1) ≤ sb.inodes := by
    rw [image.enteros]
    exact Nat.mul_le_mul_left _ hh
  rw [Nat.mul_add, Nat.mul_one] at last
  have inside : sb.inodesPerGroup * h + j + 1 ≤ sb.inodes := by omega
  obtain ⟨d', taken, tomado⟩ := inodoTomado (Nat.le_add_left ..) (inodo_lt few hh hj) inside
    (by rw [group]; exact hh) (by rw [group, bit, clear])
  refine ⟨_, d', ?_, tomado⟩
  rw [getInodoLibre, if_neg some_free, found, Option.bind_eq_bind, Option.bind_some, taken]
  rfl

/-! ### An inode is released -/

/-- With inodes counted from 0, the last inode of a group is taken for one of the next. -/
theorem grupo_siguiente (positive : 1 ≤ n) (last : n % sb.inodesPerGroup = 0) :
    n / sb.inodesPerGroup = grupoDeInodo sb n + 1 := by
  have size := sb.inodesPerGroup_pos
  obtain ⟨q, rfl⟩ := Nat.dvd_of_mod_eq_zero last
  cases q with
  | zero => omega
  | succ k =>
    have before : sb.inodesPerGroup * (k + 1) - 1 =
        sb.inodesPerGroup * k + (sb.inodesPerGroup - 1) := by
      rw [Nat.mul_succ]
      omega
    rw [Nat.mul_div_cancel_left _ size, grupoDeInodo, before, Nat.mul_add_div size,
      Nat.div_eq_of_lt (by omega), Nat.add_zero]

theorem grupo_mismo (inner : n % sb.inodesPerGroup ≠ 0) :
    n / sb.inodesPerGroup = grupoDeInodo sb n := by
  have split := Nat.div_add_mod n sb.inodesPerGroup
  have low := Nat.mod_lt n sb.inodesPerGroup_pos
  rw [grupoDeInodo]
  generalize n / sb.inodesPerGroup = q at *
  generalize n % sb.inodesPerGroup = r at *
  subst split
  have before : sb.inodesPerGroup * q + r - 1 = sb.inodesPerGroup * q + (r - 1) := by omega
  rw [before, Nat.mul_add_div sb.inodesPerGroup_pos, Nat.div_eq_of_lt (by omega), Nat.add_zero]

/-- Bit `i` of group `g` and the counters of inodes, as `liberarInodo` leaves them. -/
def Disco.soltar (d : Disco) (n g i : Nat) : Disco :=
  let grupo := d.grupo g
  let d := d.ponBitInodo g i false
  let d := d.ponGrupo g { grupo with freeInodesCount := grupo.freeInodesCount + 1 }
  let d := { d with freeInodes := d.freeInodes + 1 }
  d.ponInodo n { d.inodo n with mode := 0, links := 0, size := 0 }

theorem liberarInodo_vacio (valid : esInodo sb n) (limit : n < 2 ^ 32)
    (empty : (d.inodo n).size = 0) : liberarInodo sb d n =
      if resta32 n sb.firstDataBlock / sb.inodesPerGroup < cantidadDeGrupos sb then
        some (d.soltar n (resta32 n sb.firstDataBlock / sb.inodesPerGroup) (bitDeInodo sb n))
      else none := by
  have node : getInodo sb n = some (some n) := by
    have positive := valid.1
    rw [getInodo, if_neg (by omega), if_pos valid.2]
  have nothing : bloquesDe sb 0 = 0 := by
    have size : 0 < tamanioDeBloque sb := by simp [tamanioDeBloque, Nat.shiftLeft_eq]
    rw [bloquesDe, Nat.zero_add, Nat.div_eq_of_lt (by omega)]
  have ends : terminaOffset sb (d.inodo n).size.toNat = true := by
    rw [empty, show (0 : UInt32).toNat = 0 from rfl, terminaOffset, nothing, Nat.zero_mul]
    rfl
  have freed : liberarBloques sb d n (List.range (bloquesDe sb (d.inodo n).size.toNat)) = some d := by
    rw [empty, show (0 : UInt32).toNat = 0 from rfl, nothing]
    rfl
  have bit : resta32 (reducir n sb.inodesPerGroup) 1 = bitDeInodo sb n := bit_inodo valid.1 limit
  generalize group : resta32 n sb.firstDataBlock / sb.inodesPerGroup = g
  split
  · rename_i inside
    have there : leerGroupDescriptor sb d g = some (d.grupo g) := if_pos inside
    refine Option.bind_eq_some_iff.mpr ⟨some n, node, Option.bind_eq_some_iff.mpr ⟨n, rfl, ?_⟩⟩
    refine (if_pos ends).trans (Option.bind_eq_some_iff.mpr ⟨d, freed, ?_⟩)
    refine Option.bind_eq_some_iff.mpr ⟨d.grupo g, group ▸ there, ?_⟩
    rw [group, bit]
    rfl
  · rename_i outside
    cases run : liberarInodo sb d n with
    | none => rfl
    | some d' =>
      simp only [liberarInodo, node, Option.bind_eq_bind, Option.bind_some, ends, ↓reduceIte, freed,
        group, leerGroupDescriptor, if_neg outside, Option.bind_none, reduceCtorEq] at run

theorem devuelto_soltar :
    InodoDevuelto sb d (d.soltar n (grupoDeInodo sb n) (bitDeInodo sb n)) n := by
  refine ⟨fun g i => rfl, ?_, fun g other => ?_, rfl, rfl, rfl, fun g => ?_⟩
  · simp [Disco.soltar, Disco.ponGrupo, Disco.ponInodo]
  · simp [Disco.soltar, Disco.ponGrupo, Disco.ponBitInodo, Disco.ponInodo, other]
  · by_cases here : g = grupoDeInodo sb n <;>
      simp [Disco.soltar, Disco.ponGrupo, Disco.ponBitInodo, Disco.ponInodo, here]

/-- The inode is released in its own group exactly if the group is found. -/
theorem inodoDevuelto_iff (image : InodosConsistentes sb d) (allocated : asignado sb d n)
    (empty : (d.inodo n).size = 0) :
    (∃ d', liberarInodo sb d n = some d' ∧ InodoDevuelto sb d d' n) ↔
      sb.firstDataBlock = 1 ∨ n % sb.inodesPerGroup ≠ 0 := by
  obtain ⟨valid, set⟩ := allocated
  have limit := esInodo_lt image.numerable valid
  have positive := valid.1
  have first : sb.firstDataBlock ≤ 1 := by
    rw [image.primero]
    split <;> omega
  have hg : grupoDeInodo sb n < cantidadDeGrupos sb := valid.2
  rw [liberarInodo_vacio valid limit empty, resta32_of_le (by omega) limit]
  constructor
  · rintro ⟨d', run, back⟩
    by_contra neither
    rw [not_or, not_not] at neither
    have zero : sb.firstDataBlock = 0 := by omega
    rw [zero, Nat.sub_zero, grupo_siguiente positive neither.2] at run
    split at run
    · cases run
      -- the bit of the inode is still set
      have cleared := back.bits (grupoDeInodo sb n) (bitDeInodo sb n)
      rw [if_pos ⟨rfl, rfl⟩] at cleared
      simp only [Disco.soltar, Disco.ponInodo, Disco.ponGrupo, Disco.ponBitInodo] at cleared
      rw [if_neg fun same => Nat.ne_of_lt (Nat.lt_succ_self _) same.1] at cleared
      exact absurd (set.symm.trans cleared) (by decide)
    · cases run
  · intro found
    have group : (n - sb.firstDataBlock) / sb.inodesPerGroup = grupoDeInodo sb n := by
      by_cases one : sb.firstDataBlock = 1
      · rw [one, grupoDeInodo]
      · rw [show sb.firstDataBlock = 0 by omega, Nat.sub_zero]
        exact grupo_mismo (found.resolve_left one)
    rw [group, if_pos hg]
    exact ⟨_, rfl, devuelto_soltar⟩

/-- A free inode is taken exactly; an empty one is released exactly where inodes and blocks are
counted alike or it is not the last of its group. -/
theorem inodos_ida_y_vuelta (image : InodosConsistentes sb d) :
    (d.freeInodes ≠ 0 → ∃ n d', getInodoLibre sb d = some (n, d') ∧ InodoTomado sb d d' n) ∧
    ∀ n, asignado sb d n → (d.inodo n).size = 0 →
      ((∃ d', liberarInodo sb d n = some d' ∧ InodoDevuelto sb d d' n) ↔
        sb.firstDataBlock = 1 ∨ n % sb.inodesPerGroup ≠ 0) :=
  ⟨getInodoLibre_exacto image, fun _ allocated empty => inodoDevuelto_iff image allocated empty⟩

theorem imagenConArchivo_inodos : InodosConsistentes (volumen 0) (imagenConArchivo 0) where
  bloque := by decide
  primero := by decide
  inodos := by decide
  enteros := by decide
  cuentaGrupo := by decide +kernel
  cuentaTotal := by decide +kernel

/-- Inode 12 is the first free one, and inode 1 is empty. -/
theorem inodos_ida_y_vuelta_doce :
    (∃ d', getInodoLibre (volumen 0) (imagenConArchivo 0) = some (12, d') ∧
      InodoTomado (volumen 0) (imagenConArchivo 0) d' 12) ∧
    ∃ d', liberarInodo (volumen 0) (imagenConArchivo 0) 1 = some d' ∧
      InodoDevuelto (volumen 0) (imagenConArchivo 0) d' 1 := by
  obtain ⟨taken, freed⟩ := inodos_ida_y_vuelta imagenConArchivo_inodos
  refine ⟨?_, (freed 1 ⟨⟨by decide, by decide⟩, by decide +kernel⟩ rfl).mpr (.inl rfl)⟩
  obtain ⟨n, d', run, tomado⟩ := taken (by decide)
  have twelve : (getInodoLibre (volumen 0) (imagenConArchivo 0)).map (·.1) = some 12 := by
    decide +kernel
  rw [run] at twelve
  cases twelve
  exact ⟨d', run, tomado⟩

/-- Two groups of 32 blocks of 2048 bytes and 16 inodes. -/
def volumenDosGrupos : Superblock where
  inodes := 32
  blocks := 64
  firstDataBlock := 0
  logBlockSize := 1
  blocksPerGroup := 32
  inodesPerGroup := 16
  blocksPerGroup_pos := grupo_de_32
  inodesPerGroup_pos := grupo_de_16

/-- Every inode of both groups in use. -/
def imagenSinInodos : Disco :=
  { imagenConArchivo 1 with
    freeInodes := 0
    grupo := fun _ => ⟨20, 0, 1⟩
    bitmapInodos := fun _ _ => true }

/-- Releasing inode 16, the last of the first group, clears the bit of inode 32. -/
theorem inodo_de_otro_grupo : ¬∀ (sb : Superblock) (d : Disco), InodosConsistentes sb d →
    ∀ n, asignado sb d n → (d.inodo n).size = 0 →
      ∃ d', liberarInodo sb d n = some d' ∧ InodoDevuelto sb d d' n := by
  intro all
  have image : InodosConsistentes volumenDosGrupos imagenSinInodos :=
    { bloque := by decide
      primero := by decide
      inodos := by decide
      enteros := by decide
      cuentaGrupo := by decide +kernel
      cuentaTotal := by decide +kernel }
  have allocated : asignado volumenDosGrupos imagenSinInodos 16 := ⟨⟨by decide, by decide⟩, rfl⟩
  have empty : (imagenSinInodos.inodo 16).size = 0 := rfl
  exact absurd ((inodoDevuelto_iff image allocated empty).mp (all _ _ image 16 allocated empty))
    (by decide)

end LosAltos.Rfs
