import LosAltos.Rfs.FailedCreation

/-!
# Free blocks come and go

`getBloqueLibre` and `liberarBloque`, `funciones_rfs.c:153-179, 704-775, 1097-1113`, on the
bitmaps and counters alone: which bit each of them changes, and what the cursor
`nro_de_grupo` is left at.
-/
namespace LosAltos.Rfs

open Lib

section
variable (sb : Superblock)

/-- Where the bit of a block stands. -/
def grupoDe (b : Nat) : Nat := (b - sb.firstDataBlock) / sb.blocksPerGroup

def bitDe (b : Nat) : Nat := (b - sb.firstDataBlock) % sb.blocksPerGroup

/-- What a consistent image says of its blocks. -/
structure BloquesConsistentes (d : Disco) : Prop where
  bloque : sb.logBlockSize ≤ 2
  primero : sb.firstDataBlock = if sb.logBlockSize = 0 then 1 else 0
  bloques : sb.blocks < 2 ^ 32
  inodos : sb.inodes < 2 ^ 32
  inicio : ∀ g < cantidadDeGrupos sb, d.bitmapBloques g 0 = true
  dentro : ∀ g < cantidadDeGrupos sb, ∀ i < sb.blocksPerGroup, d.bitmapBloques g i = false →
    sb.firstDataBlock + sb.blocksPerGroup * g + i < sb.blocks
  cuentaGrupo : ∀ g < cantidadDeGrupos sb, (d.grupo g).freeBlocksCount.toNat = libresDe sb d g
  cuentaTotal : d.freeBlocks.toNat = ∑ g ∈ Finset.range (cantidadDeGrupos sb), libresDe sb d g

/-- The block `b` was free and is taken, and nothing else changes in the tables. -/
structure Tomado (d d' : Disco) (b : Nat) : Prop where
  dentro : sb.firstDataBlock ≤ b ∧ b < sb.blocks ∧ grupoDe sb b < cantidadDeGrupos sb
  libre : d.bitmapBloques (grupoDe sb b) (bitDe sb b) = false
  bits : ∀ g i, d'.bitmapBloques g i =
    if g = grupoDe sb b ∧ i = bitDe sb b then true else d.bitmapBloques g i
  cuentaGrupo : (d'.grupo (grupoDe sb b)).freeBlocksCount.toNat + 1 =
    (d.grupo (grupoDe sb b)).freeBlocksCount.toNat
  otrosGrupos : ∀ g, g ≠ grupoDe sb b → d'.grupo g = d.grupo g
  cuentaTotal : d'.freeBlocks.toNat + 1 = d.freeBlocks.toNat
  inodos : d'.freeInodes = d.freeInodes ∧ d'.bitmapInodos = d.bitmapInodos ∧ ∀ g,
    (d'.grupo g).freeInodesCount = (d.grupo g).freeInodesCount ∧
      (d'.grupo g).usedDirsCount = (d.grupo g).usedDirsCount

/-- The block `b` of the slot goes back, and nothing else changes in the tables. -/
structure Devuelto (d d' : Disco) (slot : Slot) (b : Nat) : Prop where
  bits : ∀ g i, d'.bitmapBloques g i =
    if g = grupoDe sb b ∧ i = bitDe sb b then false else d.bitmapBloques g i
  cuentaGrupo : (d'.grupo (grupoDe sb b)).freeBlocksCount =
    (d.grupo (grupoDe sb b)).freeBlocksCount + 1
  otrosGrupos : ∀ g, g ≠ grupoDe sb b → d'.grupo g = d.grupo g
  cuentaTotal : d'.freeBlocks = d.freeBlocks + 1
  slot : leerSlot d' slot = 0

end

variable {sb : Superblock} {d d' : Disco} {b g i : Nat}

theorem cantidadDeGrupos_le : cantidadDeGrupos sb ≤ sb.inodes := by
  have split := Nat.div_add_mod sb.inodes sb.inodesPerGroup
  have grows : sb.inodes / sb.inodesPerGroup ≤
      sb.inodesPerGroup * (sb.inodes / sb.inodesPerGroup) :=
    Nat.le_mul_of_pos_left _ sb.inodesPerGroup_pos
  rw [cantidadDeGrupos]
  split <;> omega

instance : Decidable (BloquesConsistentes sb d) :=
  decidable_of_iff
    (sb.logBlockSize ≤ 2 ∧ (sb.firstDataBlock = if sb.logBlockSize = 0 then 1 else 0) ∧
      sb.blocks < 2 ^ 32 ∧ sb.inodes < 2 ^ 32 ∧
      (∀ g < cantidadDeGrupos sb, d.bitmapBloques g 0 = true) ∧
      (∀ g < cantidadDeGrupos sb, ∀ i < sb.blocksPerGroup, d.bitmapBloques g i = false →
        sb.firstDataBlock + sb.blocksPerGroup * g + i < sb.blocks) ∧
      (∀ g < cantidadDeGrupos sb, (d.grupo g).freeBlocksCount.toNat = libresDe sb d g) ∧
      d.freeBlocks.toNat = ∑ g ∈ Finset.range (cantidadDeGrupos sb), libresDe sb d g)
    ⟨fun ⟨log, first, blocks, inodes, start, inside, group, total⟩ =>
        ⟨log, first, blocks, inodes, start, inside, group, total⟩,
      fun image => ⟨image.bloque, image.primero, image.bloques, image.inodos, image.inicio,
        image.dentro, image.cuentaGrupo, image.cuentaTotal⟩⟩

namespace BloquesConsistentes

theorem primero_le (image : BloquesConsistentes sb d) : sb.firstDataBlock ≤ 1 := by
  rw [image.primero]
  split <;> omega

theorem pocos (image : BloquesConsistentes sb d) : cantidadDeGrupos sb < 2 ^ 32 :=
  lt_of_le_of_lt cantidadDeGrupos_le image.inodos

theorem tablas (image : BloquesConsistentes sb d) : Tablas sb d where
  inicio _ := image.inicio
  dentro := image.dentro
  cuentaGrupo g bound := by rw [← image.cuentaGrupo g bound, UInt16.ofNat_toNat]
  cuentaTotal := by rw [← image.cuentaTotal, UInt32.ofNat_toNat]

end BloquesConsistentes

/-- A block is known by its group and its bit. -/
theorem grupoDe_bitDe (hi : i < sb.blocksPerGroup) :
    grupoDe sb (sb.firstDataBlock + sb.blocksPerGroup * g + i) = g ∧
      bitDe sb (sb.firstDataBlock + sb.blocksPerGroup * g + i) = i := by
  have shift : sb.firstDataBlock + sb.blocksPerGroup * g + i - sb.firstDataBlock =
      sb.blocksPerGroup * g + i := by omega
  rw [grupoDe, bitDe, shift, Nat.mul_add_div sb.blocksPerGroup_pos, Nat.div_eq_of_lt hi,
    Nat.mul_add_mod, Nat.mod_eq_of_lt hi]
  exact ⟨Nat.add_zero g, rfl⟩

/-! ### The search -/

/-- From a valid cursor the search ends before it has gone round twice. -/
theorem buscarGrupo_isSome (few : cantidadDeGrupos sb < 2 ^ 32) (fuel : Nat) {nro : Nat}
    {vuelta : Bool} (valid : nro < cantidadDeGrupos sb)
    (enough : (if vuelta then cantidadDeGrupos sb else 2 * cantidadDeGrupos sb) ≤ nro + fuel) :
    (buscarGrupo sb d fuel nro vuelta).isSome := by
  induction fuel generalizing nro vuelta with
  | zero =>
    split at enough <;> omega
  | succ fuel ih =>
    rw [buscarGrupo, Nat.mod_eq_of_lt (show nro + 1 < 2 ^ 32 by omega)]
    split
    · rfl
    simp only
    split
    · rename_i last
      cases vuelta with
      | true => rfl
      | false =>
        simp only [Bool.false_eq_true, ↓reduceIte] at enough ⊢
        refine ih (by omega) ?_
        simp only [↓reduceIte]
        omega
    · exact ih (by omega) (by omega)

/-! ### A block is taken -/

theorem tomado_ocupar (image : BloquesConsistentes sb d) (hg : g < cantidadDeGrupos sb)
    (hi : i < sb.blocksPerGroup) (clear : d.bitmapBloques g i = false)
    (count : (d.grupo g).freeBlocksCount ≠ 0) (nro : Nat) (h : Hecho) :
    Tomado sb d ((Disco.ocupar { d with nroDeGrupo := nro } g i).anota h)
      (sb.firstDataBlock + sb.blocksPerGroup * g + i) := by
  obtain ⟨group, bit⟩ := grupoDe_bitDe (g := g) hi
  have inside := image.dentro g hg i hi clear
  have one : (1 : UInt16) ≤ (d.grupo g).freeBlocksCount := by
    rw [UInt16.le_iff_toNat_le]
    have nonzero : (d.grupo g).freeBlocksCount.toNat ≠ 0 := fun zero =>
      count (UInt16.toNat_inj.mp zero)
    exact Nat.one_le_iff_ne_zero.mpr nonzero
  have some_free : (1 : UInt32) ≤ d.freeBlocks := by
    have member : libresDe sb d g ≤ d.freeBlocks.toNat := by
      rw [image.cuentaTotal]
      exact Finset.single_le_sum (fun _ _ => Nat.zero_le _) (Finset.mem_range.mpr hg)
    rw [← image.cuentaGrupo g hg] at member
    rw [UInt32.le_iff_toNat_le]
    exact le_trans (UInt16.le_iff_toNat_le.mp one) member
  constructor
  case dentro => exact ⟨by omega, inside, by rw [group]; exact hg⟩
  case libre => rw [group, bit, clear]
  case bits =>
    intro h j
    rw [group, bit]
    rfl
  case cuentaGrupo =>
    rw [group]
    have less : ((d.grupo g).freeBlocksCount - 1).toNat = (d.grupo g).freeBlocksCount.toNat - 1 :=
      UInt16.toNat_sub_of_le _ _ one
    have positive := UInt16.le_iff_toNat_le.mp one
    simp only [Disco.anota, Disco.ocupar, Disco.ponGrupo, ↓reduceIte, less]
    exact Nat.sub_add_cancel positive
  case otrosGrupos =>
    intro h other
    rw [group] at other
    simp [Disco.anota, Disco.ocupar, Disco.ponGrupo, Disco.ponBitBloque, other]
  case cuentaTotal =>
    have less : (d.freeBlocks - 1).toNat = d.freeBlocks.toNat - 1 :=
      UInt32.toNat_sub_of_le _ _ some_free
    have positive := UInt32.le_iff_toNat_le.mp some_free
    show (d.freeBlocks - 1).toNat + 1 = d.freeBlocks.toNat
    rw [less]
    exact Nat.sub_add_cancel positive
  case inodos =>
    refine ⟨rfl, rfl, fun h => ?_⟩
    by_cases here : h = g <;>
      simp [Disco.anota, Disco.ocupar, Disco.ponGrupo, Disco.ponBitBloque, here]

/-- `getBloqueLibre` takes exactly one free block, if there is one. -/
theorem un_bloque_libre (image : BloquesConsistentes sb d)
    (cursor : d.nroDeGrupo < cantidadDeGrupos sb) : ∃ b d', getBloqueLibre sb d = some (b, d') ∧
      ((∃ g < cantidadDeGrupos sb, (d.grupo g).freeBlocksCount ≠ 0) → Tomado sb d d' b) ∧
      (b = 0 → ∀ g < cantidadDeGrupos sb, (d.grupo g).freeBlocksCount = 0) := by
  have few := image.pocos
  have ends : (buscarGrupo sb d (2 ^ 34) d.nroDeGrupo false).isSome :=
    buscarGrupo_isSome few _ cursor (by rw [if_neg Bool.false_ne_true]; omega)
  obtain ⟨⟨g, lleno⟩, searched⟩ := Option.isSome_iff_exists.mp ends
  cases lleno with
  | true =>
    have full := buscarGrupo_lleno searched
    refine ⟨_, _, getBloqueLibre_lleno searched, ?_, fun _ g bound => full g bound (.inr rfl)⟩
    rintro ⟨g, bound, count⟩
    exact absurd (full g bound (.inr rfl)) count
  | false =>
    obtain ⟨hg, count⟩ := buscarGrupo_libre searched
    obtain ⟨i, hi, clear, -, nonzero, taken⟩ :=
      image.tablas.getBloqueLibre_libre image.bloques image.primero_le searched
    exact ⟨_, _, taken, fun _ => tomado_ocupar image hg hi clear count _ _,
      fun zero => absurd zero nonzero⟩

theorem imagenConArchivo_bloques {log : Nat} (small : log = 0 ∨ log = 1) :
    BloquesConsistentes (volumen log) (imagenConArchivo log) := by
  rcases small with rfl | rfl <;> decide +kernel

/-- Blocks up to 11 are in use. -/
theorem un_bloque_libre_doce : ∃ d', getBloqueLibre (volumen 0) (imagenConArchivo 0) =
    some (12, d') ∧ Tomado (volumen 0) (imagenConArchivo 0) d' 12 := by
  obtain ⟨b, d', run, taken, -⟩ := un_bloque_libre (imagenConArchivo_bloques (.inl rfl)) (by
    decide +kernel)
  have twelve : (getBloqueLibre (volumen 0) (imagenConArchivo 0)).map (·.1) = some 12 := by
    decide +kernel
  rw [run] at twelve
  cases twelve
  exact ⟨d', run, taken ⟨0, by decide, by decide +kernel⟩⟩

/-! ### A block goes back -/

/-- A block in use that holds data: the first block of a group never does. -/
structure DeDatos (sb : Superblock) (d : Disco) (b : Nat) : Prop where
  dentro : sb.firstDataBlock ≤ b ∧ b < sb.blocks ∧ grupoDe sb b < cantidadDeGrupos sb
  noPrimero : bitDe sb b ≠ 0
  usado : d.bitmapBloques (grupoDe sb b) (bitDe sb b) = true

section
variable {slot : Slot} {h : Hecho}

theorem grabarSlot_tablas (d : Disco) (slot : Slot) (b : Nat) :
    (grabarSlot d slot b).bitmapBloques = d.bitmapBloques ∧ (grabarSlot d slot b).grupo = d.grupo ∧
      (grabarSlot d slot b).freeBlocks = d.freeBlocks := by
  cases slot <;> exact ⟨rfl, rfl, rfl⟩

theorem leerSlot_grabarSlot_zero (d : Disco) (slot : Slot) :
    leerSlot (grabarSlot d slot 0) slot = 0 := by
  cases slot with
  | inodo x i => simp [leerSlot, grabarSlot, Disco.ponInodo, INode.ponBloque]
  | disco dir => exact leer32_copia_self d dir (by decide)

/-- The bit that `liberarBloque` clears. -/
theorem liberarBloque_eq (held : leerSlot d slot = b) (bound : b < 2 ^ 32)
    (low : sb.firstDataBlock ≤ b) (nonzero : b ≠ 0) (hg : grupoDe sb b < cantidadDeGrupos sb) :
    liberarBloque sb d slot = some (grabarSlot
      ((d.anota (.libera b)).devolver (grupoDe sb b) ((b - 1) % sb.blocksPerGroup)) slot 0) := by
  have group : resta32 b sb.firstDataBlock / sb.blocksPerGroup = grupoDe sb b := by
    rw [resta32_of_le low bound, grupoDe]
  have small : (b - 1) % sb.blocksPerGroup ≤ b - 1 := Nat.mod_le ..
  have bit : resta32 (reducir b sb.blocksPerGroup) 1 = (b - 1) % sb.blocksPerGroup := by
    rw [reducir, if_neg nonzero, resta32_of_le (by omega) (by omega), Nat.add_sub_cancel]
  have there : leerGroupDescriptor sb d (grupoDe sb b) = some (d.grupo (grupoDe sb b)) := if_pos hg
  rw [liberarBloque, held, group, bit, there]
  rfl

/-- The bit before, where blocks are counted from 0. -/
theorem bit_anterior (zero : sb.firstDataBlock = 0) (inner : bitDe sb b ≠ 0) :
    (b - 1) % sb.blocksPerGroup ≠ bitDe sb b := by
  rw [bitDe, zero, Nat.sub_zero] at *
  intro same
  have split := Nat.div_add_mod b sb.blocksPerGroup
  have low := Nat.mod_lt b sb.blocksPerGroup_pos
  have before : b - 1 = sb.blocksPerGroup * (b / sb.blocksPerGroup) +
      (b % sb.blocksPerGroup - 1) := by omega
  rw [before, Nat.mul_add_mod, Nat.mod_eq_of_lt (by omega)] at same
  omega

theorem devuelto_devolver :
    Devuelto sb d (grabarSlot ((d.anota h).devolver (grupoDe sb b) (bitDe sb b)) slot 0) slot b := by
  obtain ⟨bits, groups, total⟩ :=
    grabarSlot_tablas ((d.anota h).devolver (grupoDe sb b) (bitDe sb b)) slot 0
  constructor
  case bits =>
    intro g i
    rw [bits]
    rfl
  case cuentaGrupo =>
    rw [groups]
    simp [Disco.devolver, Disco.ponGrupo, Disco.anota]
  case otrosGrupos =>
    intro g other
    rw [groups]
    simp [Disco.devolver, Disco.ponGrupo, Disco.ponBitBloque, Disco.anota, other]
  case cuentaTotal =>
    rw [total]
    rfl
  case slot => exact leerSlot_grabarSlot_zero _ slot

/-- The block of a slot goes back as it should exactly where blocks are counted from 1. -/
theorem devuelto_iff (image : BloquesConsistentes sb d) (held : leerSlot d slot = b)
    (data : DeDatos sb d b) : (∃ d', liberarBloque sb d slot = some d' ∧ Devuelto sb d d' slot b) ↔
      sb.firstDataBlock = 1 := by
  obtain ⟨low, below, hg⟩ := data.dentro
  have limit := image.bloques
  have first := image.primero_le
  have inner := data.noPrimero
  have nonzero : b ≠ 0 := by
    rintro rfl
    rw [bitDe, Nat.zero_sub, Nat.zero_mod] at inner
    exact inner rfl
  rw [liberarBloque_eq held (by omega) low nonzero hg]
  constructor
  · rintro ⟨d', run, back⟩
    by_contra other
    have zero : sb.firstDataBlock = 0 := by omega
    cases run
    -- the bit of the block is still set
    have cleared := back.bits (grupoDe sb b) (bitDe sb b)
    rw [if_pos ⟨rfl, rfl⟩, (grabarSlot_tablas ..).1, devolver_bit,
      if_neg fun same => bit_anterior zero inner same.2.symm] at cleared
    exact absurd (data.usado.symm.trans cleared) (by decide)
  · intro one
    have same : (b - 1) % sb.blocksPerGroup = bitDe sb b := by rw [bitDe, one]
    rw [same]
    exact ⟨_, rfl, devuelto_devolver⟩

end

/-- Taking a bit and giving it back. -/
theorem ocupar_devolver {d2 : Disco} {slot : Slot} {h h' : Hecho} {nro : Nat}
    (clear : d.bitmapBloques g i = false)
    (same : MismosBloques ((Disco.ocupar { d with nroDeGrupo := nro } g i).anota h) d2) :
    MismosBloques d (grabarSlot ((d2.anota h').devolver g i) slot 0) := by
  obtain ⟨bits, groups, total⟩ := grabarSlot_tablas ((d2.anota h').devolver g i) slot 0
  refine ⟨?_, ?_, fun k => ?_⟩
  · funext k j
    have taken : d2.bitmapBloques k j = if k = g ∧ j = i then true else d.bitmapBloques k j := by
      rw [same.bitmapBloques]
      rfl
    rw [bits, devolver_bit]
    split
    · rename_i here
      rw [here.1, here.2, clear]
    · rename_i other
      rw [show (d2.anota h').bitmapBloques k j = d2.bitmapBloques k j from rfl, taken, if_neg other]
  · rw [total]
    show d2.freeBlocks + 1 = d.freeBlocks
    rw [same.freeBlocks]
    exact UInt32.sub_add_cancel ..
  · have taken := same.freeBlocksCount k
    rw [groups]
    by_cases here : k = g
    · subst here
      have less : (d2.grupo k).freeBlocksCount = (d.grupo k).freeBlocksCount - 1 := by
        rw [taken]
        simp [Disco.anota, Disco.ocupar, Disco.ponGrupo]
      simp [Disco.devolver, Disco.ponGrupo, Disco.anota, less]
    · have kept : (d2.grupo k).freeBlocksCount = (d.grupo k).freeBlocksCount := by
        rw [taken]
        simp [Disco.anota, Disco.ocupar, Disco.ponGrupo, Disco.ponBitBloque, here]
      simp [Disco.devolver, Disco.ponGrupo, Disco.ponBitBloque, Disco.anota, here, kept]

/-- `liberarBloque` undoes what `getBloqueLibre` did, for every block in use of every slot and
for the block just taken, exactly where blocks are counted from 1. -/
theorem liberar_deshace_pedir (image : BloquesConsistentes sb d) :
    (∀ slot b, leerSlot d slot = b → DeDatos sb d b →
      ((∃ d', liberarBloque sb d slot = some d' ∧ Devuelto sb d d' slot b) ↔
        sb.firstDataBlock = 1)) ∧
    ∀ b d1, getBloqueLibre sb d = some (b, d1) → b ≠ 0 →
      ∀ d2 slot, MismosBloques d1 d2 → leerSlot d2 slot = b →
        ((∃ d3, liberarBloque sb d2 slot = some d3 ∧ MismosBloques d d3) ↔
          sb.firstDataBlock = 1) := by
  refine ⟨fun slot b held data => devuelto_iff image held data, ?_⟩
  intro b d1 run nonzero d2 slot same held
  have limit := image.bloques
  have first := image.primero_le
  obtain ⟨⟨g, lleno⟩, searched⟩ := buscarGrupo_of_getBloqueLibre run
  cases lleno with
  | true =>
    rw [getBloqueLibre_lleno searched] at run
    cases run
    exact absurd rfl nonzero
  | false =>
    obtain ⟨hg, count⟩ := buscarGrupo_libre searched
    obtain ⟨i, hi, clear, inside, -, taken⟩ :=
      image.tablas.getBloqueLibre_libre limit first searched
    rw [taken] at run
    cases run
    obtain ⟨group, bit⟩ := grupoDe_bitDe (g := g) hi
    rw [liberarBloque_eq held (by omega) (by omega) nonzero (by rw [group]; exact hg), group]
    constructor
    · rintro ⟨d3, run, back⟩
      by_contra other
      have zero : sb.firstDataBlock = 0 := by omega
      have inner : i ≠ 0 := by
        rintro rfl
        rw [image.inicio g hg] at clear
        cases clear
      have before := bit_anterior zero (bit.trans_ne inner)
      rw [bit] at before
      cases run
      -- the bit taken is still set
      have set : d2.bitmapBloques g i = true := by
        rw [same.bitmapBloques]
        simp [Disco.anota, ocupar_bit]
      have cleared := congrFun (congrFun back.bitmapBloques g) i
      rw [(grabarSlot_tablas ..).1, devolver_bit, if_neg fun here => before here.2.symm, clear]
        at cleared
      exact absurd (set.symm.trans cleared) (by decide)
    · intro one
      have number : (sb.firstDataBlock + sb.blocksPerGroup * g + i - 1) % sb.blocksPerGroup = i := by
        rw [bitDe, one] at bit
        rw [one]
        exact bit
      rw [number]
      exact ⟨_, rfl, ocupar_devolver clear same⟩

theorem imagenConArchivo_datos {log : Nat} (small : log = 0 ∨ log = 1) :
    DeDatos (volumen log) (imagenConArchivo log) 11 := by
  rcases small with rfl | rfl <;>
    exact ⟨⟨by decide, by decide, by decide⟩, by decide, by decide +kernel⟩

/-- The block of `/a` goes back; and one more block comes and goes. -/
theorem liberar_deshace_pedir_once :
    (∃ d', liberarBloque (volumen 0) (imagenConArchivo 0) (.inodo 11 0) = some d' ∧
      Devuelto (volumen 0) (imagenConArchivo 0) d' (.inodo 11 0) 11) ∧
    ∃ d1 d3, getBloqueLibre (volumen 0) (imagenConArchivo 0) = some (12, d1) ∧
      liberarBloque (volumen 0) (grabarSlot d1 (.inodo 11 1) 12) (.inodo 11 1) = some d3 ∧
      MismosBloques (imagenConArchivo 0) d3 := by
  obtain ⟨freed, undone⟩ := liberar_deshace_pedir (imagenConArchivo_bloques (.inl rfl))
  refine ⟨(freed _ 11 (by decide +kernel) (imagenConArchivo_datos (.inl rfl))).mpr rfl, ?_⟩
  have twelve : (getBloqueLibre (volumen 0) (imagenConArchivo 0)).map (·.1) = some 12 := by
    decide +kernel
  obtain ⟨⟨b, d1⟩, run, rfl⟩ := Option.map_eq_some_iff.mp twelve
  have stored : MismosBloques d1 (grabarSlot d1 (.inodo 11 1) 12) := ⟨rfl, rfl, fun _ => rfl⟩
  have held : leerSlot (grabarSlot d1 (.inodo 11 1) 12) (.inodo 11 1) = 12 := by
    simp [leerSlot, grabarSlot, Disco.ponInodo, INode.ponBloque]
  obtain ⟨d3, back, same⟩ := (undone 12 d1 run (by decide) _ _ stored held).mpr rfl
  exact ⟨d1, d3, run, back, same⟩

/-- With blocks of 2048 bytes, counted from 0, the bit cleared is that of block 10. -/
theorem bloque_vecino_liberado : ¬∀ (sb : Superblock) (d : Disco), BloquesConsistentes sb d →
    ∀ slot b, leerSlot d slot = b → DeDatos sb d b →
      ∃ d', liberarBloque sb d slot = some d' ∧ Devuelto sb d d' slot b := by
  intro all
  have image := imagenConArchivo_bloques (.inr rfl)
  have held : leerSlot (imagenConArchivo 1) (.inodo 11 0) = 11 := by decide +kernel
  have data := imagenConArchivo_datos (.inr rfl)
  exact absurd ((devuelto_iff image held data).mp (all _ _ image _ _ held data)) (by decide)

/-! ### The cursor over runs -/

section
variable (sb)

/-- Turns of the `while` of `getBloqueLibre`. -/
def vueltas (d : Disco) : Nat → Nat → Bool → Nat
  | 0, _, _ => 0
  | fuel + 1, nro, diLaVuelta =>
    if nro < cantidadDeGrupos sb ∧ (d.grupo nro).freeBlocksCount ≠ 0 then 0
    else
      let siguiente := (nro + 1) % 2 ^ 32
      if siguiente = cantidadDeGrupos sb then
        if diLaVuelta then 1 else 1 + vueltas d fuel 0 true
      else 1 + vueltas d fuel siguiente diLaVuelta

inductive Peticion where
  | getBloqueLibre
  | liberarBloque (slot : Slot)
  deriving DecidableEq

def Peticion.hacer (d : Disco) : Peticion → Option Disco
  | .getBloqueLibre => (Rfs.getBloqueLibre sb d).map (·.2)
  | .liberarBloque slot => Rfs.liberarBloque sb d slot

/-- Along the calls, as long as they return, the cursor is valid after each one and no call goes
round more than twice. -/
def CursorValido (d : Disco) : List Peticion → Prop
  | [] => True
  | p :: ps =>
    (p = .getBloqueLibre → vueltas sb d (2 ^ 34) d.nroDeGrupo false ≤ 2 * cantidadDeGrupos sb) ∧
      match p.hacer sb d with
      | some d' => d'.nroDeGrupo < cantidadDeGrupos sb ∧ CursorValido d' ps
      | none => True

/-- Along the calls no block is asked for while no group counts a free one. -/
def NuncaLleno (d : Disco) : List Peticion → Prop
  | [] => True
  | p :: ps => (p = .getBloqueLibre → ¬sinBloques sb d) ∧
    match p.hacer sb d with
    | some d' => NuncaLleno d' ps
    | none => True

end

/-- From a valid cursor the loop goes round at most twice. -/
theorem vueltas_le (few : cantidadDeGrupos sb < 2 ^ 32) (fuel : Nat) {nro : Nat} {vuelta : Bool}
    (valid : nro < cantidadDeGrupos sb) : vueltas sb d fuel nro vuelta + nro ≤
      if vuelta then cantidadDeGrupos sb else 2 * cantidadDeGrupos sb := by
  induction fuel generalizing nro vuelta with
  | zero =>
    rw [vueltas]
    split <;> omega
  | succ fuel ih =>
    rw [vueltas, Nat.mod_eq_of_lt (show nro + 1 < 2 ^ 32 by omega)]
    split
    · split <;> omega
    simp only
    split
    · rename_i last
      cases vuelta with
      | true =>
        simp only [↓reduceIte]
        omega
      | false =>
        have again : vueltas sb d fuel 0 true + 0 ≤ if true then cantidadDeGrupos sb else _ :=
          ih (by omega)
        simp only [↓reduceIte, Bool.false_eq_true] at again ⊢
        omega
    · rename_i more
      have again : vueltas sb d fuel (nro + 1) vuelta + (nro + 1) ≤ _ := ih (by omega)
      omega

/-- A search that gives up leaves the cursor past the last group. -/
theorem buscarGrupo_cursor {fuel nro : Nat} {vuelta : Bool}
    (run : buscarGrupo sb d fuel nro vuelta = some (g, true)) : g = cantidadDeGrupos sb := by
  induction fuel generalizing nro vuelta with
  | zero => cases run
  | succ fuel ih =>
    rw [buscarGrupo] at run
    split at run
    · cases run
    simp only at run
    split at run
    · rename_i last
      cases vuelta with
      | true =>
        cases run
        exact last
      | false => exact ih run
    · exact ih run

theorem liberarBloque_cursor {slot : Slot} (run : liberarBloque sb d slot = some d') :
    d'.nroDeGrupo = d.nroDeGrupo := by
  simp only [liberarBloque, Option.bind_eq_bind, Option.bind_eq_some_iff, Option.some.injEq] at run
  obtain ⟨-, -, rfl⟩ := run
  cases slot <;> rfl

/-- The cursor is valid after a call that returns, unless the disk was full. -/
theorem getBloqueLibre_cursor (run : getBloqueLibre sb d = some (b, d')) :
    d'.nroDeGrupo < cantidadDeGrupos sb ↔ ¬sinBloques sb d := by
  simp only [getBloqueLibre, Option.bind_eq_bind, Option.bind_eq_some_iff] at run
  obtain ⟨⟨g, lleno⟩, searched, run⟩ := run
  cases lleno with
  | true =>
    cases run
    have full : sinBloques sb d := fun g bound => buscarGrupo_lleno searched g bound (.inr rfl)
    have past := buscarGrupo_cursor searched
    exact iff_of_false (fun valid => absurd past (Nat.ne_of_lt valid)) fun some_free => some_free full
  | false =>
    obtain ⟨hg, count⟩ := buscarGrupo_libre searched
    simp only [Bool.false_eq_true, ↓reduceIte, actualizarEstructurasCuandoPidoBloque,
      Option.bind_eq_bind, Option.bind_eq_some_iff] at run
    obtain ⟨after, ⟨grupo, -, taken⟩, run⟩ := run
    cases taken
    cases run
    exact iff_of_true hg fun full => count (full g hg)

/-- On a full disk the call returns. -/
theorem getBloqueLibre_isSome_of_lleno (few : cantidadDeGrupos sb < 2 ^ 32)
    (cursor : d.nroDeGrupo < cantidadDeGrupos sb) (full : sinBloques sb d) :
    ∃ d', (getBloqueLibre sb d).map (·.2) = some d' := by
  have ends : (buscarGrupo sb d (2 ^ 34) d.nroDeGrupo false).isSome :=
    buscarGrupo_isSome few _ cursor (by rw [if_neg Bool.false_ne_true]; omega)
  obtain ⟨⟨g, lleno⟩, searched⟩ := Option.isSome_iff_exists.mp ends
  cases lleno with
  | true => exact ⟨_, by rw [getBloqueLibre_lleno searched]; rfl⟩
  | false =>
    obtain ⟨hg, count⟩ := buscarGrupo_libre searched
    exact absurd (full g hg) count

/-- In a run of calls from a valid cursor it stays valid, and no call goes round more than twice,
exactly when no block is asked for on a full disk. -/
theorem cursor_valido_iff (inodes : sb.inodes < 2 ^ 32)
    (cursor : d.nroDeGrupo < cantidadDeGrupos sb) (ps : List Peticion) :
    CursorValido sb d ps ↔ NuncaLleno sb d ps := by
  have few : cantidadDeGrupos sb < 2 ^ 32 := lt_of_le_of_lt cantidadDeGrupos_le inodes
  induction ps generalizing d with
  | nil => exact Iff.rfl
  | cons p ps ih =>
    rw [CursorValido, NuncaLleno]
    cases p with
    | getBloqueLibre =>
      have turns : vueltas sb d (2 ^ 34) d.nroDeGrupo false + d.nroDeGrupo ≤
          if false then _ else 2 * cantidadDeGrupos sb := vueltas_le few _ cursor
      rw [if_neg Bool.false_ne_true] at turns
      have bound : vueltas sb d (2 ^ 34) d.nroDeGrupo false ≤ 2 * cantidadDeGrupos sb := by omega
      cases done : Peticion.hacer sb d .getBloqueLibre with
      | none =>
        have some_free : ¬sinBloques sb d := fun full => by
          obtain ⟨d', there⟩ := getBloqueLibre_isSome_of_lleno few cursor full
          rw [Peticion.hacer, there] at done
          cases done
        simp only [forall_const, bound, some_free, not_false_eq_true, and_true]
      | some d' =>
        obtain ⟨⟨b, d1⟩, run, rfl⟩ := Option.map_eq_some_iff.mp done
        have after := getBloqueLibre_cursor run
        simp only [forall_const, bound, true_and]
        rw [after]
        exact and_congr_right fun some_free => ih (after.mpr some_free)
    | liberarBloque slot =>
      cases done : Peticion.hacer sb d (.liberarBloque slot) with
      | none => simp
      | some d' =>
        have same := liberarBloque_cursor done
        have valid : d'.nroDeGrupo < cantidadDeGrupos sb := same ▸ cursor
        simp [valid, ih valid]

instance : Decidable (sinBloques sb d) :=
  inferInstanceAs (Decidable (∀ g < cantidadDeGrupos sb, _))

def decideNuncaLleno (sb : Superblock) : ∀ d ps, Decidable (NuncaLleno sb d ps)
  | _, [] => isTrue trivial
  | d, p :: ps =>
    have : Decidable (match p.hacer sb d with | some d' => NuncaLleno sb d' ps | none => True) :=
      match p.hacer sb d with
      | some d' => decideNuncaLleno sb d' ps
      | none => isTrue trivial
    inferInstanceAs (Decidable (_ ∧ _))

instance (ps : List Peticion) : Decidable (NuncaLleno sb d ps) := decideNuncaLleno sb d ps

/-- A block is taken, another one given back and taken again. -/
theorem cursor_valido_iff_corrida : CursorValido (volumen 0) (imagenConArchivo 0)
    [.getBloqueLibre, .liberarBloque (.inodo 11 0), .getBloqueLibre] :=
  (cursor_valido_iff (by decide) (by decide +kernel) _).mpr (by decide +kernel)

/-- A block asked for on a full disk leaves the cursor past the last group. -/
theorem cursor_perdido : ¬∀ (sb : Superblock) (d : Disco), BloquesConsistentes sb d →
    d.nroDeGrupo < cantidadDeGrupos sb → ∀ ps, CursorValido sb d ps := by
  intro all
  have image : BloquesConsistentes (volumen 0) imagenLlena := by decide +kernel
  have valid := all _ _ image (by decide +kernel) [.getBloqueLibre]
  obtain ⟨d', done⟩ := getBloqueLibre_isSome_of_lleno image.pocos (by decide +kernel)
    (show sinBloques (volumen 0) imagenLlena by decide +kernel)
  obtain ⟨⟨b, d1⟩, run, rfl⟩ := Option.map_eq_some_iff.mp done
  rw [CursorValido, Peticion.hacer, done] at valid
  exact (getBloqueLibre_cursor run).mp valid.2.1 (by decide +kernel)

end LosAltos.Rfs
