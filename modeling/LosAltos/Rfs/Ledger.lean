import LosAltos.Rfs.Positions
import LosAltos.Rfs.Trace
import Mathlib.Algebra.BigOperators.Group.Finset.Basic
import Mathlib.Algebra.Order.BigOperators.Group.Finset

/-!
# The ledger of the block allocator

`getBloqueLibre` and `liberarBloque` (`funciones_rfs.c:704-784, 1110-1131`) as steps of the
ledger of `Lib.Forest`, together with what they need of the bitmaps and the counters.
-/
namespace LosAltos.Rfs

open Lib

/-- The geometries RFS is meant for; the image ends below 4 GiB. -/
structure Geometria (sb : Superblock) : Prop where
  bloque : sb.logBlockSize ≤ 2
  primero : sb.firstDataBlock = if sb.logBlockSize = 0 then 1 else 0
  chica : sb.blocks * tamanioDeBloque sb ≤ 2 ^ 32

variable {sb : Superblock}

theorem tamanioDeBloque_cases (log : sb.logBlockSize ≤ 2) :
    tamanioDeBloque sb = 1024 ∨ tamanioDeBloque sb = 2048 ∨ tamanioDeBloque sb = 4096 := by
  rw [tamanioDeBloque]
  rcases (by omega : sb.logBlockSize = 0 ∨ sb.logBlockSize = 1 ∨ sb.logBlockSize = 2) with
    same | same | same <;> simp [same]

theorem ptrsPorBloque_pos (log : sb.logBlockSize ≤ 2) : 0 < ptrsPorBloque sb := by
  rw [ptrsPorBloque]
  rcases tamanioDeBloque_cases log with size | size | size <;> omega

/-- Blocks of an image below 4 GiB do not wrap. -/
theorem inicio_sin_vuelta (log : sb.logBlockSize ≤ 2)
    (small : sb.blocks * tamanioDeBloque sb ≤ 2 ^ 32) {b : Nat} (bound : b < sb.blocks) :
    posicionarInicioBloque sb b = b * tamanioDeBloque sb := by
  have positive : 0 < tamanioDeBloque sb := by
    rcases tamanioDeBloque_cases log with size | size | size <;> omega
  have below : b * tamanioDeBloque sb < 2 ^ 32 :=
    lt_of_lt_of_le (Nat.mul_lt_mul_of_pos_right bound positive) small
  rw [posicionarInicioBloque, Nat.mod_eq_of_lt below, Nat.cast_mul]

/-- Two blocks of an image below 4 GiB do not overlap. -/
theorem bloques_aparte (log : sb.logBlockSize ≤ 2)
    (small : sb.blocks * tamanioDeBloque sb ≤ 2 ^ 32) {b c : Nat} (hb : b < sb.blocks)
    (hc : c < sb.blocks) (different : b ≠ c) :
    posicionarInicioBloque sb b + tamanioDeBloque sb ≤ posicionarInicioBloque sb c ∨
      posicionarInicioBloque sb c + tamanioDeBloque sb ≤ posicionarInicioBloque sb b := by
  rw [inicio_sin_vuelta log small hb, inicio_sin_vuelta log small hc]
  norm_cast
  rcases Nat.lt_or_gt_of_ne different with less | more
  · left
    rw [← Nat.succ_mul]
    exact Nat.mul_le_mul_right _ less
  · right
    rw [← Nat.succ_mul]
    exact Nat.mul_le_mul_right _ more

namespace Geometria

theorem tamanio (geo : Geometria sb) :
    tamanioDeBloque sb = 1024 ∨ tamanioDeBloque sb = 2048 ∨ tamanioDeBloque sb = 4096 :=
  tamanioDeBloque_cases geo.bloque

theorem ptrs (geo : Geometria sb) : tamanioDeBloque sb = 4 * ptrsPorBloque sb := by
  rw [ptrsPorBloque]
  rcases geo.tamanio with size | size | size <;> rw [size]

theorem ptrs_pos (geo : Geometria sb) : 0 < ptrsPorBloque sb := ptrsPorBloque_pos geo.bloque

theorem primero_le (geo : Geometria sb) : sb.firstDataBlock ≤ 1 := by
  rw [geo.primero]
  split <;> omega

theorem blocks_lt (geo : Geometria sb) : sb.blocks < 2 ^ 32 := by
  have small := geo.chica
  rcases geo.tamanio with size | size | size <;> rw [size] at small <;> omega

theorem inicio (geo : Geometria sb) {b : Nat} (bound : b < sb.blocks) :
    posicionarInicioBloque sb b = b * tamanioDeBloque sb :=
  inicio_sin_vuelta geo.bloque geo.chica bound

theorem apart (geo : Geometria sb) {b c : Nat} (hb : b < sb.blocks) (hc : c < sb.blocks)
    (different : b ≠ c) :
    posicionarInicioBloque sb b + tamanioDeBloque sb ≤ posicionarInicioBloque sb c ∨
      posicionarInicioBloque sb c + tamanioDeBloque sb ≤ posicionarInicioBloque sb b :=
  bloques_aparte geo.bloque geo.chica hb hc different

end Geometria

/-! ### Words of the mapped file -/

theorem leer32_copia_disjoint (d : Disco) {dir other : Int} {bytes : List UInt8}
    (apart : other + 4 ≤ dir ∨ dir + bytes.length ≤ other) :
    leer32 (d.copia dir bytes) other = leer32 d other := by
  rw [leer32, leer32, Disco.copia,
    leer_escribir_disjoint d.mem dir other 4 bytes (by exact_mod_cast apart)]

theorem leer32_copia_self (d : Disco) (dir : Int) {n : Nat} (bound : n < 2 ^ 32) :
    leer32 (d.copia dir (toLe 4 n)) dir = n := by
  have back := leer_escribir_self d.mem dir (toLe 4 n)
  rw [toLe_length] at back
  rw [leer32, Disco.copia, back, fromLe_toLe_of_lt (by simpa using bound)]

theorem leerSlot_inodo_copia (d : Disco) (dir : Int) (bytes : List UInt8) (x i : Nat) :
    leerSlot (d.copia dir bytes) (.inodo x i) = leerSlot d (.inodo x i) := rfl

/-- Storing a number in the slot of a position. -/
theorem pone_grabarSlot (geo : Geometria sb) (d : Disco) {x i n : Nat} {p : List Nat}
    (parent : p ≠ [] → (punteros sb d).valor x p < sb.blocks)
    (width : p ≠ [] → i < ptrsPorBloque sb) (bound : n < 2 ^ 32) :
    Pone (ptrsPorBloque sb) sb.blocks (punteros sb d)
      (punteros sb (grabarSlot d (slotDe sb d x (i :: p)) n)) x i p n := by
  cases p with
  | nil =>
    refine ⟨fun y j => ?_, fun b j _ _ => ?_⟩
    · by_cases here : y = x
      · subst here
        by_cases word : j = i
        · simp [punteros, slotDe, grabarSlot, leerSlot, Disco.ponInodo, INode.ponBloque, word,
            Nat.mod_eq_of_lt (show n < 4294967296 from bound)]
        · simp [punteros, slotDe, grabarSlot, leerSlot, Disco.ponInodo, INode.ponBloque, word]
      · simp [punteros, slotDe, grabarSlot, leerSlot, Disco.ponInodo, here]
    · simp [punteros, slotDe, grabarSlot, leerSlot, leer32, slotDeBloque, Disco.ponInodo]
  | cons k q =>
    have block := parent (by simp)
    have index := width (by simp)
    have four := geo.ptrs
    refine ⟨fun y j => by simp [punteros, slotDe, grabarSlot, slotDeBloque, leerSlot_inodo_copia],
      fun b j hb hj => ?_⟩
    -- the word at index `j` of block `b`, after four bytes at index `i` of the parent
    change leer32 (d.copia (desplazarme sb ((punteros sb d).valor x (k :: q)) (i * 4)) (toLe 4 n))
      (desplazarme sb b (j * 4)) = if _ then n else leer32 d (desplazarme sb b (j * 4))
    by_cases here : b = (punteros sb d).valor x (k :: q)
    · by_cases word : j = i
      · rw [here, word, leer32_copia_self d _ bound, if_pos (by simp)]
      · rw [leer32_copia_disjoint, if_neg (by simp [word])]
        rw [here, toLe_length, desplazarme, desplazarme]
        omega
    · rw [leer32_copia_disjoint, if_neg (by simp [here])]
      have far := geo.apart hb block here
      rw [toLe_length, desplazarme, desplazarme]
      omega

/-! ### Bitmaps and counters -/

section
variable (sb)

def usado (d : Disco) (b : Nat) : Prop :=
  b ≠ 0 ∧ d.bitmapBloques ((b - sb.firstDataBlock) / sb.blocksPerGroup)
    ((b - sb.firstDataBlock) % sb.blocksPerGroup) = true

/-- Clear bits of a group. -/
def libresDe (d : Disco) (g : Nat) : Nat :=
  ((Finset.range sb.blocksPerGroup).filter fun i => d.bitmapBloques g i = false).card

/-- The bitmaps and counters of blocks, among themselves. -/
structure Tablas (d : Disco) : Prop where
  /-- Block 0 of a group is never handed out when blocks are counted from 0. -/
  inicio : sb.firstDataBlock = 0 → ∀ g < cantidadDeGrupos sb, d.bitmapBloques g 0 = true
  dentro : ∀ g < cantidadDeGrupos sb, ∀ i < sb.blocksPerGroup, d.bitmapBloques g i = false →
    sb.firstDataBlock + sb.blocksPerGroup * g + i < sb.blocks
  cuentaGrupo : ∀ g < cantidadDeGrupos sb,
    (d.grupo g).freeBlocksCount = .ofNat (libresDe sb d g)
  cuentaTotal : d.freeBlocks = .ofNat (∑ g ∈ Finset.range (cantidadDeGrupos sb), libresDe sb d g)

/-- The ledger and the tables it is kept in. -/
structure Obra (S : Nat → List Nat → Prop) (E : Nat → Prop) (d : Disco) : Prop where
  libro : Libro (ptrsPorBloque sb) sb.blocks (punteros sb d) (usado sb d) S E
  tablas : Tablas sb d

end

/-- Only the bitmaps and counters of blocks, the cursor and the trace differ. -/
structure SoloBloques (d d' : Disco) : Prop where
  mem : d'.mem = d.mem
  inodo : d'.inodo = d.inodo
  bitmapInodos : d'.bitmapInodos = d.bitmapInodos
  freeInodes : d'.freeInodes = d.freeInodes
  basura : d'.basura = d.basura
  freeInodesCount : ∀ g, (d'.grupo g).freeInodesCount = (d.grupo g).freeInodesCount
  usedDirsCount : ∀ g, (d'.grupo g).usedDirsCount = (d.grupo g).usedDirsCount

/-- Only inodes, bytes, the tables of inodes and the trace differ. -/
structure MismosBloques (d d' : Disco) : Prop where
  bitmapBloques : d'.bitmapBloques = d.bitmapBloques
  freeBlocks : d'.freeBlocks = d.freeBlocks
  freeBlocksCount : ∀ g, (d'.grupo g).freeBlocksCount = (d.grupo g).freeBlocksCount

theorem MismosBloques.trans {d d' d'' : Disco} (first : MismosBloques d d')
    (second : MismosBloques d' d'') : MismosBloques d d'' where
  bitmapBloques := second.bitmapBloques.trans first.bitmapBloques
  freeBlocks := second.freeBlocks.trans first.freeBlocks
  freeBlocksCount g := (second.freeBlocksCount g).trans (first.freeBlocksCount g)

theorem MismosBloques.anota (d : Disco) (h : Hecho) : MismosBloques d (d.anota h) :=
  ⟨rfl, rfl, fun _ => rfl⟩

theorem SoloBloques.punteros {d d' : Disco} (same : SoloBloques d d') :
    punteros sb d' = punteros sb d := by
  simp only [Rfs.punteros, leerSlot, slotDeBloque, leer32, same.mem, same.inodo]

theorem MismosBloques.libresDe {d d' : Disco} (same : MismosBloques d d') (g : Nat) :
    libresDe sb d' g = libresDe sb d g := by
  simp only [Rfs.libresDe, same.bitmapBloques]

theorem MismosBloques.usado {d d' : Disco} (same : MismosBloques d d') :
    usado sb d' = usado sb d := by
  funext b
  simp only [Rfs.usado, same.bitmapBloques]

theorem MismosBloques.tablas {d d' : Disco} (same : MismosBloques d d') (tables : Tablas sb d) :
    Tablas sb d' where
  inicio := by
    rw [same.bitmapBloques]
    exact tables.inicio
  dentro := by
    rw [same.bitmapBloques]
    exact tables.dentro
  cuentaGrupo g bound := by
    rw [same.freeBlocksCount, same.libresDe]
    exact tables.cuentaGrupo g bound
  cuentaTotal := by
    simp only [same.freeBlocks, same.libresDe]
    exact tables.cuentaTotal

/-- Another forest over the same bitmaps. -/
theorem Obra.con_libro {S T : Nat → List Nat → Prop} {E F : Nat → Prop} {d d' : Disco}
    (obra : Obra sb S E d) (same : MismosBloques d d')
    (libro : Libro (ptrsPorBloque sb) sb.blocks (punteros sb d') (usado sb d) T F) :
    Obra sb T F d' :=
  ⟨by rwa [same.usado], same.tablas obra.tablas⟩

/-- One clear bit less. -/
theorem card_clear {n i : Nat} {before after : Nat → Bool} (bound : i < n)
    (others : ∀ j, j ≠ i → after j = before j) (clear : before i = false) (set : after i = true) :
    ((Finset.range n).filter fun j => before j = false).card =
      ((Finset.range n).filter fun j => after j = false).card + 1 := by
  have erased : ((Finset.range n).filter fun j => after j = false) =
      ((Finset.range n).filter fun j => before j = false).erase i := by
    ext j
    by_cases here : j = i
    · simp [here, set]
    · simp [here, others j here]
  rw [erased, Finset.card_erase_add_one (by simp [bound, clear])]

theorem sum_succ_at {n g : Nat} {before after : Nat → Nat} (bound : g < n)
    (others : ∀ h, h ≠ g → after h = before h) (here : after g = before g + 1) :
    ∑ h ∈ Finset.range n, after h = ∑ h ∈ Finset.range n, before h + 1 := by
  rw [← Finset.add_sum_erase _ _ (Finset.mem_range.mpr bound),
    ← Finset.add_sum_erase _ before (Finset.mem_range.mpr bound), here,
    Finset.sum_congr rfl fun h member => others h (Finset.ne_of_mem_erase member),
    Nat.add_right_comm]

/-- A block is known by its group and its bit. -/
theorem coords {b c g i : Nat} (first : sb.firstDataBlock ≤ 1)
    (number : b = sb.firstDataBlock + sb.blocksPerGroup * g + i) (hi : i < sb.blocksPerGroup)
    (nonzero : c ≠ 0) :
    (c - sb.firstDataBlock) / sb.blocksPerGroup = g ∧
      (c - sb.firstDataBlock) % sb.blocksPerGroup = i ↔ c = b := by
  constructor
  · rintro ⟨rfl, rfl⟩
    have split := Nat.div_add_mod (c - sb.firstDataBlock) sb.blocksPerGroup
    omega
  · rintro rfl
    have shift : c - sb.firstDataBlock = sb.blocksPerGroup * g + i := by omega
    rw [shift, Nat.mul_add_div sb.blocksPerGroup_pos, Nat.div_eq_of_lt hi, Nat.mul_add_mod,
      Nat.mod_eq_of_lt hi]
    simp

section
variable {d : Disco} {b g i : Nat}

theorem ocupar_bit (h j : Nat) : (d.ocupar g i).bitmapBloques h j =
    if h = g ∧ j = i then true else d.bitmapBloques h j := rfl

theorem devolver_bit (h j : Nat) : (d.devolver g i).bitmapBloques h j =
    if h = g ∧ j = i then false else d.bitmapBloques h j := rfl

theorem usado_ocupar (first : sb.firstDataBlock ≤ 1)
    (number : b = sb.firstDataBlock + sb.blocksPerGroup * g + i) (hi : i < sb.blocksPerGroup)
    (nonzero : b ≠ 0) (c : Nat) : usado sb (d.ocupar g i) c ↔ c = b ∨ usado sb d c := by
  by_cases zero : c = 0
  · simp [usado, zero, nonzero.symm]
  simp only [usado, ocupar_bit, coords first number hi zero]
  by_cases here : c = b <;> simp [here, zero, nonzero]

theorem usado_devolver (first : sb.firstDataBlock ≤ 1)
    (number : b = sb.firstDataBlock + sb.blocksPerGroup * g + i) (hi : i < sb.blocksPerGroup)
    (c : Nat) : usado sb (d.devolver g i) c ↔ usado sb d c ∧ c ≠ b := by
  by_cases zero : c = 0
  · simp [usado, zero]
  simp only [usado, devolver_bit, coords first number hi zero]
  by_cases here : c = b <;> simp [here]

theorem libresDe_ocupar (hi : i < sb.blocksPerGroup) (clear : d.bitmapBloques g i = false) :
    libresDe sb d g = libresDe sb (d.ocupar g i) g + 1 :=
  card_clear hi (fun j other => by simp [ocupar_bit, other]) clear (by simp [ocupar_bit])

theorem libresDe_devolver (hi : i < sb.blocksPerGroup) (set : d.bitmapBloques g i = true) :
    libresDe sb (d.devolver g i) g = libresDe sb d g + 1 :=
  card_clear hi (fun j other => by simp [devolver_bit, other]) (by simp [devolver_bit]) set

end

theorem resta32_of_le {a b : Nat} (le : b ≤ a) (bound : a < 2 ^ 32) : resta32 a b = a - b := by
  rw [resta32]
  omega

namespace Tablas

variable {d : Disco} {g i : Nat}

theorem ocupar (tables : Tablas sb d) (hg : g < cantidadDeGrupos sb) (hi : i < sb.blocksPerGroup)
    (clear : d.bitmapBloques g i = false) : Tablas sb (d.ocupar g i) := by
  have here := libresDe_ocupar hi clear
  have others : ∀ h, h ≠ g → libresDe sb (d.ocupar g i) h = libresDe sb d h := by
    intro h other
    simp [libresDe, ocupar_bit, other]
  constructor
  · intro zero h bound
    rw [ocupar_bit, tables.inicio zero h bound, ite_self]
  · intro h bound j small unset
    rw [ocupar_bit] at unset
    split at unset
    · cases unset
    · exact tables.dentro h bound j small unset
  · intro h bound
    by_cases same : h = g
    · subst same
      have count : ((d.ocupar h i).grupo h).freeBlocksCount = (d.grupo h).freeBlocksCount - 1 := by
        simp [Disco.ocupar, Disco.ponGrupo]
      rw [count, tables.cuentaGrupo h bound, here, UInt16.ofNat_add]
      simp
    · have count : ((d.ocupar g i).grupo h).freeBlocksCount = (d.grupo h).freeBlocksCount := by
        simp [Disco.ocupar, Disco.ponGrupo, Disco.ponBitBloque, same]
      rw [count, others h same, tables.cuentaGrupo h bound]
  · have total := sum_succ_at hg (fun h other => (others h other).symm) here
    have count : (d.ocupar g i).freeBlocks = d.freeBlocks - 1 := rfl
    rw [count, tables.cuentaTotal, total, UInt32.ofNat_add]
    simp

theorem devolver (tables : Tablas sb d) (first : sb.firstDataBlock ≠ 0)
    (hg : g < cantidadDeGrupos sb) (hi : i < sb.blocksPerGroup) (set : d.bitmapBloques g i = true)
    (inside : sb.firstDataBlock + sb.blocksPerGroup * g + i < sb.blocks) :
    Tablas sb (d.devolver g i) := by
  have here := libresDe_devolver hi set
  have others : ∀ h, h ≠ g → libresDe sb (d.devolver g i) h = libresDe sb d h := by
    intro h other
    simp [libresDe, devolver_bit, other]
  constructor
  · intro zero
    exact absurd zero first
  · intro h bound j small unset
    rw [devolver_bit] at unset
    split at unset
    · rename_i same
      rw [same.1, same.2]
      exact inside
    · exact tables.dentro h bound j small unset
  · intro h bound
    by_cases same : h = g
    · subst same
      have count : ((d.devolver h i).grupo h).freeBlocksCount =
          (d.grupo h).freeBlocksCount + 1 := by
        simp [Disco.devolver, Disco.ponGrupo]
      rw [count, tables.cuentaGrupo h bound, here, UInt16.ofNat_add]
      rfl
    · have count : ((d.devolver g i).grupo h).freeBlocksCount = (d.grupo h).freeBlocksCount := by
        simp [Disco.devolver, Disco.ponGrupo, Disco.ponBitBloque, same]
      rw [count, others h same, tables.cuentaGrupo h bound]
  · have total := sum_succ_at hg others here
    have count : (d.devolver g i).freeBlocks = d.freeBlocks + 1 := rfl
    rw [count, tables.cuentaTotal, total, UInt32.ofNat_add]
    rfl

end Tablas

variable {S T : Nat → List Nat → Prop} {E : Nat → Prop} {d d' : Disco} {x i n b : Nat}
  {p : List Nat}

/-! ### A block is asked for -/

theorem buscarGrupo_libre {fuel nro grupo : Nat} {vuelta : Bool}
    (run : buscarGrupo sb d fuel nro vuelta = some (grupo, false)) :
    grupo < cantidadDeGrupos sb ∧ (d.grupo grupo).freeBlocksCount ≠ 0 := by
  induction fuel generalizing nro vuelta with
  | zero => cases run
  | succ fuel ih =>
    rw [buscarGrupo] at run
    split at run
    · rename_i found
      cases run
      exact found
    simp only at run
    split at run
    · split at run
      · cases run
      · exact ih run
    · exact ih run

theorem buscarGrupo_of_getBloqueLibre (run : getBloqueLibre sb d = some (b, d')) :
    ∃ outcome, buscarGrupo sb d (2 ^ 34) d.nroDeGrupo false = some outcome := by
  simp only [getBloqueLibre, Option.bind_eq_bind, Option.bind_eq_some_iff] at run
  obtain ⟨outcome, searched, -⟩ := run
  exact ⟨outcome, searched⟩

theorem getBloqueLibre_lleno {g : Nat}
    (searched : buscarGrupo sb d (2 ^ 34) d.nroDeGrupo false = some (g, true)) :
    getBloqueLibre sb d = some (0, Disco.anota { d with nroDeGrupo := g } (.pide 0)) := by
  simp only [getBloqueLibre, searched, Option.bind_eq_bind, Option.bind_some, ↓reduceIte]

namespace Tablas

/-- A group with free blocks has a clear bit. -/
theorem exists_clear {g : Nat} (tables : Tablas sb d) (hg : g < cantidadDeGrupos sb)
    (count : (d.grupo g).freeBlocksCount ≠ 0) :
    ∃ i, (List.range sb.blocksPerGroup).find? (fun i => !d.bitmapBloques g i) = some i := by
  rw [tables.cuentaGrupo g hg] at count
  have some_free : libresDe sb d g ≠ 0 := by
    intro zero
    exact count (by rw [zero]; rfl)
  obtain ⟨i, member⟩ := Finset.card_ne_zero.mp some_free
  rw [Finset.mem_filter, Finset.mem_range] at member
  rw [← Option.isSome_iff_exists, List.find?_isSome]
  exact ⟨i, List.mem_range.mpr member.1, by simp [member.2]⟩

/-- The block of a clear bit of the group the search ends at. -/
theorem getBloqueLibre_libre {g : Nat} (limit : sb.blocks < 2 ^ 32)
    (first : sb.firstDataBlock ≤ 1) (tables : Tablas sb d)
    (searched : buscarGrupo sb d (2 ^ 34) d.nroDeGrupo false = some (g, false)) :
    ∃ i < sb.blocksPerGroup, d.bitmapBloques g i = false ∧
      sb.firstDataBlock + sb.blocksPerGroup * g + i < sb.blocks ∧
      sb.firstDataBlock + sb.blocksPerGroup * g + i ≠ 0 ∧
      getBloqueLibre sb d = some (sb.firstDataBlock + sb.blocksPerGroup * g + i,
        (Disco.ocupar { d with nroDeGrupo := g } g i).anota
          (.pide (sb.firstDataBlock + sb.blocksPerGroup * g + i))) := by
  obtain ⟨hg, count⟩ := buscarGrupo_libre searched
  obtain ⟨i, found⟩ := tables.exists_clear hg count
  have clear : d.bitmapBloques g i = false := by simpa using List.find?_some found
  have hi : i < sb.blocksPerGroup := List.mem_range.mp (List.mem_of_find?_eq_some found)
  have inside := tables.dentro g hg i hi clear
  have number : getBloqueLibreDelBitmap sb { d with nroDeGrupo := g } g =
      sb.firstDataBlock + sb.blocksPerGroup * g + i := by
    simp only [getBloqueLibreDelBitmap, nroBloqueInicioDeGrupo, found]
    omega
  -- with blocks counted from 0, bit 0 is in use
  have low : 0 < sb.firstDataBlock + i := by
    rcases Nat.eq_zero_or_pos sb.firstDataBlock with zero | positive
    · rcases Nat.eq_zero_or_pos i with rfl | positive
      · rw [tables.inicio zero g hg] at clear
        cases clear
      · omega
    · omega
  have nonzero : sb.firstDataBlock + sb.blocksPerGroup * g + i ≠ 0 := by omega
  have positive := sb.blocksPerGroup_pos
  have group : resta32 (sb.firstDataBlock + sb.blocksPerGroup * g + i) sb.firstDataBlock /
      sb.blocksPerGroup = g := by
    rw [resta32_of_le (by omega) (by omega), Nat.add_assoc, Nat.add_sub_cancel_left,
      Nat.mul_add_div positive, Nat.div_eq_of_lt hi, Nat.add_zero]
  have bit : resta32 (reducir (sb.firstDataBlock + sb.blocksPerGroup * g + i) sb.blocksPerGroup)
      sb.firstDataBlock = i := by
    have shape : sb.firstDataBlock + sb.blocksPerGroup * g + i - 1 =
        sb.blocksPerGroup * g + (sb.firstDataBlock + i - 1) := by omega
    have small : sb.firstDataBlock + i - 1 < sb.blocksPerGroup := by omega
    rw [reducir, if_neg nonzero, shape, Nat.mul_add_mod, Nat.mod_eq_of_lt small,
      resta32_of_le (by omega) (by omega)]
    omega
  refine ⟨i, hi, clear, inside, nonzero, ?_⟩
  have there : leerGroupDescriptor sb { d with nroDeGrupo := g } g = some (d.grupo g) := if_pos hg
  have taken : actualizarEstructurasCuandoPidoBloque sb { d with nroDeGrupo := g }
      (sb.firstDataBlock + sb.blocksPerGroup * g + i) =
      some (Disco.ocupar { d with nroDeGrupo := g } g i) := by
    rw [actualizarEstructurasCuandoPidoBloque, group, bit, there]
    rfl
  -- no rewriting under the search, whose fuel is a large literal
  refine Option.bind_eq_some_iff.mpr ⟨(g, false), searched, ?_⟩
  refine Option.bind_eq_some_iff.mpr ⟨_, number ▸ taken, ?_⟩
  rw [number]

end Tablas

namespace Obra

theorem ocupar {g : Nat} (geo : Geometria sb) (obra : Obra sb S E d) (hg : g < cantidadDeGrupos sb)
    (hi : i < sb.blocksPerGroup) (clear : d.bitmapBloques g i = false)
    (number : b = sb.firstDataBlock + sb.blocksPerGroup * g + i) (nonzero : b ≠ 0) :
    ¬usado sb d b ∧ Obra sb S (fun c => E c ∨ c = b) (d.ocupar g i) := by
  have free : ¬usado sb d b := by
    obtain ⟨group, bit⟩ := (coords geo.primero_le number hi nonzero).mpr rfl
    rw [usado, group, bit, clear]
    simp
  exact ⟨free, obra.libro.pedir free (usado_ocupar geo.primero_le number hi nonzero),
    obra.tablas.ocupar hg hi clear⟩

/-- `getBloqueLibre` answers 0, or a free block that it marks. -/
theorem pedir (geo : Geometria sb) (obra : Obra sb S E d)
    (run : getBloqueLibre sb d = some (b, d')) :
    b = 0 ∧ Obra sb S E d' ∨
      b ≠ 0 ∧ b < sb.blocks ∧ ¬usado sb d b ∧ Obra sb S (fun c => E c ∨ c = b) d' := by
  obtain ⟨⟨g, lleno⟩, searched⟩ := buscarGrupo_of_getBloqueLibre run
  cases lleno with
  | true =>
    rw [getBloqueLibre_lleno searched] at run
    cases run
    exact .inl ⟨rfl, obra.con_libro ⟨rfl, rfl, fun _ => rfl⟩ obra.libro⟩
  | false =>
    have hg := (buscarGrupo_libre searched).1
    obtain ⟨i, hi, clear, inside, nonzero, taken⟩ :=
      obra.tablas.getBloqueLibre_libre geo.blocks_lt geo.primero_le searched
    rw [taken] at run
    cases run
    obtain ⟨free, taken⟩ := obra.ocupar geo hg hi clear rfl nonzero
    exact .inr ⟨nonzero, inside, free, taken.con_libro ⟨rfl, rfl, fun _ => rfl⟩ taken.libro⟩

/-- A block that waits is stored in an empty slot. -/
theorem asignar (geo : Geometria sb) (obra : Obra sb S (fun c => E c ∨ c = n) d) (waiting : ¬E n)
    (bound : n < sb.blocks) (parent : p ≠ [] → S x p) (width : p ≠ [] → i < ptrsPorBloque sb)
    (out : ¬S x (i :: p)) :
    Obra sb (fun y q => S y q ∨ y = x ∧ q = i :: p) E (asignar d (slotDe sb d x (i :: p)) n) := by
  have pone := pone_grabarSlot geo d (fun filled => obra.libro.rango x p (parent filled)) width
    (bound.trans geo.blocks_lt)
  refine obra.con_libro ?_ (obra.libro.asignar waiting pone parent width bound out)
  cases p <;> exact ⟨rfl, rfl, fun _ => rfl⟩

/-- The block of a leaf goes back, when blocks are counted from 1. -/
theorem liberar (geo : Geometria sb) (first : sb.firstDataBlock = 1) (obra : Obra sb S E d)
    (member : S x (i :: p)) (leaf : ∀ j, ¬S x (j :: i :: p))
    (run : liberarBloque sb d (slotDe sb d x (i :: p)) = some d') :
    Obra sb (fun y q => S y q ∧ ¬(y = x ∧ q = i :: p)) E d' ∧
      ∀ y q, S y q ∧ ¬(y = x ∧ q = i :: p) →
        (punteros sb d').valor y q = (punteros sb d).valor y q := by
  simp only [liberarBloque, leerSlot_slotDe, Option.bind_eq_bind, Option.bind_eq_some_iff,
    Option.some.injEq] at run
  obtain ⟨grupo, group, rfl⟩ := run
  have below : (punteros sb d).valor x (i :: p) < sb.blocks := obra.libro.rango x _ member
  obtain ⟨nonzero, set⟩ := obra.libro.usado_of_mem member
  generalize owned : (punteros sb d).valor x (i :: p) = b at *
  have limit := geo.blocks_lt
  have positive := sb.blocksPerGroup_pos
  have small : (b - 1) % sb.blocksPerGroup ≤ b - 1 := Nat.mod_le _ _
  rw [first] at set
  rw [first, resta32_of_le (by omega) (by omega)] at group ⊢
  rw [reducir, if_neg nonzero, resta32_of_le (by omega) (by omega), Nat.add_sub_cancel]
  have hg : (b - 1) / sb.blocksPerGroup < cantidadDeGrupos sb := by
    by_contra outside
    simp [leerGroupDescriptor, outside] at group
  generalize coordinate : (b - 1) / sb.blocksPerGroup = g at *
  have hj : (b - 1) % sb.blocksPerGroup < sb.blocksPerGroup := Nat.mod_lt _ positive
  have number : b = sb.firstDataBlock + sb.blocksPerGroup * g + (b - 1) % sb.blocksPerGroup := by
    have split := Nat.div_add_mod (b - 1) sb.blocksPerGroup
    rw [coordinate] at split
    omega
  generalize (b - 1) % sb.blocksPerGroup = j at *
  have marked : ∀ c, usado sb ((d.anota (.libera b)).devolver g j) c ↔ usado sb d c ∧ c ≠ b :=
    usado_devolver geo.primero_le number hj
  have pone := pone_grabarSlot geo ((d.anota (.libera b)).devolver g j)
    (fun filled => obra.libro.rango x p (obra.libro.parent_of_mem member filled))
    (fun filled => obra.libro.width_of_mem member filled) (show 0 < 2 ^ 32 by omega)
  have libro := obra.libro.liberar pone member leaf (by rwa [owned])
  have noted := (MismosBloques.anota d (.libera b)).tablas obra.tablas
  have tables := noted.devolver (by omega) hg hj set (by omega)
  have same : MismosBloques ((d.anota (.libera b)).devolver g j)
      (grabarSlot ((d.anota (.libera b)).devolver g j) (slotDe sb d x (i :: p)) 0) := by
    cases p <;> exact ⟨rfl, rfl, fun _ => rfl⟩
  refine ⟨⟨?_, same.tablas tables⟩, obra.libro.valor_leaf pone member leaf⟩
  rw [same.usado]
  exact libro

end Obra

end LosAltos.Rfs
