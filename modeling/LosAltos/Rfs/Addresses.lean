import LosAltos.Rfs.Directories
import LosAltos.Rfs.Runs

/-!
# Where blocks and inodes lie in the mapped file

`funciones_rfs.c:153-216, 464-467`.

The records of `Disco` stand under their numbers. Here the same functions are followed down to
the byte offset they add to `ptr_arch`, over the bytes of the image: a product of two `uint32_t`s
wraps before it is added to the 64 bit pointer, and so does the offset of a group descriptor.
-/
namespace LosAltos.Rfs

open Lib

/-- A `uint32_t` that is stored in an `int`. -/
def aInt (n : Nat) : Int := if n < 2 ^ 31 then n else (n : Int) - 2 ^ 32

def posInicialGD (sb : Superblock) : Nat :=
  if tamanioDeBloque sb = 4096 then tamanioDeBloque sb else 2048

/-- The position that `leerGroupDescriptor` answers. -/
def dirGroupDescriptor (sb : Superblock) (nroGrupo : Nat) : Option Nat :=
  if nroGrupo < cantidadDeGrupos sb then some (posInicialGD sb + 32 * nroGrupo % 2 ^ 32) else none

/-- The field `inode_table` of the descriptor at `dir`. -/
def inodeTable (img : Memoria) (dir : Nat) : Nat := fromLe (leer img (dir + 8 : Nat) 4)

/-- `for(i=1;i<cantInodos;i++,dir_tabla_inodos += tamanioInodo)`. -/
def recorrerInodos (cantInodos i : Int) (dir : Nat) : Nat :=
  if i < cantInodos then recorrerInodos cantInodos (i + 1) (dir + 128) else dir
termination_by (cantInodos - i).toNat

/-- The position that `getInodo` answers; the inner `none` is `NULL`. -/
def dirInodo (sb : Superblock) (img : Memoria) (nroInodo : Nat) : Option (Option Nat) :=
  if nroInodo < 1 then some none
  else do
    let nroGrupo := (nroInodo - 1) / sb.inodesPerGroup
    let grupo ← dirGroupDescriptor sb nroGrupo
    let tabla := inodeTable img grupo * tamanioDeBloque sb % 2 ^ 32
    let cantInodos := aInt (resta32 nroInodo (nroGrupo * sb.inodesPerGroup % 2 ^ 32))
    some (some (recorrerInodos cantInodos 1 tabla))

/-- `obtenerBloque`, the same expression. -/
def obtenerBloque (sb : Superblock) (numeroBloque : Nat) : Int :=
  posicionarInicioBloque sb numeroBloque

variable {sb : Superblock} {img : Memoria} {n : Nat}

/-- `getInodo` answers in the same cases as for its number. -/
theorem dirInodo_getInodo :
    (dirInodo sb img n).map (Option.map fun _ => n) = getInodo sb n := by
  rw [dirInodo, getInodo]
  split
  · rfl
  simp only [dirGroupDescriptor]
  split
  · simp
  · simp

theorem recorrerInodos_eq (cantInodos i : Int) (dir : Nat) :
    recorrerInodos cantInodos i dir = dir + 128 * (cantInodos - i).toNat := by
  fun_induction recorrerInodos cantInodos i dir with
  | case1 i dir more ih =>
    rw [ih]
    omega
  | case2 i dir done => omega

/-! ### What the addresses should be -/

/-- The `inode_table` of group `g`, in the descriptor of that group. -/
def tablaInodos (sb : Superblock) (img : Memoria) (g : Nat) : Nat :=
  inodeTable img (posInicialGD sb + 32 * g)

/-- `m` bytes from `u` and `m` from `v` share none. -/
def Aparte (m u v : Nat) : Prop := u + m ≤ v ∨ v + m ≤ u

/-- The inode tables of two groups share no byte. -/
def TablasAparte (sb : Superblock) (img : Memoria) : Prop :=
  ∀ g h, g < cantidadDeGrupos sb → h < cantidadDeGrupos sb → g ≠ h →
    Aparte (sb.inodesPerGroup * 128) (tablaInodos sb img g * tamanioDeBloque sb)
      (tablaInodos sb img h * tamanioDeBloque sb)

/-- The position of an inode in the table of its group. -/
def lugarInodo (sb : Superblock) (img : Memoria) (i : Nat) : Nat :=
  tablaInodos sb img ((i - 1) / sb.inodesPerGroup) * tamanioDeBloque sb +
    (i - 1) % sb.inodesPerGroup * 128

/-- Every block and every inode of the volume has its own bytes, where ext2 puts them. -/
structure DireccionesBien (sb : Superblock) (img : Memoria) : Prop where
  bloque : ∀ n, n < sb.blocks →
    posicionarInicioBloque sb n = (n * tamanioDeBloque sb : Nat) ∧
      obtenerBloque sb n = (n * tamanioDeBloque sb : Nat)
  inodo : ∀ i, 1 ≤ i → i ≤ sb.inodes → dirInodo sb img i = some (some (lugarInodo sb img i))
  bloquesAparte : ∀ n m, n < sb.blocks → m < sb.blocks → n ≠ m →
    Aparte (tamanioDeBloque sb) (posicionarInicioBloque sb n).toNat
      (posicionarInicioBloque sb m).toNat
  inodosAparte : TablasAparte sb img → ∀ i j u v, 1 ≤ i → i ≤ sb.inodes → 1 ≤ j → j ≤ sb.inodes →
    i ≠ j → dirInodo sb img i = some (some u) → dirInodo sb img j = some (some v) → Aparte 128 u v

/-- No product of the addresses reaches 4 GiB: the volume is not larger, no group has more inodes
than an `int` counts, and every inode table starts below, as does the descriptor that names it. -/
structure SinVuelta (sb : Superblock) (img : Memoria) : Prop where
  volumen : sb.blocks * tamanioDeBloque sb ≤ 2 ^ 32
  enGrupo : min sb.inodesPerGroup sb.inodes < 2 ^ 31
  tablas : ∀ g, g < cantidadDeGrupos sb →
    tablaInodos sb img (g % 2 ^ 27) * tamanioDeBloque sb % 2 ^ 32 =
      tablaInodos sb img g * tamanioDeBloque sb

/-! ### The addresses of the code -/

theorem grupo_de_inodo {i : Nat} (first : 1 ≤ i) (last : i ≤ sb.inodes) :
    (i - 1) / sb.inodesPerGroup < cantidadDeGrupos sb := by
  have positive := sb.inodesPerGroup_pos
  have whole := Nat.div_add_mod sb.inodes sb.inodesPerGroup
  rw [Nat.div_lt_iff_lt_mul positive, cantidadDeGrupos]
  split
  · have rest := Nat.mod_lt sb.inodes positive
    rw [Nat.add_mul, Nat.one_mul, Nat.mul_comm]
    omega
  · rw [Nat.mul_comm]
    omega

/-- A group has a first inode. -/
theorem inodo_de_grupo {g : Nat} (bound : g < cantidadDeGrupos sb) :
    g * sb.inodesPerGroup + 1 ≤ sb.inodes := by
  have positive := sb.inodesPerGroup_pos
  have whole := Nat.div_add_mod sb.inodes sb.inodesPerGroup
  rw [cantidadDeGrupos] at bound
  split at bound
  · rename_i rest
    have below := Nat.mul_le_mul_right sb.inodesPerGroup (Nat.lt_succ_iff.mp bound)
    rw [Nat.mul_comm (sb.inodes / _)] at below
    omega
  · have below := Nat.mul_le_mul_right sb.inodesPerGroup (Nat.succ_le_of_lt bound)
    rw [Nat.mul_comm (sb.inodes / _), Nat.succ_mul] at below
    omega

theorem cantInodos_eq {i : Nat} (first : 1 ≤ i) (word : i < 2 ^ 32) :
    resta32 i ((i - 1) / sb.inodesPerGroup * sb.inodesPerGroup % 2 ^ 32) =
      (i - 1) % sb.inodesPerGroup + 1 := by
  have whole := Nat.div_add_mod (i - 1) sb.inodesPerGroup
  rw [Nat.mul_comm] at whole
  rw [Nat.mod_eq_of_lt (by omega), resta32_of_le (by omega) word]
  omega

/-- The offset that `getInodo` computes for an inode of the volume. -/
theorem dirInodo_eq {i : Nat} (inodes : sb.inodes < 2 ^ 32) (first : 1 ≤ i)
    (last : i ≤ sb.inodes) :
    dirInodo sb img i = some (some
      (tablaInodos sb img ((i - 1) / sb.inodesPerGroup % 2 ^ 27) * tamanioDeBloque sb % 2 ^ 32 +
        128 * (aInt ((i - 1) % sb.inodesPerGroup + 1) - 1).toNat)) := by
  have descriptor : 32 * ((i - 1) / sb.inodesPerGroup) % 2 ^ 32 =
      32 * ((i - 1) / sb.inodesPerGroup % 2 ^ 27) := by omega
  rw [dirInodo, if_neg (by omega)]
  simp only [dirGroupDescriptor, if_pos (grupo_de_inodo first last), Option.bind_eq_bind,
    Option.bind_some, descriptor, cantInodos_eq first (Nat.lt_of_le_of_lt last inodes),
    recorrerInodos_eq, tablaInodos]

theorem tamanioDeBloque_divide (small : sb.logBlockSize ≤ 2) :
    0 < tamanioDeBloque sb ∧ tamanioDeBloque sb ≤ 4096 ∧ tamanioDeBloque sb ∣ 2 ^ 32 := by
  obtain zero | one | two : sb.logBlockSize = 0 ∨ sb.logBlockSize = 1 ∨ sb.logBlockSize = 2 := by
    omega
  · rw [tamanioDeBloque, zero]
    decide
  · rw [tamanioDeBloque, one]
    decide
  · rw [tamanioDeBloque, two]
    decide

/-- The last block is at its place when the whole volume fits in 4 GiB. -/
theorem bloque_en_lugar (small : sb.logBlockSize ≤ 2) :
    (∀ n, n < sb.blocks → posicionarInicioBloque sb n = (n * tamanioDeBloque sb : Nat)) ↔
      sb.blocks * tamanioDeBloque sb ≤ 2 ^ 32 := by
  obtain ⟨positive, -, k, whole⟩ := tamanioDeBloque_divide small
  constructor
  · intro placed
    obtain empty | some_block : sb.blocks = 0 ∨ 0 < sb.blocks := by omega
    · simp [empty]
    have last := placed (sb.blocks - 1) (by omega)
    rw [posicionarInicioBloque, Nat.cast_inj] at last
    have below : (sb.blocks - 1) * tamanioDeBloque sb < 2 ^ 32 := by
      rw [← last]
      exact Nat.mod_lt _ (by decide)
    rw [whole, Nat.mul_comm (tamanioDeBloque sb)] at below ⊢
    have := Nat.lt_of_mul_lt_mul_right below
    exact Nat.mul_le_mul_right _ (by omega)
  · intro fits n inside
    have below := Nat.mul_lt_mul_of_pos_right inside positive
    rw [posicionarInicioBloque, Nat.mod_eq_of_lt (Nat.lt_of_lt_of_le below fits)]

/-- One inode is at its place when nothing of its address wraps. -/
theorem inodo_en_lugar {i : Nat} (inodes : sb.inodes < 2 ^ 32) (first : 1 ≤ i)
    (last : i ≤ sb.inodes) :
    dirInodo sb img i = some (some (lugarInodo sb img i)) ↔
      (i - 1) % sb.inodesPerGroup + 1 < 2 ^ 31 ∧
        tablaInodos sb img ((i - 1) / sb.inodesPerGroup % 2 ^ 27) * tamanioDeBloque sb % 2 ^ 32 =
          tablaInodos sb img ((i - 1) / sb.inodesPerGroup) * tamanioDeBloque sb := by
  rw [dirInodo_eq inodes first last, Option.some.injEq, Option.some.injEq, lugarInodo]
  have wrapped := Nat.mod_lt (tablaInodos sb img ((i - 1) / sb.inodesPerGroup % 2 ^ 27) *
    tamanioDeBloque sb) (show 0 < 2 ^ 32 by decide)
  generalize tablaInodos sb img ((i - 1) / sb.inodesPerGroup % 2 ^ 27) * tamanioDeBloque sb %
    2 ^ 32 = base at wrapped ⊢
  generalize tablaInodos sb img ((i - 1) / sb.inodesPerGroup) * tamanioDeBloque sb = table
  have word : (i - 1) % sb.inodesPerGroup + 1 < 2 ^ 32 :=
    Nat.lt_of_le_of_lt (Nat.succ_le_succ (Nat.mod_le ..)) (by omega)
  generalize (i - 1) % sb.inodesPerGroup = m at word ⊢
  -- an inode past 2^31 of its group is taken for the first one, at least 2^38 bytes too early
  rw [aInt]
  split <;> omega

/-! ### Bytes of their own -/

theorem aparte_bloques {n m B : Nat} (different : n ≠ m) : Aparte B (n * B) (m * B) := by
  have apart : ∀ {a b : Nat}, a < b → a * B + B ≤ b * B := by
    intro a b less
    have := Nat.mul_le_mul_right B (Nat.succ_le_of_lt less)
    rwa [Nat.succ_mul] at this
  obtain less | less : n < m ∨ m < n := by omega
  · exact .inl (apart less)
  · exact .inr (apart less)

/-- Inodes at their places share no byte when their tables share none. -/
theorem aparte_inodos {i j : Nat} (tables : TablasAparte sb img) (first : 1 ≤ i)
    (last : i ≤ sb.inodes) (first' : 1 ≤ j) (last' : j ≤ sb.inodes) (different : i ≠ j) :
    Aparte 128 (lugarInodo sb img i) (lugarInodo sb img j) := by
  have inside := Nat.mod_lt (i - 1) sb.inodesPerGroup_pos
  have inside' := Nat.mod_lt (j - 1) sb.inodesPerGroup_pos
  rw [lugarInodo, lugarInodo]
  by_cases group : (i - 1) / sb.inodesPerGroup = (j - 1) / sb.inodesPerGroup
  · have whole := Nat.div_add_mod (i - 1) sb.inodesPerGroup
    have whole' := Nat.div_add_mod (j - 1) sb.inodesPerGroup
    rw [group] at whole ⊢
    rw [Aparte]
    omega
  · have apart := tables _ _ (grupo_de_inodo first last) (grupo_de_inodo first' last') group
    rw [Aparte] at apart ⊢
    omega

/-- Blocks and inodes have bytes of their own, at the offsets of ext2, in the volumes of up to
4 GiB whose tables lie there, and in no other. -/
theorem direcciones_bien_iff (sb : Superblock) (img : Memoria) (small : sb.logBlockSize ≤ 2)
    (inodes : sb.inodes < 2 ^ 32) : DireccionesBien sb img ↔ SinVuelta sb img := by
  constructor
  · intro good
    refine ⟨(bloque_en_lugar small).mp fun n inside => (good.bloque n inside).1, ?_, ?_⟩
    · by_contra wide
      -- the last inode of the first group, or of the volume
      have placed := (inodo_en_lugar (i := min sb.inodesPerGroup sb.inodes) inodes (by omega)
        (by omega)).mp (good.inodo _ (by omega) (by omega))
      rw [Nat.mod_eq_of_lt (by omega)] at placed
      omega
    · intro g bound
      have last := inodo_de_grupo bound
      have placed := (inodo_en_lugar (i := g * sb.inodesPerGroup + 1) inodes (by omega)
        last).mp (good.inodo _ (by omega) last)
      rw [Nat.add_sub_cancel, Nat.mul_div_cancel g sb.inodesPerGroup_pos] at placed
      exact placed.2
  · intro fits
    have blocks := (bloque_en_lugar small).mpr fits.volumen
    have inode : ∀ i, 1 ≤ i → i ≤ sb.inodes →
        dirInodo sb img i = some (some (lugarInodo sb img i)) := by
      intro i first last
      have inside := Nat.mod_lt (i - 1) sb.inodesPerGroup_pos
      have below := Nat.mod_le (i - 1) sb.inodesPerGroup
      have few := fits.enGrupo
      exact (inodo_en_lugar inodes first last).mpr
        ⟨by omega, fits.tablas _ (grupo_de_inodo first last)⟩
    refine ⟨fun n inside => ⟨blocks n inside, blocks n inside⟩, inode, ?_, ?_⟩
    · intro n m left right different
      rw [blocks n left, blocks m right]
      exact aparte_bloques different
    · intro tables i j u v first last first' last' different here there
      rw [inode i first last] at here
      rw [inode j first' last'] at there
      cases here
      cases there
      exact aparte_inodos tables first last first' last' different

/-- One group, with its inode table in block 5. -/
theorem direcciones_bien_volumen :
    DireccionesBien (volumen 0) (fun j => if j = 2056 then 5 else 0) := by
  refine (direcciones_bien_iff _ _ (by decide) (by decide)).mpr ⟨by decide, by decide, ?_⟩
  intro g bound
  obtain rfl : g = 0 := Nat.lt_one_iff.mp bound
  decide

/-- A volume of 4 GiB and one block. -/
def volumenGrande : Superblock where
  inodes := 16
  blocks := 2 ^ 20 + 1
  firstDataBlock := 0
  logBlockSize := 2
  blocksPerGroup := 32768
  inodesPerGroup := 16
  inodesPerGroup_pos := grupo_de_16

/-- Its last block is taken for the first one. -/
theorem bloque_da_la_vuelta : ¬DireccionesBien volumenGrande (fun _ => 0) := by
  intro good
  have placed := (good.bloque (2 ^ 20) (by decide)).1
  revert placed
  decide

/-! ### Images whose tables lie in the volume -/

/-- The descriptors, and the inode table of each group, end before the last block does. -/
structure TablasDentro (sb : Superblock) (img : Memoria) : Prop where
  descriptores : posInicialGD sb + 32 * cantidadDeGrupos sb ≤ sb.blocks * tamanioDeBloque sb
  tablas : ∀ g, g < cantidadDeGrupos sb →
    tablaInodos sb img g * tamanioDeBloque sb + sb.inodesPerGroup * 128 ≤
      sb.blocks * tamanioDeBloque sb

/-- Of those, the ones of up to 4 GiB. -/
theorem sinVuelta_iff (inside : TablasDentro sb img) :
    SinVuelta sb img ↔ sb.blocks * tamanioDeBloque sb ≤ 2 ^ 32 := by
  refine ⟨SinVuelta.volumen, fun fits => ⟨fits, ?_, fun g bound => ?_⟩⟩
  · obtain none | some_inode : sb.inodes = 0 ∨ 0 < sb.inodes := by omega
    · simp [none]
    have table := inside.tablas 0 (Nat.lt_of_le_of_lt (Nat.zero_le _)
      (grupo_de_inodo (Nat.le_refl 1) some_inode))
    omega
  · have table := inside.tablas g bound
    have descriptors := inside.descriptores
    have positive := sb.inodesPerGroup_pos
    rw [Nat.mod_eq_of_lt (show g < 2 ^ 27 by omega), Nat.mod_eq_of_lt (by omega)]

end LosAltos.Rfs
