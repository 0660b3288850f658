import LosAltos.Rfs.Runs

/-!
# The table of inodes

`getInodoLibre` and `actualizarEstructurasCuandoPidoInodo`, `funciones_rfs.c:976-1036`, and the bit
`liberarInodo` clears (`:1215-1228`). Inode numbers fit in 32 bits on every image considered.
-/
namespace LosAltos.Rfs

open Lib

/-- Every inode has a number of its own. -/
def Numerable (sb : Superblock) : Prop := sb.inodesPerGroup * cantidadDeGrupos sb < 2 ^ 32

variable {sb : Superblock} {d d' : Disco} {x y g i : Nat}

instance : Decidable (Numerable sb) := inferInstanceAs (Decidable (_ < _))

/-- An inode is known by its group and its bit. -/
theorem coords_inodo (hi : i < sb.inodesPerGroup) (positive : 1 ≤ x) :
    (x - 1) / sb.inodesPerGroup = g ∧ (x - 1) % sb.inodesPerGroup = i ↔
      x = sb.inodesPerGroup * g + i + 1 := by
  constructor
  · rintro ⟨rfl, rfl⟩
    have split := Nat.div_add_mod (x - 1) sb.inodesPerGroup
    omega
  · rintro rfl
    rw [Nat.add_sub_cancel, Nat.mul_add_div sb.inodesPerGroup_pos, Nat.div_eq_of_lt hi,
      Nat.mul_add_mod, Nat.mod_eq_of_lt hi]
    exact ⟨by omega, rfl⟩

theorem esInodo_lt (few : Numerable sb) (valid : esInodo sb x) : x < 2 ^ 32 := by
  rw [Numerable] at few
  have limit := Nat.lt_mul_div_succ (x - 1) sb.inodesPerGroup_pos
  have inside : sb.inodesPerGroup * ((x - 1) / sb.inodesPerGroup + 1) ≤
      sb.inodesPerGroup * cantidadDeGrupos sb := Nat.mul_le_mul_left _ valid.2
  omega

theorem inodo_lt (few : Numerable sb) (hg : g < cantidadDeGrupos sb) (hi : i < sb.inodesPerGroup) :
    sb.inodesPerGroup * g + i + 1 < 2 ^ 32 := by
  have limit : sb.inodesPerGroup * (g + 1) ≤ sb.inodesPerGroup * cantidadDeGrupos sb :=
    Nat.mul_le_mul_left _ hg
  rw [Numerable] at few
  rw [Nat.mul_add, Nat.mul_one] at limit
  omega

theorem getInodoLibreDelBitmap_ne_zero (few : Numerable sb) (hg : g < cantidadDeGrupos sb)
    (found : getInodoLibreDelBitmap sb d g ≠ 0) : ∃ i < sb.inodesPerGroup,
      d.bitmapInodos g i = false ∧ getInodoLibreDelBitmap sb d g = sb.inodesPerGroup * g + i + 1 := by
  unfold getInodoLibreDelBitmap at found ⊢
  split at found
  · rename_i i clear
    have hi : i < sb.inodesPerGroup := List.mem_range.mp (List.mem_of_find?_eq_some clear)
    have limit := inodo_lt few hg hi
    refine ⟨i, hi, by simpa using List.find?_some clear, ?_⟩
    rw [nroInodoInicioDeGrupo]
    omega
  · exact absurd rfl found

theorem buscarInodoLibre_some (few : Numerable sb) {groups : List Nat}
    (inside : ∀ g ∈ groups, g < cantidadDeGrupos sb)
    (found : buscarInodoLibre sb d groups = some x) :
    ∃ g < cantidadDeGrupos sb, ∃ i < sb.inodesPerGroup,
      d.bitmapInodos g i = false ∧ x = sb.inodesPerGroup * g + i + 1 := by
  induction groups with
  | nil => cases found
  | cons g groups ih =>
    have hg := inside g (List.mem_cons_self ..)
    simp only [buscarInodoLibre] at found
    split at found
    · rename_i nonzero
      cases found
      obtain ⟨i, hi, clear, number⟩ := getInodoLibreDelBitmap_ne_zero few hg nonzero
      exact ⟨g, hg, i, hi, clear, number⟩
    · exact ih (fun h member => inside h (List.mem_cons_of_mem _ member)) found

/-- One bit of the bitmaps of inodes is one inode. -/
theorem asignado_bit (hi : i < sb.inodesPerGroup) (valid : esInodo sb (sb.inodesPerGroup * g + i + 1))
    {v : Bool} (bits : d'.bitmapInodos = (d.ponBitInodo g i v).bitmapInodos) (z : Nat) :
    asignado sb d' z ↔
      if z = sb.inodesPerGroup * g + i + 1 then v = true else asignado sb d z := by
  simp only [asignado, bits, Disco.ponBitInodo]
  by_cases positive : 1 ≤ z
  · have bit := coords_inodo (g := g) hi positive
    by_cases same : z = sb.inodesPerGroup * g + i + 1
    · rw [if_pos same, if_pos (bit.mpr same)]
      exact and_iff_right (same ▸ valid)
    · simp [mt bit.mp same, same]
  · have zero : ¬esInodo sb z := fun inside => positive inside.1
    simp [zero, show z ≠ sb.inodesPerGroup * g + i + 1 by omega]

/-- `getInodoLibre` finds none free, or an inode that was free and that it marks. -/
theorem getInodoLibre_asigna (few : Numerable sb) (run : getInodoLibre sb d = some (y, d')) :
    y = 0 ∧ d.freeInodes = 0 ∧ d' = d ∨
      d.freeInodes ≠ 0 ∧ esInodo sb y ∧ ¬asignado sb d y ∧
        ∀ z, asignado sb d' z ↔ asignado sb d z ∨ z = y := by
  rw [getInodoLibre] at run
  split at run
  · rename_i none_free
    cases run
    exact .inl ⟨rfl, none_free, rfl⟩
  rename_i some_free
  simp only [actualizarEstructurasCuandoPidoInodo, Option.bind_eq_bind, Option.bind_eq_some_iff,
    Option.some.injEq] at run
  obtain ⟨nro, found, after, ⟨grupo, -, rfl⟩, run⟩ := run
  cases run
  obtain ⟨g, hg, i, hi, clear, rfl⟩ := buscarInodoLibre_some few (fun g => List.mem_range.mp) found
  have limit := inodo_lt few hg hi
  have positive : 1 ≤ sb.inodesPerGroup * g + i + 1 := by omega
  obtain ⟨group, bit⟩ := (coords_inodo (g := g) hi positive).mpr rfl
  have cleared : resta32 (reducir (sb.inodesPerGroup * g + i + 1) sb.inodesPerGroup) 1 = i := by
    rw [reducir, if_neg (by omega), bit, resta32_of_le (by omega) (by omega), Nat.add_sub_cancel]
  have valid : esInodo sb (sb.inodesPerGroup * g + i + 1) := ⟨positive, by rw [group]; exact hg⟩
  refine .inr ⟨some_free, valid, ?_, fun z => ?_⟩
  · rintro ⟨-, set⟩
    rw [group, bit, clear] at set
    cases set
  · rw [asignado_bit hi valid (by rw [group, cleared]; rfl)]
    by_cases same : z = sb.inodesPerGroup * g + i + 1 <;> simp [same]

theorem getInodoLibre_siguiente (run : getInodoLibre sb d = some (y, d')) (nonzero : y ≠ 0) :
    buscarInodoLibre sb d (List.range (cantidadDeGrupos sb)) = some y ∧
      ∀ g, (d'.grupo g).usedDirsCount = (d.grupo g).usedDirsCount := by
  rw [getInodoLibre] at run
  split at run
  · cases run
    exact absurd rfl nonzero
  simp only [actualizarEstructurasCuandoPidoInodo, Option.bind_eq_bind, Option.bind_eq_some_iff,
    Option.some.injEq] at run
  obtain ⟨nro, found, after, ⟨grupo, group, rfl⟩, run⟩ := run
  cases run
  refine ⟨found, fun h => ?_⟩
  rw [leerGroupDescriptor] at group
  split at group
  · cases group
    by_cases here : h = (y - 1) / sb.inodesPerGroup <;>
      simp [Disco.ponGrupo, Disco.ponBitInodo, here]
  · cases group

/-- The inode that is next depends on the bitmaps of inodes only. -/
theorem buscarInodoLibre_congr (bits : d'.bitmapInodos = d.bitmapInodos) (groups : List Nat) :
    buscarInodoLibre sb d' groups = buscarInodoLibre sb d groups := by
  induction groups with
  | nil => rfl
  | cons g groups ih =>
    have same : getInodoLibreDelBitmap sb d' g = getInodoLibreDelBitmap sb d g := by
      rw [getInodoLibreDelBitmap, getInodoLibreDelBitmap, bits]
    rw [buscarInodoLibre, buscarInodoLibre, same, ih]

/-! ### An inode that goes -/

/-- Of the inodes only block numbers differ. -/
structure SoloPunteros (d d' : Disco) : Prop where
  mode : ∀ z, (d'.inodo z).mode = (d.inodo z).mode
  size : ∀ z, (d'.inodo z).size = (d.inodo z).size
  links : ∀ z, (d'.inodo z).links = (d.inodo z).links
  nrBlocks : ∀ z, (d'.inodo z).nrBlocks = (d.inodo z).nrBlocks
  bitmapInodos : d'.bitmapInodos = d.bitmapInodos
  usedDirsCount : ∀ g, (d'.grupo g).usedDirsCount = (d.grupo g).usedDirsCount

namespace SoloPunteros

theorem refl (d : Disco) : SoloPunteros d d :=
  ⟨fun _ => rfl, fun _ => rfl, fun _ => rfl, fun _ => rfl, rfl, fun _ => rfl⟩

theorem trans {d'' : Disco} (first : SoloPunteros d d') (second : SoloPunteros d' d'') :
    SoloPunteros d d'' where
  mode z := (second.mode z).trans (first.mode z)
  size z := (second.size z).trans (first.size z)
  links z := (second.links z).trans (first.links z)
  nrBlocks z := (second.nrBlocks z).trans (first.nrBlocks z)
  bitmapInodos := second.bitmapInodos.trans first.bitmapInodos
  usedDirsCount g := (second.usedDirsCount g).trans (first.usedDirsCount g)

theorem of_inodo (inodes : d'.inodo = d.inodo) (bits : d'.bitmapInodos = d.bitmapInodos)
    (dirs : ∀ g, (d'.grupo g).usedDirsCount = (d.grupo g).usedDirsCount) : SoloPunteros d d' := by
  constructor <;> simp [inodes, bits, dirs]

theorem grabarSlot (d : Disco) (slot : Slot) (b : Nat) : SoloPunteros d (grabarSlot d slot b) := by
  cases slot with
  | inodo x i =>
    constructor <;> try intro z
    case bitmapInodos => rfl
    case usedDirsCount => rfl
    all_goals
      by_cases here : z = x <;> simp [Rfs.grabarSlot, Disco.ponInodo, INode.ponBloque, here]
  | disco dir => exact .of_inodo rfl rfl fun _ => rfl

theorem liberarBloque {slot : Slot} (run : liberarBloque sb d slot = some d') :
    SoloPunteros d d' := by
  obtain ⟨d1, same, rfl⟩ := liberarBloque_solo run
  exact (of_inodo same.inodo same.bitmapInodos same.usedDirsCount).trans (.grabarSlot d1 slot 0)

theorem liberarBloques {ks : List Nat} (run : liberarBloques sb d x ks = some d') :
    SoloPunteros d d' := by
  induction ks generalizing d with
  | nil =>
    cases run
    exact .refl _
  | cons k ks ih =>
    simp only [Rfs.liberarBloques, Option.bind_eq_bind, Option.bind_eq_some_iff] at run
    obtain ⟨slot, -, d1, freed, run⟩ := run
    exact (liberarBloque freed).trans (ih run)

theorem asignado (same : SoloPunteros d d') (z : Nat) : asignado sb d' z ↔ asignado sb d z := by
  rw [Rfs.asignado, Rfs.asignado, same.bitmapInodos]

end SoloPunteros

/-- What is left of an inode once released. -/
structure Liberado (sb : Superblock) (x : Nat) (d d' : Disco) : Prop where
  valido : esInodo sb x
  otros : ∀ z, z ≠ x → (d'.inodo z).mode = (d.inodo z).mode ∧
    (d'.inodo z).size = (d.inodo z).size ∧ (d'.inodo z).links = (d.inodo z).links
  nrBlocks : ∀ z, (d'.inodo z).nrBlocks = (d.inodo z).nrBlocks
  propio : (d'.inodo x).mode = 0 ∧ (d'.inodo x).size = 0 ∧ (d'.inodo x).links = 0
  asignado : ∀ z, asignado sb d' z → asignado sb d z
  /-- The bit cleared is that of the inode if its group is found. -/
  libre : resta32 x sb.firstDataBlock / sb.inodesPerGroup = (x - 1) / sb.inodesPerGroup →
    ∀ z, Rfs.asignado sb d' z ↔ Rfs.asignado sb d z ∧ z ≠ x
  dirs : ∀ g, (d'.grupo g).usedDirsCount = (d.grupo g).usedDirsCount

theorem liberarInodo_some (few : Numerable sb) (run : liberarInodo sb d x = some d') :
    Liberado sb x d d' := by
  simp only [liberarInodo, Option.bind_eq_bind, Option.bind_eq_some_iff] at run
  obtain ⟨node, found, y, present, run⟩ := run
  obtain ⟨rfl, valid⟩ := getInodo_some found present
  split at run
  · simp only [Option.bind_eq_some_iff, Option.some.injEq] at run
    obtain ⟨d1, freed, grupo, group, rfl⟩ := run
    have same := SoloPunteros.liberarBloques freed
    constructor
    case valido => exact valid
    case otros =>
      intro z other
      simp [Disco.ponInodo, Disco.ponGrupo, Disco.ponBitInodo, other, same.mode, same.size,
        same.links]
    case nrBlocks =>
      intro z
      by_cases here : z = y
      · subst here
        simp [Disco.ponInodo, Disco.ponGrupo, Disco.ponBitInodo, same.nrBlocks]
      · simp [Disco.ponInodo, Disco.ponGrupo, Disco.ponBitInodo, here, same.nrBlocks]
    case propio => simp [Disco.ponInodo]
    case asignado =>
      rintro z ⟨inside, set⟩
      refine (same.asignado z).mp ⟨inside, ?_⟩
      simp only [Disco.ponInodo, Disco.ponGrupo, Disco.ponBitInodo] at set
      split at set
      · cases set
      · exact set
    case libre =>
      intro found z
      have limit := esInodo_lt few valid
      have low := Nat.mod_lt (y - 1) sb.inodesPerGroup_pos
      have number : y = sb.inodesPerGroup * ((y - 1) / sb.inodesPerGroup) +
          (y - 1) % sb.inodesPerGroup + 1 := (coords_inodo low valid.1).mp ⟨rfl, rfl⟩
      have bit : resta32 (reducir y sb.inodesPerGroup) 1 = (y - 1) % sb.inodesPerGroup := by
        have positive := valid.1
        have above : (y - 1) % sb.inodesPerGroup ≤ y - 1 := Nat.mod_le ..
        rw [reducir, if_neg (by omega), resta32_of_le (by omega) (by omega), Nat.add_sub_cancel]
      rw [asignado_bit (d := d1) (v := false) low (number ▸ valid) (by rw [found, bit]; rfl),
        ← number, same.asignado]
      by_cases here : z = y <;> simp [here]
    case dirs =>
      intro h
      rw [← same.usedDirsCount, leerGroupDescriptor] at *
      split at group
      · cases group
        by_cases here : h = resta32 y sb.firstDataBlock / sb.inodesPerGroup <;>
          simp [Disco.ponInodo, Disco.ponGrupo, Disco.ponBitInodo, here]
      · cases group
  · cases run

/-- A truncation fails and does nothing, or changes nothing of other inodes. -/
theorem truncarInodo_marco (geo : Geometria sb) (valid : esInodo sb x) (owner : Duenio sb d)
    {offset code : Nat} (limit : offset < 2 ^ 32)
    (run : truncarInodo sb d x offset = some (code, d')) (meets : Cumple sb d') :
    code ≠ 0 ∧ d' = d ∨ code = 0 ∧ d'.bitmapInodos = d.bitmapInodos ∧
      (∀ g, (d'.grupo g).usedDirsCount = (d.grupo g).usedDirsCount) ∧
      (∀ z, z ≠ x → d'.inodo z = d.inodo z) ∧ (d'.inodo x).size.toNat = offset := by
  obtain ⟨E, obra⟩ := owner
  have start : Obra sb (conBloques sb (deTamanio sb d) x (bloquesDe sb (d.inodo x).size.toNat))
      E d := ⟨obra.libro.of_iff (conBloques_deTamanio valid), obra.tablas⟩
  refine (Paso.truncarInodo geo limit start run meets.stored meets.freed meets.grown).imp id ?_
  rintro ⟨done, d1, rfl, step⟩
  have marco := step.marco
  refine ⟨done, marco.bitmapInodos, marco.usedDirsCount, fun z other => ?_, ?_⟩
  · rw [← marco.otros z other]
    exact if_neg other
  · rw [ponSize_size, if_pos rfl, Nat.mod_eq_of_lt limit]

end LosAltos.Rfs
