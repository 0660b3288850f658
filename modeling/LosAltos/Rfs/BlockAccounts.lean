import LosAltos.Rfs.BlockCount
import LosAltos.Rfs.PositionLists
import Mathlib.Data.Set.Card

/-!
# The account of blocks over a run

The blocks an inode owns against its `nr_blocks`, over every run of the five operations. The
positions of a file are listed logical block by logical block, as `cuenta` adds them up.
-/
namespace LosAltos.Rfs

open Lib

variable {sb : Superblock} {d d' inicial : Disco} {x k n : Nat}

/-! ### How many positions a file has -/

/-- `l` lists the positions with `P`, each once. -/
structure Lista (P : List Nat → Prop) (l : List (List Nat)) : Prop where
  nodup : l.Nodup
  mem : ∀ q, q ∈ l ↔ P q

/-- A logical block needs its data and so many indirection blocks. -/
theorem nuevas_length (bound : k < alcance sb) :
    (nuevas (ptrsPorBloque sb) k).length = 1 + indirecciones sb k := by
  rw [nuevas]
  cases region bound with
  | directo h => rw [camino_directo h, indirecciones_directo h, iniciadas, List.length_singleton]
  | @simple a ha =>
    have simple : esIndireccionSimple sb (12 + a) := by
      simp [esIndireccionSimple, inicioDoble, ha]
    simp only [camino_simple ha, indirecciones, simple, ↓reduceIte, iniciadas]
    by_cases zero : a = 0 <;> simp [zero]
  | @doble a b ha hb =>
    obtain ⟨-, simple, double⟩ := tests_doble ha hb
    simp only [camino_doble ha hb, indirecciones, simple, double, mod_doble hb, start_doble hb,
      iniciadas]
    by_cases first : b = 0 <;> by_cases second : a = 0 <;> simp [first, second]
  | @triple a b c ha hb hc =>
    obtain ⟨-, simple, double, triple⟩ := tests_triple ha hb hc
    simp only [camino_triple hb hc, indirecciones, simple, double, triple, sub_triple,
      digits_mod hc, digits_mod_sq hb hc, digits_eq_zero hc, start_triple hb hc, iniciadas]
    by_cases first : c = 0 <;> by_cases second : b = 0 <;> by_cases third : a = 0 <;>
      simp [first, second, third]

theorem vivo_lista (bound : n ≤ alcance sb) :
    ∃ l, Lista (Vivo (ptrsPorBloque sb) n) l ∧ l.length = cuenta sb n := by
  induction n with
  | zero => exact ⟨[], ⟨by simp, fun q => by simp [not_vivo_zero]⟩, rfl⟩
  | succ n ih =>
    obtain ⟨before, old, size⟩ := ih (by omega)
    have limit : n < alcance sb := by omega
    refine ⟨before ++ nuevas (ptrsPorBloque sb) n, ⟨?_, fun q => ?_⟩, ?_⟩
    · refine old.nodup.append (podable_nuevas limit).nodup fun q first second => ?_
      exact not_vivo_of_inicia ((mem_nuevas limit).mp second) (Nat.le_refl n) ((old.mem q).mp first)
    · rw [List.mem_append, old.mem, mem_nuevas limit, vivo_succ]
    · rw [List.length_append, size, nuevas_length limit, cuenta]

/-! ### The blocks an inode owns -/

section
variable (sb)

/-- The data and indirection blocks of the inode. -/
def bloquesDelInodo (d : Disco) (x : Nat) : Set Nat :=
  {b | b ≠ 0 ∧ ∃ q, Vivo (ptrsPorBloque sb) (bloquesDe sb (d.inodo x).size.toNat) q ∧
    (punteros sb d).valor x q = b}

/-- `nr_blocks` counts units of 512 bytes. -/
def Cuadra (d : Disco) (x : Nat) : Prop :=
  (d.inodo x).nrBlocks.toNat = tamanioDeBloque sb / 512 * (bloquesDelInodo sb d x).ncard

end

theorem bloquesDe_alcance (log : sb.logBlockSize ≤ 2) {size : Nat} (width : size < 2 ^ 32) :
    bloquesDe sb size ≤ alcance sb := by
  have words : tamanioDeBloque sb / 4 = ptrsPorBloque sb := rfl
  have few : bloquesDe sb size ≤ 2 ^ 22 := by
    rcases tamanioDeBloque_cases log with bytes | bytes | bytes <;> rw [bloquesDe, bytes] <;> omega
  have many : 256 * 256 * 256 ≤ ptrsPorBloque sb * ptrsPorBloque sb * ptrsPorBloque sb := by
    have least : 256 ≤ ptrsPorBloque sb := by
      rcases tamanioDeBloque_cases log with bytes | bytes | bytes <;> omega
    exact Nat.mul_le_mul (Nat.mul_le_mul least least) least
  rw [alcance]
  omega

theorem bloquesDelInodo_ncard (geo : Geometria sb) (owner : Duenio sb d) (valid : esInodo sb x) :
    (bloquesDelInodo sb d x).ncard = cuenta sb (bloquesDe sb (d.inodo x).size.toNat) ∧
      (bloquesDelInodo sb d x).ncard ≤ sb.blocks := by
  obtain ⟨E, obra⟩ := owner
  have vivos := deTamanio_vivo (d := d) valid
  obtain ⟨l, list, size⟩ := vivo_lista
    (bloquesDe_alcance geo.bloque (d.inodo x).size.toNat_lt)
  have same : bloquesDelInodo sb d x = (l.map ((punteros sb d).valor x)).toFinset := by
    ext b
    simp only [bloquesDelInodo, Set.mem_ofPred_eq, List.coe_toFinset, List.mem_map, list.mem]
    constructor
    · rintro ⟨-, held⟩
      exact held
    · rintro ⟨q, live, rfl⟩
      exact ⟨(obra.libro.usado_of_mem ((vivos q).mpr live)).1, q, live, rfl⟩
  have distinct : (l.map ((punteros sb d).valor x)).Nodup := by
    refine list.nodup.map_on fun q first r second equal => ?_
    exact (obra.libro.inyectivo x q x r ((vivos q).mpr ((list.mem q).mp first))
      ((vivos r).mpr ((list.mem r).mp second)) equal).2
  have inside : (l.map ((punteros sb d).valor x)).toFinset ⊆ Finset.range sb.blocks := by
    intro b member
    simp only [List.mem_toFinset, List.mem_map] at member
    obtain ⟨q, listed, rfl⟩ := member
    exact Finset.mem_range.mpr (obra.libro.rango x q ((vivos q).mpr ((list.mem q).mp listed)))
  rw [same, Set.ncard_coe_finset]
  refine ⟨?_, ?_⟩
  · rw [List.toFinset_card_of_nodup distinct, List.length_map, size]
  · simpa using Finset.card_le_card inside

/-- On an image with owners the two ways of counting agree. -/
theorem contado_iff (geo : Geometria sb) (owner : Duenio sb d) (valid : esInodo sb x) :
    Contado sb d x (bloquesDe sb (d.inodo x).size.toNat) ↔ Cuadra sb d x := by
  obtain ⟨count, few⟩ := bloquesDelInodo_ncard geo owner valid
  have bytes : tamanioDeBloque sb / 512 * (bloquesDelInodo sb d x).ncard < 2 ^ 32 := by
    have unit : tamanioDeBloque sb / 512 < tamanioDeBloque sb :=
      Nat.div_lt_self geo.tamanio_pos (by decide)
    rcases Nat.eq_zero_or_pos sb.blocks with zero | positive
    · simp [Nat.le_zero.mp (zero ▸ few)]
    calc tamanioDeBloque sb / 512 * (bloquesDelInodo sb d x).ncard
      _ ≤ tamanioDeBloque sb / 512 * sb.blocks := Nat.mul_le_mul_left _ few
      _ < tamanioDeBloque sb * sb.blocks := Nat.mul_lt_mul_of_pos_right unit positive
      _ ≤ 2 ^ 32 := Nat.mul_comm .. ▸ geo.chica
  have total : (unidad sb * .ofNat (cuenta sb (bloquesDe sb (d.inodo x).size.toNat))).toNat =
      tamanioDeBloque sb / 512 * (bloquesDelInodo sb d x).ncard := by
    rw [unidad, ← UInt32.ofNat_mul, ← count, UInt32.toNat_ofNat', Nat.mod_eq_of_lt bytes]
  rw [Contado, Cuadra, ← total, UInt32.toNat_inj]

/-! ### Every run -/

section
variable (sb)

/-- A file is given an inode that counts nothing, a directory one that counts its block. -/
def CreaContado (d : Disco) : Llamada → Prop
  | .crearArchivo path _ => Recibe sb d path 0
  | .crearDirectorio path _ => Recibe sb d path (unidad sb)
  | .truncarArchivo .. | .eliminarArchivo _ | .eliminarDirectorio _ => True

/-- The call takes no branch that loses track of a block or of its count. -/
def ConservaCuenta (d : Disco) (l : Llamada) : Prop :=
  ConservaDuenio sb d l ∧ (∀ h ∈ hechosDe sb d l, CuentaBien sb h) ∧
    CreaContado sb { d with hechos := [] } l

end

theorem contados_atender (geo : Geometria sb) (few : Numerable sb) (owner : Duenio sb d)
    (counts : Contados sb d) {l : Llamada} (meets : ConservaCuenta sb d l)
    (run : atender sb d l = some d') : Contados sb d' := by
  have clean := owner.hechos []
  have start : Contados sb { d with hechos := [] } := counts.of_inodos rfl rfl
  obtain ⟨⟨kind, permitted⟩, counted, fresh⟩ := meets
  rw [hechosDe, run] at permitted counted
  simp only [atender, Option.map_eq_some_iff] at run
  obtain ⟨⟨code, d1⟩, run, rfl⟩ := run
  cases l with
  | crearArchivo path mode =>
    exact contados_crearArchivo geo few clean run permitted counted fresh start
  | crearDirectorio path mode =>
    exact contados_crearDirectorio geo few clean kind run permitted counted fresh start
  | truncarArchivo path offset =>
    exact contados_truncarArchivo geo clean offset.toNat_lt run permitted counted start
  | eliminarArchivo path => exact contados_eliminarArchivo geo few clean run permitted counted start
  | eliminarDirectorio path => exact contados_eliminarDirectorio few run permitted start

theorem alcanzable_contados (geo : Geometria sb) (few : Numerable sb) (owner : Duenio sb inicial)
    (counts : Contados sb inicial) (reached : Alcanzable sb (ConservaCuenta sb) inicial d) :
    Duenio sb d ∧ Contados sb d := by
  induction reached with
  | inicio => exact ⟨owner, counts⟩
  | llamada d d' l _ meets run ih =>
    exact ⟨duenio_atender geo ih.1 meets.1 run, contados_atender geo few ih.1 ih.2 meets run⟩

/-- On an image below 4 GiB that counts its blocks right, after every run of calls none of which
loses track of a block or of its count, the blocks of every allocated inode are counted right. -/
theorem cuentas_de_bloques (start : Consistente sb inicial)
    (small : sb.blocks * tamanioDeBloque sb ≤ 2 ^ 32) (few : Numerable sb)
    (counts : ∀ x, esInodo sb x → Cuadra sb inicial x)
    (reached : Alcanzable sb (ConservaCuenta sb) inicial d) (x : Nat)
    (allocated : asignado sb d x) : Cuadra sb d x := by
  have geo := start.geometria small
  have owner := start.duenio
  have before : Contados sb inicial := fun z inside =>
    (contado_iff geo owner inside.1).mpr (counts z inside.1)
  obtain ⟨after, counted⟩ := alcanzable_contados geo few owner before reached
  exact (contado_iff geo after allocated.1).mp (counted x allocated)

instance : DecidablePred (CuentaBien sb)
  | .pide _ => inferInstanceAs (Decidable (_ ≠ _))
  | .crece _ _ => inferInstanceAs (Decidable (¬_))
  | .ensancha _ => isFalse id
  | .libera _ | .asigna _ | .escribe _ _ | .entrada _ _ | .vacia => isTrue trivial

instance : Decidable (Contado sb d x n) := inferInstanceAs (Decidable (_ = _))

/-- The root directory of the image is one chain of three entries. -/
theorem imagenConArchivo_legibles : Legibles (volumen 0) (imagenConArchivo 0) := by
  intro x _ directory
  obtain rfl : x = 2 := by
    by_contra other
    by_cases file : x = 11
    · subst file
      exact absurd directory (by decide)
    · simp [imagenConArchivo, other, file, INode.tieneModo, S_IFDIR] at directory
  have one : bloquesDe (volumen 0) ((imagenConArchivo 0).inodo 2).size.toNat = 1 := by decide +kernel
  refine ⟨fun _ => [⟨2, 12, 1, 0, [46]⟩, ⟨2, 12, 2, 0, [46, 46]⟩, ⟨11, 1000, 1, 0, [97]⟩], ?_, ?_⟩
  · intro k below
    obtain rfl : k = 0 := Nat.lt_one_iff.mp (one ▸ below)
    exact ⟨by decide, by decide, by decide +kernel⟩
  · simp only [one]
    decide

theorem imagenConArchivo_cuadra (x : Nat) (valid : esInodo (volumen 0) x) :
    Cuadra (volumen 0) (imagenConArchivo 0) x := by
  have start := imagenConArchivo_consistente (.inl rfl)
  refine (contado_iff (start.geometria (by decide)) start.duenio valid).mp ?_
  by_cases root : x = 2
  · subst root
    decide +kernel
  by_cases file : x = 11
  · subst file
    decide +kernel
  simp only [Contado, imagenConArchivo, root, file, ↓reduceIte]
  decide +kernel

/-- A new file grows to two blocks, then loses one. -/
theorem cuentas_de_bloques_corrida : ∃ d, corrida (volumen 0) (imagenConArchivo 0)
    [.crearArchivo [47, 98] 0o644, .truncarArchivo [47, 98] 1500, .truncarArchivo [47, 98] 7] =
      some d ∧ ∀ x, asignado (volumen 0) d x → Cuadra (volumen 0) d x := by
  have start : Alcanzable (volumen 0) (ConservaCuenta (volumen 0)) (imagenConArchivo 0) _ := .inicio
  have fresh : Recibe (volumen 0) { imagenConArchivo 0 with hechos := [] } [47, 98] 0 := by
    refine fun _ => ⟨imagenConArchivo_legibles, fun y d1 asked _ => ?_⟩
    have taken : (getInodoLibre (volumen 0) { imagenConArchivo 0 with hechos := [] }).map (·.1) =
        some 12 := by decide +kernel
    rw [asked] at taken
    cases taken
    rfl
  have first := start.sigue (.crearArchivo [47, 98] 0o644)
    ⟨by decide +kernel, by decide +kernel, fresh⟩ (by decide +kernel)
  have second := first.sigue (.truncarArchivo [47, 98] 1500)
    ⟨by decide +kernel, by decide +kernel, trivial⟩ (by decide +kernel)
  have third := second.sigue (.truncarArchivo [47, 98] 7)
    ⟨by decide +kernel, by decide +kernel, trivial⟩ (by decide +kernel)
  refine ⟨_, ?_, cuentas_de_bloques (imagenConArchivo_consistente (.inl rfl)) (by decide)
    (by decide) imagenConArchivo_cuadra third⟩
  rw [corrida_cons, corrida_cons, corrida_cons]
  rfl

/-- A new directory does not count the block it is given. -/
theorem directorio_sin_contar : ¬∀ (sb : Superblock) (inicial d : Disco), Consistente sb inicial →
    sb.blocks * tamanioDeBloque sb ≤ 2 ^ 32 → Numerable sb →
    (∀ x, esInodo sb x → Cuadra sb inicial x) →
    Alcanzable sb (fun d l => .pide 0 ∉ hechosDe sb d l) inicial d →
    ∀ x, asignado sb d x → Cuadra sb d x := by
  intro all
  have start : Consistente (volumen 0) (imagenConArchivo 0) :=
    imagenConArchivo_consistente (.inl rfl)
  have geo := start.geometria (by decide)
  have root : Alcanzable (volumen 0) (fun d l => .pide 0 ∉ hechosDe (volumen 0) d l)
      (imagenConArchivo 0) _ := .inicio
  have made := root.sigue (.crearDirectorio [47, 98] 0o755) (by decide +kernel) (by decide +kernel)
  have kept : Alcanzable (volumen 0) (ConservaDuenio (volumen 0)) (imagenConArchivo 0) _ := .inicio
  have owner := alcanzable_duenio geo start.duenio
    (kept.sigue (.crearDirectorio [47, 98] 0o755) (by decide +kernel) (by decide +kernel))
  have valid : esInodo (volumen 0) 12 := ⟨by decide, by decide⟩
  have counted := all _ _ _ start (by decide) (by decide) imagenConArchivo_cuadra made 12
    ⟨valid, by decide +kernel⟩
  exact absurd ((contado_iff geo owner valid).mpr counted) (by decide +kernel)

end LosAltos.Rfs
