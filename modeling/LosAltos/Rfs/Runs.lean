import LosAltos.Rfs.Ownership

/-!
# Runs of the five operations

`crearArchivo`, `crearDirectorio`, `truncarArchivo`, `eliminarArchivo` and
`eliminarDirectorio`, called one after another on a consistent image.
-/
namespace LosAltos.Rfs

open Lib

inductive Llamada where
  | crearArchivo (path : Cadena) (mode : UInt32)
  | crearDirectorio (path : Cadena) (mode : UInt32)
  | truncarArchivo (path : Cadena) (offset : UInt32)
  | eliminarArchivo (path : Cadena)
  | eliminarDirectorio (path : Cadena)
  deriving DecidableEq

section
variable (sb : Superblock)

/-- The answer of a call and the disk it leaves. The trace is that of this call. -/
def responder (d : Disco) : Llamada → Option (Nat × Disco)
  | .crearArchivo path mode => crearArchivo sb { d with hechos := [] } path mode
  | .crearDirectorio path mode => crearDirectorio sb { d with hechos := [] } path mode
  | .truncarArchivo path offset => truncarArchivo sb { d with hechos := [] } path offset.toNat
  | .eliminarArchivo path => eliminarArchivo sb { d with hechos := [] } path
  | .eliminarDirectorio path => eliminarDirectorio sb { d with hechos := [] } path

def atender (d : Disco) (l : Llamada) : Option Disco := (responder sb d l).map (·.2)

/-- The branches the call takes from this state. -/
def hechosDe (d : Disco) (l : Llamada) : List Hecho :=
  ((atender sb d l).map (·.hechos)).getD []

def corrida (d : Disco) (calls : List Llamada) : Option Disco := calls.foldlM (atender sb) d

/-- The disks reached from `inicial` by calls that meet `Cond`. -/
inductive Alcanzable (Cond : Disco → Llamada → Prop) (inicial : Disco) : Disco → Prop where
  | inicio : Alcanzable Cond inicial inicial
  | llamada (d d' : Disco) (l : Llamada) : Alcanzable Cond inicial d → Cond d l →
      atender sb d l = some d' → Alcanzable Cond inicial d'

/-! ### Consistent images -/

def asignado (d : Disco) (x : Nat) : Prop :=
  esInodo sb x ∧ d.bitmapInodos ((x - 1) / sb.inodesPerGroup) ((x - 1) % sb.inodesPerGroup) = true

/-- The position `q` of the allocated inode `x` is needed for the size of `x`. -/
def alcanza (d : Disco) (x : Nat) (q : List Nat) : Prop :=
  asignado sb d x ∧ Vivo (ptrsPorBloque sb) (bloquesDe sb (d.inodo x).size.toNat) q

/-- Every block number reachable from an allocated inode is marked and in one slot. -/
structure BloquesPropios (d : Disco) : Prop where
  marcado : ∀ x q, alcanza sb d x q → usado sb d ((punteros sb d).valor x q)
  unico : ∀ x q y r, alcanza sb d x q → alcanza sb d y r →
    (punteros sb d).valor x q = (punteros sb d).valor y r → x = y ∧ q = r

def inodosLibresDe (d : Disco) (g : Nat) : Nat :=
  ((Finset.range sb.inodesPerGroup).filter fun i => d.bitmapInodos g i = false).card

structure Consistente (d : Disco) : Prop where
  bloque : sb.logBlockSize ≤ 2
  primero : sb.firstDataBlock = if sb.logBlockSize = 0 then 1 else 0
  inicio : ∀ g < cantidadDeGrupos sb, d.bitmapBloques g 0 = true
  dentro : ∀ g < cantidadDeGrupos sb, ∀ i < sb.blocksPerGroup, d.bitmapBloques g i = false →
    sb.firstDataBlock + sb.blocksPerGroup * g + i < sb.blocks
  cuentaGrupo : ∀ g < cantidadDeGrupos sb, (d.grupo g).freeBlocksCount = .ofNat (libresDe sb d g)
  cuentaTotal : d.freeBlocks = .ofNat (∑ g ∈ Finset.range (cantidadDeGrupos sb), libresDe sb d g)
  cuentaInodosGrupo : ∀ g < cantidadDeGrupos sb,
    (d.grupo g).freeInodesCount = .ofNat (inodosLibresDe sb d g)
  cuentaInodos : d.freeInodes =
    .ofNat (∑ g ∈ Finset.range (cantidadDeGrupos sb), inodosLibresDe sb d g)
  /-- An inode that is not allocated has no blocks. -/
  vacios : ∀ x, esInodo sb x → ¬asignado sb d x → (d.inodo x).size = 0
  rango : ∀ x q, alcanza sb d x q → (punteros sb d).valor x q < sb.blocks
  propios : BloquesPropios sb d

end

variable {sb : Superblock} {d d' inicial : Disco}

theorem Consistente.geometria (consistent : Consistente sb d)
    (small : sb.blocks * tamanioDeBloque sb ≤ 2 ^ 32) : Geometria sb where
  bloque := consistent.bloque
  primero := consistent.primero
  chica := small

/-- The mapped bytes do not matter where no indirection block is in use. -/
theorem Consistente.otra_memoria (consistent : Consistente sb d) (mem : Memoria)
    (roots : ∀ x q, alcanza sb d x q → ∃ i, q = [i]) : Consistente sb { d with mem } := by
  have reach : ∀ x q, alcanza sb { d with mem } x q → alcanza sb d x q := fun x q reached => reached
  have word : ∀ x i, (punteros sb { d with mem }).valor x [i] = (punteros sb d).valor x [i] :=
    fun x i => rfl
  constructor
  case bloque => exact consistent.bloque
  case primero => exact consistent.primero
  case inicio => exact consistent.inicio
  case dentro => exact consistent.dentro
  case cuentaGrupo => exact consistent.cuentaGrupo
  case cuentaTotal => exact consistent.cuentaTotal
  case cuentaInodosGrupo => exact consistent.cuentaInodosGrupo
  case cuentaInodos => exact consistent.cuentaInodos
  case vacios => exact consistent.vacios
  case rango =>
    intro x q reached
    obtain ⟨i, rfl⟩ := roots x q (reach x q reached)
    rw [word]
    exact consistent.rango x [i] (reach x [i] reached)
  case propios =>
    constructor
    · intro x q reached
      obtain ⟨i, rfl⟩ := roots x q (reach x q reached)
      rw [word]
      exact consistent.propios.marcado x [i] (reach x [i] reached)
    · intro x q y r left right same
      obtain ⟨i, rfl⟩ := roots x q (reach x q left)
      obtain ⟨j, rfl⟩ := roots y r (reach y r right)
      rw [word, word] at same
      exact consistent.propios.unico x [i] y [j] (reach x [i] left) (reach y [j] right) same

theorem Consistente.alcanza_of_deTamanio (consistent : Consistente sb d) {x : Nat} {q : List Nat}
    (member : deTamanio sb d x q) : alcanza sb d x q := by
  refine ⟨?_, member.2⟩
  by_contra free
  have live := member.2
  rw [consistent.vacios x member.1 free, show (0 : UInt32).toNat = 0 from rfl,
    bloquesDe_zero] at live
  exact not_vivo_zero live

/-- A marked block that no inode holds belongs to the tables. -/
theorem Consistente.duenio (consistent : Consistente sb d) : Duenio sb d := by
  have reach := fun x q => consistent.alcanza_of_deTamanio (x := x) (q := q)
  refine ⟨fun b => usado sb d b ∧ ¬∃ x q, deTamanio sb d x q ∧ (punteros sb d).valor x q = b, ?_, ?_⟩
  · exact
      { vacio := fun x member => by
          obtain ⟨k, -, starts⟩ := member.2
          exact starts.ne_nil rfl
        cerrado := deTamanio_closed d
        indice := fun x i j p member => by
          obtain ⟨k, -, starts⟩ := member.2
          exact starts.parent.1
        rango := fun x q member => consistent.rango x q (reach x q member)
        inyectivo := fun x p y q left right same =>
          consistent.propios.unico x p y q (reach x p left) (reach y q right) same
        marca := fun b => by
          constructor
          · intro used
            by_cases held : ∃ x q, deTamanio sb d x q ∧ (punteros sb d).valor x q = b
            · exact .inr held
            · exact .inl ⟨used, held⟩
          · rintro (⟨used, -⟩ | ⟨x, q, member, rfl⟩)
            · exact used
            · exact consistent.propios.marcado x q (reach x q member)
        ajeno := fun b x p outside member same => outside.2 ⟨x, p, member, same⟩ }
  · exact ⟨fun _ => consistent.inicio, consistent.dentro, consistent.cuentaGrupo,
      consistent.cuentaTotal⟩

theorem Duenio.propios (owner : Duenio sb d) : BloquesPropios sb d := by
  obtain ⟨E, obra⟩ := owner
  have inside : ∀ x q, alcanza sb d x q → deTamanio sb d x q := fun x q reached =>
    ⟨reached.1.1, reached.2⟩
  exact ⟨fun x q reached => obra.libro.usado_of_mem (inside x q reached),
    fun x q y r left right => obra.libro.inyectivo x q y r (inside x q left) (inside y r right)⟩

/-! ### Every run -/

/-- A new directory is not given the mode of something else as well. -/
def Llamada.Modo : Llamada → Prop
  | .crearDirectorio _ mode => (mode.toUInt16 ||| S_IFDIR) &&& 0xF000 = S_IFDIR
  | _ => True

/-- The call takes no branch that loses track of a block. -/
def ConservaDuenio (sb : Superblock) (d : Disco) (l : Llamada) : Prop :=
  l.Modo ∧ ∀ h ∈ hechosDe sb d l, Permitido sb h

instance : DecidablePred Llamada.Modo
  | .crearDirectorio _ _ => inferInstanceAs (Decidable (_ = _))
  | .crearArchivo _ _ | .truncarArchivo _ _ | .eliminarArchivo _ | .eliminarDirectorio _ =>
    isTrue trivial

instance (l : Llamada) : Decidable (ConservaDuenio sb d l) := inferInstanceAs (Decidable (_ ∧ _))

theorem Duenio.hechos (owner : Duenio sb d) (hechos : List Hecho) :
    Duenio sb { d with hechos } := by
  obtain ⟨E, obra⟩ := owner
  exact ⟨E, obra.inodos ⟨rfl, rfl, fun _ => rfl⟩ rfl fun _ _ => rfl⟩

theorem duenio_atender (geo : Geometria sb) (owner : Duenio sb d) {l : Llamada}
    (meets : ConservaDuenio sb d l) (run : atender sb d l = some d') : Duenio sb d' := by
  have clean := owner.hechos []
  have traced : Cumple sb d' := by
    have facts := meets.2
    rwa [hechosDe, run] at facts
  simp only [atender, Option.map_eq_some_iff] at run
  obtain ⟨⟨code, d1⟩, run, rfl⟩ := run
  cases l with
  | crearArchivo path mode => exact duenio_crearArchivo geo clean run traced
  | crearDirectorio path mode => exact duenio_crearDirectorio geo clean meets.1 run traced
  | truncarArchivo path offset =>
    exact duenio_truncarArchivo geo clean offset.toNat_lt run traced
  | eliminarArchivo path => exact duenio_eliminarArchivo geo clean run traced
  | eliminarDirectorio path => exact duenio_eliminarDirectorio geo clean run traced

theorem alcanzable_duenio (geo : Geometria sb) (owner : Duenio sb inicial)
    (reached : Alcanzable sb (ConservaDuenio sb) inicial d) : Duenio sb d := by
  induction reached with
  | inicio => exact owner
  | llamada d d' l _ meets run ih => exact duenio_atender geo ih meets run

/-- On an image below 4 GiB, after every run of calls none of which loses track of a
block, each block reachable from an allocated inode is marked and has one owner. -/
theorem bloques_propios (start : Consistente sb inicial)
    (small : sb.blocks * tamanioDeBloque sb ≤ 2 ^ 32)
    (reached : Alcanzable sb (ConservaDuenio sb) inicial d) : BloquesPropios sb d :=
  (alcanzable_duenio (start.geometria small) start.duenio reached).propios

theorem grupo_de_16 : 0 < 16 := by decide

theorem grupo_de_32 : 0 < 32 := by decide

/-- One group of 32 blocks and 16 inodes, with blocks of `1024 << log` bytes. -/
def volumen (log : Nat) : Superblock where
  inodes := 16
  blocks := if log = 0 then 33 else 32
  firstDataBlock := if log = 0 then 1 else 0
  logBlockSize := log
  blocksPerGroup := 32
  inodesPerGroup := 16
  blocksPerGroup_pos := grupo_de_32
  inodesPerGroup_pos := grupo_de_16

/-- Blocks up to 9 hold the tables, block 10 the root directory and block 11 the file
`/a`, of five bytes. -/
def imagenConArchivo (log : Nat) : Disco where
  freeBlocks := if log = 0 then 21 else 20
  freeInodes := 5
  grupo _ := ⟨if log = 0 then 21 else 20, 5, 1⟩
  bitmapBloques _ i := i + (volumen log).firstDataBlock ≤ 11
  bitmapInodos _ i := i < 11
  inodo x :=
    if x = 2 then
      ⟨S_IFDIR, .ofNat (tamanioDeBloque (volumen log)), 2, 2, fun i => if i = 0 then 10 else 0⟩
    else if x = 11 then ⟨S_IFREG, 5, 1, 2, fun i => if i = 0 then 11 else 0⟩
    else ⟨0, 0, 0, 0, fun _ => 0⟩
  mem :=
    let inicio := posicionarInicioBloque (volumen log) 10
    let largo := tamanioDeBloque (volumen log)
    escribir (escribir (escribir (fun _ => 0) inicio (DirEntry.bytes ⟨2, 12, 1, 0, [46]⟩))
      (inicio + 12) (DirEntry.bytes ⟨2, 12, 2, 0, [46, 46]⟩))
      (inicio + 24) (DirEntry.bytes ⟨11, largo - 24, 1, 0, [97]⟩)
  nroDeGrupo := 0
  basura := 0
  hechos := []

theorem alcanza_imagenConArchivo {log x : Nat} {q : List Nat} (small : log = 0 ∨ log = 1)
    (reached : alcanza (volumen log) (imagenConArchivo log) x q) : (x = 2 ∨ x = 11) ∧ q = [0] := by
  obtain ⟨-, k, below, starts⟩ := reached
  have blocks : bloquesDe (volumen log) ((imagenConArchivo log).inodo x).size.toNat =
      if x = 2 ∨ x = 11 then 1 else 0 := by
    by_cases root : x = 2
    · subst root
      rcases small with rfl | rfl <;> rfl
    by_cases file : x = 11
    · subst file
      rcases small with rfl | rfl <;> rfl
    simp only [imagenConArchivo, root, file, ↓reduceIte, or_self]
    rcases small with rfl | rfl <;> rfl
  rw [blocks] at below
  split at below
  · rename_i owner
    obtain rfl : k = 0 := by omega
    exact ⟨owner, (inicia_directo (by omega)).mp starts⟩
  · omega

theorem imagenConArchivo_consistente {log : Nat} (small : log = 0 ∨ log = 1) :
    Consistente (volumen log) (imagenConArchivo log) := by
  have reach := fun x q => alcanza_imagenConArchivo (x := x) (q := q) small
  constructor
  case rango =>
    intro x q reached
    obtain ⟨rfl | rfl, rfl⟩ := reach x q reached <;> rcases small with rfl | rfl <;> decide
  case propios =>
    constructor
    · intro x q reached
      obtain ⟨rfl | rfl, rfl⟩ := reach x q reached <;> rcases small with rfl | rfl <;>
        exact ⟨by decide, by decide⟩
    · intro x q y r left right
      obtain ⟨rfl | rfl, rfl⟩ := reach x q left <;> obtain ⟨rfl | rfl, rfl⟩ := reach y r right <;>
        rcases small with rfl | rfl <;> decide
  case vacios =>
    intro x valid free
    have root : x ≠ 2 := by
      rintro rfl
      exact free ⟨valid, rfl⟩
    have file : x ≠ 11 := by
      rintro rfl
      exact free ⟨valid, rfl⟩
    simp [imagenConArchivo, root, file]
  all_goals rcases small with rfl | rfl <;> decide +kernel

theorem corrida_cons {l : Llamada} (calls : List Llamada) (done : (atender sb d l).isSome) :
    corrida sb d (l :: calls) = corrida sb ((atender sb d l).get done) calls := by
  obtain ⟨d', run⟩ := Option.isSome_iff_exists.mp done
  simp [corrida, run]

theorem Alcanzable.sigue {Cond : Disco → Llamada → Prop} (reached : Alcanzable sb Cond inicial d)
    (l : Llamada) (meets : Cond d l) (done : (atender sb d l).isSome) :
    Alcanzable sb Cond inicial ((atender sb d l).get done) :=
  .llamada d _ l reached meets (Option.eq_some_of_isSome done)

/-- A directory, a file of two blocks in it, and the file `/a` gone. -/
theorem bloques_propios_corrida : ∃ d, corrida (volumen 0) (imagenConArchivo 0)
    [.crearDirectorio [47, 98] 0o755, .crearArchivo [47, 98, 47, 99] 0o644,
      .truncarArchivo [47, 98, 47, 99] 1500, .eliminarArchivo [47, 97]] = some d ∧
    BloquesPropios (volumen 0) d := by
  have start : Alcanzable (volumen 0) (ConservaDuenio (volumen 0)) (imagenConArchivo 0) _ := .inicio
  have first := start.sigue (.crearDirectorio [47, 98] 0o755)
    (by decide +kernel) (by decide +kernel)
  have second := first.sigue (.crearArchivo [47, 98, 47, 99] 0o644)
    (by decide +kernel) (by decide +kernel)
  have third := second.sigue (.truncarArchivo [47, 98, 47, 99] 1500)
    (by decide +kernel) (by decide +kernel)
  have fourth := third.sigue (.eliminarArchivo [47, 97]) (by decide +kernel) (by decide +kernel)
  refine ⟨_, ?_, bloques_propios (imagenConArchivo_consistente (.inl rfl)) (by decide) fourth⟩
  rw [corrida_cons, corrida_cons, corrida_cons, corrida_cons]
  rfl

/-- With blocks of 2048 bytes the bit of the block before the one freed is cleared: as `/a`
is cut to nothing the root directory loses its block. -/
theorem bloques_de_2048 : ¬∀ (sb : Superblock) (inicial d : Disco), Consistente sb inicial →
    Alcanzable sb (fun _ _ => True) inicial d → BloquesPropios sb d := by
  intro all
  have start : Alcanzable (volumen 1) (fun _ _ => True) (imagenConArchivo 1) _ := .inicio
  have cut := start.sigue (.truncarArchivo [47, 97] 0) trivial (by decide +kernel)
  have owned := all _ _ _ (imagenConArchivo_consistente (.inr rfl)) cut
  have root := owned.marcado 2 [0]
    ⟨⟨⟨by decide, by decide⟩, by decide +kernel⟩, 0, by decide +kernel, .directo (by decide)⟩
  exact absurd root.2 (by decide +kernel)

end LosAltos.Rfs
