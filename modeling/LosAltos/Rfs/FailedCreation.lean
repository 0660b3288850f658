import LosAltos.Rfs.Runs

/-!
# Creations that fail

`crearArchivo` and `crearDirectorio` with an answer other than 0,
`funciones_rfs.c:807-849, 884-974, 1256-1300`. Nothing is undone: what was taken before the
resource that is missing stays taken.
-/
namespace LosAltos.Rfs

open Lib

section
variable (sb : Superblock)

/-- The bytes of the directory `x`, block by block. -/
def contenido (d : Disco) (x : Nat) : List (Option (List UInt8)) :=
  (List.range (bloquesDe sb (d.inodo x).size.toNat)).map fun k =>
    (posicionarme sb d x k 0).map fun inicio => leer d.mem inicio (tamanioDeBloque sb)

/-- Bitmaps, counters, inodes and the contents of every directory are the same. -/
structure MismaImagen (d d' : Disco) : Prop where
  bitmapBloques : d'.bitmapBloques = d.bitmapBloques
  bitmapInodos : d'.bitmapInodos = d.bitmapInodos
  grupo : d'.grupo = d.grupo
  freeBlocks : d'.freeBlocks = d.freeBlocks
  freeInodes : d'.freeInodes = d.freeInodes
  inodo : d'.inodo = d.inodo
  directorios : ∀ x, (d.inodo x).tieneModo S_IFDIR → contenido sb d' x = contenido sb d x

/-- No group counts a free block. -/
def sinBloques (d : Disco) : Prop := ∀ g < cantidadDeGrupos sb, (d.grupo g).freeBlocksCount = 0

/-- Some entry of the directory `x` has space to spare for one called `nombre`. -/
def hayLugar (d : Disco) (x : Nat) (nombre : Cadena) : Prop :=
  ∃ hallada, buscarEntrada sb d x (fun e => e.resto ≥ tamanioMinEntradaDirectorio nombre) =
    some (some hallada)

/-- The first thing that an entry called `nombre` of the directory `x` takes is missing. -/
def FaltaRecurso (d : Disco) (x : Nat) (nombre : Cadena) : Prop :=
  hayLugar sb d x nombre ∧ d.freeInodes = 0 ∨ ¬hayLugar sb d x nombre ∧ sinBloques sb d

/-- The call fails before it takes anything: the parent is not there, the path is, or the
parent has room for an entry and no inode is free, or no room and no block is free. -/
def FallaAntes (d : Disco) (path : Cadena) : Prop :=
  getNroInodoDeLaDireccionDelPath sb d (separarPathParaNewDirEntry path).1 = some 0 ∨
    getNroInodoDeLaDireccionDelPath sb d path ≠ some 0 ∨
    ∃ x, getNroInodoDeLaDireccionDelPath sb d (separarPathParaNewDirEntry path).1 = some x ∧
      FaltaRecurso sb d x (separarPathParaNewDirEntry path).2

end

variable {sb : Superblock} {d d' : Disco} {x b code : Nat} {nombre path : Cadena}

theorem MismaImagen.of_eq (blocks : d'.bitmapBloques = d.bitmapBloques)
    (inodes : d'.bitmapInodos = d.bitmapInodos) (groups : d'.grupo = d.grupo)
    (free : d'.freeBlocks = d.freeBlocks) (freeInodes : d'.freeInodes = d.freeInodes)
    (table : d'.inodo = d.inodo) (bytes : d'.mem = d.mem) : MismaImagen sb d d' where
  bitmapBloques := blocks
  bitmapInodos := inodes
  grupo := groups
  freeBlocks := free
  freeInodes := freeInodes
  inodo := table
  directorios y _ := by
    have slots : ∀ slot, leerSlot d' slot = leerSlot d slot := by
      intro slot
      cases slot with
      | inodo z i => rw [leerSlot, leerSlot, table]
      | disco dir => rw [leerSlot, leerSlot, leer32, leer32, bytes]
    have same : ∀ k, posicionarme sb d' y k 0 = posicionarme sb d y k 0 := by
      intro k
      simp only [posicionarme, getPtrNroBloqueLogicoDentroInodo, posicionarIndireccionDoble,
        posicionarIndireccionTriple, getPtrBloqueIndDoble, slots]
    simp only [contenido, same, table, bytes]

/-! ### Blocks -/

/-- The search gives up only after it has seen every group. -/
theorem buscarGrupo_lleno {fuel nro grupo : Nat} {vuelta : Bool}
    (run : buscarGrupo sb d fuel nro vuelta = some (grupo, true)) :
    ∀ g < cantidadDeGrupos sb, nro ≤ g ∨ vuelta = false → (d.grupo g).freeBlocksCount = 0 := by
  induction fuel generalizing nro vuelta with
  | zero => cases run
  | succ fuel ih =>
    intro g bound seen
    rw [buscarGrupo] at run
    split at run
    · cases run
    rename_i empty
    have here : g = nro → (d.grupo g).freeBlocksCount = 0 := by
      rintro rfl
      by_contra some_free
      exact empty ⟨bound, some_free⟩
    have step : (nro + 1) % 2 ^ 32 ≤ nro + 1 := Nat.mod_le ..
    simp only at run
    split at run
    · rename_i last
      cases vuelta with
      | false => exact ih run g bound (.inl (Nat.zero_le g))
      | true =>
        rcases seen with later | impossible
        · exact here (by omega)
        · cases impossible
    · rcases Nat.lt_trichotomy g nro with before | same | after
      · rcases seen with later | first
        · omega
        · exact ih run g bound (.inr first)
      · exact here same
      · exact ih run g bound (.inl (by omega))

/-- `getBloqueLibre` finds no block and only moves its cursor, or counts one block less. -/
theorem getBloqueLibre_cuenta (run : getBloqueLibre sb d = some (b, d')) :
    sinBloques sb d ∧ b = 0 ∧ MismaImagen sb d d' ∨
      ¬sinBloques sb d ∧ d'.freeBlocks = d.freeBlocks - 1 := by
  simp only [getBloqueLibre, Option.bind_eq_bind, Option.bind_eq_some_iff] at run
  obtain ⟨⟨g, lleno⟩, searched, run⟩ := run
  cases lleno with
  | true =>
    cases run
    have full := buscarGrupo_lleno searched
    exact .inl ⟨fun g bound => full g bound (.inr rfl), rfl, .of_eq rfl rfl rfl rfl rfl rfl rfl⟩
  | false =>
    obtain ⟨bound, count⟩ := buscarGrupo_libre searched
    simp only [Bool.false_eq_true, ↓reduceIte, actualizarEstructurasCuandoPidoBloque,
      Option.bind_eq_bind, Option.bind_eq_some_iff] at run
    obtain ⟨after, ⟨grupo, -, taken⟩, run⟩ := run
    cases taken
    cases run
    exact .inr ⟨fun none_free => count (none_free g bound), rfl⟩

theorem uint32_pred_ne (n : UInt32) : n - 1 ≠ n := by
  intro same
  have back : n - 1 + 1 = n + 1 := by rw [same]
  rw [UInt32.sub_add_cancel] at back
  have zero : n + 0 = n + 1 := by rwa [UInt32.add_zero]
  exact absurd ((UInt32.add_right_inj n).mp zero) (by decide)

theorem MismaImagen.freeBlocks_ne (same : MismaImagen sb d d') :
    d'.freeBlocks ≠ d.freeBlocks - 1 := by
  rw [same.freeBlocks]
  exact (uint32_pred_ne d.freeBlocks).symm

theorem MismaImagen.freeInodes_ne (same : MismaImagen sb d d') :
    d'.freeInodes ≠ d.freeInodes - 1 := by
  rw [same.freeInodes]
  exact (uint32_pred_ne d.freeInodes).symm

/-! ### The entry of the new file -/

theorem buscarInodoLibre_ne_zero {groups : List Nat}
    (found : buscarInodoLibre sb d groups = some x) : x ≠ 0 := by
  induction groups with
  | nil => cases found
  | cons g groups ih =>
    simp only [buscarInodoLibre] at found
    split at found
    · rename_i nonzero
      cases found
      exact nonzero
    · exact ih found

/-- An answer other than 0 means that no inode is free. -/
theorem agregarNuevaEntrada_inodos {inicio : Int} {desp size : Nat}
    (run : agregarNuevaEntrada sb d inicio desp nombre size = some (code, d')) :
    d'.freeBlocks = d.freeBlocks ∧
      (code = 0 ∧ d.freeInodes ≠ 0 ∧ d'.freeInodes = d.freeInodes - 1 ∨
        code ≠ 0 ∧ d.freeInodes = 0 ∧ d' = d) := by
  simp only [agregarNuevaEntrada, Option.bind_eq_bind, Option.bind_eq_some_iff] at run
  obtain ⟨⟨nro, d1⟩, asked, run⟩ := run
  rw [getInodoLibre] at asked
  split at asked
  · rename_i none_free
    cases asked
    simp only [ne_eq, not_true_eq_false, ↓reduceIte] at run
    cases run
    exact ⟨rfl, .inr ⟨by decide, none_free, rfl⟩⟩
  · rename_i some_free
    simp only [actualizarEstructurasCuandoPidoInodo, Option.bind_eq_bind, Option.bind_eq_some_iff,
      Option.some.injEq] at asked
    obtain ⟨free, found, after, ⟨grupo, -, rfl⟩, asked⟩ := asked
    have nonzero : free ≠ 0 := buscarInodoLibre_ne_zero found
    cases asked
    rw [if_pos nonzero] at run
    simp only [Option.bind_eq_some_iff] at run
    obtain ⟨_, -, y, -, run⟩ := run
    cases run
    exact ⟨rfl, .inl ⟨rfl, some_free, rfl⟩⟩

theorem agregarAInodo_cuentas {k : Nat} (run : agregarAInodo sb d x k b = some d') :
    d'.freeBlocks = d.freeBlocks ∧ d'.freeInodes = d.freeInodes := by
  simp only [agregarAInodo, Option.bind_eq_bind, Option.bind_eq_some_iff, Option.some.injEq] at run
  obtain ⟨slot, -, rfl⟩ := run
  cases slot <;> exact ⟨rfl, rfl⟩

/-- A new entry takes an inode; if it fails after a block was found, the block is gone. -/
theorem agregarEntradaDirectorio_cuentas
    (run : agregarEntradaDirectorio sb d x nombre = some (code, d')) :
    code = 0 ∧ ¬FaltaRecurso sb d x nombre ∧ d'.freeInodes = d.freeInodes - 1 ∨
      code ≠ 0 ∧ FaltaRecurso sb d x nombre ∧ MismaImagen sb d d' ∨
      code ≠ 0 ∧ ¬FaltaRecurso sb d x nombre ∧ d'.freeBlocks = d.freeBlocks - 1 := by
  simp only [agregarEntradaDirectorio, Option.bind_eq_bind, Option.bind_eq_some_iff] at run
  obtain ⟨hallada, found, run⟩ := run
  cases hallada with
  | some entry =>
    have room : hayLugar sb d x nombre := ⟨entry, found⟩
    obtain ⟨k, desp, anterior, e⟩ := entry
    simp only [Option.bind_eq_some_iff] at run
    obtain ⟨inicio, -, ⟨error, d1⟩, added, run⟩ := run
    obtain ⟨-, ⟨rfl, some_free, fewer⟩ | ⟨failed, none_free, rfl⟩⟩ :=
      agregarNuevaEntrada_inodos added
    · cases run
      refine .inl ⟨rfl, ?_, fewer⟩
      rintro (⟨-, none_free⟩ | ⟨no_room, -⟩)
      · exact some_free none_free
      · exact no_room room
    · rw [if_neg failed] at run
      cases run
      exact .inr (.inl ⟨failed, .inl ⟨room, none_free⟩, .of_eq rfl rfl rfl rfl rfl rfl rfl⟩)
  | none =>
    have no_room : ¬hayLugar sb d x nombre := by
      rintro ⟨entry, again⟩
      rw [found] at again
      cases again
    have missing : FaltaRecurso sb d x nombre ↔ sinBloques sb d := by
      rw [FaltaRecurso]
      tauto
    simp only [Option.bind_eq_some_iff] at run
    obtain ⟨⟨b, d1⟩, asked, run⟩ := run
    rw [missing]
    rcases getBloqueLibre_cuenta asked with ⟨full, rfl, same⟩ | ⟨some_free, fewer⟩
    · simp only [↓reduceIte] at run
      cases run
      exact .inr (.inl ⟨by decide, full, same⟩)
    have inodes := (getBloqueLibre_solo asked).freeInodes
    split at run
    · cases run
      exact .inr (.inr ⟨by decide, some_free, fewer⟩)
    simp only [Option.bind_eq_some_iff] at run
    obtain ⟨d2, stored, inicio, -, ⟨error, d3⟩, added, run⟩ := run
    obtain ⟨blocks, kept⟩ := agregarAInodo_cuentas stored
    obtain ⟨blocks', ⟨rfl, -, less⟩ | ⟨failed, -, rfl⟩⟩ := agregarNuevaEntrada_inodos added
    · cases run
      refine .inl ⟨rfl, some_free, ?_⟩
      calc d3.freeInodes
        _ = d2.freeInodes - 1 := less
        _ = d.freeInodes - 1 := by rw [kept]; exact congrArg (· - 1) inodes
    · rw [if_neg failed] at run
      cases run
      exact .inr (.inr ⟨failed, some_free, blocks.trans fewer⟩)

theorem setearInodo_freeInodes {mode : UInt16}
    (run : setearInodo sb d x mode = some (code, d')) : d'.freeInodes = d.freeInodes := by
  rw [setearInodo] at run
  split at run
  · simp only [Option.bind_eq_bind, Option.bind_eq_some_iff] at run
    obtain ⟨⟨b, d1⟩, asked, run⟩ := run
    have inodes := (getBloqueLibre_solo asked).freeInodes
    split at run <;> cases run <;> exact inodes
  · cases run
    rfl

/-! ### The two creations -/

theorem fallaAntes_iff {nro : Nat}
    (parent : getNroInodoDeLaDireccionDelPath sb d (separarPathParaNewDirEntry path).1 = some nro)
    (there : nro ≠ 0) (absent : getNroInodoDeLaDireccionDelPath sb d path = some 0) :
    FallaAntes sb d path ↔ FaltaRecurso sb d nro (separarPathParaNewDirEntry path).2 := by
  rw [FallaAntes, parent, absent]
  simp [there]

/-- A file that is not created leaves the image alone, or a block less on it. -/
theorem crearArchivo_fallida {mode : UInt32} (run : crearArchivo sb d path mode = some (code, d'))
    (failed : code ≠ 0) : FallaAntes sb d path ∧ MismaImagen sb d d' ∨
      ¬FallaAntes sb d path ∧ d'.freeBlocks = d.freeBlocks - 1 := by
  have same : MismaImagen sb d d := .of_eq rfl rfl rfl rfl rfl rfl rfl
  simp only [crearArchivo, Option.bind_eq_bind, Option.bind_eq_some_iff] at run
  obtain ⟨nro, parent, run⟩ := run
  split at run
  · rename_i there
    simp only [Option.bind_eq_some_iff] at run
    obtain ⟨node, here, y, present, found, resolves, run⟩ := run
    obtain ⟨rfl, -⟩ := getInodo_some here present
    split at run
    · rename_i absent
      subst absent
      rw [fallaAntes_iff parent there resolves]
      simp only [Option.bind_eq_some_iff] at run
      obtain ⟨⟨error, d1⟩, added, run⟩ := run
      rcases agregarEntradaDirectorio_cuentas added with ⟨rfl, -⟩ | ⟨wrong, early, same⟩ |
        ⟨wrong, late, fewer⟩
      · simp only [↓reduceIte, Option.bind_eq_some_iff] at run
        obtain ⟨nro', -, node', -, z, -, run⟩ := run
        exact absurd ((setearInodo_archivo run).1) failed
      · rw [if_neg wrong] at run
        cases run
        exact .inl ⟨early, same⟩
      · rw [if_neg wrong] at run
        cases run
        exact .inr ⟨late, fewer⟩
    · rename_i exists_already
      cases run
      exact .inl ⟨.inr (.inl (by rw [resolves]; simpa using exists_already)), same⟩
  · rename_i missing
    cases run
    exact .inl ⟨.inl (by rw [parent]; simpa using missing), same⟩

/-- A directory may also have lost its inode by then. -/
theorem crearDirectorio_fallida {mode : UInt32}
    (run : crearDirectorio sb d path mode = some (code, d')) (failed : code ≠ 0) :
    FallaAntes sb d path ∧ MismaImagen sb d d' ∨ ¬FallaAntes sb d path ∧
      (d'.freeBlocks = d.freeBlocks - 1 ∨ d'.freeInodes = d.freeInodes - 1) := by
  have same : MismaImagen sb d d := .of_eq rfl rfl rfl rfl rfl rfl rfl
  simp only [crearDirectorio, Option.bind_eq_bind, Option.bind_eq_some_iff] at run
  obtain ⟨nro, parent, node, here, run⟩ := run
  split at run
  · rename_i there
    simp only [Option.bind_eq_some_iff] at run
    obtain ⟨found, resolves, run⟩ := run
    split at run
    · rename_i absent
      subst absent
      rw [fallaAntes_iff parent there resolves]
      simp only [Option.bind_eq_some_iff] at run
      obtain ⟨y, present, ⟨error, d1⟩, added, run⟩ := run
      obtain ⟨rfl, -⟩ := getInodo_some here present
      rcases agregarEntradaDirectorio_cuentas added with ⟨rfl, late, fewer⟩ |
        ⟨wrong, early, same⟩ | ⟨wrong, late, fewer⟩
      · simp only [↓reduceIte, iniciarDirectorio, Option.bind_eq_bind,
          Option.bind_eq_some_iff] at run
        obtain ⟨nro', -, node', -, z, -, ⟨error, d2⟩, set, run⟩ := run
        have kept := setearInodo_freeInodes set
        split at run
        · simp only [Option.bind_eq_some_iff] at run
          obtain ⟨_, -, _, -, d3, -, d4, -, run⟩ := run
          cases run
          exact absurd rfl failed
        · cases run
          exact .inr ⟨late, .inr (kept.trans fewer)⟩
      · rw [if_neg wrong] at run
        cases run
        exact .inl ⟨early, same⟩
      · rw [if_neg wrong] at run
        cases run
        exact .inr ⟨late, .inl fewer⟩
    · rename_i exists_already
      cases run
      exact .inl ⟨.inr (.inl (by rw [resolves]; simpa using exists_already)), same⟩
  · rename_i missing
    cases run
    exact .inl ⟨.inl (by rw [parent]; simpa using missing), same⟩

/-- A creation that fails leaves the image as it was exactly when it fails before it takes
anything. -/
theorem creacion_fallida {mode : UInt32}
    (run : crearArchivo sb d path mode = some (code, d') ∨
      crearDirectorio sb d path mode = some (code, d'))
    (failed : code ≠ 0) : MismaImagen sb d d' ↔ FallaAntes sb d path := by
  have outcome : FallaAntes sb d path ∧ MismaImagen sb d d' ∨ ¬FallaAntes sb d path ∧
      (d'.freeBlocks = d.freeBlocks - 1 ∨ d'.freeInodes = d.freeInodes - 1) := by
    rcases run with file | directory
    · rcases crearArchivo_fallida file failed with early | ⟨late, fewer⟩
      · exact .inl early
      · exact .inr ⟨late, .inl fewer⟩
    · exact crearDirectorio_fallida directory failed
  rcases outcome with ⟨early, same⟩ | ⟨late, blocks | inodes⟩
  · exact iff_of_true same early
  · exact iff_of_false (fun same => same.freeBlocks_ne blocks) late
  · exact iff_of_false (fun same => same.freeInodes_ne inodes) late

/-- `/a` is there already. -/
theorem creacion_fallida_existente : ∃ d', crearArchivo (volumen 0) (imagenConArchivo 0) [47, 97]
    0o644 = some (EEXIST, d') ∧ MismaImagen (volumen 0) (imagenConArchivo 0) d' := by
  have answer : (crearArchivo (volumen 0) (imagenConArchivo 0) [47, 97] 0o644).map (·.1) =
      some EEXIST := by decide +kernel
  obtain ⟨⟨code, d'⟩, run, rfl⟩ := Option.map_eq_some_iff.mp answer
  have early : FallaAntes (volumen 0) (imagenConArchivo 0) [47, 97] := .inr (.inl (by decide +kernel))
  exact ⟨d', run, (creacion_fallida (.inl run) (by decide)).mpr early⟩

/-- The image of `imagenConArchivo` with every block in use. -/
def imagenLlena : Disco :=
  { imagenConArchivo 0 with
    freeBlocks := 0
    grupo := fun _ => ⟨0, 5, 1⟩
    bitmapBloques := fun _ _ => true }

theorem imagenLlena_consistente : Consistente (volumen 0) imagenLlena := by
  have old := imagenConArchivo_consistente (.inl rfl)
  have reach : ∀ x q, alcanza (volumen 0) imagenLlena x q → (x = 2 ∨ x = 11) ∧ q = [0] :=
    fun x q reached => alcanza_imagenConArchivo (.inl rfl) reached
  constructor
  case vacios => exact old.vacios
  case rango => exact old.rango
  case propios =>
    refine ⟨fun x q reached => ?_, old.propios.unico⟩
    obtain ⟨rfl | rfl, rfl⟩ := reach x q reached <;> exact ⟨by decide, rfl⟩
  all_goals decide +kernel

/-- `mkdir` with no block left: the entry and its inode stay. -/
theorem creacion_a_medias : ¬∀ (sb : Superblock) (d d' : Disco) (path : Cadena) (mode : UInt32)
    (code : Nat), Consistente sb d → (crearArchivo sb d path mode = some (code, d') ∨
      crearDirectorio sb d path mode = some (code, d')) → code ≠ 0 → MismaImagen sb d d' := by
  intro all
  have answer : (crearDirectorio (volumen 0) imagenLlena [47, 98] 0o755).map
      (fun r => (r.1, r.2.freeInodes)) = some (ENOSPC, 4) := by decide +kernel
  obtain ⟨⟨code, d'⟩, run, equal⟩ := Option.map_eq_some_iff.mp answer
  obtain ⟨rfl, left⟩ := Prod.mk.inj equal
  have same := all _ _ _ _ _ _ imagenLlena_consistente (.inr run) (by decide)
  exact absurd (same.freeInodes.symm.trans left) (by decide)

end LosAltos.Rfs
