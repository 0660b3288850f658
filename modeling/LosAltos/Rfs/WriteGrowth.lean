import LosAltos.Rfs.BlockCount
import LosAltos.Rfs.FileWrites
import LosAltos.Rfs.FreeBlocks

/-!
# The blocks a write adds

The loop of `serve_write` that gives the file the blocks of the request (`main_rfs.c:320-328`,
`funciones_rfs.c:1460-1557`). It takes `nr_blocks` for the number of the next logical block, so
an indirection block, counted before the data block is stored, makes it skip a number.
-/
namespace LosAltos.Rfs

open Lib

section
variable (sb : Superblock)

/-- No call of `getBloqueLibre` in the loop answers 0. -/
def SinFalta (final : Nat) : Nat → Disco → Nat → Prop
  | 0, _, _ => True
  | fuel + 1, d, x => cantidadDeBloques sb (d.inodo x) ≤ final →
    ∀ d', agregarBloqueNuevo sb d x = some d' →
      d'.hechos.count (.pide 0) = d.hechos.count (.pide 0) ∧ SinFalta final fuel d' x

/-- The logical blocks from `k` up to `n` are blocks that were free, each another one, and
those below `k` are what they were. -/
structure Crece (x k n : Nat) (d d' : Disco) : Prop where
  antes : ∀ j < k, bloqueLogico sb d' x j = bloqueLogico sb d x j
  nuevo : ∀ j, k ≤ j → j < n → bloqueLogico sb d' x j ≠ 0 ∧
    ¬usado sb d (bloqueLogico sb d' x j) ∧ usado sb d' (bloqueLogico sb d' x j)
  distintos : ∀ i j, k ≤ i → i < j → j < n → bloqueLogico sb d' x i ≠ bloqueLogico sb d' x j

end

variable {sb : Superblock} {d d' : Disco} {x k n b g i final : Nat}

/-! ### What `nr_blocks` says -/

theorem le_cuenta (k : Nat) : k ≤ cuenta sb k := by
  induction k with
  | zero => exact Nat.le_refl 0
  | succ k ih =>
    rw [cuenta]
    omega

theorem cuenta_directo (direct : k ≤ 12) : cuenta sb k = k := by
  induction k with
  | zero => rfl
  | succ k ih =>
    rw [cuenta, ih (by omega), indirecciones_directo (by omega)]

theorem cantidadDeBloques_eq {node : INode} (log : sb.logBlockSize ≤ 2)
    (count : node.nrBlocks.toNat = tamanioDeBloque sb / 512 * n)
    (small : node.nrBlocks.toNat * 512 < 2 ^ 32) : cantidadDeBloques sb node = n := by
  rw [cantidadDeBloques, Nat.mod_eq_of_lt small, count]
  rcases tamanioDeBloque_cases log with block | block | block <;> rw [block] <;> omega

theorem bloqueLogico_directo (direct : k < 12) :
    bloqueLogico sb d x k = ((d.inodo x).blocks k).toNat := by
  rw [bloqueLogico, camino_directo direct]
  rfl

/-! ### One turn -/

theorem manejar_directo (direct : k < 12) :
    manejarBloquesIndireccionesParaAgregar sb d x k = some d := by
  simp [manejarBloquesIndireccionesParaAgregar, esIndireccionSimple, esIndireccionDoble,
    esIndireccionTriple, inicioDoble, inicioTriple, show ¬12 ≤ k by omega,
    show ¬12 + ptrsPorBloque sb ≤ k by omega,
    show ¬12 + ptrsPorBloque sb + ptrsPorBloque sb * ptrsPorBloque sb ≤ k by omega]

/-- A data block in a direct slot of the inode. -/
theorem agregarBloqueNuevo_directo {d1 : Disco} (count : cantidadDeBloques sb (d.inodo x) = k)
    (direct : k < 12) (asked : getBloqueLibre sb d = some (b, d1)) (inodes : d1.inodo = d.inodo) :
    agregarBloqueNuevo sb d x =
      some (if b = 0 then d1 else sumaBloques sb (asignar d1 (.inodo x k) b) x) := by
  apply Option.bind_eq_some_iff.mpr ⟨d, by rw [count, manejar_directo direct], ?_⟩
  apply Option.bind_eq_some_iff.mpr ⟨(b, d1), asked, ?_⟩
  by_cases zero : b = 0
  · simp only [zero, ↓reduceIte]
  · simp only [zero, ↓reduceIte, inodes, count, getPtr_directo d1 x direct]
    rfl

/-- The state of the loop when it has added the logical blocks from `k` up to `n`. -/
structure Creciendo (sb : Superblock) (x k n : Nat) (inicial d : Disco) : Prop where
  tablas : Tablas sb d
  cursor : d.nroDeGrupo < cantidadDeGrupos sb
  cuenta : (d.inodo x).nrBlocks.toNat = tamanioDeBloque sb / 512 * n
  marcas : ∀ b, usado sb inicial b → usado sb d b
  crece : Crece sb x k n inicial d

theorem usado_tomado (hi : i < sb.blocksPerGroup)
    (number : b = sb.firstDataBlock + sb.blocksPerGroup * g + i) (nonzero : b ≠ 0) :
    (usado sb d b ↔ d.bitmapBloques g i = true) := by
  obtain ⟨group, bit⟩ := grupoDe_bitDe (g := g) hi
  rw [← number] at group bit
  change b ≠ 0 ∧ d.bitmapBloques (grupoDe sb b) (bitDe sb b) = true ↔ _
  rw [group, bit]
  exact and_iff_right nonzero

/-- The words of the inode after a direct block is stored. -/
theorem bloqueLogico_asignar {j : Nat} (direct : n < 12) (before : j ≤ n) (small : b < 2 ^ 32) :
    bloqueLogico sb (sumaBloques sb (asignar d (.inodo x n) b) x) x j =
      if j = n then b else bloqueLogico sb d x j := by
  rw [bloqueLogico_directo (by omega), bloqueLogico_directo (by omega)]
  by_cases last : j = n
  · simp [sumaBloques, asignar, grabarSlot, Disco.ponInodo, Disco.anota, INode.ponBloque, last,
      Nat.mod_eq_of_lt (show b < 4294967296 from small)]
  · simp [sumaBloques, asignar, grabarSlot, Disco.ponInodo, Disco.anota, INode.ponBloque, last]

theorem Crece.uno {d1 d2 : Disco} (grows : Crece sb x k n d d1) (first : k ≤ n)
    (marks : ∀ c, usado sb d c → usado sb d1 c) (later : ∀ c, usado sb d1 c → usado sb d2 c)
    (nonzero : b ≠ 0) (free : ¬usado sb d1 b) (taken : usado sb d2 b)
    (words : ∀ j ≤ n, bloqueLogico sb d2 x j = if j = n then b else bloqueLogico sb d1 x j) :
    Crece sb x k (n + 1) d d2 := by
  constructor
  · intro j below
    rw [words j (by omega), if_neg (by omega), grows.antes j below]
  · intro j from_k below
    rw [words j (by omega)]
    split
    · exact ⟨nonzero, fun used => free (marks b used), taken⟩
    · obtain ⟨full, fresh, held⟩ := grows.nuevo j from_k (by omega)
      exact ⟨full, fresh, later _ held⟩
  · intro i j from_k less below
    rw [words i (by omega), words j (by omega), if_neg (by omega)]
    split
    · intro same
      obtain ⟨-, -, held⟩ := grows.nuevo i from_k (by omega)
      rw [same] at held
      exact free held
    · exact grows.distintos i j from_k less (by omega)

/-- A block that was free is marked and then stored. -/
theorem Creciendo.tomar {inicial d1 : Disco} (state : Creciendo sb x k n inicial d)
    (first : k ≤ n) (direct : n < 12) (units : tamanioDeBloque sb / 512 * (n + 1) < 2 ^ 32)
    (tables : Tablas sb d1) (cursor : d1.nroDeGrupo < cantidadDeGrupos sb)
    (inodes : d1.inodo = d.inodo) (later : ∀ c, usado sb d c → usado sb d1 c) (small : b < 2 ^ 32)
    (nonzero : b ≠ 0) (free : ¬usado sb d b) (taken : usado sb d1 b) :
    Creciendo sb x k (n + 1) inicial (sumaBloques sb (asignar d1 (.inodo x n) b) x) := by
  have stored : MismosBloques d1 (sumaBloques sb (asignar d1 (.inodo x n) b) x) :=
    ⟨rfl, rfl, fun _ => rfl⟩
  constructor
  case tablas => exact stored.tablas tables
  case cursor => exact cursor
  case cuenta =>
    have old : ((asignar d1 (.inodo x n) b).inodo x).nrBlocks.toNat =
        tamanioDeBloque sb / 512 * n := by
      rw [← state.cuenta, ← inodes]
      exact congrArg UInt32.toNat (grabarSlot_nrBlocks d1 (.inodo x n) b x)
    rw [Nat.mul_succ] at units ⊢
    simp only [sumaBloques, Disco.ponInodo, ↓reduceIte, UInt32.toNat_add, old,
      UInt32.toNat_ofNat']
    omega
  case marcas =>
    intro c used
    rw [stored.usado]
    exact later c (state.marcas c used)
  case crece =>
    rw [← stored.usado] at later taken
    refine state.crece.uno first state.marcas later nonzero free taken fun j before => ?_
    rw [bloqueLogico_asignar direct before small, bloqueLogico_directo (d := d1) (by omega),
      bloqueLogico_directo (d := d) (by omega), inodes]

theorem unidades_lt (log : sb.logBlockSize ≤ 2) (direct : n ≤ 12) :
    tamanioDeBloque sb / 512 * n * 512 < 2 ^ 32 := by
  rcases tamanioDeBloque_cases log with block | block | block <;> rw [block] <;> omega

theorem Creciendo.cantidad {inicial : Disco} (state : Creciendo sb x k n inicial d)
    (log : sb.logBlockSize ≤ 2) (direct : n ≤ 12) : cantidadDeBloques sb (d.inodo x) = n := by
  apply cantidadDeBloques_eq log state.cuenta
  rw [state.cuenta]
  exact unidades_lt log direct

theorem Creciendo.turno {inicial : Disco} (image : BloquesConsistentes sb inicial)
    (state : Creciendo sb x k n inicial d) (first : k ≤ n) (direct : n < 12)
    (some_block : ∀ d', agregarBloqueNuevo sb d x = some d' →
      d'.hechos.count (.pide 0) = d.hechos.count (.pide 0)) :
    ∃ d', agregarBloqueNuevo sb d x = some d' ∧ Creciendo sb x k (n + 1) inicial d' := by
  have units := unidades_lt image.bloque (show n + 1 ≤ 12 by omega)
  have count := state.cantidad image.bloque direct.le
  have ends : (buscarGrupo sb d (2 ^ 34) d.nroDeGrupo false).isSome :=
    buscarGrupo_isSome image.pocos _ state.cursor
      (by rw [if_neg Bool.false_ne_true]; have few := image.pocos; omega)
  obtain ⟨⟨g, lleno⟩, searched⟩ := Option.isSome_iff_exists.mp ends
  cases lleno with
  | true =>
    have stuck := agregarBloqueNuevo_directo count direct (getBloqueLibre_lleno searched) rfl
    have same := some_block _ stuck
    simp [Disco.anota] at same
  | false =>
    obtain ⟨hg, -⟩ := buscarGrupo_libre searched
    obtain ⟨i, hi, clear, inside, nonzero, taken⟩ :=
      state.tablas.getBloqueLibre_libre image.bloques image.primero_le searched
    refine ⟨_, agregarBloqueNuevo_directo count direct taken rfl, ?_⟩
    rw [if_neg nonzero]
    have moved : MismosBloques d { d with nroDeGrupo := g } := ⟨rfl, rfl, fun _ => rfl⟩
    refine state.tomar first direct (by omega)
      ((MismosBloques.anota _ _).tablas (Tablas.ocupar (moved.tablas state.tablas) hg hi clear)) hg
      rfl ?_ (lt_trans inside image.bloques) nonzero ?_ ?_
    · rintro c ⟨full, set⟩
      refine ⟨full, (ocupar_bit _ _).trans ?_⟩
      rw [show (Disco.bitmapBloques { d with nroDeGrupo := g }) = d.bitmapBloques from rfl, set,
        ite_self]
    · rw [usado_tomado hi rfl nonzero, clear]
      exact Bool.false_ne_true
    · rw [usado_tomado hi rfl nonzero]
      exact (ocupar_bit g i).trans (if_pos ⟨rfl, rfl⟩)

/-- The loop, as long as the last block it needs is a direct one. -/
theorem Creciendo.hasta {inicial : Disco} (image : BloquesConsistentes sb inicial) (fuel : Nat)
    (state : Creciendo sb x k n inicial d) (first : k ≤ n) (direct : final < 12)
    (reach : n ≤ final + 1) (enough : final + 1 < n + fuel)
    (no_zero : SinFalta sb final fuel d x) :
    ∃ d', agregarHasta sb final fuel d x = some d' ∧ Crece sb x k (final + 1) inicial d' := by
  induction fuel generalizing d n with
  | zero => omega
  | succ fuel ih =>
    have count := state.cantidad image.bloque (by omega)
    rw [agregarHasta, count]
    by_cases done : n ≤ final
    · have turns := no_zero (by rw [count]; exact done)
      obtain ⟨d1, run, next⟩ := state.turno image first (by omega) fun d' added =>
        (turns d' added).1
      obtain ⟨d', rest, grows⟩ := ih next (by omega) (by omega) (by omega) (turns d1 run).2
      refine ⟨d', ?_, grows⟩
      rw [if_pos done, run]
      exact rest
    · obtain rfl : n = final + 1 := by omega
      exact ⟨d, if_neg done, state.crece⟩

/-- A write that needs no block past the direct ones, or none at all, finds the file with
the blocks it had and a fresh one for each number it lacked. -/
theorem crecimiento_directo (image : BloquesConsistentes sb d)
    (cursor : d.nroDeGrupo < cantidadDeGrupos sb)
    (count : (d.inodo x).nrBlocks.toNat = tamanioDeBloque sb / 512 * cuenta sb k)
    (small : (d.inodo x).nrBlocks.toNat * 512 < 2 ^ 32) (few : final < 12 ∨ final < k)
    (no_zero : SinFalta sb final vueltasMaximas d x) :
    ∃ d', agregarHasta sb final vueltasMaximas d x = some d' ∧ Crece sb x k (final + 1) d d' := by
  by_cases enough : final < k
  · have blocks := cantidadDeBloques_eq image.bloque count small
    have counted : k ≤ cuenta sb k := le_cuenta k
    refine ⟨d, ?_, ⟨fun _ _ => rfl, fun j from_k below => ?_, fun i j from_k less below => ?_⟩⟩
    · rw [vueltasMaximas_succ]
      exact agregarHasta_fin (by omega)
    · omega
    · omega
  · have direct : final < 12 := by omega
    rw [cuenta_directo (by omega)] at count
    have start : Creciendo sb x k k d d :=
      ⟨image.tablas, cursor, count, fun _ used => used, ⟨fun _ _ => rfl, fun j _ _ => by omega,
        fun i j _ _ _ => by omega⟩⟩
    exact start.hasta image _ (Nat.le_refl k) direct (by omega)
      (by rw [vueltasMaximas]; omega) no_zero

/-- A loop of one turn. -/
theorem sinFalta_uno {fuel : Nat} (turn : (agregarBloqueNuevo sb d x).map (fun d' =>
      (cantidadDeBloques sb (d'.inodo x), d'.hechos.count (.pide 0))) =
        some (n, d.hechos.count (.pide 0))) (done : final < n) :
    SinFalta sb final (fuel + 1) d x := by
  intro _ d' run
  rw [run] at turn
  simp only [Option.map_some, Option.some.injEq, Prod.mk.injEq] at turn
  refine ⟨turn.2, ?_⟩
  cases fuel with
  | zero => trivial
  | succ fuel =>
    intro more
    omega

theorem agregarHasta_uno {d1 : Disco} (more : cantidadDeBloques sb (d.inodo x) ≤ final)
    (turn : agregarBloqueNuevo sb d x = some d1)
    (done : final < cantidadDeBloques sb (d1.inodo x)) :
    agregarHasta sb final (n + 1 + 1) d x = some d1 := by
  rw [agregarHasta, if_pos more, turn]
  exact agregarHasta_fin done

/-- A third block for the file `/a`. -/
theorem crecimiento_directo_tercero :
    ∃ d', agregarHasta (volumen 0) 2 vueltasMaximas imagenArchivoLargo 11 = some d' ∧
      Crece (volumen 0) 11 2 3 imagenArchivoLargo d' := by
  have image : BloquesConsistentes (volumen 0) imagenArchivoLargo := by decide +kernel
  apply crecimiento_directo image (by decide) (by decide) (by decide) (.inl (by decide))
  rw [vueltasMaximas_succ]
  exact sinFalta_uno (n := 3) (by decide +kernel) (by decide)

/-- The file `/a` has the twelve direct blocks 11 to 22. -/
def imagenDoceBloques : Disco :=
  { imagenConArchivo 0 with
    freeBlocks := 10
    grupo := fun _ => ⟨10, 5, 1⟩
    bitmapBloques := fun _ i => i + 1 ≤ 22
    inodo := fun x =>
      if x = 11 then ⟨S_IFREG, 12288, 1, 24, fun i => if i < 12 then .ofNat (11 + i) else 0⟩
      else (imagenConArchivo 0).inodo x }

/-- The thirteenth block goes to the logical number 13. -/
theorem bloque_salteado : ¬∀ (sb : Superblock) (d : Disco) (x k offset size : Nat),
    BloquesConsistentes sb d → d.nroDeGrupo < cantidadDeGrupos sb →
    (d.inodo x).nrBlocks.toNat = tamanioDeBloque sb / 512 * cuenta sb k →
    (∀ j < k, bloqueLogico sb d x j ≠ 0) → 0 < size → offset + size < 2 ^ 32 →
    SinFalta sb ((offset + size - 1) / tamanioDeBloque sb) vueltasMaximas d x →
    ∃ d', agregarHasta sb ((offset + size - 1) / tamanioDeBloque sb) vueltasMaximas d x = some d' ∧
      Crece sb x k ((offset + size - 1) / tamanioDeBloque sb + 1) d d' := by
  intro all
  have image : BloquesConsistentes (volumen 0) imagenDoceBloques := by decide +kernel
  have turn : (agregarBloqueNuevo (volumen 0) imagenDoceBloques 11).map (fun d' =>
      (cantidadDeBloques (volumen 0) (d'.inodo 11), d'.hechos.count (.pide 0))) = some (14, 0) := by
    decide +kernel
  have word : (agregarBloqueNuevo (volumen 0) imagenDoceBloques 11).map (fun d' =>
      bloqueLogico (volumen 0) d' 11 12) = some 0 := by decide +kernel
  obtain ⟨d', run, grows⟩ := all (volumen 0) imagenDoceBloques 11 12 12288 1 image (by decide)
    (by decide) (by decide) (by decide) (by decide)
    (by rw [vueltasMaximas_succ]; exact sinFalta_uno turn (by decide))
  obtain ⟨d1, added, zero⟩ := Option.map_eq_some_iff.mp word
  rw [added, Option.map_some, Option.some.injEq, Prod.mk.injEq] at turn
  have once := agregarHasta_uno (d := imagenDoceBloques) (x := 11) (n := 2 ^ 33 - 2)
    (by decide : _ ≤ 12) added (by omega)
  rw [show (2 : Nat) ^ 33 - 2 + 1 + 1 = vueltasMaximas by decide] at once
  rw [show (12288 + 1 - 1) / tamanioDeBloque (volumen 0) = 12 by decide, once] at run
  cases run
  exact (grows.nuevo 12 (by decide) (by decide)).1 zero

end LosAltos.Rfs
