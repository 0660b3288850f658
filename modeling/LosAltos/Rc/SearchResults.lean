import LosAltos.Rc.SearchTurns

/-!
# What the searches hand out

`rc/src/vector.c:399-522, 524-642, 681-797`. The exits of `buscarLibreNext` test only the size,
`buscarLibreWorst` falls back to entry 0 and `buscarLibreBuddy` to the entry behind the table.
The conditions below are on the table before each turn of the loops.
-/
namespace LosAltos.Rc

open Lib

/-- A free partition of at least `espacio` bytes. -/
def Sirve (m : Motor) (espacio i : Nat) : Prop :=
  (m.keyVector i).libre ∧ espacio ≤ (m.keyVector i).dataSize

/-- From `i` on no empty entry stands right before an occupied one of `espacio` bytes. -/
def SinHuecos (c : Config) (m : Motor) (espacio i : Nat) : Prop :=
  ∀ j, i ≤ j → j + 1 < c.cantRegistros → (m.keyVector j).libre → (m.keyVector j).dataSize = 0 →
    (m.keyVector (j + 1)).libre = false → (m.keyVector (j + 1)).dataSize < espacio

/-- Entry 0 is not empty and the free partitions have less than 4 GiB. -/
def PrimeraLlena (c : Config) (m : Motor) : Prop :=
  0 < (m.keyVector 0).dataSize ∧
    ∀ j < c.cantRegistros, (m.keyVector j).libre → (m.keyVector j).dataSize < 2 ^ 32

/-- The value with its padding has a size. -/
def ConRelleno (c : Config) (espacio : Nat) : Prop :=
  0 < espacio + diferencia c espacio ∧ espacio + diferencia c espacio < 2 ^ 64

instance (c : Config) (espacio : Nat) : Decidable (ConRelleno c espacio) :=
  inferInstanceAs (Decidable (_ ∧ _))

/-- From `i` on there is an empty entry or a free block of `espacio` bytes. -/
def QuedaLugar (c : Config) (m : Motor) (espacio i : Nat) : Prop :=
  ∃ j, i ≤ j ∧ j < c.cantRegistros ∧ ((m.keyVector j).dataSize = 0 ∨ Sirve m espacio j)

variable {c : Config} {m m' : Motor} {espacio i j : Nat}

theorem crearParticion_sirve {prueba : Nat} (positive : 0 < espacio) (chosen : Sirve m espacio i)
    (runs : crearParticion c m prueba i espacio = (m', some j)) : Sirve m' espacio j := by
  rcases crearParticion_cases c m prueba i espacio with same | ⟨pos, found, same⟩ | same
  · rw [same] at runs
    cases runs
  · rw [same] at runs
    simp only [Prod.mk.injEq, Option.some.injEq] at runs
    obtain ⟨-, empty⟩ := buscarPosLibre_some found
    have apart : i ≠ pos := by
      rintro rfl
      have := chosen.2
      omega
    rw [← runs.1, ← runs.2, Sirve, cortar_other m espacio (diferencia c espacio) apart]
    exact chosen
  · rw [same] at runs
    simp only [Prod.mk.injEq, Option.some.injEq] at runs
    rw [← runs.1, ← runs.2]
    exact chosen

/-! ### Next -/

theorem turnoNext_sirve (table : Tabla c m) (registros : 0 < c.cantRegistros)
    (positive : 0 < espacio) {fallidas : Int} (clean : SinHuecos c m espacio i)
    (last : turnoNext c espacio (m, i, fallidas) = .done (m', j)) : Sirve m' espacio j := by
  rw [turnoNext_eq] at last
  split at last
  · rename_i stops
    cases last
    refine ⟨?_, stops.2⟩
    have inside : parada c m i < c.cantRegistros := by
      by_contra outside
      have := (table.fin (parada c m i) (by omega)).1
      omega
    rcases parada_cases inside with free | ⟨busy, k, here, start, free, empty⟩
    · exact free.1
    · have small := clean k start (by omega) free empty (here ▸ busy)
      rw [← here] at small
      omega
  · split at last
    · cases last
    · split at last
      · cases last
      · rename_i room
        split at last
        · rename_i fits
          cases last
          exact ⟨hacerLugar_libre (tabla_estable registros) table room (by omega), fits⟩
        · cases last

theorem buscarLibreNext_sirve (table : Tabla c m) (registros : 0 < c.cantRegistros)
    (positive : 0 < espacio) {fuel : Nat}
    (clean : ∀ t : EstadoNext, Visits (turnoNext c espacio) (m, m.ultimaPosicion, 0) t →
      SinHuecos c t.1 espacio t.2.1)
    (runs : buscarLibreNext c fuel m espacio = some (m', some j)) : Sirve m' espacio j := by
  simp only [buscarLibreNext, Option.bind_eq_bind, Option.bind_eq_some_iff] at runs
  obtain ⟨⟨m₁, i⟩, search, ends⟩ := runs
  rw [buscarNextLoop_turnos] at search
  obtain ⟨t, visited, last⟩ := run_some search
  have kept : Tabla c t.1 := visited.keeps (P := fun t => Tabla c t.1) table
    fun t u holds next => turnoNext_estable (tabla_estable registros) holds next
  have chosen := turnoNext_sirve kept registros positive (clean t visited) last
  simp only [Option.some.injEq] at ends
  refine crearParticion_sirve positive ?_ ends
  exact chosen

/-! ### Worst -/

/-- A partition is chosen, or every entry scanned since the last restart is in use. -/
def EleccionWorst (espacio : Nat) (t : EstadoWorst) : Prop :=
  (Sirve t.1 espacio t.2.2.1 ∧ (t.2.2.2.1 ≠ 0 ∨ t.2.2.2.2 = true)) ∨
    (t.2.2.2.1 = 0 ∧ t.2.2.2.2 = false ∧
      ∀ j, 1 ≤ j → j < t.2.1 → (t.1.keyVector j).dataSize ≠ 0)

theorem turnoWorst_eleccion (table : Tabla c m) (registros : 0 < c.cantRegistros)
    (positive : 0 < espacio) {posMayor mayor : Nat} {encontrado : Bool} {t : EstadoWorst}
    (full : PrimeraLlena c m) (before : EleccionWorst espacio (m, i, posMayor, mayor, encontrado))
    (next : turnoWorst c espacio (m, i, posMayor, mayor, encontrado) = .again t) :
    EleccionWorst espacio t := by
  simp only [turnoWorst] at next
  split at next
  · rename_i runs
    split at next
    · rename_i empty
      split at next
      · rename_i none
        -- with nothing chosen the search has not stopped either
        have searching : encontrado = false := by
          rcases runs.1 with same | filled
          · exact same
          · omega
        split at next
        · cases next
        · rename_i m₁ i₁ room
          split at next
          · rename_i fits
            cases next
            have filled : 0 < (m₁.keyVector i₁).dataSize := positive.trans_le fits
            have free := hacerLugar_libre (tabla_estable registros) table room filled
            exact Or.inl ⟨⟨free, fits⟩, Or.inr rfl⟩
          · cases next
            exact Or.inr ⟨none, searching, fun j first before => by dsimp only at before; omega⟩
      · rename_i some
        cases next
        rcases before with chosen | missing
        · exact Or.inl ⟨chosen.1, Or.inr rfl⟩
        · exact absurd missing.1 some
    · rename_i filled
      split at next
      · rename_i fits
        cases next
        refine Or.inl ⟨⟨fits.2.2, fits.1⟩, Or.inl ?_⟩
        have small := full.2 i runs.2 fits.2.2
        dsimp only
        omega
      · cases next
        rcases before with chosen | ⟨none, searching, scanned⟩
        · exact Or.inl chosen
        · refine Or.inr ⟨none, searching, fun j first before => ?_⟩
          by_cases here : j = i
          · rw [here]
            exact filled
          · exact scanned j first (by dsimp only at before ⊢; omega)
  · cases next

theorem buscarPosLibre_none (full : ∀ j < c.cantRegistros, (m.keyVector j).dataSize ≠ 0) :
    buscarPosLibre c m = none := by
  cases found : buscarPosLibre c m with
  | none => rfl
  | some pos =>
    obtain ⟨inside, empty⟩ := buscarPosLibre_some found
    exact absurd empty (full pos inside)

theorem buscarLibreWorst_sirve (table : Tabla c m) (registros : 0 < c.cantRegistros)
    (positive : 0 < espacio) (padded : ConRelleno c espacio) {fuel : Nat}
    (full : ∀ t : EstadoWorst, Visits (turnoWorst c espacio) (m, 0, 0, 0, false) t →
      PrimeraLlena c t.1)
    (runs : buscarLibreWorst c fuel m espacio = some (m', some j)) : Sirve m' espacio j := by
  simp only [buscarLibreWorst, Option.bind_eq_bind, Option.bind_eq_some_iff] at runs
  obtain ⟨⟨m₂, i₂, posMayor₂⟩, search, ends⟩ := runs
  rw [buscarWorstLoop_turnos] at search
  obtain ⟨t, visited, last⟩ := run_some search
  have start : EleccionWorst espacio (m, 0, 0, 0, false) :=
    Or.inr ⟨rfl, rfl, fun j _ before => absurd before (Nat.not_lt_zero j)⟩
  have kept : Visits (turnoWorst c espacio) (m, 0, 0, 0, false) t ∧ Tabla c t.1 ∧
      EleccionWorst espacio t := by
    refine visited.keeps (P := fun t => Visits (turnoWorst c espacio) (m, 0, 0, 0, false) t ∧
      Tabla c t.1 ∧ EleccionWorst espacio t) ⟨.start, table, start⟩ ?_
    intro t u holds next
    exact ⟨holds.1.again next, turnoWorst_estable (tabla_estable registros) holds.2.1 next,
      turnoWorst_eleccion holds.2.1 registros positive (full t holds.1) holds.2.2 next⟩
  obtain ⟨-, table₁, choice⟩ := kept
  have full₁ := full t visited
  obtain ⟨m₁, i, posMayor, mayor, encontrado⟩ := t
  obtain ⟨same, stops⟩ := turnoWorst_done last
  dsimp only at stops
  cases same
  simp only [Option.some.injEq] at ends
  rcases choice with chosen | ⟨-, searching, scanned⟩
  · exact crearParticion_sirve positive chosen.1 ends
  · -- the scan ended at the end of a full table, so there is no entry for the rest
    have outside : c.cantRegistros ≤ i := by
      by_contra inside
      exact stops ⟨Or.inl searching, by omega⟩
    have none := buscarPosLibre_none (c := c) (m := m₁) fun j inside => by
      by_cases first : j = 0
      · rw [first]
        exact full₁.1.ne'
      · exact scanned j (by omega) (by dsimp only; omega)
    have cut : a64 ((m₁.keyVector i).dataSize - espacio - diferencia c espacio) > 0 := by
      rw [(table₁.fin i outside).1]
      have := padded
      unfold ConRelleno at this
      unfold a64
      omega
    simp [crearParticion, cut, none] at ends

/-! ### Buddy -/

/-- A block is chosen, or nothing is and the search goes on. -/
def EleccionBuddy (c : Config) (espacio : Nat) (t : EstadoBuddy) : Prop :=
  (t.2.2.1 < c.cantRegistros ∧ Sirve t.1 espacio t.2.2.1) ∨
    (t.2.2.1 = c.cantRegistros ∧ t.2.2.2 = false)

theorem turnoBuddy_eleccion (table : Tabla c m) (registros : 0 < c.cantRegistros)
    {fuel lugares : Nat} {encontrado : Bool} {t : EstadoBuddy}
    (before : EleccionBuddy c espacio (m, i, lugares, encontrado))
    (next : turnoBuddy c fuel espacio (m, i, lugares, encontrado) = .again t) :
    EleccionBuddy c espacio t := by
  simp only [turnoBuddy] at next
  split at next
  · rename_i runs
    split at next
    · split at next
      · rename_i missing
        -- a block already chosen is free and fits, so nothing is evicted for it
        have none : lugares = c.cantRegistros := by
          rcases before with ⟨-, free, fits⟩ | ⟨last, -⟩
          · dsimp only at free fits
            rcases missing with ⟨-, small⟩ | busy
            · omega
            · rw [busy] at free
              cases free
          · exact last
        split at next
        · cases next
        · rename_i m₁ i₁ joins
          have table₁ := (eliminaBuddy_estable (tabla_estable registros)
            (eliminarParticion_estable (tabla_estable registros) table) joins).1
          split at next
          · rename_i fits
            cases next
            refine Or.inl ⟨?_, fits.2, by dsimp only; omega⟩
            by_contra outside
            have := (table₁.fin i₁ (Nat.le_of_not_lt outside)).1
            omega
          · cases next
            exact Or.inr ⟨none, rfl⟩
      · rename_i chosen
        cases next
        rcases before with block | ⟨last, -⟩
        · exact Or.inl block
        · have busy := (table.fin lugares (by dsimp only at last; omega)).2.1
          exact absurd (Or.inr busy) chosen
    · split at next
      · rename_i fits
        cases next
        have here : i < c.cantRegistros ∧ Sirve m espacio i := ⟨runs.2, fits.2, fits.1⟩
        refine Or.inl ?_
        dsimp only
        split
        · exact here
        · split
          · exact here
          · rename_i other _
            rcases before with block | ⟨last, -⟩
            · exact block
            · exact absurd last other
      · cases next
        rcases before with block | ⟨last, -⟩
        · exact Or.inl block
        · exact Or.inr ⟨last, rfl⟩
  · cases next

theorem buscarLibreBuddy_sirve (table : Tabla c m) (registros : 0 < c.cantRegistros)
    (minima : 0 < c.partMinima) {fuel : Nat}
    (room : ∀ t : EstadoBuddy,
      Visits (turnoBuddy c fuel espacio) (m, 0, c.cantRegistros, false) t →
        t.2.2.1 = c.cantRegistros → QuedaLugar c t.1 espacio t.2.1)
    (runs : buscarLibreBuddy c fuel m espacio = some (m', some j)) : Sirve m' espacio j := by
  simp only [buscarLibreBuddy, Option.bind_eq_bind, Option.bind_eq_some_iff] at runs
  obtain ⟨⟨m₂, lugares₂⟩, search, tree⟩ := runs
  rw [buscarBuddyLoop_turnos] at search
  obtain ⟨t, visited, last⟩ := run_some search
  have kept : Tabla c t.1 ∧ EleccionBuddy c espacio t := by
    refine visited.keeps (P := fun t => Tabla c t.1 ∧ EleccionBuddy c espacio t)
      ⟨table, Or.inr ⟨rfl, rfl⟩⟩ ?_
    intro t u holds next
    exact ⟨turnoBuddy_estable (tabla_estable registros) holds.1 next,
      turnoBuddy_eleccion holds.1 registros holds.2 next⟩
  obtain ⟨table₁, choice⟩ := kept
  have room₁ := room t visited
  obtain ⟨m₁, i, lugares, encontrado⟩ := t
  obtain ⟨same, stops⟩ := turnoBuddy_done last
  dsimp only at stops
  cases same
  rcases choice with ⟨inside, block⟩ | ⟨none, searching⟩
  · have block' : Bloque c m₁ lugares espacio := Or.inr ⟨inside, block.1, block.2⟩
    rcases crearArbol_estable (tabla_estable registros) minima lugares espacio fuel table₁ block'
      tree with ⟨null, -⟩ | ⟨m₃, -, block₃, same, rfl⟩
    · cases null
    · cases same
      rcases block₃ with last | fits
      · dsimp only at inside
        omega
      · simpa [Sirve, cerrar] using fits.2
  · obtain ⟨k, start, inside, -⟩ := room₁ none
    exact absurd ⟨searching, by dsimp only at start; omega⟩ stops

/-! ### The three searches -/

def nextDe48 : Config where
  esquema := .partDinam
  particion := .next
  victim := .fifo
  freq := 1
  maxKey := 40
  cacheSize := 48
  partMinima := 16
  cacheSize_lt := cabe_48

end LosAltos.Rc
