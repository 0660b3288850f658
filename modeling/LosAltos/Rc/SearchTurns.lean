import LosAltos.Lib.Turns
import LosAltos.Rc.Stable
import Mathlib.Data.Finset.Card

/-!
# The searches, turn by turn

The loops of `buscarLibreNext`, `buscarLibreWorst` and `buscarLibreBuddy`
(`rc/src/vector.c:417-479, 541-610, 752-790`) as turns over a state, and what a turn that makes
room does to the table.
-/
namespace LosAltos.Rc

open Lib

section
variable (c : Config)

/-- Where a scan from `i` stops: behind the occupied entries and then behind the empty ones. -/
def parada (m : Motor) (i : Nat) : Nat :=
  let n := c.cantRegistros
  avanza (fun i => (m.keyVector i).libre && (m.keyVector i).dataSize == 0) n n
    (avanza (fun i => !(m.keyVector i).libre) n n i)

/-- Whether the failed search evicts, as against compacting. -/
def eliminaNext (fallidas : Int) : Bool := decide (aInt16 (fallidas + 1) < c.freq) || c.freq == -1

abbrev EstadoNext := Motor × Nat × Int

def turnoNext (espacio : Nat) : EstadoNext → Turn EstadoNext (Motor × Nat)
  | (m, i, fallidas) =>
    let r := recorrerNext c m espacio i
    if r.1 = m.ultimaPosicion ∧ r.2 = false then
      match hacerLugar c m r.1 (eliminaNext c fallidas) with
      | none => .fault
      | some (m, i) =>
        if (m.keyVector i).dataSize ≥ espacio then .done (m, i)
        else .again (m, i, if eliminaNext c fallidas then aInt16 (fallidas + 1) else 0)
    else if (m.keyVector r.1).dataSize ≥ espacio then .done (m, r.1)
    else .again (m, 0, fallidas)

def eliminaWorst : Bool := aInt16 c.freq != 0 || c.freq == -1

/-- The motor, `i`, `pos_mayor_tamano`, `mayor_tamano` and `encontrado`. -/
abbrev EstadoWorst := Motor × Nat × Nat × Nat × Bool

def turnoWorst (espacio : Nat) : EstadoWorst → Turn EstadoWorst (Motor × Nat × Nat)
  | (m, i, posMayorTamano, mayorTamano, encontrado) =>
    let e := m.keyVector i
    if (encontrado = false ∨ e.dataSize > 0) ∧ i < c.cantRegistros then
      if e.dataSize = 0 then
        if mayorTamano = 0 then
          match hacerLugar c m i (eliminaWorst c) with
          | none => .fault
          | some (m, i) =>
            if (m.keyVector i).dataSize ≥ espacio then
              .again (m, i + 1, i, (m.keyVector i).dataSize % 2 ^ 32, true)
            else .again (m, 1, posMayorTamano, mayorTamano, encontrado)
        else .again (m, i + 1, posMayorTamano, mayorTamano, true)
      else if e.dataSize ≥ espacio ∧ e.dataSize > mayorTamano ∧ e.libre then
        .again (m, i + 1, i, e.dataSize % 2 ^ 32, encontrado)
      else .again (m, i + 1, posMayorTamano, mayorTamano, encontrado)
    else .done (m, i, posMayorTamano)

/-- The motor, `i`, `lugares` and `encontrado`. -/
abbrev EstadoBuddy := Motor × Nat × Nat × Bool

def turnoBuddy (fuel espacio : Nat) : EstadoBuddy → Turn EstadoBuddy (Motor × Nat)
  | (m, i, lugares, encontrado) =>
    if encontrado = false ∧ i < c.cantRegistros then
      let e := m.keyVector i
      let l := m.keyVector lugares
      if e.dataSize = 0 then
        if (lugares = 0 ∧ l.dataSize < espacio) ∨ l.libre = false then
          let r := eliminarParticion c m none
          match eliminaBuddy c fuel r.1 r.2 with
          | none => .fault
          | some (m, i) =>
            if (m.keyVector i).dataSize > espacio ∧ (m.keyVector i).libre then
              .again (m, i + 1, i, true)
            else .again (m, i + 1, lugares, false)
        else .again (m, i + 1, lugares, true)
      else if e.dataSize ≥ espacio ∧ e.libre then
        .again (m, i + 1, if lugares = c.cantRegistros then i
          else if e.dataSize ≤ l.dataSize then i else lugares, false)
      else .again (m, i + 1, lugares, false)
    else .done (m, lugares)

end

variable {c : Config} {P : Motor → Prop} {m m' : Motor} {espacio k i j : Nat}

/-! ### The loops of the source -/

theorem recorrerNext_eq (c : Config) (m : Motor) (espacio i : Nat) :
    recorrerNext c m espacio i =
      if parada c m i = c.cantRegistros then (max 0 m.ultimaPosicion, false)
      else if (m.keyVector (parada c m i)).dataSize ≥ espacio then (parada c m i, true)
      else (max (parada c m i) m.ultimaPosicion, false) := by
  have scan : avanza (fun i => (m.keyVector i).libre && (m.keyVector i).dataSize == 0)
      c.cantRegistros c.cantRegistros
      (avanza (fun i => !(m.keyVector i).libre) c.cantRegistros c.cantRegistros i) =
      parada c m i := rfl
  rw [recorrerNext]
  dsimp only
  rw [scan]
  by_cases last : parada c m i = c.cantRegistros
  · simp [last]
  · by_cases fits : (m.keyVector (parada c m i)).dataSize ≥ espacio
    · simp [last, fits]
    · simp [last, fits]

/-- The search ends where the scan stops at enough bytes, starts over at entry 0 where it stops
short behind `ultima_posicion`, and makes room otherwise. -/
theorem turnoNext_eq (fallidas : Int) : turnoNext c espacio (m, i, fallidas) =
    if parada c m i ≠ c.cantRegistros ∧ espacio ≤ (m.keyVector (parada c m i)).dataSize then
      .done (m, parada c m i)
    else if parada c m i ≠ c.cantRegistros ∧ m.ultimaPosicion < parada c m i then
      .again (m, 0, fallidas)
    else
      match hacerLugar c m m.ultimaPosicion (eliminaNext c fallidas) with
      | none => .fault
      | some (m, i) =>
        if espacio ≤ (m.keyVector i).dataSize then .done (m, i)
        else .again (m, i, if eliminaNext c fallidas then aInt16 (fallidas + 1) else 0) := by
  simp only [turnoNext, recorrerNext_eq]
  by_cases last : parada c m i = c.cantRegistros
  · simp [last]
  · by_cases fits : espacio ≤ (m.keyVector (parada c m i)).dataSize
    · simp [last, fits]
    · by_cases behind : m.ultimaPosicion < parada c m i
      · simp [last, fits, behind, max_eq_left behind.le, behind.ne']
      · simp [last, fits, behind, max_eq_right (Nat.le_of_not_lt behind)]

theorem buscarNextLoop_turnos (fallidas : Int) : buscarNextLoop c espacio k m i fallidas =
    run (turnoNext c espacio) k (m, i, fallidas) := by
  induction k generalizing m i fallidas with
  | zero => rfl
  | succ k ih =>
    rw [buscarNextLoop, run, turnoNext, eliminaNext]
    dsimp only
    split
    · cases hacerLugar c m (recorrerNext c m espacio i).1
          (decide (aInt16 (fallidas + 1) < c.freq) || c.freq == -1) with
      | none => rfl
      | some r =>
        obtain ⟨m', i'⟩ := r
        dsimp only
        split
        · rfl
        · exact ih _
    · split
      · rfl
      · exact ih _

theorem buscarWorstLoop_turnos (posMayor mayor : Nat) (encontrado : Bool) :
    buscarWorstLoop c espacio k m i posMayor mayor encontrado =
      run (turnoWorst c espacio) k (m, i, posMayor, mayor, encontrado) := by
  induction k generalizing m i posMayor mayor encontrado with
  | zero => rfl
  | succ k ih =>
    rw [buscarWorstLoop, run, turnoWorst, eliminaWorst]
    split
    · split
      · split
        · cases hacerLugar c m i (aInt16 c.freq != 0 || c.freq == -1) with
          | none => rfl
          | some r =>
            obtain ⟨m', i'⟩ := r
            dsimp only
            split <;> exact ih ..
        · exact ih ..
      · split <;> exact ih ..
    · rfl

theorem buscarBuddyLoop_turnos (fuel lugares : Nat) (encontrado : Bool) :
    buscarBuddyLoop c fuel espacio k m i lugares encontrado =
      run (turnoBuddy c fuel espacio) k (m, i, lugares, encontrado) := by
  induction k generalizing m i lugares encontrado with
  | zero => rfl
  | succ k ih =>
    rw [buscarBuddyLoop, run, turnoBuddy]
    dsimp only
    split
    · split
      · split
        · cases eliminaBuddy c fuel (eliminarParticion c m none).1
              (eliminarParticion c m none).2 with
          | none => rfl
          | some r =>
            obtain ⟨m', i'⟩ := r
            dsimp only
            split <;> exact ih ..
        · exact ih ..
      · split <;> exact ih ..
    · rfl

/-! ### Where a scan stops -/

theorem avanza_ge (p : Nat → Bool) (n k i : Nat) : i ≤ avanza p n k i := by
  induction k generalizing i with
  | zero => exact le_rfl
  | succ k ih =>
    unfold avanza
    split
    · exact (Nat.le_succ i).trans (ih (i + 1))
    · exact le_rfl

theorem avanza_pasa (p : Nat → Bool) (n k i : Nat) (start : i ≤ j) (before : j < avanza p n k i) :
    p j = true := by
  induction k generalizing i with
  | zero =>
    have : avanza p n 0 i = i := rfl
    omega
  | succ k ih =>
    unfold avanza at before
    split at before
    · rename_i runs
      rw [Bool.and_eq_true] at runs
      by_cases here : j = i
      · rw [here]
        exact runs.1
      · exact ih (i + 1) (by omega) before
    · omega

theorem parada_ge (c : Config) (m : Motor) (i : Nat) : i ≤ parada c m i :=
  (avanza_ge _ _ _ _).trans (avanza_ge _ _ _ _)

/-- A scan that stops inside the table stops at a free partition, or at an occupied one right
behind an empty entry. -/
theorem parada_cases (inside : parada c m i < c.cantRegistros) :
    ((m.keyVector (parada c m i)).libre ∧ 0 < (m.keyVector (parada c m i)).dataSize) ∨
      ((m.keyVector (parada c m i)).libre = false ∧ ∃ j, parada c m i = j + 1 ∧ i ≤ j ∧
        (m.keyVector j).libre ∧ (m.keyVector j).dataSize = 0) := by
  let vacia : Nat → Bool := fun i => (m.keyVector i).libre && (m.keyVector i).dataSize == 0
  let n := c.cantRegistros
  have first := avanza_ge (fun i => !(m.keyVector i).libre) n n i
  have second := avanza_ge vacia n n (avanza (fun i => !(m.keyVector i).libre) n n i)
  have whole : avanza vacia n n (avanza (fun i => !(m.keyVector i).libre) n n i) =
      parada c m i := rfl
  have stopped := avanza_stops vacia n n (avanza (fun i => !(m.keyVector i).libre) n n i)
    (by omega) (by omega) (by omega)
  rw [whole] at second stopped
  cases free : (m.keyVector (parada c m i)).libre with
  | true =>
    refine Or.inl ⟨rfl, ?_⟩
    simp only [vacia, free, Bool.true_and, beq_eq_false_iff_ne] at stopped
    omega
  | false =>
    refine Or.inr ⟨rfl, parada c m i - 1, ?_⟩
    have moved : avanza (fun i => !(m.keyVector i).libre) n n i ≠ parada c m i := by
      intro same
      have busy := avanza_stops (fun i => !(m.keyVector i).libre) n n i (by omega) (by omega)
        (by omega)
      rw [same, free] at busy
      cases busy
    have empty := avanza_pasa (j := parada c m i - 1) vacia n n
      (avanza (fun i => !(m.keyVector i).libre) n n i) (by omega) (by omega)
    simp only [vacia, Bool.and_eq_true, beq_iff_eq] at empty
    exact ⟨by omega, by omega, empty.1, empty.2⟩

/-! ### What making room leaves -/

/-- There is no victim only where every partition is free. -/
theorem borrar_fin (last : borrar c m = c.cantRegistros) (inside : j < c.cantRegistros) :
    (m.keyVector j).libre := by
  let ocupada := avanza (fun i => (m.keyVector i).libre) c.cantRegistros c.cantRegistros 0
  have first : c.cantRegistros ≤ ocupada := by
    by_contra before
    have bound : borrar c m < c.cantRegistros :=
      borrarLoop_victim (· < c.cantRegistros) (fun _ bound _ => bound) _ _ _ _ (by omega)
    omega
  exact avanza_pasa (fun i => (m.keyVector i).libre) _ _ 0 (by omega)
    (lt_of_lt_of_le inside first)

theorem eliminarParticion_cases (c : Config) (m : Motor) :
    (borrar c m = c.cantRegistros ∧ eliminarParticion c m none = (m, c.cantRegistros)) ∨
      ∃ v < c.cantRegistros, (m.keyVector v).libre = false ∧
        eliminarParticion c m none = ((eliminarParticion c m (some v)).1, v) := by
  rcases borrar_victim (c := c) (m := m) with last | ⟨inside, busy⟩
  · refine Or.inl ⟨last, ?_⟩
    simp [eliminarParticion, last]
  · refine Or.inr ⟨borrar c m, inside, busy, ?_⟩
    simp [eliminarParticion, inside.ne]

theorem eliminarParticion_some (inside : i < c.cantRegistros) :
    (eliminarParticion c m (some i)).1 = m.pon i
      { m.keyVector i with
        dataSize := a64 ((m.keyVector i).dataSize + (m.keyVector i).dataUnuse)
        libre := true
        stored := false
        dataUnuse := 0 } := by
  simp [eliminarParticion, inside.ne]

/-- A step of the compaction leaves the table alone or a free partition behind. -/
theorem compactarPaso_libre {r r' : Compactacion} (bound : i < c.cantRegistros)
    (runs : compactarPaso c r i = some r') :
    (r'.motor = r.motor ∧ r'.ultimoLibre = r.ultimoLibre ∧ r'.compacte = r.compacte) ∨
      (r'.motor.keyVector r'.ultimoLibre).libre := by
  rcases compactarPaso_cases bound runs with same |
    ⟨-, ⟨-, free, ⟨next, joined⟩ | ⟨-, moved⟩, last⟩ | ⟨j, rfl, -, before, -, joined, last⟩⟩
  · exact Or.inl same
  · have kept := unir_queda r.motor (r.motor.keyVector i).data (r.motor.keyVector i)
      (r.motor.keyVector (i + 1)) (by omega : i + 1 ≠ i)
    exact Or.inr (by simp [joined, last, kept, next.1])
  · exact Or.inr (by simp [moved, last, mover])
  · have kept := unir_queda r.motor (r.motor.keyVector j).data (r.motor.keyVector j)
      (r.motor.keyVector (j + 1)) (by omega : j ≠ j + 1)
    exact Or.inr (by simp [joined, last, kept, before])

theorem compactarDinam_libre {ultimo : Nat} (runs : compactarDinam c m = some (m', some ultimo)) :
    (m'.keyVector ultimo).libre := by
  simp only [compactarDinam, Option.bind_eq_bind, Option.bind_eq_some_iff] at runs
  obtain ⟨sorted, order, r, loop, ends⟩ := runs
  have last : r.compacte = true → (r.motor.keyVector r.ultimoLibre).libre := by
    refine foldlM_invariant _ (fun r : Compactacion => r.compacte = true →
      (r.motor.keyVector r.ultimoLibre).libre) _ ?_ _ _ ?_ loop
    · intro i b b' member before step made
      rcases compactarPaso_libre (List.mem_range.mp member) step with ⟨motor, position, flag⟩ | free
      · rw [motor, position]
        exact before (flag ▸ made)
      · exact free
    · intro made
      cases made
  simp only [Option.some.injEq, Prod.mk.injEq] at ends
  split at ends
  · rename_i made
    rw [← ends.1, ← Option.some.inj ends.2]
    exact last made
  · cases ends.2

/-- How a failed search makes room: it starts over, evicts, or compacts and then evicts where
the compaction moved nothing. -/
theorem hacerLugar_cases {elimina : Bool} {i' : Nat}
    (runs : hacerLugar c m i elimina = some (m', i')) :
    (elimina = true ∧ borrar c m = c.cantRegistros ∧ m' = vectorInicializar c m ∧ i' = i) ∨
    (elimina = true ∧ ∃ v < c.cantRegistros, (m.keyVector v).libre = false ∧
      m' = (eliminarParticion c m (some v)).1 ∧ i' = v) ∨
    (elimina = false ∧ compactarDinam c m = some (m', some i')) ∨
    (elimina = false ∧ compactarDinam c m = some (m', none) ∧ borrar c m' = c.cantRegistros ∧
      i' = c.cantRegistros) ∨
    (elimina = false ∧ ∃ m₁, compactarDinam c m = some (m₁, none) ∧
      ∃ v < c.cantRegistros, (m₁.keyVector v).libre = false ∧
        m' = (eliminarParticion c m₁ (some v)).1 ∧ i' = v) := by
  unfold hacerLugar at runs
  cases elimina with
  | true =>
    rw [if_pos rfl] at runs
    rcases eliminarParticion_cases c m with ⟨last, same⟩ | ⟨v, inside, busy, same⟩
    · rw [same] at runs
      simp only [if_pos, Option.some.injEq, Prod.mk.injEq] at runs
      exact Or.inl ⟨rfl, last, runs.1.symm, runs.2.symm⟩
    · rw [same] at runs
      simp only [if_neg inside.ne, Option.some.injEq, Prod.mk.injEq] at runs
      exact Or.inr (Or.inl ⟨rfl, v, inside, busy, runs.1.symm, runs.2.symm⟩)
  | false =>
    simp only [Bool.false_eq_true, if_false, Option.bind_eq_bind, Option.bind_eq_some_iff] at runs
    obtain ⟨⟨m₁, compac⟩, compacts, ends⟩ := runs
    cases compac with
    | some ultimo =>
      cases ends
      exact Or.inr (Or.inr (Or.inl ⟨rfl, compacts⟩))
    | none =>
      simp only [Option.some.injEq] at ends
      refine Or.inr (Or.inr (Or.inr ?_))
      rcases eliminarParticion_cases c m₁ with ⟨last, same⟩ | ⟨v, inside, busy, same⟩
      · rw [same] at ends
        cases ends
        exact Or.inl ⟨rfl, compacts, last, rfl⟩
      · rw [same] at ends
        cases ends
        exact Or.inr ⟨rfl, m₁, compacts, _, inside, busy, rfl, rfl⟩

/-- The position a failed search goes on from is free if it has any bytes. -/
theorem hacerLugar_libre (stable : Estable c P) {elimina : Bool} {i' : Nat} (holds : P m)
    (runs : hacerLugar c m i elimina = some (m', i'))
    (filled : 0 < (m'.keyVector i').dataSize) : (m'.keyVector i').libre := by
  have inside : i' < c.cantRegistros := by
    by_contra outside
    have := ((stable.tabla m' (hacerLugar_estable stable holds runs)).fin i' (by omega)).1
    omega
  rcases hacerLugar_cases runs with ⟨-, -, rfl, rfl⟩ | ⟨-, v, bound, -, rfl, rfl⟩ |
    ⟨-, compacts⟩ | ⟨-, -, -, last⟩ | ⟨-, m₁, -, v, bound, -, rfl, rfl⟩
  · by_cases first : i' = 0
    · simp [vectorInicializar, first]
    · simp [vectorInicializar, first, inside]
  · simp [eliminarParticion_some bound]
  · exact compactarDinam_libre compacts
  · exact absurd last inside.ne
  · simp [eliminarParticion_some bound]

/-! ### What a turn keeps -/

theorem turnoNext_estable (stable : Estable c P) {fallidas : Int} {t : EstadoNext} (holds : P m)
    (next : turnoNext c espacio (m, i, fallidas) = .again t) : P t.1 := by
  simp only [turnoNext] at next
  split at next
  · split at next
    · cases next
    · rename_i room
      have kept := hacerLugar_estable stable holds room
      split at next
      · cases next
      · cases next
        exact kept
  · split at next
    · cases next
    · cases next
      exact holds

theorem turnoWorst_estable (stable : Estable c P) {posMayor mayor : Nat} {encontrado : Bool}
    {t : EstadoWorst} (holds : P m)
    (next : turnoWorst c espacio (m, i, posMayor, mayor, encontrado) = .again t) : P t.1 := by
  simp only [turnoWorst] at next
  split at next
  · split at next
    · split at next
      · split at next
        · cases next
        · rename_i room
          have kept := hacerLugar_estable stable holds room
          split at next <;> (cases next; exact kept)
      · cases next
        exact holds
    · split at next <;> (cases next; exact holds)
  · cases next

theorem turnoBuddy_estable (stable : Estable c P) {fuel lugares : Nat} {encontrado : Bool}
    {t : EstadoBuddy} (holds : P m)
    (next : turnoBuddy c fuel espacio (m, i, lugares, encontrado) = .again t) : P t.1 := by
  simp only [turnoBuddy] at next
  split at next
  · split at next
    · split at next
      · split at next
        · cases next
        · rename_i joins
          have kept := (eliminaBuddy_estable stable (eliminarParticion_estable stable holds)
            joins).1
          split at next <;> (cases next; exact kept)
      · cases next
        exact holds
    · split at next <;> (cases next; exact holds)
  · cases next

theorem turnoWorst_done {t : EstadoWorst} {r : Motor × Nat × Nat}
    (last : turnoWorst c espacio t = .done r) :
    r = (t.1, t.2.1, t.2.2.1) ∧
      ¬((t.2.2.2.2 = false ∨ 0 < (t.1.keyVector t.2.1).dataSize) ∧ t.2.1 < c.cantRegistros) := by
  obtain ⟨m, i, pos, mayor, encontrado⟩ := t
  simp only [turnoWorst] at last
  split at last
  · split at last
    · split at last
      · split at last
        · cases last
        · split at last <;> cases last
      · cases last
    · split at last <;> cases last
  · rename_i stops
    cases last
    exact ⟨rfl, stops⟩

theorem turnoBuddy_done {fuel : Nat} {t : EstadoBuddy} {r : Motor × Nat}
    (last : turnoBuddy c fuel espacio t = .done r) :
    r = (t.1, t.2.2.1) ∧ ¬(t.2.2.2 = false ∧ t.2.1 < c.cantRegistros) := by
  obtain ⟨m, i, lugares, encontrado⟩ := t
  simp only [turnoBuddy] at last
  split at last
  · split at last
    · split at last
      · split at last
        · cases last
        · split at last <;> cases last
      · cases last
    · split at last <;> cases last
  · rename_i stops
    cases last
    exact ⟨rfl, stops⟩

/-! ### The states a search starts in -/

theorem tabla_atendible (registros : 0 < c.cantRegistros) (minima : 0 < c.partMinima) :
    Atendible c (fun _ => True) (Tabla c) where
  toEstable := tabla_estable registros
  minima := minima
  libera _ _ table bound _ := table.liberarClave bound
  guarda _ i table bound := table.pon bound (table.claves i bound)
  suelta _ i table bound := table.pon bound (table.claves i bound)
  toca _ i _ table bound := table.pon bound (table.claves i bound)
  reusa _ _ _ _ _ _ table bound _ _ := ((table.liberarClave bound).anota _).ocupar bound
  aloja _ _ _ _ _ _ found _ bound := (found.tabla (tabla_estable registros)).ocupar bound
  rehusa _ _ _ found _ _ := found.tabla (tabla_estable registros)

/-- Every state the engine reaches, by any calls. -/
theorem alcanzable_tabla (reached : Alcanzable c (fun _ _ _ => True) m) :
    0 < c.cantRegistros ∧ 0 < c.partMinima ∧ Tabla c m := by
  induction reached with
  | inicio keysSpace cache m starts =>
    obtain ⟨registros, minima, -⟩ := dummyNgInitialize_some starts
    exact ⟨registros, minima, inicio_tabla starts⟩
  | llamada fuel m m' l _ _ runs ih =>
    obtain ⟨registros, minima, table⟩ := ih
    have valid : l.Pide fun _ => True := by cases l <;> trivial
    have start : Tabla c { m with hechos := [] } := ⟨table.claves, table.fin⟩
    exact ⟨registros, minima,
      atender_estable (tabla_atendible registros minima) start valid runs⟩

/-- A state in which `dummy_ng_allocate` may search: a reached one, with the entry of the key
freed if the key has one. -/
def Buscable (c : Config) (m : Motor) : Prop :=
  ∃ m₀, Alcanzable c (fun _ _ _ => True) m₀ ∧ (m = m₀ ∨ ∃ key, m = desalojar c m₀ key)

theorem Buscable.tabla (start : Buscable c m) :
    0 < c.cantRegistros ∧ 0 < c.partMinima ∧ Tabla c m := by
  obtain ⟨m₀, reached, same⟩ := start
  obtain ⟨registros, minima, table⟩ := alcanzable_tabla reached
  refine ⟨registros, minima, ?_⟩
  rcases same with rfl | ⟨key, rfl⟩
  · exact table
  · unfold desalojar
    split
    · rename_i found
      exact table.liberarClave (vectorGet_some found).1
    · exact table

end LosAltos.Rc
