import LosAltos.Rc.SearchFit
import LosAltos.Rc.Victim

/-!
# The indices at which the table is read

`rc/src/vector.c:42-197, 275-375`. Each function once more, down to the indices of `key_vector`
that it reads or writes, in order. A loop `while (key_vector[i]... && i < cantRegistros)` reads
the entry before it compares the index, and the sort compares each entry with the next one.
-/
namespace LosAltos.Rc

open Lib

section
variable (c : Config)

/-- The indices lie in the table. -/
def Dentro (js : List Int) : Prop := ∀ j ∈ js, 0 ≤ j ∧ j < c.cantRegistros

/-- `while (p[i] && i < n) i++`. -/
def leeAvanza (p : Nat → Bool) (n : Nat) : Nat → Nat → List Int
  | 0, _ => []
  | k + 1, i => i :: if p i && decide (i < n) then leeAvanza p n k (i + 1) else []

def leePosLibre (m : Motor) : List Int :=
  leeAvanza (fun i => (m.keyVector i).dataSize != 0) c.cantRegistros (c.cantRegistros + 1) 0

/-- The inner loop of `borrar` compares the index first. -/
def leeBorrarOcupadas (m : Motor) : Nat → Nat → List Int
  | 0, _ => []
  | k + 1, i =>
    if i < c.cantRegistros then
      i :: if (m.keyVector i).tp.sec ≠ 0 ∧ (m.keyVector i).libre = false then
        leeBorrarOcupadas m k (i + 1)
      else []
    else []

def leeBorrarLoop (m : Motor) : Nat → Nat → Tiempo → Nat → List Int
  | 0, _, _, _ => []
  | k + 1, i, tp, resultado =>
    let e := m.keyVector i
    i :: if e.dataSize > 0 ∧ i < c.cantRegistros ∧ e.tp.sec ≠ 0 then
      let desde := if e.libre then i + 1 else i
      let (j, tp, resultado) := borrarOcupadas c m c.cantRegistros desde tp resultado
      leeBorrarOcupadas c m c.cantRegistros desde ++ leeBorrarLoop m k j tp resultado
    else []

def leeBorrar (m : Motor) : List Int :=
  let i := avanza (fun i => (m.keyVector i).libre) c.cantRegistros c.cantRegistros 0
  leeAvanza (fun i => (m.keyVector i).libre) c.cantRegistros (c.cantRegistros + 1) 0 ++
    ((i : Int) :: leeBorrarLoop c m (c.cantRegistros + 1) i (m.keyVector i).tp i)

/-- The victim's key is logged, whether there is a victim or not. -/
def leeEliminar (m : Motor) : Option Nat → List Int
  | none => leeBorrar c m ++ [(borrar c m : Int)]
  | some valor => [(valor : Int)]

/-- One pass of the sort. -/
def leePasada : List Int := 
  (List.range c.cantRegistros).flatMap fun j : Nat => [(j : Int), (j : Int) + 1]

def leePasadas (clave : Option (Option Int)) : Nat → Motor → Nat → List Int
  | 0, _, _ => []
  | k + 1, m, posicion2 => leePasada c ++
    match ordenarPasada c clave m posicion2 with
    | some (m, posicion2, true) => leePasadas clave k m posicion2
    | _ => []

def leeOrdenar (m : Motor) (posicion : Option Nat) : List Int :=
  posicion.toList.map (↑) ++ leePasadas c (posicion.map fun i => (m.keyVector i).key)
    (c.cantRegistros - 2) m (posicion.getD 0)

def leeCompactarPaso (r : Compactacion) (i : Nat) : List Int :=
  if r.termine then []
  else if i + 1 < c.cantRegistros then [(i : Int) + 1, (i : Int)]
  else i :: if (r.motor.keyVector i).libre && decide ((r.motor.keyVector i).dataSize > 0) then
    [(i : Int) - 1]
  else []

def leeCompactarLoop : List Nat → Compactacion → List Int
  | [], _ => []
  | i :: rest, r => leeCompactarPaso c r i ++
    match compactarPaso c r i with
    | some r => leeCompactarLoop rest r
    | none => []

def leeCompactar (m : Motor) : List Int :=
  leeOrdenar c m none ++
    match ordenarVector c m none with
    | some (m, _) =>
      let entera := (m.keyVector 0).libre && ((m.keyVector 0).dataSize == c.cacheSize)
      0 :: leeCompactarLoop c (List.range c.cantRegistros)
        { motor := m, ultimoLibre := 0, compacte := false, termine := entera }
    | none => []

/-- `hacerLugar`: an eviction, or a compaction and an eviction where it moved nothing. -/
def leeHacerLugar (m : Motor) (elimina : Bool) : List Int :=
  if elimina then leeEliminar c m none
  else leeCompactar c m ++
    match compactarDinam c m with
    | some (m, none) => leeEliminar c m none
    | _ => []

/-- The end of the two dynamic searches. -/
def leeCrearParticion (m : Motor) (i elegida espacio : Nat) : List Int :=
  i :: if Corta c (m.keyVector i).dataSize espacio then
    leePosLibre c m ++
      match buscarPosLibre c m with
      | some pos => [(pos : Int), (elegida : Int)]
      | none => []
  else []

end

variable {c : Config} {m m' : Motor} {i j k n : Nat} {js ks : List Int}

@[simp]
theorem dentro_nil : Dentro c [] := fun _ member => absurd member List.not_mem_nil

@[simp]
theorem dentro_cons {j : Int} : Dentro c (j :: js) ↔ (0 ≤ j ∧ j < c.cantRegistros) ∧ Dentro c js :=
  List.forall_mem_cons

@[simp]
theorem dentro_append : Dentro c (js ++ ks) ↔ Dentro c js ∧ Dentro c ks := List.forall_mem_append

theorem dentro_nat : Dentro c ((i : Int) :: js) ↔ i < c.cantRegistros ∧ Dentro c js := by
  rw [dentro_cons]
  refine and_congr_left' ?_
  omega

theorem not_dentro (outside : ¬i < c.cantRegistros) : ¬Dentro c ((i : Int) :: js) :=
  fun all => outside (dentro_nat.mp all).1

/-! ### Loops that test the entry first -/

/-- Such a loop stays in the table when an entry of the table stops it. -/
theorem leeAvanza_dentro (p : Nat → Bool) (enough : c.cantRegistros ≤ i + k) :
    Dentro c (leeAvanza p c.cantRegistros (k + 1) i) ↔
      ∃ s, i ≤ s ∧ s < c.cantRegistros ∧ p s = false := by
  induction k generalizing i with
  | zero =>
    refine iff_of_false (not_dentro (by omega)) ?_
    rintro ⟨s, low, high, -⟩
    omega
  | succ k ih =>
    by_cases inside : i < c.cantRegistros
    swap
    · refine iff_of_false (not_dentro inside) ?_
      rintro ⟨s, low, high, -⟩
      omega
    rw [leeAvanza, dentro_nat]
    cases here : p i with
    | false =>
      simp only [inside, Bool.false_and, Bool.false_eq_true, if_false, dentro_nil, true_and,
        true_iff]
      exact ⟨i, le_rfl, inside, here⟩
    | true =>
      simp only [inside, decide_true, Bool.and_true, if_true, true_and]
      rw [ih (i := i + 1) (by omega)]
      refine exists_congr fun s => ⟨fun found => ⟨by omega, found.2⟩, fun found => ⟨?_, found.2⟩⟩
      have other : s ≠ i := by
        rintro rfl
        rw [here] at found
        cases found.2.2
      omega

theorem leePosLibre_dentro :
    Dentro c (leePosLibre c m) ↔ ∃ k < c.cantRegistros, (m.keyVector k).dataSize = 0 := by
  rw [leePosLibre, leeAvanza_dentro _ (by omega)]
  refine exists_congr fun s => ?_
  simp

/-! ### The victim -/

/-- The scan for the victim is stopped by an entry of the table. -/
def RevisionAcaba (c : Config) (m : Motor) : Prop :=
  ∃ a k, PrimeraNoLibre c m a ∧ a ≤ k ∧ k < c.cantRegistros ∧ CortaRevision m a k

theorem leeBorrarOcupadas_dentro (c : Config) (m : Motor) (k i : Nat) :
    Dentro c (leeBorrarOcupadas c m k i) := by
  induction k generalizing i with
  | zero => exact dentro_nil
  | succ k ih =>
    rw [leeBorrarOcupadas]
    split
    · rename_i inside
      refine dentro_nat.mpr ⟨inside, ?_⟩
      split
      · exact ih (i + 1)
      · exact dentro_nil
    · exact dentro_nil

/-- From `i` on, the loop stays in the table when an entry of the table stops the scan that
started at `a`. -/
theorem leeBorrarLoop_dentro {a r : Nat} {tp : Tiempo} (fuel : c.cantRegistros < i + k)
    (past : a ≤ i) (bound : i ≤ c.cantRegistros) (chosen : Escogida m a i r)
    (time : tp = (m.keyVector r).tp) (enters : i = a ∨ ¬(i < c.cantRegistros ∧
      (m.keyVector i).tp.sec ≠ 0 ∧ (m.keyVector i).libre = false)) :
    Dentro c (leeBorrarLoop c m k i tp r) ↔
      ∃ s, i ≤ s ∧ s < c.cantRegistros ∧ CortaRevision m a s := by
  induction k generalizing i tp r with
  | zero => omega
  | succ k ih =>
    simp only [leeBorrarLoop]
    by_cases inside : i < c.cantRegistros
    swap
    · refine iff_of_false (not_dentro inside) ?_
      rintro ⟨s, low, high, -⟩
      omega
    rw [dentro_nat]
    simp only [inside, true_and]
    split
    · rename_i runs
      obtain ⟨size, sec⟩ := runs
      obtain ⟨last, same, advances, within, passed, stops⟩ :=
        borrarLoop_turno inside size sec past chosen time
      rw [dentro_append, ih (by omega) (by omega) within last same (Or.inr stops)]
      simp only [leeBorrarOcupadas_dentro, true_and]
      refine exists_congr fun s => ⟨fun found => ⟨by omega, found.2⟩, fun found => ⟨?_, found.2⟩⟩
      by_contra before
      exact passed s found.1 (by omega) found.2.2
    · rename_i stops
      refine iff_of_true dentro_nil ⟨i, le_rfl, inside, ?_⟩
      by_cases sec : (m.keyVector i).tp.sec = 0
      · exact Or.inl sec
      refine Or.inr ⟨?_, by omega⟩
      rcases enters with start | busy
      · exact Or.inr start
      · left
        by_contra free
        exact busy ⟨inside, sec, by simpa using free⟩

theorem leeBorrar_dentro : Dentro c (leeBorrar c m) ↔ RevisionAcaba c m := by
  simp only [leeBorrar, dentro_append, leeAvanza_dentro _ (show c.cantRegistros ≤
    0 + c.cantRegistros by omega), RevisionAcaba]
  constructor
  · rintro ⟨⟨i, -, inside, busy⟩, rest⟩
    obtain ⟨a, first⟩ := exists_primeraNoLibre inside busy
    rw [avanza_libres first, dentro_nat, leeBorrarLoop_dentro (by omega) le_rfl first.1.le
      (.inicio m a) rfl (Or.inl rfl)] at rest
    obtain ⟨-, k, found⟩ := rest
    exact ⟨a, k, first, found⟩
  · rintro ⟨a, k, first, found⟩
    refine ⟨⟨a, Nat.zero_le a, first.1, first.2.1⟩, ?_⟩
    rw [avanza_libres first, dentro_nat, leeBorrarLoop_dentro (by omega) le_rfl first.1.le
      (.inicio m a) rfl (Or.inl rfl)]
    exact ⟨first.1, k, found⟩

/-- The victim, if the scan ends in the table. -/
theorem RevisionAcaba.borrar_lt (ends : RevisionAcaba c m) : borrar c m < c.cantRegistros := by
  obtain ⟨a, -, first, -⟩ := ends
  rcases borrar_victim (c := c) (m := m) with last | ⟨inside, -⟩
  · have free := borrar_fin last first.1
    simp [first.2.1] at free
  · exact inside

theorem leeEliminar_none : Dentro c (leeEliminar c m none) ↔ RevisionAcaba c m := by
  rw [leeEliminar, dentro_append, dentro_nat, leeBorrar_dentro]
  exact ⟨fun all => all.1, fun ends => ⟨ends, ends.borrar_lt, dentro_nil⟩⟩

/-! ### The sort and the compaction -/

/-- Any pass compares the last entry with the one past the table. -/
theorem leePasada_dentro : Dentro c (leePasada c) ↔ c.cantRegistros = 0 := by
  constructor
  · intro all
    by_contra some_entry
    have bound : c.cantRegistros - 1 < c.cantRegistros := by omega
    have last : ((c.cantRegistros - 1 : Nat) : Int) + 1 ∈ leePasada c :=
      List.mem_flatMap.mpr ⟨_, List.mem_range.mpr bound,
        List.mem_cons_of_mem _ (List.mem_cons_self ..)⟩
    have := (all _ last).2
    omega
  · intro none
    simp [leePasada, none]

theorem leeOrdenar_dentro {posicion : Option Nat} :
    Dentro c (leeOrdenar c m posicion) ↔
      (∀ p, posicion = some p → p < c.cantRegistros) ∧ c.cantRegistros ≤ 2 := by
  rw [leeOrdenar, dentro_append]
  refine and_congr ?_ ?_
  · cases posicion with
    | none => simp
    | some p =>
      rw [Option.toList_some, List.map_singleton, dentro_nat]
      simp
  · obtain few | many : c.cantRegistros ≤ 2 ∨ 2 < c.cantRegistros := by omega
    · simp [few, leePasadas]
    · obtain ⟨k, sweeps⟩ : ∃ k, c.cantRegistros - 2 = k + 1 := ⟨c.cantRegistros - 3, by omega⟩
      rw [sweeps, leePasadas, dentro_append, leePasada_dentro]
      omega

/-- In a table of two entries the compaction moves or joins something. -/
def Junta (c : Config) (m : Motor) : Prop :=
  c.cantRegistros = 2 ∧ ¬((m.keyVector 0).libre ∧ (m.keyVector 0).dataSize = c.cacheSize) ∧
    (m.keyVector 0).libre ∧
      (((m.keyVector 1).libre ∧ 0 < (m.keyVector 1).dataSize) ∨
        ((m.keyVector 1).libre = false ∧ 0 < (m.keyVector 0).dataSize))

/-- Without a sort the compaction starts on the table as it is. -/
theorem ordenarVector_corto (few : c.cantRegistros ≤ 2) : ordenarVector c m none = some (m, 0) := by
  rw [ordenarVector, Nat.sub_eq_zero_of_le few]
  rfl

theorem leeCompactar_largo (dentro : Dentro c (leeCompactar c m)) : c.cantRegistros ≤ 2 := by
  rw [leeCompactar, dentro_append, leeOrdenar_dentro] at dentro
  exact dentro.1.2

theorem compactar_uno (one : c.cantRegistros = 1) :
    (Dentro c (leeCompactar c m) ↔ ¬((m.keyVector 0).libre ∧ 0 < (m.keyVector 0).dataSize ∧
        (m.keyVector 0).dataSize ≠ c.cacheSize)) ∧
      (Dentro c (leeCompactar c m) → compactarDinam c m = some (m, none)) := by
  have sorted := ordenarVector_corto (m := m) (show c.cantRegistros ≤ 2 by omega)
  have positions : List.range 1 = [0] := rfl
  rw [leeCompactar, dentro_append, leeOrdenar_dentro, compactarDinam]
  simp only [sorted, positions, Option.bind_eq_bind, Option.bind_some, List.foldlM_cons,
    List.foldlM_nil, leeCompactarLoop, leeCompactarPaso, compactarPaso, one, dentro_cons]
  cases free : (m.keyVector 0).libre with
  | false => by_cases filled : 0 < (m.keyVector 0).dataSize <;> simp [filled, Dentro, one]
  | true =>
    by_cases whole : (m.keyVector 0).dataSize = c.cacheSize
    · simp [whole, Dentro, one]
    · by_cases filled : 0 < (m.keyVector 0).dataSize
      · simp [whole, filled, Dentro, one]
      · simp [whole, filled, Dentro, one]

/-- Only a table of one entry is left by a step of the compaction. -/
theorem leeCompactarPaso_dentro (r : Compactacion) (inside : i < c.cantRegistros)
    (more : 2 ≤ c.cantRegistros) : Dentro c (leeCompactarPaso c r i) := by
  rw [leeCompactarPaso]
  split
  · exact dentro_nil
  split
  · simp only [dentro_cons, dentro_nil, and_true]
    omega
  · rw [dentro_nat]
    split
    · simp only [dentro_cons, dentro_nil, and_true]
      omega
    · exact ⟨inside, dentro_nil⟩

theorem leeCompactarLoop_dentro {rest : List Nat} (r : Compactacion)
    (inside : ∀ i ∈ rest, i < c.cantRegistros) (more : 2 ≤ c.cantRegistros) :
    Dentro c (leeCompactarLoop c rest r) := by
  induction rest generalizing r with
  | nil => exact dentro_nil
  | cons i rest ih =>
    rw [leeCompactarLoop, dentro_append]
    refine ⟨leeCompactarPaso_dentro r (inside i (List.mem_cons_self ..)) more, ?_⟩
    split
    · exact ih _ fun k member => inside k (List.mem_cons_of_mem i member)
    · exact dentro_nil

theorem leeCompactar_dentro (two : c.cantRegistros = 2) : Dentro c (leeCompactar c m) := by
  rw [leeCompactar, dentro_append, leeOrdenar_dentro, ordenarVector_corto (by omega)]
  refine ⟨⟨nofun, by omega⟩, dentro_cons.mpr ⟨⟨le_rfl, by omega⟩, ?_⟩⟩
  exact leeCompactarLoop_dentro _ (fun i member => List.mem_range.mp member) (by omega)

/-- The compaction answers `-1` on two entries where it has nothing to move or join. -/
theorem compactarDinam_dos (two : c.cantRegistros = 2) :
    (∃ m', compactarDinam c m = some (m', none)) ↔ ¬Junta c m := by
  have made : ∀ r : Compactacion, r.compacte = true → ¬∃ m', ((compactarPaso c r 1).bind
      fun r => some (r.motor, if r.compacte then some r.ultimoLibre else none)) =
        some (m', none) := by
    rintro r already ⟨m', runs⟩
    obtain ⟨r', step, ends⟩ := Option.bind_eq_some_iff.mp runs
    have still : r'.compacte = true := by
      rcases compactarPaso_cases (by omega) step with ⟨-, -, same⟩ | ⟨now, -⟩
      · rw [same, already]
      · exact now
    simp [still] at ends
  have positions : List.range 2 = [0, 1] := rfl
  rw [compactarDinam, ordenarVector_corto (by omega), Junta, two, positions]
  simp only [Option.bind_eq_bind, Option.bind_some, List.foldlM_cons, List.foldlM_nil,
    Option.bind_assoc]
  cases first : (m.keyVector 0).libre with
  | false => by_cases filled : 0 < (m.keyVector 1).dataSize <;> simp [compactarPaso, first, filled, two]
  | true =>
    by_cases whole : (m.keyVector 0).dataSize = c.cacheSize
    · simp [compactarPaso, whole]
    have short : ((m.keyVector 0).dataSize == c.cacheSize) = false := by simpa using whole
    cases second : (m.keyVector 1).libre with
    | false =>
      by_cases filled : 0 < (m.keyVector 0).dataSize
      · have step : compactarPaso c ⟨m, 0, false, false⟩ 0 = some ⟨mover m 0, 1, true, false⟩ := by
          simp [compactarPaso, first, second, filled, two]
        simp [short, whole, filled, step, made]
      · by_cases next : 0 < (m.keyVector 1).dataSize <;>
          simp [compactarPaso, first, second, filled, next, whole, two]
    | true =>
      by_cases filled : 0 < (m.keyVector 0).dataSize
      · by_cases next : 0 < (m.keyVector 1).dataSize
        · obtain ⟨r, step, joined⟩ : ∃ r, compactarPaso c ⟨m, 0, false, false⟩ 0 = some r ∧
              r.compacte = true := by
            simp [compactarPaso, first, second, filled, next, two]
          simp [short, whole, next, step, made r joined]
        · simp [compactarPaso, first, second, filled, next, whole, two]
      · by_cases next : 0 < (m.keyVector 1).dataSize <;>
          simp [compactarPaso, first, second, filled, next, whole, two]

/-! ### Making room -/

/-- A failed search stays in the table: it evicts after a scan that ends there, or compacts a table
of one or two entries, and evicts where there was nothing to move or join. -/
def LugarEnTabla (c : Config) (m : Motor) (elimina : Bool) : Prop :=
  if elimina then RevisionAcaba c m
  else c.cantRegistros ≤ 2 ∧ (Junta c m ∨ RevisionAcaba c m)

/-- On a short table that is left alone the compaction answers `-1`. -/
theorem compactarDinam_corto (few : c.cantRegistros ≤ 2)
    (quiet : compactarDinam c m = some (m', none)) : m' = m := by
  obtain ⟨pos, sorted⟩ := compactarDinam_quieta quiet
  rw [ordenarVector_corto few] at sorted
  cases sorted
  rfl

theorem leeHacerLugar_dentro (registros : 0 < c.cantRegistros) (elimina : Bool) :
    Dentro c (leeHacerLugar c m elimina) ↔ LugarEnTabla c m elimina := by
  cases elimina with
  | true => exact leeEliminar_none
  | false =>
    simp only [leeHacerLugar, LugarEnTabla, Bool.false_eq_true, if_false, dentro_append]
    obtain many | one | two : 2 < c.cantRegistros ∨ c.cantRegistros = 1 ∨ c.cantRegistros = 2 := by
      omega
    · refine iff_of_false (fun all => ?_) fun all => ?_
      · have := leeCompactar_largo all.1
        omega
      · omega
    · obtain ⟨reads, quiet⟩ := compactar_uno (m := m) one
      have few : c.cantRegistros ≤ 2 := by omega
      constructor
      · rintro ⟨compacts, evicts⟩
        rw [quiet compacts] at evicts
        exact ⟨few, Or.inr (leeEliminar_none.mp evicts)⟩
      · rintro ⟨-, joins | ends⟩
        · have := joins.1
          omega
        -- the only entry is occupied
        have busy : (m.keyVector 0).libre = false := by
          obtain ⟨a, -, first, -⟩ := ends
          obtain rfl : a = 0 := by
            have := first.1
            omega
          exact first.2.1
        have compacts := reads.mpr (by simp [busy])
        rw [quiet compacts]
        exact ⟨compacts, leeEliminar_none.mpr ends⟩
    · have few : c.cantRegistros ≤ 2 := by omega
      have reads := leeCompactar_dentro (m := m) two
      have quiet := compactarDinam_dos (m := m) two
      by_cases joins : Junta c m
      · refine iff_of_true ⟨reads, ?_⟩ ⟨few, Or.inl joins⟩
        split
        · rename_i m' still
          exact absurd joins (quiet.mp ⟨m', still⟩)
        · exact dentro_nil
      · obtain ⟨m', still⟩ := quiet.mpr joins
        obtain rfl := compactarDinam_corto few still
        simp only [reads, still, leeEliminar_none, few, joins, true_and, false_or]

/-- The position at which the search goes on. -/
theorem LugarEnTabla.posicion {elimina : Bool} {i' : Nat} (registros : 0 < c.cantRegistros)
    (table : Tabla c m) (room : LugarEnTabla c m elimina)
    (runs : hacerLugar c m i elimina = some (m', i')) : i' < c.cantRegistros := by
  have after := hacerLugar_estable (tabla_estable registros) table runs
  rcases hacerLugar_cases runs with ⟨rfl, last, -, -⟩ | ⟨-, v, inside, -, -, rfl⟩ |
    ⟨-, compacts⟩ | ⟨rfl, still, last, -⟩ | ⟨-, m₁, -, v, inside, -, -, rfl⟩
  · have := RevisionAcaba.borrar_lt (show RevisionAcaba c m from room)
    omega
  · exact inside
  · by_contra outside
    have free := compactarDinam_libre compacts
    simp [(after.fin i' (by omega)).2.1] at free
  · obtain ⟨few, joins | ends⟩ : c.cantRegistros ≤ 2 ∧ (Junta c m ∨ RevisionAcaba c m) := room
    · exact absurd joins ((compactarDinam_dos joins.1).mp ⟨m', still⟩)
    · obtain rfl := compactarDinam_corto few still
      have := ends.borrar_lt
      omega
  · exact inside

end LosAltos.Rc
