import LosAltos.Rc.SearchEnds
import LosAltos.Rc.Semantics
import LosAltos.Rc.Sorting

/-!
# What a compaction keeps

`compactarDinam` and the sort in front of it (`rc/src/vector.c:160-197, 275-375`). Joining free
partitions that touch is sound. Moving an occupied one down is not: the entry keeps its old `data`
and the free partition behind it reaches into its bytes.
-/
namespace LosAltos.Rc

open Lib

/-- The bytes an entry holds, none if it is empty. -/
def tramo (e : KeyElement) : Nat := if e.dataSize = 0 then 0 else extension e

/-- The intervals of the non-empty entries lie in the cache and are disjoint. -/
def Teselada (c : Config) (m : Motor) : Prop :=
  Separados c.cantRegistros c.cacheSize (fun i => (m.keyVector i).data)
    (fun i => tramo (m.keyVector i))

/-- Each occupied entry of `m` is the only one of `m'` with its key, and has its bytes there. -/
def MismosDatos (c : Config) (m m' : Motor) : Prop :=
  ∀ i < c.cantRegistros, (m.keyVector i).libre = false →
    ∃ j < c.cantRegistros, (m'.keyVector j).libre = false ∧ clave m' j = clave m i ∧
      valor m' j = valor m i ∧
      ∀ k < c.cantRegistros, (m'.keyVector k).libre = false → clave m' k = clave m i → k = j

/-- The compaction ends, keeps every key with its bytes and leaves the partitions disjoint. -/
def CompactaBien (c : Config) (m : Motor) : Prop :=
  ∃ m' ultimo, compactarDinam c m = some (m', ultimo) ∧ MismosDatos c m m' ∧ Teselada c m'

def ClavesUnicas (c : Config) (m : Motor) : Prop :=
  ∀ i < c.cantRegistros, ∀ j < c.cantRegistros, (m.keyVector i).libre = false →
    (m.keyVector j).libre = false → clave m i = clave m j → i = j

/-- Entry `i` is followed by no occupied entry, and by a free partition only where that one starts
at its end; if it is the last entry, an occupied one comes before it. -/
def SeQueda (c : Config) (m : Motor) (i : Nat) : Prop :=
  (i + 1 < c.cantRegistros → (m.keyVector (i + 1)).libre ∧
    (0 < (m.keyVector (i + 1)).dataSize →
      (m.keyVector i).data + (m.keyVector i).dataSize = (m.keyVector (i + 1)).data)) ∧
  (i + 1 = c.cantRegistros → 0 < i ∧ (m.keyVector (i - 1)).libre = false)

instance (c : Config) (m : Motor) (i : Nat) : Decidable (SeQueda c m i) :=
  inferInstanceAs (Decidable (_ ∧ _))

def SinMudanza (c : Config) (m : Motor) : Prop :=
  ∀ i < c.cantRegistros, (m.keyVector i).libre → 0 < (m.keyVector i).dataSize → SeQueda c m i

/-- The whole cache is the free partition of entry 0. -/
def Entera (c : Config) (m : Motor) : Prop :=
  (m.keyVector 0).libre ∧ (m.keyVector 0).dataSize = c.cacheSize

variable {c : Config} {m m' : Motor} {i : Nat}

/-! ### The sort -/

theorem Teselada.permuta {σ : Equiv.Perm Nat} (tiles : Teselada c m)
    (fixed : ∀ i, c.cantRegistros ≤ i → σ i = i) :
    Teselada c { m with keyVector := m.keyVector ∘ σ } := by
  refine Separados.permute tiles σ σ.injective (fun i inside => ?_) fun i x _ => id
  by_contra outside
  have same := σ.injective (fixed (σ i) (Nat.le_of_not_lt outside))
  omega

theorem sinClave_ordena (c : Config) (table : Tabla c m) :
    ∃ (σ : Equiv.Perm Nat) (pos : Nat), (∀ i, c.cantRegistros ≤ i → σ i = i) ∧
      ordenarVector c m none = some ({ m with keyVector := m.keyVector ∘ σ }, pos) := by
  have absent : porData.present (m.keyVector c.cantRegistros) = false := by
    simp [porData, (table.fin c.cantRegistros le_rfl).1]
  obtain ⟨σ, row, fixed⟩ := Sorter.sweeps_perm (k := c.cantRegistros - 2) absent
  have safe : Comparable ((none : Option Nat).map fun i => (m.keyVector i).key) m.keyVector :=
    fun some => absurd rfl some
  have runs := ordenarVector_sweeps (c := c) (m := m) safe
  rw [row] at runs
  exact ⟨σ, _, fixed, runs⟩

/-! ### The pass -/

theorem compactarPaso_none {r : Compactacion} (fails : compactarPaso c r i = none) :
    i = 0 ∧ c.cantRegistros ≤ 1 ∧ (r.motor.keyVector i).libre ∧
      0 < (r.motor.keyVector i).dataSize := by
  unfold compactarPaso at fails
  split at fails
  · cases fails
  · dsimp only at fails
    split at fails
    · split at fails
      · split at fails <;> cases fails
      · split at fails <;> cases fails
    · rename_i last
      split at fails
      · split at fails
        · rename_i free
          simp only [Bool.and_eq_true, decide_eq_true_eq] at free
          split at fails
          · exact ⟨rfl, by omega, free⟩
          · split at fails <;> cases fails
        · cases fails
      · cases fails

/-- The table before step `i` of a pass over `m` that has joined free partitions only. -/
structure Juntada (c : Config) (m : Motor) (i : Nat) (m' : Motor) : Prop where
  ocupada : ∀ k, (m.keyVector k).libre = false → m'.keyVector k = m.keyVector k
  libre : ∀ k, (m.keyVector k).libre → (m'.keyVector k).libre
  adelante : ∀ k, i < k → m'.keyVector k = m.keyVector k
  aqui : m'.keyVector i = m.keyVector i ∨
    ((m.keyVector i).libre ∧ 0 < (m.keyVector i).dataSize ∧
      (m'.keyVector i).data + (m'.keyVector i).dataSize =
        (m.keyVector i).data + (m.keyVector i).dataSize)
  keysSpace : m'.keysSpace = m.keysSpace
  cache : m'.cache = m.cache
  tiles : Teselada c m'

theorem Juntada.start (tiles : Teselada c m) : Juntada c m 0 m :=
  ⟨fun _ _ => rfl, fun _ => id, fun _ _ => rfl, Or.inl rfl, rfl, rfl, tiles⟩

theorem Juntada.igual (joined : Juntada c m i m') : Juntada c m (i + 1) m' :=
  ⟨joined.ocupada, joined.libre, fun k after => joined.adelante k (by omega),
    Or.inl (joined.adelante (i + 1) (by omega)), joined.keysSpace, joined.cache, joined.tiles⟩

/-- A free partition of the pass comes from one of the table. -/
theorem Juntada.viene (joined : Juntada c m i m') (free : (m'.keyVector i).libre)
    (filled : 0 < (m'.keyVector i).dataSize) :
    (m.keyVector i).libre ∧ 0 < (m.keyVector i).dataSize ∧
      (m'.keyVector i).data + (m'.keyVector i).dataSize =
        (m.keyVector i).data + (m.keyVector i).dataSize := by
  rcases joined.aqui with same | made
  · rw [same] at free filled ⊢
    exact ⟨free, filled, rfl⟩
  · exact made

theorem tramo_libre {e : KeyElement} (free : e.libre) : tramo e = e.dataSize := by
  simp only [tramo, extension, free, if_true]
  split <;> omega

theorem Juntada.junta (joined : Juntada c m i m') (inside : i + 1 < c.cantRegistros)
    (free : (m'.keyVector i).libre) (filled : 0 < (m'.keyVector i).dataSize)
    (next : (m'.keyVector (i + 1)).libre) (more : 0 < (m'.keyVector (i + 1)).dataSize)
    (touch : (m'.keyVector i).data + (m'.keyVector i).dataSize = (m'.keyVector (i + 1)).data) :
    Juntada c m (i + 1)
      ((unir m' (i + 1) i (m'.keyVector i).data (m'.keyVector i) (m'.keyVector (i + 1))).pon i
        { m'.keyVector i with dataSize := 0, data := 0 }) := by
  have total : a64 ((m'.keyVector (i + 1)).dataSize + (m'.keyVector i).dataSize) =
      (m'.keyVector (i + 1)).dataSize + (m'.keyVector i).dataSize := by
    have ends := joined.tiles.inside inside (by rw [tramo_libre next]; exact more)
    rw [tramo_libre next] at ends
    have limit := c.cacheSize_lt
    have value := a64_of_lt (x := (m'.keyVector (i + 1)).dataSize + (m'.keyVector i).dataSize)
      (by omega) (by omega)
    omega
  set m₂ := (unir m' (i + 1) i (m'.keyVector i).data (m'.keyVector i)
    (m'.keyVector (i + 1))).pon i { m'.keyVector i with dataSize := 0, data := 0 } with result
  have kept : m₂.keyVector (i + 1) = { m'.keyVector (i + 1) with
      data := (m'.keyVector i).data
      dataSize := (m'.keyVector (i + 1)).dataSize + (m'.keyVector i).dataSize } := by
    simp [result, unir, total]
  have gone : m₂.keyVector i = { m'.keyVector i with dataSize := 0, data := 0 } := by
    simp [result]
  have others (k : Nat) (first : k ≠ i) (second : k ≠ i + 1) :
      m₂.keyVector k = m'.keyVector k := by
    simp [result, unir, first, second]
  have ahead := joined.adelante (i + 1) (by omega)
  obtain ⟨here, -, -⟩ := joined.viene free filled
  refine ⟨fun k busy => ?_, fun k open_ => ?_, fun k after => ?_, Or.inr ⟨?_, ?_, ?_⟩,
    joined.keysSpace, joined.cache, ?_⟩
  · rw [others k (by rintro rfl; rw [here] at busy; cases busy)
      (by rintro rfl; rw [← ahead, next] at busy; cases busy)]
    exact joined.ocupada k busy
  · by_cases first : k = i
    · rw [first, gone]
      exact free
    · by_cases second : k = i + 1
      · rw [second, kept]
        exact next
      · rw [others k first second]
        exact joined.libre k open_
  · rw [others k (by omega) (by omega)]
    exact joined.adelante k (by omega)
  · exact ahead ▸ next
  · exact ahead ▸ more
  · rw [kept, ← ahead]
    dsimp only
    omega
  · refine Separados.join joined.tiles (q := i + 1) (h := i) inside (by omega) ?_ ?_ ?_
    · intro x
      simp only [Cubre, kept]
      rw [tramo_libre (e := { m'.keyVector (i + 1) with
        data := (m'.keyVector i).data
        dataSize := (m'.keyVector (i + 1)).dataSize + (m'.keyVector i).dataSize }) next,
        tramo_libre next, tramo_libre free]
      dsimp only
      omega
    · intro x _
      simp only [Cubre, gone, tramo, if_true]
      omega
    · intro k x _ first second
      simp only [Cubre, others k second first]
      exact id

/-- A pass over a table where nothing is moved goes on at every step. -/
theorem compactarPaso_junta {r : Compactacion} (bound : i < c.cantRegistros)
    (still : SinMudanza c m) (joined : Juntada c m i r.motor) :
    ∃ r', compactarPaso c r i = some r' ∧ Juntada c m (i + 1) r'.motor := by
  cases runs : compactarPaso c r i with
  | none =>
    obtain ⟨rfl, last, free, filled⟩ := compactarPaso_none runs
    obtain ⟨here, more, -⟩ := joined.viene free filled
    have := ((still 0 bound here more).2 (by omega)).1
    omega
  | some r' =>
    refine ⟨r', rfl, ?_⟩
    rcases compactarPaso_cases bound runs with ⟨same, -, -⟩ |
      ⟨-, ⟨inside, ⟨free, filled⟩, ⟨⟨next, more⟩, made⟩ | ⟨busy, -⟩, -⟩ |
        ⟨j, rfl, last, before, ⟨free, filled⟩, -, -⟩⟩
    · rw [same]
      exact joined.igual
    · obtain ⟨here, some, ends⟩ := joined.viene free filled
      have ahead := joined.adelante (i + 1) (by omega)
      obtain ⟨-, touch⟩ := (still i bound here some).1 inside
      rw [made]
      exact joined.junta inside free filled next more
        (ends.trans ((touch (ahead ▸ more)).trans (by rw [ahead])))
    · obtain ⟨here, some, -⟩ := joined.viene free filled
      have ahead := joined.adelante (i + 1) (by omega)
      have open_ := ((still i bound here some).1 inside).1
      rw [ahead, open_] at busy
      cases busy
    · obtain ⟨here, some, -⟩ := joined.viene free filled
      have busy := ((still (j + 1) bound here some).2 (by omega)).2
      have occupied : (m.keyVector j).libre = false := busy
      rw [joined.ocupada j occupied, occupied] at before
      cases before

theorem compactarPasos_juntan {r : Compactacion} (still : SinMudanza c r.motor)
    (tiles : Teselada c r.motor) (k : Nat) (bound : k ≤ c.cantRegistros) :
    ∃ r', (List.range k).foldlM (compactarPaso c) r = some r' ∧ Juntada c r.motor k r'.motor := by
  induction k with
  | zero => exact ⟨r, rfl, .start tiles⟩
  | succ k ih =>
    obtain ⟨r₁, runs, joined⟩ := ih (by omega)
    obtain ⟨r', step, joined'⟩ := compactarPaso_junta (by omega) still joined
    refine ⟨r', ?_, joined'⟩
    rw [List.range_succ, List.foldlM_append, runs]
    simpa using step

theorem compactarPasos_quietos {r : Compactacion} (stopped : r.termine = true) (k : Nat) :
    (List.range k).foldlM (compactarPaso c) r = some r := by
  induction k with
  | zero => rfl
  | succ k ih =>
    rw [List.range_succ, List.foldlM_append, ih]
    simp [compactarPaso, stopped]

/-! ### The compaction -/

/-- The occupied entries of a table are those of another, at other places. -/
theorem mismosDatos_ordena {σ : Equiv.Perm Nat} (fixed : ∀ i, c.cantRegistros ≤ i → σ i = i)
    (unique : ClavesUnicas c m) (keys : m'.keysSpace = m.keysSpace) (bytes : m'.cache = m.cache)
    (busy : ∀ k, (m.keyVector (σ k)).libre = false → m'.keyVector k = m.keyVector (σ k))
    (free : ∀ k, (m.keyVector (σ k)).libre → (m'.keyVector k).libre) : MismosDatos c m m' := by
  have inRange (k : Nat) : σ k < c.cantRegistros ↔ k < c.cantRegistros := by
    constructor
    · intro inside
      by_contra outside
      have := fixed k (Nat.le_of_not_lt outside)
      omega
    · intro inside
      by_contra outside
      have same := σ.injective (fixed (σ k) (Nat.le_of_not_lt outside))
      omega
  have entry (k : Nat) (taken : (m'.keyVector k).libre = false) :
      m'.keyVector k = m.keyVector (σ k) := by
    refine busy k ?_
    by_contra open_
    rw [free k (by simpa using open_)] at taken
    cases taken
  intro i inside taken
  have place : σ (σ.symm i) = i := σ.apply_symm_apply i
  have same : m'.keyVector (σ.symm i) = m.keyVector i := by
    rw [busy (σ.symm i) (by rw [place]; exact taken), place]
  refine ⟨σ.symm i, (inRange _).mp (place.symm ▸ inside), by rw [same]; exact taken, ?_, ?_, ?_⟩
  · simp only [clave, same, keys]
  · simp only [valor, same, bytes]
  · intro k below here equal
    have origin := entry k here
    have first : σ k = i := by
      refine unique (σ k) ((inRange k).mpr below) i inside (origin ▸ here) taken ?_
      rw [← equal]
      simp only [clave, origin, keys]
    rw [← first, σ.symm_apply_apply]

/-- The disjointness of the footprints that the reached states have. -/
theorem Separadas.teselada (apart : Separadas c m) : Teselada c m := by
  refine Separados.shrink apart fun i x _ here => ⟨here.1, lt_of_lt_of_le here.2 ?_⟩
  refine Nat.add_le_add_left ?_ _
  dsimp only
  unfold tramo
  split
  · exact Nat.zero_le _
  · exact le_rfl

/-- Partitions of 16 bytes from the start of the cache on, and empty entries behind them. -/
def cuatroRegistros (libres : List Bool) : Motor where
  keyVector i :=
    if i < 4 then
      { KeyElement.nulo with
        key := some (40 * i)
        nkey := 1
        dataSize := if i < libres.length then 16 else 0
        data := 16 * i
        libre := libres.getD i true }
    else .nulo
  ultimaPosicion := 0
  keysSpace p := UInt8.ofNat (97 + p.toNat / 40)
  cache p := UInt8.ofNat p.toNat
  hechos := []

theorem cuatroRegistros_tabla (libres : List Bool) : Tabla nextDe64 (cuatroRegistros libres) := by
  have four : nextDe64.cantRegistros = 4 := by decide
  constructor
  · intro i inside
    rw [four] at inside
    simp [cuatroRegistros, inside]
  · intro i outside
    rw [four] at outside
    have past : ¬i < 4 := by omega
    simp [cuatroRegistros, past, KeyElement.nulo]

theorem cuatroRegistros_teselada (libres : List Bool) :
    Teselada nextDe64 (cuatroRegistros libres) := by
  have four : nextDe64.cantRegistros = 4 := by decide
  have cubre {i x : Nat} (inside : i < nextDe64.cantRegistros)
      (here : Cubre (fun i => ((cuatroRegistros libres).keyVector i).data)
        (fun i => tramo ((cuatroRegistros libres).keyVector i)) i x) :
      16 * i ≤ x ∧ x < 16 * i + 16 := by
    rw [four] at inside
    have short : tramo ((cuatroRegistros libres).keyVector i) ≤ 16 := by
      simp only [cuatroRegistros, inside, if_true, tramo, extension, KeyElement.nulo]
      split <;> split <;> simp
    have start : ((cuatroRegistros libres).keyVector i).data = 16 * i := by
      simp [cuatroRegistros, inside]
    simp only [Cubre, start] at here
    omega
  have size : nextDe64.cacheSize = 64 := rfl
  constructor
  · intro i x inside here
    have := cubre inside here
    omega
  · intro i j x first second here there
    have := cubre first here
    have := cubre second there
    omega

end LosAltos.Rc
