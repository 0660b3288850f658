import LosAltos.Rc.SearchTurns
import Mathlib.Algebra.Order.BigOperators.Group.Finset
import Mathlib.Data.Prod.Lex

/-!
# Whether the searches come to an end

`rc/src/vector.c:275-375, 417-479, 541-610, 752-790`. An eviction makes the number of occupied
entries smaller. A compaction that moves something puts the table in better order: it joins two
partitions, or a free one goes behind an occupied one and its offset grows.
-/
namespace LosAltos.Rc

open Lib Finset

variable {c : Config} {P : Motor → Prop} {m m' : Motor} {espacio i j k : Nat}

/-! ### The occupied entries -/

def ocupadas (c : Config) (m : Motor) : Nat :=
  #{i ∈ range c.cantRegistros | (m.keyVector i).libre = false}

theorem ocupadas_le (same : ∀ i < c.cantRegistros, (m.keyVector i).libre → (m'.keyVector i).libre) :
    ocupadas c m' ≤ ocupadas c m := by
  refine card_le_card fun i member => ?_
  simp only [mem_filter, mem_range] at member ⊢
  refine ⟨member.1, ?_⟩
  by_contra free
  have := same i member.1 (by simpa using free)
  rw [member.2] at this
  cases this

theorem swap_lt (bound : j + 1 < c.cantRegistros) (inside : i < c.cantRegistros) :
    Equiv.swap j (j + 1) i < c.cantRegistros := by
  rw [Equiv.swap_apply_def]
  split
  · exact bound
  · split <;> omega

theorem ocupadas_swap (bound : j + 1 < c.cantRegistros)
    (same : ∀ i < c.cantRegistros, (m'.keyVector i).libre = false →
      (m.keyVector (Equiv.swap j (j + 1) i)).libre = false) :
    ocupadas c m' ≤ ocupadas c m := by
  refine card_le_card_of_injOn (Equiv.swap j (j + 1)) (fun i member => ?_)
    (Equiv.injective _).injOn
  have ⟨inside, busy⟩ := mem_filter.mp (mem_coe.mp member)
  rw [mem_range] at inside
  exact mem_coe.mpr (mem_filter.mpr ⟨mem_range.mpr (swap_lt bound inside), same i inside busy⟩)

theorem ocupadas_elimina (inside : i < c.cantRegistros) (busy : (m.keyVector i).libre = false) :
    ocupadas c (eliminarParticion c m (some i)).1 < ocupadas c m := by
  refine card_lt_card ⟨fun k member => ?_, fun all => ?_⟩
  · simp only [mem_filter, mem_range, eliminarParticion_some inside, Motor.pon_keyVector] at member ⊢
    refine ⟨member.1, ?_⟩
    by_cases here : k = i
    · rw [here]
      exact busy
    · simpa [here] using member.2
  · have := all (mem_filter.mpr ⟨mem_range.mpr inside, busy⟩)
    simp [eliminarParticion_some inside] at this

theorem ocupadas_cero (free : ∀ i < c.cantRegistros, (m.keyVector i).libre) : ocupadas c m = 0 := by
  refine card_eq_zero.mpr (filter_eq_empty_iff.mpr fun i member => ?_)
  simp [free i (mem_range.mp member)]

theorem juntarlos_libre (m : Motor) (actual posicion i : Nat) :
    ((juntarlos m actual posicion).keyVector i).libre = (m.keyVector i).libre := by
  simp only [juntarlos, Motor.pon_keyVector, Motor.anota_keyVector]
  by_cases second : i = posicion
  · rw [if_pos second, second]
    split
    · rename_i first
      rw [first]
    · rfl
  · rw [if_neg second]
    split
    · rename_i first
      rw [first]
    · rfl

theorem unir_libre (m : Motor) (queda hueco data i : Nat) (primera segunda : KeyElement) :
    ((unir m queda hueco data primera segunda).keyVector i).libre = (m.keyVector i).libre := by
  simp only [unir, Motor.pon_keyVector, Motor.anota_keyVector]
  by_cases second : i = hueco
  · rw [if_pos second, second]
    split
    · rename_i first
      rw [first]
    · rfl
  · rw [if_neg second]
    split
    · rename_i first
      rw [first]
    · rfl

theorem mover_ocupada (busy : ((mover m i).keyVector j).libre = false) :
    (m.keyVector (Equiv.swap i (i + 1) j)).libre = false := by
  simp only [mover, Motor.pon_keyVector] at busy
  rw [Equiv.swap_apply_def]
  by_cases second : j = i + 1
  · simp [second] at busy
  · by_cases first : j = i
    · simpa [first] using busy
    · simpa [first, second] using busy

theorem dividir_libre {lugares pos prox : Nat} (different : lugares ≠ pos)
    (free : (m.keyVector i).libre) : ((dividir m lugares pos prox).keyVector i).libre := by
  by_cases first : i = lugares
  · rw [first] at free ⊢
    exact (congrArg (·.libre) (dividir_lugares m prox different)).trans free
  · by_cases second : i = pos
    · rw [second]
      exact congrArg (·.libre) (dividir_posicionn m prox different)
    · exact (congrArg (·.libre) (dividir_other m prox first second)).trans free

/-- No step of a search occupies an entry. -/
theorem ocupadas_estable (registros : 0 < c.cantRegistros) (k : Nat) :
    Estable c fun m => Tabla c m ∧ ocupadas c m ≤ k where
  tabla _ holds := holds.1
  posicion m i holds := ⟨(tabla_estable registros).posicion m i holds.1, holds.2⟩
  elimina m i holds bound busy := ⟨(tabla_estable registros).elimina m i holds.1 bound busy,
    (ocupadas_elimina bound busy).le.trans holds.2⟩
  permuta m j holds bound filled := ⟨(tabla_estable registros).permuta m j holds.1 bound filled,
    (ocupadas_swap bound fun i _ busy => by rwa [← Motor.permuta_keyVector]).trans holds.2⟩
  junta m actual vecino holds first second different free filled :=
    ⟨(tabla_estable registros).junta m actual vecino holds.1 first second different free filled,
      (ocupadas_le fun i _ kept => by rwa [juntarlos_libre]).trans holds.2⟩
  uneAdelante m i holds bound free next filled :=
    ⟨(tabla_estable registros).uneAdelante m i holds.1 bound free next filled,
      (ocupadas_le fun j _ kept => by rwa [unir_libre]).trans holds.2⟩
  uneAtras m i holds bound free next filled :=
    ⟨(tabla_estable registros).uneAtras m i holds.1 bound free next filled,
      (ocupadas_le fun j _ kept => by rwa [unir_libre]).trans holds.2⟩
  anula m i holds bound free empty := by
    refine ⟨(tabla_estable registros).anula m i holds.1 bound free empty,
      (ocupadas_le fun j _ kept => ?_).trans holds.2⟩
    by_cases here : j = i
    · simpa [here] using free
    · simpa [here] using kept
  mueve m i holds bound pair := ⟨(tabla_estable registros).mueve m i holds.1 bound pair,
    (ocupadas_swap bound fun j _ busy => mover_ocupada busy).trans holds.2⟩
  inicializa m holds := by
    refine ⟨(tabla_estable registros).inicializa m holds.1, (ocupadas_le fun j inside _ => ?_).trans
      holds.2⟩
    by_cases first : j = 0
    · simp [vectorInicializar, first]
    · simp [vectorInicializar, first, inside]
  divide m lugares pos prox holds first second different free empty positive half slot :=
    ⟨(tabla_estable registros).divide m lugares pos prox holds.1 first second different free
      empty positive half slot,
      (ocupadas_le fun j _ kept => dividir_libre different kept).trans holds.2⟩

/-! ### The order of the table -/

/-- The entries weighed one by one. -/
def suma (c : Config) (w : Nat → KeyElement → Nat) (m : Motor) : Nat :=
  ∑ i ∈ range c.cantRegistros, w i (m.keyVector i)

theorem suma_par (w : Nat → KeyElement → Nat) (first : i < c.cantRegistros)
    (second : j < c.cantRegistros) (different : i ≠ j)
    (others : ∀ k, k ≠ i → k ≠ j → m'.keyVector k = m.keyVector k) :
    suma c w m' + (w i (m.keyVector i) + w j (m.keyVector j)) =
      suma c w m + (w i (m'.keyVector i) + w j (m'.keyVector j)) := by
  have one : i ∈ range c.cantRegistros := mem_range.mpr first
  have two : j ∈ (range c.cantRegistros).erase i :=
    mem_erase.mpr ⟨different.symm, mem_range.mpr second⟩
  have rest : ∑ k ∈ ((range c.cantRegistros).erase i).erase j, w k (m'.keyVector k) =
      ∑ k ∈ ((range c.cantRegistros).erase i).erase j, w k (m.keyVector k) := by
    refine sum_congr rfl fun k member => ?_
    rw [others k (ne_of_mem_erase (mem_of_mem_erase member)) (ne_of_mem_erase member)]
  unfold suma
  rw [← add_sum_erase _ _ one, ← add_sum_erase _ _ two, rest,
    ← add_sum_erase _ (fun k => w k (m.keyVector k)) one,
    ← add_sum_erase _ (fun k => w k (m.keyVector k)) two]
  omega

def pesoLlena (_ : Nat) (e : KeyElement) : Nat := if 0 < e.dataSize then 1 else 0

def pesoLugar (c : Config) (i : Nat) (e : KeyElement) : Nat :=
  if 0 < e.dataSize then c.cantRegistros - i else 0

def pesoDatos (_ : Nat) (e : KeyElement) : Nat :=
  if e.libre ∧ 0 < e.dataSize then 2 ^ 64 - e.data else 0

/-- Whether the last entry is other than free and empty. -/
def colaLlena (c : Config) (m : Motor) : Nat :=
  let e := m.keyVector (c.cantRegistros - 1)
  if e.libre ∧ e.dataSize = 0 then 0 else 1

/-- What the compaction has still to put in order: the partitions, then their places, then the
offsets of the free ones. -/
def desorden (c : Config) (m : Motor) : ℕ ×ₗ ℕ ×ₗ ℕ :=
  toLex (2 * suma c pesoLlena m + colaLlena c m,
    toLex (suma c (pesoLugar c) m, suma c pesoDatos m))

theorem desorden_permuta (bound : j + 1 < c.cantRegistros) (first : 0 < (m.keyVector j).dataSize)
    (second : 0 < (m.keyVector (j + 1)).dataSize) :
    desorden c (m.permuta j (j + 1)) = desorden c m := by
  have left : (m.permuta j (j + 1)).keyVector j = m.keyVector (j + 1) := by
    simp [Motor.permuta]
  have right : (m.permuta j (j + 1)).keyVector (j + 1) = m.keyVector j := by
    simp [Motor.permuta]
  have others : ∀ k, k ≠ j → k ≠ j + 1 →
      (m.permuta j (j + 1)).keyVector k = m.keyVector k := by
    intro k notFirst notSecond
    simp [Motor.permuta, notFirst, notSecond]
  have filled := suma_par pesoLlena (by omega) bound (by omega) others
  have places := suma_par (pesoLugar c) (by omega) bound (by omega) others
  have offsets := suma_par pesoDatos (by omega) bound (by omega) others
  simp only [left, right, pesoLlena, pesoLugar, pesoDatos, first, second, if_true, and_true]
    at filled places offsets
  have tail : colaLlena c (m.permuta j (j + 1)) = colaLlena c m := by
    unfold colaLlena
    by_cases last : c.cantRegistros - 1 = j + 1
    · simp [last, right, first.ne', second.ne']
    · rw [others _ (by omega) last]
  rw [desorden, desorden, tail]
  congr 3
  · omega
  · congr 1
    · omega
    · omega

theorem desorden_mover (bound : i + 1 < c.cantRegistros) (free : (m.keyVector i).libre)
    (filled : 0 < (m.keyVector i).dataSize) (busy : (m.keyVector (i + 1)).libre = false)
    (narrow : (m.keyVector i).data + (m.keyVector (i + 1)).dataSize < 2 ^ 64) :
    desorden c (mover m i) < desorden c m := by
  have left : (mover m i).keyVector i = m.keyVector (i + 1) := by simp [mover]
  have size : ((mover m i).keyVector (i + 1)).dataSize = (m.keyVector i).dataSize := by
    simp [mover]
  have opened : ((mover m i).keyVector (i + 1)).libre := by simp [mover]
  have offset : ((mover m i).keyVector (i + 1)).data =
      (m.keyVector i).data + (m.keyVector (i + 1)).dataSize := by
    simp only [mover, Motor.pon_keyVector, if_true, a64]
    omega
  have others : ∀ k, k ≠ i → k ≠ i + 1 → (mover m i).keyVector k = m.keyVector k := by
    intro k notFirst notSecond
    simp [mover, notFirst, notSecond]
  have parts := suma_par pesoLlena (by omega) bound (by omega) others
  have places := suma_par (pesoLugar c) (by omega) bound (by omega) others
  have offsets := suma_par pesoDatos (by omega) bound (by omega) others
  simp only [left, size, opened, offset, pesoLlena, pesoLugar, pesoDatos, free, busy, filled,
    Bool.false_eq_true, if_true, if_false, and_true, false_and]
    at parts places offsets
  have tail : colaLlena c (mover m i) = colaLlena c m := by
    unfold colaLlena
    by_cases last : c.cantRegistros - 1 = i + 1
    · simp [last, size, busy, filled.ne']
    · rw [others _ (by omega) last]
  rw [desorden, desorden, tail, Prod.Lex.toLex_lt_toLex, Prod.Lex.toLex_lt_toLex]
  by_cases empty : (m.keyVector (i + 1)).dataSize = 0
  · simp only [empty, lt_irrefl, if_false] at parts places
    exact Or.inr ⟨by dsimp only; omega, Or.inl (by dsimp only; omega)⟩
  · have positive : 0 < (m.keyVector (i + 1)).dataSize := by omega
    simp only [positive, if_true] at parts places
    exact Or.inr ⟨by dsimp only; omega, Or.inr ⟨by dsimp only; omega, by dsimp only; omega⟩⟩

theorem desorden_adelante (bound : i + 1 < c.cantRegistros)
    (filled : 0 < (m.keyVector i).dataSize) (next : 0 < (m.keyVector (i + 1)).dataSize) :
    desorden c ((unir m (i + 1) i (m.keyVector i).data (m.keyVector i)
      (m.keyVector (i + 1))).pon i { m.keyVector i with dataSize := 0, data := 0 }) <
      desorden c m := by
  generalize joined : (unir m (i + 1) i (m.keyVector i).data (m.keyVector i)
    (m.keyVector (i + 1))).pon i { m.keyVector i with dataSize := 0, data := 0 } = m'
  have gone : (m'.keyVector i).dataSize = 0 := by simp [← joined]
  have others : ∀ k, k ≠ i → k ≠ i + 1 → m'.keyVector k = m.keyVector k := by
    intro k notFirst notSecond
    simp [← joined, unir, notFirst, notSecond]
  have parts := suma_par pesoLlena (by omega) bound (by omega) others
  have few : pesoLlena (i + 1) (m'.keyVector (i + 1)) ≤ 1 := by
    unfold pesoLlena
    split <;> omega
  simp only [pesoLlena, gone, filled, next, if_true, lt_irrefl, if_false] at parts few
  have tail : colaLlena c m' ≤ 1 := by
    unfold colaLlena
    dsimp only
    split <;> omega
  rw [desorden, desorden, Prod.Lex.toLex_lt_toLex]
  exact Or.inl (by dsimp only; omega)

theorem desorden_atras (last : j + 2 = c.cantRegistros) (free : (m.keyVector (j + 1)).libre)
    (filled : 0 < (m.keyVector (j + 1)).dataSize) :
    desorden c (unir m j (j + 1) (m.keyVector j).data (m.keyVector j) (m.keyVector (j + 1))) <
      desorden c m := by
  generalize joined : unir m j (j + 1) (m.keyVector j).data (m.keyVector j)
    (m.keyVector (j + 1)) = m'
  have gone : m'.keyVector (j + 1) = { m.keyVector (j + 1) with dataSize := 0 } := by
    rw [← joined, unir_hueco _ _ _ _ (by omega : j ≠ j + 1)]
  have others : ∀ k, k ≠ j → k ≠ j + 1 → m'.keyVector k = m.keyVector k := by
    intro k notFirst notSecond
    rw [← joined, unir_other _ _ _ _ notFirst notSecond]
  have parts := suma_par (c := c) pesoLlena (by omega) (by omega) (by omega) others
  have few : pesoLlena j (m'.keyVector j) ≤ 1 := by
    unfold pesoLlena
    split <;> omega
  simp only [pesoLlena, gone, filled, if_true, lt_irrefl, if_false] at parts few
  have here : c.cantRegistros - 1 = j + 1 := by omega
  have before : colaLlena c m = 1 := by simp [colaLlena, here, filled.ne']
  have after : colaLlena c m' = 0 := by simp [colaLlena, here, gone, free]
  rw [desorden, desorden, before, after, Prod.Lex.toLex_lt_toLex]
  exact Or.inl (by dsimp only; omega)

/-! ### A compaction -/

/-- The offsets reach up to `M`, the occupied sizes up to `Z`, and both together stay below
`2 ^ 64` however often a partition is moved. -/
def SinDesborde (c : Config) (m : Motor) : Prop :=
  ∃ M Z, M + c.cantRegistros * Z < 2 ^ 64 ∧ ∀ j < c.cantRegistros,
    (m.keyVector j).data ≤ M ∧ ((m.keyVector j).libre = false → (m.keyVector j).dataSize ≤ Z)

/-- The same inside a pass, which has moved a free partition at `j` at most `j` times. -/
def Acotada (c : Config) (M Z : Nat) (m : Motor) : Prop :=
  ∀ j < c.cantRegistros, (m.keyVector j).data ≤ M + j * Z ∧
    ((m.keyVector j).libre = false → (m.keyVector j).data ≤ M ∧ (m.keyVector j).dataSize ≤ Z)

theorem Acotada.par {M Z : Nat} (bounded : Acotada c M Z m)
    (others : ∀ k, k ≠ i → k ≠ j → m'.keyVector k = m.keyVector k)
    (first : (m'.keyVector i).data ≤ M + i * Z ∧ ((m'.keyVector i).libre = false →
      (m'.keyVector i).data ≤ M ∧ (m'.keyVector i).dataSize ≤ Z))
    (second : (m'.keyVector j).data ≤ M + j * Z ∧ (m'.keyVector j).libre) : Acotada c M Z m' := by
  intro k inside
  by_cases here : k = i
  · rw [here]
    exact first
  · by_cases there : k = j
    · rw [there]
      exact ⟨second.1, fun busy => absurd second.2 (by simp [busy])⟩
    · rw [others k here there]
      exact bounded k inside

theorem compactarPaso_desorden {M Z : Nat} {r r' : Compactacion}
    (limit : M + c.cantRegistros * Z < 2 ^ 64) (bound : i < c.cantRegistros)
    (bounded : Acotada c M Z r.motor) (runs : compactarPaso c r i = some r') :
    (r'.motor = r.motor ∧ r'.compacte = r.compacte) ∨
      (desorden c r'.motor < desorden c r.motor ∧ Acotada c M Z r'.motor) := by
  have here := bounded i bound
  rcases compactarPaso_cases bound runs with ⟨motor, -, flag⟩ |
    ⟨-, ⟨inside, free, ⟨next, joined⟩ | ⟨busy, moved⟩, -⟩ | ⟨j, rfl, last, before, free, joined, -⟩⟩
  · exact Or.inl ⟨motor, flag⟩
  · refine Or.inr ⟨?_, bounded.par (i := i) (j := i + 1) ?_ ?_ ?_⟩
    · rw [joined]
      exact desorden_adelante inside free.2 next.2
    · intro k notFirst notSecond
      simp [joined, unir, notFirst, notSecond]
    · simp [joined, free.1]
    · have more : M + i * Z ≤ M + (i + 1) * Z := by
        rw [Nat.succ_mul]
        omega
      simp [joined, unir, next.1, here.1.trans more]
  · obtain ⟨low, size⟩ := (bounded (i + 1) inside).2 busy
    have steps : (i + 1) * Z ≤ c.cantRegistros * Z := Nat.mul_le_mul_right Z inside.le
    rw [Nat.succ_mul] at steps
    have narrow : (r.motor.keyVector i).data + (r.motor.keyVector (i + 1)).dataSize < 2 ^ 64 := by
      omega
    refine Or.inr ⟨?_, bounded.par (i := i) (j := i + 1) ?_ ?_ ?_⟩
    · rw [moved]
      exact desorden_mover inside free.1 free.2 busy narrow
    · intro k notFirst notSecond
      simp [moved, mover, notFirst, notSecond]
    · have same : (mover r.motor i).keyVector i = r.motor.keyVector (i + 1) := by simp [mover]
      rw [moved, same]
      exact ⟨low.trans (Nat.le_add_right _ _), fun _ => ⟨low, size⟩⟩
    · have offset : ((mover r.motor i).keyVector (i + 1)).data =
          (r.motor.keyVector i).data + (r.motor.keyVector (i + 1)).dataSize := by
        simp only [mover, Motor.pon_keyVector, if_true, a64]
        omega
      rw [moved, offset, Nat.succ_mul]
      exact ⟨by omega, by simp [mover]⟩
  · refine Or.inr ⟨?_, bounded.par (i := j) (j := j + 1) ?_ ?_ ?_⟩
    · rw [joined]
      exact desorden_atras last free.1 free.2
    · intro k notFirst notSecond
      rw [joined, unir_other _ _ _ _ notFirst notSecond]
    · have offset := (bounded j (by omega)).1
      rw [joined, unir_queda _ _ _ _ (by omega : j ≠ j + 1)]
      exact ⟨offset, fun busy => absurd (before.symm.trans busy) (by decide)⟩
    · rw [joined, unir_hueco _ _ _ _ (by omega : j ≠ j + 1)]
      exact ⟨here.1, free.1⟩

/-- A compaction that answers a position leaves the table in better order. -/
theorem compactarDinam_desorden {ultimo : Nat} (table : Tabla c m) (bounds : SinDesborde c m)
    (runs : compactarDinam c m = some (m', some ultimo)) : desorden c m' < desorden c m := by
  obtain ⟨M, Z, limit, bounded⟩ := bounds
  simp only [compactarDinam, Option.bind_eq_bind, Option.bind_eq_some_iff] at runs
  obtain ⟨⟨sorted, pos⟩, order, r, loop, ends⟩ := runs
  have swaps : Permutable c fun m₁ => Tabla c m₁ ∧ desorden c m₁ = desorden c m ∧
      ∀ j < c.cantRegistros, (m₁.keyVector j).data ≤ M ∧
        ((m₁.keyVector j).libre = false → (m₁.keyVector j).dataSize ≤ Z) := by
    refine ⟨fun _ holds => holds.1, fun m₁ j holds inside first second => ⟨?_, ?_, ?_⟩⟩
    · exact (tabla_estable (by omega)).permuta m₁ j holds.1 inside ⟨first, second⟩
    · rw [desorden_permuta inside first second]
      exact holds.2.1
    · intro k below
      rw [Motor.permuta_keyVector]
      exact holds.2.2 _ (swap_lt inside below)
  obtain ⟨⟨-, same, bounded₁⟩, -⟩ := ordenarVector_permutable swaps ⟨table, rfl, bounded⟩ order
  have start : Acotada c M Z sorted := fun j inside =>
    ⟨(bounded₁ j inside).1.trans (Nat.le_add_right _ _),
      fun busy => ⟨(bounded₁ j inside).1, (bounded₁ j inside).2 busy⟩⟩
  have pass : Acotada c M Z r.motor ∧ desorden c r.motor ≤ desorden c sorted ∧
      (r.compacte = true → desorden c r.motor < desorden c sorted) := by
    refine foldlM_invariant _ (fun r : Compactacion => Acotada c M Z r.motor ∧
      desorden c r.motor ≤ desorden c sorted ∧
      (r.compacte = true → desorden c r.motor < desorden c sorted)) _ ?_ _ _ ?_ loop
    · intro i b b' member holds step
      rcases compactarPaso_desorden limit (List.mem_range.mp member) holds.1 step with
        ⟨motor, flag⟩ | ⟨less, kept⟩
      · rw [motor, flag]
        exact holds
      · exact ⟨kept, (less.trans_le holds.2.1).le, fun _ => less.trans_le holds.2.1⟩
    · exact ⟨start, le_rfl, fun moved => by cases moved⟩
  simp only [Option.some.injEq, Prod.mk.injEq] at ends
  split at ends
  · rename_i moved
    rw [← ends.1, ← same]
    exact pass.2.2 moved
  · cases ends.2

/-! ### Making room -/

/-- The compaction moves something. -/
def Compacta (c : Config) (m : Motor) : Prop :=
  ∃ m₁ ultimo, compactarDinam c m = some (m₁, some ultimo)

/-- Where only the compaction makes room, its offsets do not overflow, and it moves something or
there is an entry to evict. -/
def Cede (c : Config) (m : Motor) : Prop :=
  SinDesborde c m ∧ (Compacta c m ∨ ∃ j < c.cantRegistros, (m.keyVector j).libre = false)

theorem hacerLugar_ocupadas (registros : 0 < c.cantRegistros) (table : Tabla c m) {elimina : Bool}
    {i' : Nat} (runs : hacerLugar c m i elimina = some (m', i')) :
    ocupadas c m' ≤ ocupadas c m :=
  (hacerLugar_estable (ocupadas_estable registros (ocupadas c m)) ⟨table, le_rfl⟩ runs).2

theorem ocupadas_pos (inside : j < c.cantRegistros) (busy : (m.keyVector j).libre = false) :
    0 < ocupadas c m :=
  card_pos.mpr ⟨j, mem_filter.mpr ⟨mem_range.mpr inside, busy⟩⟩

theorem ocupadas_permutable (registros : 0 < c.cantRegistros) (k : Nat) :
    Permutable c fun m => Tabla c m ∧ ocupadas c m = k := by
  refine ⟨fun _ holds => holds.1, fun m j holds inside one other => ⟨?_, ?_⟩⟩
  · exact (tabla_estable registros).permuta m j holds.1 inside ⟨one, other⟩
  · have fewer : ocupadas c (m.permuta j (j + 1)) ≤ ocupadas c m :=
      ocupadas_swap inside fun i _ busy => by rwa [← Motor.permuta_keyVector]
    have more : ocupadas c m ≤ ocupadas c (m.permuta j (j + 1)) :=
      ocupadas_swap inside fun i _ busy => by simpa [Motor.permuta_keyVector] using busy
    exact (fewer.antisymm more).trans holds.2

/-- A compaction that answers `-1` has only sorted the table. -/
theorem compactarDinam_quieta (runs : compactarDinam c m = some (m', none)) :
    ∃ pos, ordenarVector c m none = some (m', pos) := by
  simp only [compactarDinam, Option.bind_eq_bind, Option.bind_eq_some_iff] at runs
  obtain ⟨⟨sorted, pos⟩, order, r, loop, ends⟩ := runs
  have still : r.compacte = false → r.motor = sorted := by
    refine foldlM_invariant _ (fun r : Compactacion => r.compacte = false → r.motor = sorted)
      _ ?_ _ _ ?_ loop
    · intro i b b' member holds step quiet
      rcases compactarPaso_cases (List.mem_range.mp member) step with ⟨motor, -, flag⟩ | moved
      · rw [motor]
        exact holds (flag ▸ quiet)
      · exact absurd (moved.1.symm.trans quiet) (by decide)
    · exact fun _ => rfl
  simp only [Option.some.injEq, Prod.mk.injEq] at ends
  split at ends
  · cases ends.2
  · rename_i quiet
    rw [← ends.1, still (by simpa using quiet)]
    exact ⟨pos, order⟩

/-- An eviction starts the table over or leaves fewer occupied entries. -/
theorem hacerLugar_elimina {i' : Nat} (runs : hacerLugar c m i true = some (m', i')) :
    (borrar c m = c.cantRegistros ∧ m' = vectorInicializar c m ∧ i' = i) ∨
      ocupadas c m' < ocupadas c m := by
  rcases hacerLugar_cases runs with ⟨-, last, same, here⟩ | ⟨-, v, bound, busy, rfl, -⟩ |
    ⟨no, -⟩ | ⟨no, -⟩ | ⟨no, -⟩
  · exact Or.inl ⟨last, same, here⟩
  · exact Or.inr (ocupadas_elimina bound busy)
  · cases no
  · cases no
  · cases no

/-- A compaction that gives way leaves fewer occupied entries or a better order. -/
theorem hacerLugar_compacta (registros : 0 < c.cantRegistros) (table : Tabla c m) {i' : Nat}
    (yields : Cede c m) (runs : hacerLugar c m i false = some (m', i')) :
    ocupadas c m' < ocupadas c m ∨
      (ocupadas c m' ≤ ocupadas c m ∧ desorden c m' < desorden c m) := by
  have fewer := hacerLugar_ocupadas registros table runs
  rcases hacerLugar_cases runs with ⟨no, -⟩ | ⟨no, -⟩ | ⟨-, compacts⟩ | ⟨-, still, last, -⟩ |
    ⟨-, m₁, still, v, bound, busy, rfl, -⟩
  · cases no
  · cases no
  · exact Or.inr ⟨fewer, compactarDinam_desorden table yields.1 compacts⟩
  · exfalso
    rcases yields.2 with ⟨m₂, ultimo, moves⟩ | ⟨j, inside, busy⟩
    · rw [still] at moves
      cases moves
    · obtain ⟨pos, order⟩ := compactarDinam_quieta still
      have same := (ordenarVector_permutable (ocupadas_permutable registros (ocupadas c m))
        ⟨table, rfl⟩ order).1.2
      have none := ocupadas_cero (c := c) fun j inside => borrar_fin last inside
      have some := ocupadas_pos inside busy
      omega
  · have before := (compactarDinam_estable (ocupadas_estable registros (ocupadas c m))
      ⟨table, le_rfl⟩ still).2
    exact Or.inl ((ocupadas_elimina bound busy).trans_le before)

/-! ### Next -/

/-- The scan stops at too few bytes behind `ultima_posicion`, and the search goes back to
entry 0. -/
def Vuelve (c : Config) (m : Motor) (espacio i : Nat) : Prop :=
  parada c m i ≠ c.cantRegistros ∧ (m.keyVector (parada c m i)).dataSize < espacio ∧
    m.ultimaPosicion < parada c m i

/-- The scan finds nothing and room has to be made. -/
def FaltaLugar (c : Config) (m : Motor) (espacio i : Nat) : Prop :=
  parada c m i = c.cantRegistros ∨
    ((m.keyVector (parada c m i)).dataSize < espacio ∧ parada c m i ≤ m.ultimaPosicion)

/-- A search that is at entry 0 is not sent back to it, and where every failed search compacts
(`FREQ = 1`) the compaction gives way. -/
def SigueNext (c : Config) (espacio : Nat) (t : EstadoNext) : Prop :=
  (t.2.1 = 0 → ¬Vuelve c t.1 espacio 0) ∧
    (c.freq = 1 → FaltaLugar c t.1 espacio t.2.1 → Cede c t.1)

theorem turnoNext_again {fallidas : Int} {t : EstadoNext}
    (next : turnoNext c espacio (m, i, fallidas) = .again t) :
    (Vuelve c m espacio i ∧ t = (m, 0, fallidas)) ∨
      (FaltaLugar c m espacio i ∧ ∃ m' i',
        hacerLugar c m m.ultimaPosicion (eliminaNext c fallidas) = some (m', i') ∧
        (m'.keyVector i').dataSize < espacio ∧
        t = (m', i', if eliminaNext c fallidas then aInt16 (fallidas + 1) else 0)) := by
  rw [turnoNext_eq] at next
  split at next
  · cases next
  · rename_i short
    split at next
    · rename_i behind
      cases next
      refine Or.inl ⟨⟨behind.1, ?_, behind.2⟩, rfl⟩
      by_contra fits
      exact short ⟨behind.1, by omega⟩
    · rename_i ahead
      split at next
      · cases next
      · rename_i m' i' room
        split at next
        · cases next
        · rename_i small
          cases next
          refine Or.inr ⟨?_, m', i', room, by omega, rfl⟩
          by_cases last : parada c m i = c.cantRegistros
          · exact Or.inl last
          · refine Or.inr ⟨?_, ?_⟩
            · by_contra fits
              exact short ⟨last, by omega⟩
            · by_contra behind
              exact ahead ⟨last, by omega⟩

theorem turnoNext_vuelve (fallidas : Int) (back : Vuelve c m espacio i) :
    turnoNext c espacio (m, i, fallidas) = .again (m, 0, fallidas) := by
  obtain ⟨inside, small, behind⟩ := back
  rw [turnoNext_eq, if_neg fun fits => by omega, if_pos ⟨inside, behind⟩]

/-- A search at entry 0 that is sent back to it does not end. -/
theorem vuelve_sin_fin {fallidas : Int} (first : Vuelve c m espacio i)
    (again : Vuelve c m espacio 0) : ¬Ends (turnoNext c espacio) (m, i, fallidas) := by
  refine not_ends_of_again (P := fun t => t = (m, i, fallidas) ∨ t = (m, 0, fallidas))
    (Or.inl rfl) ?_
  rintro t (rfl | rfl)
  · exact ⟨_, turnoNext_vuelve fallidas first, Or.inr rfl⟩
  · exact ⟨_, turnoNext_vuelve fallidas again, Or.inr rfl⟩

theorem parada_aqui (free : (m.keyVector i).libre) (filled : 0 < (m.keyVector i).dataSize) :
    parada c m i = i := by
  have stays : ∀ (p : Nat → Bool) (n k : Nat), p i = false → avanza p n k i = i := by
    intro p n k stop
    cases k with
    | zero => rfl
    | succ k => simp [avanza, stop]
  unfold parada
  dsimp only
  rw [stays (fun i => !(m.keyVector i).libre) _ _ (by simp [free]),
    stays _ _ _ (by simp [filled.ne'])]

section Inicio
variable (c m)

theorem inicio_libre (inside : j < c.cantRegistros) :
    ((vectorInicializar c m).keyVector j).libre := by
  by_cases first : j = 0
  · simp [vectorInicializar, first]
  · simp [vectorInicializar, first, inside]

theorem inicio_primera : ((vectorInicializar c m).keyVector 0).dataSize = c.cacheSize := by
  simp [vectorInicializar]

theorem inicio_vacia (inside : j < c.cantRegistros) (later : 0 < j) :
    ((vectorInicializar c m).keyVector j).dataSize = 0 := by
  simp [vectorInicializar, later.ne', inside]

end Inicio

theorem compactarDinam_inicio {compac : Option Nat} (registros : 0 < c.cantRegistros)
    (table : Tabla c m)
    (runs : compactarDinam c (vectorInicializar c m) = some (m', compac)) :
    m' = vectorInicializar c m ∧ compac = none := by
  have table₁ := (tabla_estable registros).inicializa m table
  simp only [compactarDinam, Option.bind_eq_bind, Option.bind_eq_some_iff] at runs
  obtain ⟨⟨sorted, pos⟩, order, r, loop, ends⟩ := runs
  -- there are no two partitions to swap, and the table is one free partition
  have swaps : Permutable c fun m₁ => m₁ = vectorInicializar c m := by
    refine ⟨fun m₁ same => same ▸ table₁, fun m₁ j same inside _ second => ?_⟩
    rw [same, inicio_vacia c m inside (by omega)] at second
    cases second
  obtain ⟨same, -⟩ := ordenarVector_permutable swaps rfl order
  have whole : ((sorted.keyVector 0).libre && ((sorted.keyVector 0).dataSize == c.cacheSize)) =
      true := by
    rw [same, inicio_libre c m registros, inicio_primera]
    simp
  have quiet : r.termine = true ∧ r.compacte = false ∧ r.motor = sorted := by
    refine foldlM_invariant _ (fun r : Compactacion =>
      r.termine = true ∧ r.compacte = false ∧ r.motor = sorted) _ ?_ _ _ ⟨whole, rfl, rfl⟩ loop
    intro i b b' _ holds step
    simp only [compactarPaso, holds.1, if_true, Option.some.injEq] at step
    rwa [← step]
  simp only [Option.some.injEq, Prod.mk.injEq, quiet.2.1, Bool.false_eq_true, if_false] at ends
  exact ⟨ends.1.symm.trans (quiet.2.2.trans same), ends.2.symm⟩

section
variable (registros : 0 < c.cantRegistros) (positive : 0 < espacio)
  (within : espacio ≤ c.cacheSize)
include registros positive within

theorem turnoNext_inicio (fallidas : Int) :
    Ends (turnoNext c espacio) (vectorInicializar c m, 0, fallidas) := by
  have size := inicio_primera c m
  have here : parada c (vectorInicializar c m) 0 = 0 :=
    parada_aqui (inicio_libre c m registros) (by omega)
  refine .stop fun t next => ?_
  rw [turnoNext_eq, here, size, if_pos ⟨by omega, within⟩] at next
  cases next

theorem turnoNext_inicio_elimina {fallidas : Int} (evicts : eliminaNext c fallidas = true) :
    Ends (turnoNext c espacio) (vectorInicializar c m, i, fallidas) := by
  by_cases goes : ∃ t, turnoNext c espacio (vectorInicializar c m, i, fallidas) = .again t
  · obtain ⟨t, next⟩ := goes
    refine .again next ?_
    rcases turnoNext_again next with ⟨-, rfl⟩ | ⟨-, m', i', room, small, -⟩
    · exact turnoNext_inicio registros positive within fallidas
    · rw [evicts] at room
      rcases hacerLugar_elimina room with ⟨-, rfl, rfl⟩ | fewer
      · have first : (vectorInicializar c m).ultimaPosicion = 0 := rfl
        rw [first, inicio_primera] at small
        omega
      · have none := ocupadas_cero (c := c) fun j inside => inicio_libre c m inside
        omega
  · exact .stop fun t next => goes ⟨t, next⟩

/-- The search ends once the table has been started over: at once, after another eviction, or
after a compaction that moves nothing. -/
theorem turnoNext_inicio_termina (table : Tabla c m) (again : eliminaNext c 0 = true) (i : Nat)
    (fallidas : Int) : Ends (turnoNext c espacio) (vectorInicializar c m, i, fallidas) := by
  cases evicts : eliminaNext c fallidas with
  | true => exact turnoNext_inicio_elimina registros positive within evicts
  | false =>
    by_cases goes : ∃ t, turnoNext c espacio (vectorInicializar c m, i, fallidas) = .again t
    · obtain ⟨t, next⟩ := goes
      refine .again next ?_
      rcases turnoNext_again next with ⟨-, rfl⟩ | ⟨-, m', i', room, small, rfl⟩
      · exact turnoNext_inicio registros positive within fallidas
      · rw [evicts] at room ⊢
        rcases hacerLugar_cases room with ⟨no, -⟩ | ⟨no, -⟩ | ⟨-, compacts⟩ | ⟨-, still, -, rfl⟩ |
          ⟨-, m₁, still, v, bound, busy, -, -⟩
        · cases no
        · cases no
        · cases (compactarDinam_inicio registros table compacts).2
        · rw [(compactarDinam_inicio registros table still).1]
          exact turnoNext_inicio_elimina registros positive within again
        · rw [(compactarDinam_inicio registros table still).1, inicio_libre c m bound] at busy
          cases busy
    · exact .stop fun t next => goes ⟨t, next⟩

/-- Where a compaction is always followed by an eviction. -/
theorem buscarNext_termina (table : Tabla c m) (again : eliminaNext c 0 = true)
    (goes : ∀ t, Visits (turnoNext c espacio) (m, m.ultimaPosicion, 0) t → SigueNext c espacio t) :
    Ends (turnoNext c espacio) (m, m.ultimaPosicion, 0) := by
  let μ : EstadoNext → ℕ ×ₗ ℕ ×ₗ ℕ := fun t => toLex (ocupadas c t.1,
    toLex (if eliminaNext c t.2.2 then 0 else 1, if t.2.1 = 0 then 0 else 1))
  refine ends_of_measure_or μ fun t u visited next => ?_
  have kept : Tabla c t.1 := visited.keeps (P := fun t => Tabla c t.1) table
    fun t u holds next => turnoNext_estable (tabla_estable registros) holds next
  have step := (goes t visited).1
  obtain ⟨m₁, i, fallidas⟩ := t
  rcases turnoNext_again next with ⟨back, rfl⟩ | ⟨-, m', i', room, small, rfl⟩
  · refine Or.inl ?_
    have moved : i ≠ 0 := by
      rintro rfl
      exact step rfl back
    simp only [μ, moved, if_true, if_false, Prod.Lex.toLex_lt_toLex]
    exact Or.inr ⟨trivial, Or.inr ⟨trivial, Nat.zero_lt_one⟩⟩
  · cases evicts : eliminaNext c fallidas with
    | true =>
      rw [evicts] at room
      rcases hacerLugar_elimina room with ⟨-, rfl, rfl⟩ | fewer
      · exact Or.inr (turnoNext_inicio_termina registros positive within kept again _ _)
      · refine Or.inl ?_
        simp only [μ, Prod.Lex.toLex_lt_toLex]
        exact Or.inl fewer
    | false =>
      rw [evicts] at room
      have fewer := hacerLugar_ocupadas registros kept room
      refine Or.inl ?_
      simp only [μ, evicts, again, Prod.Lex.toLex_lt_toLex, if_true, Bool.false_eq_true, if_false]
      rcases fewer.lt_or_eq with less | same
      · exact Or.inl less
      · exact Or.inr ⟨same, Or.inl Nat.zero_lt_one⟩

omit positive within in
/-- Where every failed search compacts. -/
theorem buscarNext_termina_uno (table : Tabla c m) (freq : c.freq = 1)
    (goes : ∀ t, Visits (turnoNext c espacio) (m, m.ultimaPosicion, 0) t → SigueNext c espacio t) :
    Ends (turnoNext c espacio) (m, m.ultimaPosicion, 0) := by
  let μ : EstadoNext → ℕ ×ₗ (ℕ ×ₗ ℕ ×ₗ ℕ) ×ₗ ℕ := fun t => toLex (ocupadas c t.1,
    toLex (desorden c t.1, if t.2.1 = 0 then 0 else 1))
  have compacts : eliminaNext c 0 = false := by
    rw [eliminaNext, freq]
    decide
  refine ends_of_measure μ fun t u visited next => ?_
  have kept : Tabla c t.1 ∧ t.2.2 = 0 := by
    refine visited.keeps (P := fun t => Tabla c t.1 ∧ t.2.2 = 0) ⟨table, rfl⟩ ?_
    rintro ⟨m₁, i, fallidas⟩ u ⟨holds, zero⟩ next
    refine ⟨turnoNext_estable (tabla_estable registros) holds next, ?_⟩
    dsimp only at zero
    subst zero
    rcases turnoNext_again next with ⟨-, rfl⟩ | ⟨-, m', i', -, -, rfl⟩
    · rfl
    · simp [compacts]
  have step := goes t visited
  obtain ⟨m₁, i, fallidas⟩ := t
  obtain ⟨holds, zero⟩ := kept
  dsimp only at zero holds
  subst zero
  rcases turnoNext_again next with ⟨back, rfl⟩ | ⟨missing, m', i', room, small, rfl⟩
  · have moved : i ≠ 0 := by
      rintro rfl
      exact step.1 rfl back
    simp only [μ, moved, if_true, if_false, Prod.Lex.toLex_lt_toLex]
    exact Or.inr ⟨trivial, Or.inr ⟨trivial, Nat.zero_lt_one⟩⟩
  · rw [compacts] at room
    have yields := step.2 freq missing
    simp only [μ, Prod.Lex.toLex_lt_toLex]
    rcases hacerLugar_compacta registros holds yields room with less | ⟨fewer, better⟩
    · exact Or.inl less
    · rcases fewer.lt_or_eq with less | same
      · exact Or.inl less
      · exact Or.inr ⟨same, Or.inl better⟩

end

/-! ### Worst -/

/-- Room is made at entry 0 or while some entry is occupied; where `FREQ` is 0 in sixteen bits,
the compaction gives way. -/
def SigueWorst (c : Config) (t : EstadoWorst) : Prop :=
  (t.1.keyVector t.2.1).dataSize = 0 → t.2.1 < c.cantRegistros → t.2.2.2.1 = 0 →
    t.2.2.2.2 = false →
    if eliminaWorst c then
      t.2.1 = 0 ∨ ∃ j < c.cantRegistros, (t.1.keyVector j).libre = false
    else Cede c t.1

theorem turnoWorst_again {posMayor mayor : Nat} {encontrado : Bool} {t : EstadoWorst}
    (next : turnoWorst c espacio (m, i, posMayor, mayor, encontrado) = .again t) :
    i < c.cantRegistros ∧
      ((∃ posMayor' mayor' encontrado', t = (m, i + 1, posMayor', mayor', encontrado') ∧
        (encontrado = true → encontrado' = true)) ∨
      ((m.keyVector i).dataSize = 0 ∧ mayor = 0 ∧ encontrado = false ∧ ∃ m' i',
        hacerLugar c m i (eliminaWorst c) = some (m', i') ∧
        ((espacio ≤ (m'.keyVector i').dataSize ∧
          t = (m', i' + 1, i', (m'.keyVector i').dataSize % 2 ^ 32, true)) ∨
        ((m'.keyVector i').dataSize < espacio ∧ t = (m', 1, posMayor, mayor, false))))) := by
  simp only [turnoWorst] at next
  split at next
  · rename_i runs
    refine ⟨runs.2, ?_⟩
    split at next
    · rename_i empty
      split at next
      · rename_i none
        have searching : encontrado = false := by
          rcases runs.1 with same | filled
          · exact same
          · omega
        refine Or.inr ⟨empty, none, searching, ?_⟩
        split at next
        · cases next
        · rename_i m' i' room
          refine ⟨m', i', room, ?_⟩
          split at next
          · rename_i fits
            cases next
            exact Or.inl ⟨fits, rfl⟩
          · rename_i small
            cases next
            exact Or.inr ⟨by omega, by rw [searching]⟩
      · cases next
        exact Or.inl ⟨_, _, _, rfl, fun _ => rfl⟩
    · split at next
      · cases next
        exact Or.inl ⟨_, _, _, rfl, id⟩
      · cases next
        exact Or.inl ⟨_, _, _, rfl, id⟩
  · cases next

theorem buscarWorst_termina (registros : 0 < c.cantRegistros) (within : espacio ≤ c.cacheSize)
    (table : Tabla c m)
    (goes : ∀ t, Visits (turnoWorst c espacio) (m, 0, 0, 0, false) t → SigueWorst c t) :
    Ends (turnoWorst c espacio) (m, 0, 0, 0, false) := by
  let μ : EstadoWorst → ℕ ×ₗ ℕ ×ₗ (ℕ ×ₗ ℕ ×ₗ ℕ) ×ₗ ℕ := fun t =>
    toLex (if t.2.2.2.2 then 0 else 1, toLex (ocupadas c t.1,
      toLex (desorden c t.1, c.cantRegistros - t.2.1)))
  refine ends_of_measure μ fun t u visited next => ?_
  have kept : Tabla c t.1 := visited.keeps (P := fun t => Tabla c t.1) table
    fun t u holds next => turnoWorst_estable (tabla_estable registros) holds next
  have step := goes t visited
  obtain ⟨m₁, i, posMayor, mayor, encontrado⟩ := t
  obtain ⟨inside, scans | ⟨empty, none, searching, m', i', room, rest⟩⟩ := turnoWorst_again next
  · obtain ⟨posMayor', mayor', encontrado', rfl, stays⟩ := scans
    simp only [μ, Prod.Lex.toLex_lt_toLex]
    cases encontrado with
    | true =>
      rw [stays rfl]
      exact Or.inr ⟨rfl, Or.inr ⟨trivial, Or.inr ⟨trivial, by omega⟩⟩⟩
    | false =>
      cases encontrado' with
      | true => exact Or.inl Nat.zero_lt_one
      | false => exact Or.inr ⟨rfl, Or.inr ⟨trivial, Or.inr ⟨trivial, by omega⟩⟩⟩
  · have more := step empty inside none searching
    subst searching
    rcases rest with ⟨-, rfl⟩ | ⟨small, rfl⟩
    · simp only [μ, Prod.Lex.toLex_lt_toLex]
      exact Or.inl Nat.zero_lt_one
    · simp only [μ, Prod.Lex.toLex_lt_toLex]
      refine Or.inr ⟨trivial, ?_⟩
      cases evicts : eliminaWorst c with
      | true =>
        rw [evicts] at room more
        rcases hacerLugar_elimina room with ⟨last, rfl, rfl⟩ | fewer
        · exfalso
          rcases more with rfl | ⟨j, bound, busy⟩
          · rw [inicio_primera] at small
            omega
          · have free := borrar_fin last bound
            dsimp only at busy
            rw [busy] at free
            cases free
        · exact Or.inl fewer
      | false =>
        rw [evicts] at room more
        rcases hacerLugar_compacta registros kept more room with less | ⟨fewer, better⟩
        · exact Or.inl less
        · rcases fewer.lt_or_eq with less | same
          · exact Or.inl less
          · exact Or.inr ⟨same, Or.inl better⟩

/-! ### Buddy -/

theorem llenas_le : suma c pesoLlena m ≤ c.cantRegistros := by
  refine (sum_le_sum fun i _ => ?_).trans_eq (card_eq_sum_ones _).symm |>.trans_eq
    (card_range _)
  unfold pesoLlena
  split <;> omega

/-- A join empties the neighbour. -/
theorem llenas_junta {posicion : Nat} {vecino : Int} (inside : posicion < c.cantRegistros)
    (apart : vecino ≠ posicion) (joins : cumple c m posicion vecino = true) :
    suma c pesoLlena (juntarlos m posicion vecino.toNat) < suma c pesoLlena m := by
  simp only [cumple] at joins
  split at joins
  · rename_i bounds
    simp only [Bool.and_eq_true, decide_eq_true_eq, beq_iff_eq] at joins
    obtain ⟨⟨⟨filled, same⟩, -⟩, -⟩ := joins
    have different : posicion ≠ vecino.toNat := by omega
    have parts := suma_par (c := c) pesoLlena inside (by omega) different
      fun k first second => juntarlos_other m first second
    have gone := juntarlos_posicion m different
    have few : pesoLlena posicion ((juntarlos m posicion vecino.toNat).keyVector posicion) ≤ 1 := by
      unfold pesoLlena
      split <;> omega
    simp only [pesoLlena, gone, ← same, filled, if_true, lt_irrefl, if_false] at parts few
    omega
  · cases joins

theorem juntarSiCumple_llenas {posicion : Nat} {vecino : Int} (inside : posicion < c.cantRegistros)
    (apart : vecino ≠ posicion) (cuenta : Nat) :
    suma c pesoLlena (juntarSiCumple c m posicion vecino cuenta).1 ≤ suma c pesoLlena m ∧
      (cumple c m posicion vecino = true →
        suma c pesoLlena (juntarSiCumple c m posicion vecino cuenta).1 < suma c pesoLlena m) ∧
      (cumple c m posicion vecino = false → (juntarSiCumple c m posicion vecino cuenta).1 = m) := by
  unfold juntarSiCumple
  split
  · rename_i joins
    have less := llenas_junta inside apart joins
    exact ⟨less.le, fun _ => less, fun no => absurd (joins.symm.trans no) (by decide)⟩
  · rename_i no
    exact ⟨le_rfl, fun joins => absurd joins no, fun _ => rfl⟩

theorem juntarSiCumple_cuenta (m : Motor) (posicion : Nat) (vecino : Int) (cuenta : Nat) :
    cuenta ≤ (juntarSiCumple c m posicion vecino cuenta).2 := by
  unfold juntarSiCumple
  split
  · exact Nat.le_succ cuenta
  · exact le_rfl

/-- A turn of the joins that starts with a neighbour to join has one join less to make. -/
theorem eliminaBuddyLoop_sigue {posicion : Nat} (k : Nat) :
    ∀ {m : Motor} {siguiente anterior : Int} {s a : Nat}, posicion < c.cantRegistros →
      (posicion : Int) < siguiente → anterior < posicion → suma c pesoLlena m ≤ k →
      (cumple c m posicion siguiente || cumple c m posicion anterior) = true →
      (eliminaBuddyLoop c posicion k m siguiente anterior s a).isSome := by
  induction k with
  | zero =>
    intro m siguiente anterior s a inside after before few enters
    rw [Bool.or_eq_true] at enters
    rcases enters with joins | joins
    · have := llenas_junta inside (by omega) joins
      omega
    · have := llenas_junta inside (by omega) joins
      omega
  | succ k ih =>
    intro m siguiente anterior s a inside after before few enters
    simp only [eliminaBuddyLoop, inside, if_true]
    obtain ⟨le₁, lt₁, same₁⟩ :=
      juntarSiCumple_llenas (m := m) inside (by omega : siguiente ≠ posicion) s
    have count₁ := juntarSiCumple_cuenta (c := c) m posicion siguiente s
    generalize juntarSiCumple c m posicion siguiente s = r₁ at le₁ lt₁ same₁ count₁ ⊢
    obtain ⟨le₂, lt₂, -⟩ :=
      juntarSiCumple_llenas (m := r₁.1) inside (by omega : anterior ≠ posicion) a
    have count₂ := juntarSiCumple_cuenta (c := c) r₁.1 posicion anterior a
    generalize juntarSiCumple c r₁.1 posicion anterior a = r₂ at le₂ lt₂ count₂ ⊢
    split
    · rename_i goes
      refine ih inside (by omega) (by omega) ?_ goes
      rw [Bool.or_eq_true] at enters
      cases right : cumple c m posicion siguiente with
      | true =>
        have := lt₁ right
        omega
      | false =>
        rw [same₁ right] at lt₂ le₂
        have := lt₂ (by simpa [right] using enters)
        omega
    · rfl

/-- The joins of an eviction come to an end. -/
theorem eliminaBuddyLoop_termina (c : Config) (m : Motor) (posicion : Nat) {fuel : Nat}
    (enough : c.cantRegistros < fuel) :
    (eliminaBuddyLoop c posicion fuel m (posicion + 1) (posicion - 1) 0 0).isSome := by
  obtain ⟨k, rfl⟩ : ∃ k, fuel = k + 1 := ⟨fuel - 1, by omega⟩
  rw [eliminaBuddyLoop]
  split
  · rename_i inside
    have count₁ := juntarSiCumple_cuenta (c := c) m posicion (posicion + 1) 0
    generalize juntarSiCumple c m posicion (posicion + 1) 0 = r₁ at count₁ ⊢
    have count₂ := juntarSiCumple_cuenta (c := c) r₁.1 posicion (posicion - 1) 0
    dsimp only
    generalize juntarSiCumple c r₁.1 posicion (posicion - 1) 0 = r₂ at count₂ ⊢
    split
    · rename_i goes
      have few := llenas_le (c := c) (m := r₂.1)
      exact eliminaBuddyLoop_sigue k inside (by omega) (by omega) (by omega) goes
    · rfl
  · rfl

/-- Without a victim the sort has no key to follow, and the position stays behind the table. -/
theorem ordenarPasadas_nula (k : Nat) {posicion pos' : Nat}
    (runs : ordenarPasadas c (some none) k m posicion = some (m', pos')) : pos' = posicion := by
  induction k generalizing m posicion with
  | zero =>
    cases runs
    rfl
  | succ k ih =>
    simp only [ordenarPasadas, Option.bind_eq_bind, Option.bind_eq_some_iff] at runs
    obtain ⟨⟨m₁, pos₁, flag⟩, first, rest⟩ := runs
    have stays : pos₁ = posicion := by
      refine foldlM_invariant _ (fun r : Motor × Nat × Bool => r.2.1 = posicion) _ ?_ _ _ rfl first
      intro j b b' _ holds step
      simp only [ordenarPaso] at step
      split at step
      · split at step
        · rename_i absent
          cases absent
        · cases step
      · cases step
        exact holds
    split at rest
    · exact (ih rest).trans stays
    · cases rest
      exact stays

theorem turnoBuddy_again {fuel lugares : Nat} {encontrado : Bool} {t : EstadoBuddy}
    (next : turnoBuddy c fuel espacio (m, i, lugares, encontrado) = .again t) :
    i < c.cantRegistros ∧ ((t.1 = m ∧ t.2.1 = i + 1) ∨ ∃ i',
      eliminaBuddy c fuel (eliminarParticion c m none).1 (eliminarParticion c m none).2 =
        some (t.1, i') ∧ t.2.1 = i' + 1) := by
  simp only [turnoBuddy] at next
  split at next
  · rename_i runs
    refine ⟨runs.2, ?_⟩
    split at next
    · split at next
      · split at next
        · cases next
        · rename_i m' i' joins
          split at next
          · cases next
            exact Or.inr ⟨i', joins, rfl⟩
          · cases next
            exact Or.inr ⟨i', joins, rfl⟩
      · cases next
        exact Or.inl ⟨rfl, rfl⟩
    · split at next
      · cases next
        exact Or.inl ⟨rfl, rfl⟩
      · cases next
        exact Or.inl ⟨rfl, rfl⟩
  · cases next

theorem buscarBuddy_termina (registros : 0 < c.cantRegistros) (table : Tabla c m) (fuel : Nat) :
    Ends (turnoBuddy c fuel espacio) (m, 0, c.cantRegistros, false) := by
  let μ : EstadoBuddy → ℕ ×ₗ ℕ := fun t => toLex (ocupadas c t.1, c.cantRegistros - t.2.1)
  refine ends_of_measure μ fun t u visited next => ?_
  have kept : Tabla c t.1 := visited.keeps (P := fun t => Tabla c t.1) table
    fun t u holds next => turnoBuddy_estable (tabla_estable registros) holds next
  obtain ⟨m₁, i, lugares, encontrado⟩ := t
  obtain ⟨inside, ⟨same, on⟩ | ⟨i', joins, on⟩⟩ := turnoBuddy_again next
  · simp only [μ, same, on, Prod.Lex.toLex_lt_toLex]
    exact Or.inr ⟨trivial, by omega⟩
  · have table₁ := eliminarParticion_estable (tabla_estable registros) kept
    have fewer := (eliminaBuddy_estable (ocupadas_estable registros _) ⟨table₁, le_rfl⟩ joins).1.2
    simp only [μ, on, Prod.Lex.toLex_lt_toLex]
    rcases eliminarParticion_cases c m₁ with ⟨-, same⟩ | ⟨v, bound, busy, same⟩
    · rw [same] at joins fewer
      have last : i' = c.cantRegistros := by
        have absent : (m₁.keyVector c.cantRegistros).key = none :=
          (kept.fin c.cantRegistros le_rfl).2.2
        simp only [eliminaBuddy, ordenarVector, Option.map_some, Option.getD_some, absent,
          Option.bind_eq_bind, Option.bind_eq_some_iff] at joins
        obtain ⟨⟨sorted, pos⟩, order, joined, -, ends⟩ := joins
        cases ends
        exact ordenarPasadas_nula _ order
      rcases fewer.lt_or_eq with less | equal
      · exact Or.inl less
      · exact Or.inr ⟨equal, by omega⟩
    · rw [same] at fewer
      exact Or.inl (fewer.trans_lt (ocupadas_elimina bound busy))

/-! ### The three searches -/

def nextDe64 : Config where
  esquema := .partDinam
  particion := .next
  victim := .fifo
  freq := -1
  maxKey := 40
  cacheSize := 64
  partMinima := 16
  cacheSize_lt := cabe_64

end LosAltos.Rc
