import LosAltos.Rc.Engine

/-!
# What the loops over the partition table can do

Sorting, joining, compacting, evicting and searching change the table by a few
elementary steps. A predicate that every one of them keeps is kept by every
search, however long it runs; the loops are treated here once for all.
-/
namespace LosAltos.Rc

open Lib

/-- Every entry has its area for the key, and the memory past the table still
reads as zeros. -/
structure Tabla (c : Config) (m : Motor) : Prop where
  claves : ∀ i, i < c.cantRegistros → (m.keyVector i).key.isSome
  fin : ∀ i, c.cantRegistros ≤ i →
    (m.keyVector i).dataSize = 0 ∧ (m.keyVector i).libre = false ∧ (m.keyVector i).key = none

/-- Kept by every elementary step, under the guards the code has checked. -/
structure Estable (c : Config) (P : Motor → Prop) : Prop where
  tabla : ∀ m, P m → Tabla c m
  posicion : ∀ m i, P m → P { m with ultimaPosicion := i }
  elimina : ∀ m i, P m → i < c.cantRegistros → (m.keyVector i).libre = false →
    P (eliminarParticion c m (some i)).1
  permuta : ∀ m j, P m → j + 1 < c.cantRegistros →
    0 < (m.keyVector j).dataSize ∧ 0 < (m.keyVector (j + 1)).dataSize → P (m.permuta j (j + 1))
  junta : ∀ m actual vecino, P m → actual < c.cantRegistros → vecino < c.cantRegistros →
    actual ≠ vecino → (m.keyVector vecino).libre → 0 < (m.keyVector vecino).dataSize →
    P (juntarlos m actual vecino)
  uneAdelante : ∀ m i, P m → i + 1 < c.cantRegistros →
    (m.keyVector i).libre → (m.keyVector (i + 1)).libre → 0 < (m.keyVector (i + 1)).dataSize →
    P (unir m (i + 1) i (m.keyVector i).data (m.keyVector i) (m.keyVector (i + 1)))
  uneAtras : ∀ m i, P m → i + 1 < c.cantRegistros →
    (m.keyVector i).libre → (m.keyVector (i + 1)).libre → 0 < (m.keyVector (i + 1)).dataSize →
    P (unir m i (i + 1) (m.keyVector i).data (m.keyVector i) (m.keyVector (i + 1)))
  anula : ∀ m i, P m → i < c.cantRegistros → (m.keyVector i).libre →
    (m.keyVector i).dataSize = 0 →
    P (m.pon i { m.keyVector i with data := 0 })
  mueve : ∀ m i, P m → i + 1 < c.cantRegistros →
    ((m.keyVector i).libre ∧ 0 < (m.keyVector i).dataSize) ∧ (m.keyVector (i + 1)).libre = false →
    P (mover m i)
  inicializa : ∀ m, P m → P (vectorInicializar c m)
  divide : ∀ m lugares pos prox, P m → lugares < c.cantRegistros → pos < c.cantRegistros →
    lugares ≠ pos → (m.keyVector lugares).libre → (m.keyVector pos).dataSize = 0 → 0 < prox →
    2 * prox ≤ (m.keyVector lugares).dataSize → buscarPosLibre c m = some pos →
    P (dividir m lugares pos prox)

theorem Tabla.pon {c : Config} {m : Motor} (table : Tabla c m) {i : Nat} {e : KeyElement}
    (bound : i < c.cantRegistros) (key : e.key.isSome) : Tabla c (m.pon i e) := by
  constructor
  · intro j below
    rw [Motor.pon_keyVector]
    split
    · exact key
    · exact table.claves j below
  · intro j outside
    have other : j ≠ i := by omega
    simpa [other] using table.fin j outside

theorem Tabla.pon_unuse {c : Config} {m : Motor} (table : Tabla c m) (i dataUnuse : Nat) :
    Tabla c (m.pon i { m.keyVector i with dataUnuse }) := by
  constructor
  · intro j below
    rw [Motor.pon_keyVector]
    split
    · rename_i same
      rw [← same]
      exact table.claves j below
    · exact table.claves j below
  · intro j outside
    rw [Motor.pon_keyVector]
    split
    · rename_i same
      rw [← same]
      exact table.fin j outside
    · exact table.fin j outside

theorem Tabla.anota {c : Config} {m : Motor} (table : Tabla c m) (h : Hecho) :
    Tabla c (m.anota h) := ⟨table.claves, table.fin⟩

theorem Tabla.congr {c : Config} {m m' : Motor} (table : Tabla c m)
    (same : ∀ i, (m'.keyVector i).sinRotulo = (m.keyVector i).sinRotulo) : Tabla c m' := by
  have keys : ∀ i, (m'.keyVector i).key = (m.keyVector i).key :=
    fun i => congrArg (·.key) (same i)
  have sizes : ∀ i, (m'.keyVector i).dataSize = (m.keyVector i).dataSize :=
    fun i => congrArg (·.dataSize) (same i)
  have free : ∀ i, (m'.keyVector i).libre = (m.keyVector i).libre :=
    fun i => congrArg (·.libre) (same i)
  constructor
  · intro i below
    rw [keys]
    exact table.claves i below
  · intro i outside
    rw [keys, sizes, free]
    exact table.fin i outside

theorem tabla_estable {c : Config} (registros : 0 < c.cantRegistros) : Estable c (Tabla c) where
  tabla _ table := table
  posicion _ _ table := ⟨table.claves, table.fin⟩
  elimina m i table bound _ := by
    simp only [eliminarParticion, Option.getD_some]
    rw [if_pos (by omega)]
    exact table.pon bound (table.claves i bound)
  permuta m j table bound _ :=
    (table.pon (by omega) (table.claves _ bound)).pon bound (table.claves _ (by omega))
  junta m actual vecino table first second different _ _ := by
    refine Tabla.pon (Tabla.pon (table.anota _) first ?_) second ?_
    · exact table.claves actual first
    · simpa [Ne.symm different] using table.claves vecino second
  uneAdelante m i table bound _ _ _ := by
    refine Tabla.pon (Tabla.pon (table.anota _) bound ?_) (by omega) ?_
    · exact table.claves (i + 1) bound
    · simpa using table.claves i (by omega)
  uneAtras m i table bound _ _ _ := by
    refine Tabla.pon (Tabla.pon (table.anota _) (by omega) ?_) bound ?_
    · exact table.claves i (by omega)
    · simpa using table.claves (i + 1) bound
  anula m i table bound _ _ := table.pon bound (table.claves i bound)
  mueve m i table bound _ := by
    have moved : Tabla c { m.anota .mueve with
        cache := escribir m.cache (m.keyVector i).data
          (leer m.cache (m.keyVector (i + 1)).data (m.keyVector (i + 1)).dataSize) } :=
      ⟨table.claves, table.fin⟩
    exact (moved.pon (by omega) (table.claves _ bound)).pon bound (table.claves i (by omega))
  inicializa m table := by
    constructor
    · intro i below
      simp only [vectorInicializar]
      split
      · rfl
      · simp
    · intro i outside
      have positive : i ≠ 0 := by omega
      have past : ¬i < c.cantRegistros := by omega
      simpa [vectorInicializar, positive, past] using table.fin i outside
  divide m lugares pos prox table first second different _ _ _ _ _ := by
    have flags : Tabla c (actualizarFlags (m.anota (.divide (m.keyVector lugares).dataSize prox))
        lugares pos) := (table.anota _).congr (actualizarFlags_sinRotulo _ _ _)
    refine Tabla.pon (Tabla.pon flags second ?_) first ?_
    · exact flags.claves pos second
    · simpa [cargarEnVector, different] using flags.claves lugares first

theorem Estable.and {c : Config} {P Q : Motor → Prop} (left : Estable c P) (right : Estable c Q) :
    Estable c (fun m => P m ∧ Q m) where
  tabla m h := left.tabla m h.1
  posicion m i h := ⟨left.posicion m i h.1, right.posicion m i h.2⟩
  elimina m i h b f := ⟨left.elimina m i h.1 b f, right.elimina m i h.2 b f⟩
  permuta m j h b s := ⟨left.permuta m j h.1 b s, right.permuta m j h.2 b s⟩
  junta m i j h b b' d f s := ⟨left.junta m i j h.1 b b' d f s, right.junta m i j h.2 b b' d f s⟩
  uneAdelante m i h b f g s := ⟨left.uneAdelante m i h.1 b f g s, right.uneAdelante m i h.2 b f g s⟩
  uneAtras m i h b f g s := ⟨left.uneAtras m i h.1 b f g s, right.uneAtras m i h.2 b f g s⟩
  anula m i h b f s := ⟨left.anula m i h.1 b f s, right.anula m i h.2 b f s⟩
  mueve m i h b f := ⟨left.mueve m i h.1 b f, right.mueve m i h.2 b f⟩
  inicializa m h := ⟨left.inicializa m h.1, right.inicializa m h.2⟩
  divide m l p x h b b' d f s n z o :=
    ⟨left.divide m l p x h.1 b b' d f s n z o, right.divide m l p x h.2 b b' d f s n z o⟩

section Recorridos

variable {c : Config} {P : Motor → Prop} {m m' : Motor}

theorem avanza_le (p : Nat → Bool) (n k i : Nat) (bound : i ≤ n) : avanza p n k i ≤ n := by
  induction k generalizing i with
  | zero => exact bound
  | succ k ih =>
    unfold avanza
    split
    · rename_i runs
      simp only [Bool.and_eq_true, decide_eq_true_eq] at runs
      exact ih (i + 1) runs.2
    · exact bound

/-- With enough iterations the scan stops at the end or where the test fails. -/
theorem avanza_stops (p : Nat → Bool) (n k i : Nat) (fuel : n ≤ i + k) (bound : i ≤ n)
    (inside : avanza p n k i ≠ n) : p (avanza p n k i) = false := by
  induction k generalizing i with
  | zero =>
    have : avanza p n 0 i = i := rfl
    omega
  | succ k ih =>
    unfold avanza at inside ⊢
    split
    · rename_i runs
      rw [if_pos runs] at inside
      simp only [Bool.and_eq_true, decide_eq_true_eq] at runs
      exact ih (i + 1) (by omega) runs.2 inside
    · rename_i stopped
      rw [if_neg stopped] at inside
      have below : i < n := by omega
      simpa [below] using stopped

theorem buscarPosLibre_some {pos : Nat} (found : buscarPosLibre c m = some pos) :
    pos < c.cantRegistros ∧ (m.keyVector pos).dataSize = 0 := by
  simp only [buscarPosLibre] at found
  split at found
  · cases found
  · rename_i inside
    simp only [Option.some.injEq] at found
    have stop := avanza_stops (fun i => (m.keyVector i).dataSize != 0) c.cantRegistros
      c.cantRegistros 0 (by omega) (by omega) inside
    have bound := avanza_le (fun i => (m.keyVector i).dataSize != 0) c.cantRegistros
      c.cantRegistros 0 (by omega)
    rw [found] at stop inside bound
    exact ⟨by omega, by simpa using stop⟩

/-- A position `borrar` may return: the end of the table, or an occupied entry. -/
def Victimable (c : Config) (m : Motor) (i : Nat) : Prop :=
  i = c.cantRegistros ∨ (i < c.cantRegistros ∧ (m.keyVector i).libre = false)

/-- The victim is the one given or an occupied entry found later. -/
theorem borrarOcupadas_victim (Q : Nat → Prop)
    (busy : ∀ i, i < c.cantRegistros → (m.keyVector i).libre = false → Q i)
    (k i : Nat) (tp : Tiempo) (resultado : Nat) (victim : Q resultado) :
    Q (borrarOcupadas c m k i tp resultado).2.2 := by
  induction k generalizing i tp resultado with
  | zero => exact victim
  | succ k ih =>
    simp only [borrarOcupadas]
    split
    · rename_i runs
      split
      · exact ih _ _ _ (busy i runs.1 runs.2.2)
      · exact ih _ _ _ victim
    · exact victim

theorem borrarLoop_victim (Q : Nat → Prop)
    (busy : ∀ i, i < c.cantRegistros → (m.keyVector i).libre = false → Q i)
    (k i : Nat) (tp : Tiempo) (resultado : Nat) (victim : Q resultado) :
    Q (borrarLoop c m k i tp resultado) := by
  induction k generalizing i tp resultado with
  | zero => exact victim
  | succ k ih =>
    simp only [borrarLoop]
    split
    · exact ih _ _ _ (borrarOcupadas_victim Q busy _ _ _ _ victim)
    · exact victim

theorem borrar_victim : Victimable c m (borrar c m) := by
  apply borrarLoop_victim (Victimable c m) fun i bound busy => Or.inr ⟨bound, busy⟩
  by_cases inside : avanza (fun i => (m.keyVector i).libre) c.cantRegistros c.cantRegistros 0 =
      c.cantRegistros
  · exact Or.inl inside
  · have bound := avanza_le (fun i => (m.keyVector i).libre) c.cantRegistros c.cantRegistros 0
      (by omega)
    exact Or.inr ⟨by omega, avanza_stops (fun i => (m.keyVector i).libre) _ _ 0 (by omega)
      (by omega) inside⟩

theorem eliminarParticion_estable (stable : Estable c P) (holds : P m) :
    P (eliminarParticion c m none).1 := by
  have same : eliminarParticion c m none = eliminarParticion c m (some (borrar c m)) := rfl
  rw [same]
  rcases borrar_victim (c := c) (m := m) with last | inside
  · simpa [eliminarParticion, last] using holds
  · exact stable.elimina m _ holds inside.1 inside.2

theorem eliminarParticion_le : (eliminarParticion c m none).2 ≤ c.cantRegistros := by
  have victim := borrar_victim (c := c) (m := m)
  have position : (eliminarParticion c m none).2 = borrar c m := by
    simp only [eliminarParticion, Option.getD_none]
    split <;> rfl
  rcases victim with last | inside <;> omega

/-- Kept by the swaps of the sort, which are between neighbours that are not empty. -/
structure Permutable (c : Config) (P : Motor → Prop) : Prop where
  tabla : ∀ m, P m → Tabla c m
  permuta : ∀ m j, P m → j + 1 < c.cantRegistros → 0 < (m.keyVector j).dataSize →
    0 < (m.keyVector (j + 1)).dataSize → P (m.permuta j (j + 1))

theorem Estable.permutable (stable : Estable c P) : Permutable c P where
  tabla := stable.tabla
  permuta m j holds bound one other := stable.permuta m j holds bound ⟨one, other⟩

/-- Sorting keeps the predicate, and the position it follows inside the table. -/
theorem ordenarPaso_permutable (swaps : Permutable c P) {clave : Option (Option Int)}
    {posicion2 j : Nat} {flag : Bool} {r : Motor × Nat × Bool} (holds : P m)
    (runs : ordenarPaso c clave m posicion2 flag j = some r) :
    P r.1 ∧ (posicion2 < c.cantRegistros → r.2.1 < c.cantRegistros) := by
  simp only [ordenarPaso] at runs
  split at runs
  · rename_i swap
    have inside : j + 1 < c.cantRegistros := by
      by_contra outside
      have := ((swaps.tabla m holds).fin (j + 1) (by omega)).1
      omega
    have moved := swaps.permuta m j holds inside swap.2.1 swap.2.2
    split at runs
    · simp only [Option.some.injEq] at runs
      rw [← runs]
      exact ⟨moved, id⟩
    · split at runs
      · simp only [Option.some.injEq] at runs
        rw [← runs]
        refine ⟨moved, fun start => ?_⟩
        dsimp only
        split
        · exact inside
        · exact start
      · cases runs
  · simp only [Option.some.injEq] at runs
    rw [← runs]
    exact ⟨holds, id⟩

/-- A fold of fallible steps keeps what every step keeps. -/
theorem foldlM_invariant {α β : Type} (f : β → α → Option β) (Q : β → Prop) (l : List α)
    (step : ∀ x b b', x ∈ l → Q b → f b x = some b' → Q b') :
    ∀ b b', Q b → l.foldlM f b = some b' → Q b' := by
  induction l with
  | nil =>
    intro b b' start ends
    simp only [List.foldlM_nil, Option.pure_def, Option.some.injEq] at ends
    rwa [← ends]
  | cons x rest ih =>
    intro b b' start ends
    simp only [List.foldlM_cons, Option.bind_eq_bind, Option.bind_eq_some_iff] at ends
    obtain ⟨middle, first, others⟩ := ends
    exact ih (fun y b b' member => step y b b' (List.mem_cons_of_mem x member)) middle b'
      (step x b middle List.mem_cons_self start first) others

theorem ordenarPasada_permutable (swaps : Permutable c P) {clave : Option (Option Int)}
    {posicion2 : Nat} {r : Motor × Nat × Bool} (holds : P m)
    (runs : ordenarPasada c clave m posicion2 = some r) :
    P r.1 ∧ (posicion2 < c.cantRegistros → r.2.1 < c.cantRegistros) := by
  refine foldlM_invariant _
    (fun r => P r.1 ∧ (posicion2 < c.cantRegistros → r.2.1 < c.cantRegistros)) _ ?_ _ _
    ⟨holds, id⟩ runs
  intro j b b' _ start step
  obtain ⟨kept, bound⟩ := ordenarPaso_permutable swaps start.1 step
  exact ⟨kept, fun inside => bound (start.2 inside)⟩

theorem ordenarPasadas_permutable (swaps : Permutable c P) {clave : Option (Option Int)} (k : Nat) :
    ∀ {m m' : Motor} {posicion2 pos' : Nat}, P m →
      ordenarPasadas c clave k m posicion2 = some (m', pos') →
      P m' ∧ (posicion2 < c.cantRegistros → pos' < c.cantRegistros) := by
  induction k with
  | zero =>
    intro m m' posicion2 pos' holds runs
    simp only [ordenarPasadas, Option.some.injEq, Prod.mk.injEq] at runs
    rw [← runs.1, ← runs.2]
    exact ⟨holds, id⟩
  | succ k ih =>
    intro m m' posicion2 pos' holds runs
    simp only [ordenarPasadas, Option.bind_eq_bind, Option.bind_eq_some_iff] at runs
    obtain ⟨pass, first, rest⟩ := runs
    obtain ⟨kept, bound⟩ := ordenarPasada_permutable swaps holds first
    split at rest
    · obtain ⟨last, position⟩ := ih kept rest
      exact ⟨last, fun inside => position (bound inside)⟩
    · simp only [Option.some.injEq, Prod.mk.injEq] at rest
      rw [← rest.1, ← rest.2]
      exact ⟨kept, bound⟩

theorem ordenarVector_permutable (swaps : Permutable c P) {posicion : Option Nat} {pos' : Nat}
    (holds : P m) (runs : ordenarVector c m posicion = some (m', pos')) :
    P m' ∧ (posicion.getD 0 < c.cantRegistros → pos' < c.cantRegistros) :=
  ordenarPasadas_permutable swaps _ holds runs

theorem juntarSiCumple_estable (stable : Estable c P) {posicion : Nat} {vecino : Int}
    (holds : P m) (bound : posicion < c.cantRegistros) (apart : vecino ≠ posicion) (cuenta : Nat) :
    P (juntarSiCumple c m posicion vecino cuenta).1 := by
  simp only [juntarSiCumple]
  split
  · rename_i joins
    simp only [cumple] at joins
    split at joins
    · rename_i range
      simp only [Bool.and_eq_true, decide_eq_true_eq] at joins
      exact stable.junta m posicion vecino.toNat holds bound (by omega) (by omega) joins.2
        joins.1.1.1
    · cases joins
  · exact holds

theorem eliminaBuddyLoop_estable (stable : Estable c P) (posicion k : Nat) :
    ∀ {m m' : Motor} {siguiente anterior : Int} {s a : Nat}, P m →
      (posicion : Int) < siguiente → anterior < posicion →
      eliminaBuddyLoop c posicion k m siguiente anterior s a = some m' → P m' := by
  induction k with
  | zero => intro m m' siguiente anterior s a _ _ _ runs; cases runs
  | succ k ih =>
    intro m m' siguiente anterior s a holds after before runs
    simp only [eliminaBuddyLoop] at runs
    split at runs
    · rename_i bound
      have first := juntarSiCumple_estable stable holds bound (by omega : siguiente ≠ posicion) s
      have second := juntarSiCumple_estable stable first bound (by omega : anterior ≠ posicion) a
      split at runs
      · exact ih second (by omega) (by omega) runs
      · simp only [Option.some.injEq] at runs
        rwa [← runs]
    · simp only [Option.some.injEq] at runs
      rwa [← runs]

theorem eliminaBuddy_estable (stable : Estable c P) {fuel posicionOrg pos' : Nat} (holds : P m)
    (runs : eliminaBuddy c fuel m posicionOrg = some (m', pos')) :
    P m' ∧ (posicionOrg < c.cantRegistros → pos' < c.cantRegistros) := by
  simp only [eliminaBuddy, Option.bind_eq_bind, Option.bind_eq_some_iff] at runs
  obtain ⟨sorted, order, joined, joins, ends⟩ := runs
  simp only [Option.some.injEq, Prod.mk.injEq] at ends
  obtain ⟨kept, bound⟩ := ordenarVector_permutable stable.permutable holds order
  rw [← ends.1, ← ends.2]
  exact ⟨eliminaBuddyLoop_estable stable _ _ kept (by omega) (by omega) joins, bound⟩

/-- What a step of the compaction does: it joins two free partitions, moves a free one behind an
occupied one, joins the last entry to the one before it, or leaves the table alone. -/
theorem compactarPaso_cases {r r' : Compactacion} {i : Nat} (bound : i < c.cantRegistros)
    (runs : compactarPaso c r i = some r') :
    (r'.motor = r.motor ∧ r'.ultimoLibre = r.ultimoLibre ∧ r'.compacte = r.compacte) ∨
    (r'.compacte = true ∧ ((i + 1 < c.cantRegistros ∧
      ((r.motor.keyVector i).libre ∧ 0 < (r.motor.keyVector i).dataSize) ∧
      ((((r.motor.keyVector (i + 1)).libre ∧ 0 < (r.motor.keyVector (i + 1)).dataSize) ∧
        r'.motor = (unir r.motor (i + 1) i (r.motor.keyVector i).data (r.motor.keyVector i)
          (r.motor.keyVector (i + 1))).pon i { r.motor.keyVector i with dataSize := 0, data := 0 }) ∨
      ((r.motor.keyVector (i + 1)).libre = false ∧ r'.motor = mover r.motor i)) ∧
      r'.ultimoLibre = i + 1) ∨
    ∃ j, i = j + 1 ∧ j + 2 = c.cantRegistros ∧ (r.motor.keyVector j).libre ∧
      ((r.motor.keyVector i).libre ∧ 0 < (r.motor.keyVector i).dataSize) ∧
      r'.motor = unir r.motor j i (r.motor.keyVector j).data (r.motor.keyVector j)
        (r.motor.keyVector i) ∧ r'.ultimoLibre = j)) := by
  unfold compactarPaso at runs
  split at runs
  · cases runs
    exact Or.inl ⟨rfl, rfl, rfl⟩
  · dsimp only at runs
    split at runs
    · rename_i inside
      split at runs
      · rename_i next
        split at runs
        · rename_i both
          simp only [Bool.and_eq_true, decide_eq_true_eq] at both
          cases runs
          have gone := unir_hueco r.motor (r.motor.keyVector i).data (r.motor.keyVector i)
            (r.motor.keyVector (i + 1)) (by omega : i + 1 ≠ i)
          refine Or.inr ⟨rfl, Or.inl ⟨inside, both.1, Or.inl ⟨⟨next, both.2⟩, ?_⟩, rfl⟩⟩
          rw [gone]
        · cases runs
          exact Or.inl ⟨rfl, rfl, rfl⟩
      · rename_i next
        split at runs
        · rename_i free
          simp only [Bool.and_eq_true, decide_eq_true_eq] at free
          cases runs
          exact Or.inr ⟨rfl, Or.inl ⟨inside, free, Or.inr ⟨by simpa using next, rfl⟩, rfl⟩⟩
        · cases runs
          exact Or.inl ⟨rfl, rfl, rfl⟩
    · rename_i last
      split at runs
      · split at runs
        · rename_i free
          simp only [Bool.and_eq_true, decide_eq_true_eq] at free
          split at runs
          · cases runs
          · split at runs
            · rename_i before
              cases runs
              exact Or.inr ⟨rfl, Or.inr ⟨_, rfl, by omega, before, free, rfl, rfl⟩⟩
            · cases runs
              exact Or.inl ⟨rfl, rfl, rfl⟩
        · cases runs
          exact Or.inl ⟨rfl, rfl, rfl⟩
      · cases runs
        exact Or.inl ⟨rfl, rfl, rfl⟩

theorem compactarPaso_estable (stable : Estable c P) {r r' : Compactacion} {i : Nat}
    (bound : i < c.cantRegistros) (holds : P r.motor)
    (runs : compactarPaso c r i = some r') : P r'.motor := by
  rcases compactarPaso_cases bound runs with ⟨same, -, -⟩ |
    ⟨-, ⟨inside, free, ⟨next, joined⟩ | ⟨busy, moved⟩, -⟩ | ⟨j, rfl, last, before, free, joined, -⟩⟩
  · rwa [same]
  · rw [joined]
    have gone := unir_hueco r.motor (r.motor.keyVector i).data (r.motor.keyVector i)
      (r.motor.keyVector (i + 1)) (by omega : i + 1 ≠ i)
    have emptied := stable.anula _ i
      (stable.uneAdelante r.motor i holds inside free.1 next.1 next.2) bound
      (by rw [gone]; exact free.1) (by rw [gone])
    rwa [gone] at emptied
  · rw [moved]
    exact stable.mueve r.motor i holds inside ⟨free, busy⟩
  · rw [joined]
    exact stable.uneAtras r.motor j holds bound before free.1 free.2

theorem compactarDinam_estable (stable : Estable c P) {compac : Option Nat} (holds : P m)
    (runs : compactarDinam c m = some (m', compac)) : P m' := by
  simp only [compactarDinam, Option.bind_eq_bind, Option.bind_eq_some_iff] at runs
  obtain ⟨sorted, order, r, loop, ends⟩ := runs
  simp only [Option.some.injEq, Prod.mk.injEq] at ends
  rw [← ends.1]
  refine foldlM_invariant _ (fun r : Compactacion => P r.motor) _ ?_ _ _ ?_ loop
  · intro i b b' member start step
    exact compactarPaso_estable stable (List.mem_range.mp member) start step
  · exact (ordenarVector_permutable stable.permutable holds order).1

theorem hacerLugar_estable (stable : Estable c P) {i i' : Nat} {elimina : Bool} (holds : P m)
    (runs : hacerLugar c m i elimina = some (m', i')) : P m' := by
  unfold hacerLugar at runs
  split at runs
  · have kept := eliminarParticion_estable stable holds
    dsimp only at runs
    split at runs
    · simp only [Option.some.injEq, Prod.mk.injEq] at runs
      rw [← runs.1]
      exact stable.inicializa _ kept
    · simp only [Option.some.injEq, Prod.mk.injEq] at runs
      rwa [← runs.1]
  · simp only [Option.bind_eq_bind, Option.bind_eq_some_iff] at runs
    obtain ⟨⟨compacted, compac⟩, compacts, ends⟩ := runs
    have kept := compactarDinam_estable stable holds compacts
    cases compac with
    | none =>
      simp only [Option.some.injEq] at ends
      have := eliminarParticion_estable stable kept
      rwa [ends] at this
    | some ultimo =>
      simp only [Option.some.injEq, Prod.mk.injEq] at ends
      rwa [← ends.1]

theorem buscarNextLoop_estable (stable : Estable c P) (espacio k : Nat) :
    ∀ {m m' : Motor} {i i' : Nat} {fallidas : Int}, P m →
      buscarNextLoop c espacio k m i fallidas = some (m', i') → P m' := by
  induction k with
  | zero => intro m m' i i' fallidas _ runs; cases runs
  | succ k ih =>
    intro m m' i i' fallidas holds runs
    simp only [buscarNextLoop] at runs
    split at runs
    · split at runs
      · cases runs
      · rename_i room
        have kept := hacerLugar_estable stable holds room
        split at runs
        · simp only [Option.some.injEq, Prod.mk.injEq] at runs
          rwa [← runs.1]
        · exact ih kept runs
    · split at runs
      · simp only [Option.some.injEq, Prod.mk.injEq] at runs
        rwa [← runs.1]
      · exact ih holds runs

theorem buscarWorstLoop_estable (stable : Estable c P) (espacio k : Nat) :
    ∀ {m m' : Motor} {i i' posMayor posMayor' mayor : Nat} {encontrado : Bool}, P m →
      buscarWorstLoop c espacio k m i posMayor mayor encontrado = some (m', i', posMayor') →
      P m' := by
  induction k with
  | zero => intro m m' i i' posMayor posMayor' mayor encontrado _ runs; cases runs
  | succ k ih =>
    intro m m' i i' posMayor posMayor' mayor encontrado holds runs
    simp only [buscarWorstLoop] at runs
    split at runs
    · split at runs
      · split at runs
        · split at runs
          · cases runs
          · rename_i room
            have kept := hacerLugar_estable stable holds room
            split at runs <;> exact ih kept runs
        · exact ih holds runs
      · split at runs <;> exact ih holds runs
    · simp only [Option.some.injEq, Prod.mk.injEq] at runs
      rwa [← runs.1]

/-- A block that `crear_arbol` may start from. -/
def Bloque (c : Config) (m : Motor) (lugares espacio : Nat) : Prop :=
  lugares = c.cantRegistros ∨
    (lugares < c.cantRegistros ∧ (m.keyVector lugares).libre ∧
      espacio ≤ (m.keyVector lugares).dataSize)

theorem buscarBuddyLoop_estable (stable : Estable c P) (fuel espacio k : Nat) :
    ∀ {m m' : Motor} {i lugares lugares' : Nat} {encontrado : Bool}, P m →
      Bloque c m lugares espacio →
      buscarBuddyLoop c fuel espacio k m i lugares encontrado = some (m', lugares') →
      P m' ∧ Bloque c m' lugares' espacio := by
  induction k with
  | zero => intro m m' i lugares lugares' encontrado _ _ runs; cases runs
  | succ k ih =>
    intro m m' i lugares lugares' encontrado holds block runs
    simp only [buscarBuddyLoop] at runs
    split at runs
    · rename_i inside
      split at runs
      · split at runs
        · rename_i missing
          -- a block already chosen is free and fits, so nothing is evicted for it
          have last : lugares = c.cantRegistros := by
            rcases block with last | ⟨_, free, fits⟩
            · exact last
            · rcases missing with ⟨-, small⟩ | busy
              · omega
              · rw [busy] at free
                cases free
          have kept := eliminarParticion_estable stable holds
          split at runs
          · cases runs
          · rename_i m₁ i₁ joins
            obtain ⟨joined, -⟩ := eliminaBuddy_estable stable kept joins
            split at runs
            · rename_i fits
              have bound : i₁ < c.cantRegistros := by
                by_contra outside
                have := ((stable.tabla _ joined).fin i₁ (by omega)).1
                omega
              exact ih joined (Or.inr ⟨bound, fits.2, by omega⟩) runs
            · exact ih joined (Or.inl last) runs
        · exact ih holds block runs
      · split at runs
        · rename_i fits
          have here : Bloque c m i espacio := Or.inr ⟨inside.2, fits.2, fits.1⟩
          refine ih holds ?_ runs
          split
          · exact here
          · split
            · exact here
            · exact block
        · exact ih holds block runs
    · simp only [Option.some.injEq, Prod.mk.injEq] at runs
      rw [← runs.1, ← runs.2]
      exact ⟨holds, block⟩

/-- How `crear_arbol` ends: with no entry left, or by taking a block. -/
theorem crearArbol_estable (stable : Estable c P) (minima : 0 < c.partMinima)
    (lugares espacio k : Nat) :
    ∀ {m m' : Motor} {r : Option Nat}, P m → Bloque c m lugares espacio →
      crearArbol c lugares espacio k m = some (m', r) →
      (r = none ∧ P m') ∨
      ∃ m₁, P m₁ ∧ Bloque c m₁ lugares espacio ∧ r = some lugares ∧
        m' = cerrar m₁ lugares ((m₁.keyVector lugares).dataSize / 2 % 2 ^ 32) espacio := by
  induction k with
  | zero => intro m m' r _ _ runs; cases runs
  | succ k ih =>
    intro m m' r holds block runs
    simp only [crearArbol] at runs
    split at runs
    · rename_i divides
      have half : (m.keyVector lugares).dataSize / 2 % 2 ^ 32 ≤
          (m.keyVector lugares).dataSize / 2 := Nat.mod_le _ _
      have ⟨bound, free⟩ : lugares < c.cantRegistros ∧ (m.keyVector lugares).libre := by
        rcases block with last | fits
        · have := ((stable.tabla m holds).fin lugares (by omega)).1
          omega
        · exact ⟨fits.1, fits.2.1⟩
      split at runs
      · rename_i pos found
        obtain ⟨inside, empty⟩ := buscarPosLibre_some found
        have apart : lugares ≠ pos := by
          rintro rfl
          omega
        have lower := dividir_lugares m ((m.keyVector lugares).dataSize / 2 % 2 ^ 32) apart
        refine ih (stable.divide m lugares pos _ holds bound inside apart free empty (by omega)
          (by omega) found) (Or.inr ⟨bound, ?_, ?_⟩) runs
        · exact (congrArg (·.libre) lower).trans free
        · have size := congrArg (·.dataSize) lower
          exact divides.1.trans_eq size.symm
      · simp only [Option.some.injEq, Prod.mk.injEq] at runs
        rw [← runs.1, ← runs.2]
        exact Or.inl ⟨rfl, holds⟩
    · simp only [Option.some.injEq, Prod.mk.injEq] at runs
      rw [← runs.1, ← runs.2]
      exact Or.inr ⟨m, holds, block, rfl, rfl⟩

/-- What a search hands to `dummy_ng_allocate`, given what every step keeps. -/
inductive Hallazgo (c : Config) (P : Motor → Prop) (espacio : Nat) : Motor → Option Nat → Prop where
  | nulo (m : Motor) : P m → Hallazgo c P espacio m none
  | particion (m : Motor) (prueba i : Nat) : P m →
      Hallazgo c P espacio (crearParticion c m prueba i espacio).1
        (crearParticion c m prueba i espacio).2
  | bloque (m : Motor) (lugares : Nat) : P m → Bloque c m lugares espacio →
      Hallazgo c P espacio
        (cerrar m lugares ((m.keyVector lugares).dataSize / 2 % 2 ^ 32) espacio) (some lugares)

theorem vectorSearch_hallazgo (stable : Estable c P) (minima : 0 < c.partMinima)
    {fuel espacio : Nat} {it : Option Nat} (holds : P m)
    (runs : vectorSearch c fuel m espacio = some (m', it)) : Hallazgo c P espacio m' it := by
  unfold vectorSearch at runs
  split at runs
  · simp only [buscarLibreBuddy, Option.bind_eq_bind, Option.bind_eq_some_iff] at runs
    obtain ⟨⟨m₁, lugares⟩, search, tree⟩ := runs
    obtain ⟨kept, block⟩ := buscarBuddyLoop_estable stable _ _ _ holds (Or.inl rfl) search
    rcases crearArbol_estable stable minima _ _ _ kept block tree with ⟨rfl, last⟩ | taken
    · exact .nulo _ last
    · obtain ⟨m₂, last, block₂, rfl, rfl⟩ := taken
      exact .bloque m₂ lugares last block₂
  · split at runs
    · simp only [buscarLibreNext, Option.bind_eq_bind, Option.bind_eq_some_iff] at runs
      obtain ⟨⟨m₁, i⟩, search, ends⟩ := runs
      simp only [Option.some.injEq] at ends
      have kept := buscarNextLoop_estable stable _ _ holds search
      have chosen : Hallazgo c P espacio _ _ := .particion _ (m₁.keyVector i).dataSize i
        (stable.posicion m₁ (if i + 1 < c.cantRegistros then i + 1 else 0) kept)
      rwa [ends] at chosen
    · simp only [buscarLibreWorst, Option.bind_eq_bind, Option.bind_eq_some_iff] at runs
      obtain ⟨⟨m₁, i, posMayor⟩, search, ends⟩ := runs
      simp only [Option.some.injEq] at ends
      have kept := buscarWorstLoop_estable stable _ _ holds search
      have chosen : Hallazgo c P espacio _ _ :=
        .particion m₁ (m₁.keyVector i).dataSize posMayor kept
      rwa [ends] at chosen

theorem vectorGetLoop_some {key : List UInt8} (k : Nat) :
    ∀ {i res : Nat}, vectorGetLoop c m key k i = some res →
      res < c.cantRegistros ∧ tieneClave m key res := by
  induction k with
  | zero => intro i res runs; cases runs
  | succ k ih =>
    intro i res runs
    simp only [vectorGetLoop] at runs
    split at runs
    · rename_i bound
      split at runs
      · cases runs
      · split at runs
        · rename_i found
          simp only [Option.some.injEq] at runs
          rw [← runs]
          exact ⟨bound, found⟩
        · exact ih runs
    · cases runs

theorem vectorGet_some {key : List UInt8} {i : Nat} (found : vectorGet c m key = some i) :
    i < c.cantRegistros ∧ tieneClave m (key.take (strlen key)) i :=
  vectorGetLoop_some _ found

theorem tieneClave_libre {key : List UInt8} {i : Nat} (found : tieneClave m key i) :
    (m.keyVector i).libre = false := by
  simp only [tieneClave, Bool.and_eq_true] at found
  simpa using found.1.1

/-- The three ends of `dummy_ng_allocate` after the search. -/
theorem asignar_cases {it : Option Nat} {key : List UInt8} {nbytes : Nat} {ahora : Tiempo}
    {r : Respuesta} (table : Tabla c m) (runs : asignar c m it key nbytes ahora = some (m', r)) :
    (it = none ∧ m' = m ∧ r = .enomem) ∨
    (∃ i, it = some i ∧ c.cantRegistros ≤ i ∧ m' = m ∧ r = .enomem) ∨
    ∃ i p, it = some i ∧ i < c.cantRegistros ∧ (m.keyVector i).key = some p ∧
      m' = ocupar m i p key nbytes ahora ∧ r = .item i := by
  unfold asignar at runs
  split at runs
  · simp only [Option.some.injEq, Prod.mk.injEq] at runs
    exact Or.inl ⟨rfl, runs.1.symm, runs.2.symm⟩
  · rename_i i
    split at runs
    · rename_i null
      simp only [Option.some.injEq, Prod.mk.injEq] at runs
      refine Or.inr (Or.inl ⟨i, rfl, ?_, runs.1.symm, runs.2.symm⟩)
      by_contra inside
      have := table.claves i (by omega)
      simp [null] at this
    · rename_i p area
      split at runs
      · simp only [Option.some.injEq, Prod.mk.injEq] at runs
        refine Or.inr (Or.inr ⟨i, p, rfl, ?_, area, runs.1.symm, runs.2.symm⟩)
        by_contra outside
        have := (table.fin i (by omega)).2.2
        simp [area] at this
      · cases runs

/-- The state in which the search starts: the entry of the key is free. -/
def desalojar (c : Config) (m : Motor) (key : List UInt8) : Motor :=
  match vectorGet c m key with
  | some (j + 1) => liberarClave m (j + 1)
  | _ => m

/-- `dummy_ng_allocate` refuses the value, reuses the slot of its key, or searches. -/
theorem dummyNgAllocate_cases (stable : Estable c P) (minima : 0 < c.partMinima) {fuel : Nat}
    {key : List UInt8} {nbytes : Nat} {ahora : Tiempo} {r : Respuesta}
    (holds : P (desalojar c m key))
    (runs : dummyNgAllocate c fuel m key nbytes ahora = some (m', r)) :
    (c.cacheSize < nbytes ∧ m' = m ∧ r = .sinItem) ∨
    (∃ j, vectorGet c m key = some (j + 1) ∧ nbytes ≤ (m.keyVector (j + 1)).dataSize ∧
      asignar c ((liberarClave m (j + 1)).anota (.reusa (m.keyVector (j + 1)).dataSize nbytes))
        (some (j + 1)) key nbytes ahora = some (m', r)) ∨
    ∃ m₁ it, Hallazgo c P (nbytes % 2 ^ 32) m₁ it ∧
      asignar c m₁ it key nbytes ahora = some (m', r) := by
  unfold dummyNgAllocate at runs
  split at runs
  · rename_i large
    simp only [Option.some.injEq, Prod.mk.injEq] at runs
    exact Or.inl ⟨large, runs.1.symm, runs.2.symm⟩
  · refine Or.inr ?_
    simp only [Option.bind_eq_bind, Option.bind_eq_some_iff] at runs
    obtain ⟨⟨m₁, it⟩, place, ends⟩ := runs
    simp only [lugarPara] at place
    unfold desalojar at holds
    split at place
    · rename_i j found
      rw [found] at holds
      split at place
      · rename_i fits
        have size : ((liberarClave m (j + 1)).keyVector (j + 1)).dataSize =
            (m.keyVector (j + 1)).dataSize := by simp [liberarClave]
        simp only [Option.some.injEq, Prod.mk.injEq] at place
        rw [← place.1, ← place.2, size] at ends
        exact Or.inl ⟨j, found, by omega, ends⟩
      · exact Or.inr ⟨m₁, it, vectorSearch_hallazgo stable minima holds place, ends⟩
    · rename_i missing
      split at holds
      · rename_i j found
        exact absurd found (missing j)
      · exact Or.inr ⟨m₁, it, vectorSearch_hallazgo stable minima holds place, ends⟩

theorem Tabla.liberarClave (table : Tabla c m) {i : Nat} (bound : i < c.cantRegistros) :
    Tabla c (liberarClave m i) := by
  refine table.pon bound ?_
  exact table.claves i bound

theorem Tabla.ocupar (table : Tabla c m) {i : Nat} {p : Int} {key : List UInt8} {nbytes : Nat}
    {ahora : Tiempo} (bound : i < c.cantRegistros) : Tabla c (ocupar m i p key nbytes ahora) := by
  have kept : Tabla c (m.pon i
      { m.keyVector i with
        nkey := key.length
        dataSize := nbytes
        stored := false
        libre := false
        tp := ahora }) := table.pon bound (table.claves i bound)
  exact ⟨kept.claves, kept.fin⟩

/-- What the calls do besides: the fields of an entry they set. -/
structure Atendible (c : Config) (Valida : Nat → Prop) (P : Motor → Prop) : Prop
    extends Estable c P where
  minima : 0 < c.partMinima
  libera : ∀ m i, P m → i < c.cantRegistros → (m.keyVector i).libre = false → P (liberarClave m i)
  guarda : ∀ m i, P m → i < c.cantRegistros → P (dummyNgStore m i)
  suelta : ∀ m i, P m → i < c.cantRegistros → P (m.pon i { m.keyVector i with libre := true })
  toca : ∀ m i ahora, P m → i < c.cantRegistros → P (m.pon i { m.keyVector i with tp := ahora })
  reusa : ∀ m i p key nbytes ahora, P m → i < c.cantRegistros → (m.keyVector i).libre = false →
    nbytes ≤ (m.keyVector i).dataSize →
    P (ocupar ((liberarClave m i).anota (.reusa (m.keyVector i).dataSize nbytes)) i p key nbytes
      ahora)
  aloja : ∀ m i p key nbytes ahora, Hallazgo c P (nbytes % 2 ^ 32) m (some i) → Valida nbytes →
    i < c.cantRegistros → P (ocupar m i p key nbytes ahora)
  rehusa : ∀ m i nbytes, Hallazgo c P (nbytes % 2 ^ 32) m (some i) → Valida nbytes →
    c.cantRegistros ≤ i → P m

/-- The sizes an allocation may ask for. -/
def Llamada.Pide (Valida : Nat → Prop) : Llamada → Prop
  | .allocate _ nbytes _ => Valida nbytes
  | _ => True

theorem dummyNgItemRelease_estable
    (suelta : ∀ m i, P m → i < c.cantRegistros → P (m.pon i { m.keyVector i with libre := true }))
    {i : Nat} (holds : P m) (bound : i < c.cantRegistros) : P (dummyNgItemRelease m i) := by
  unfold dummyNgItemRelease
  split
  · exact holds
  · exact suelta m i holds bound

theorem Tabla.cortar (table : Tabla c m) {i pos espacio : Nat} (dif : Int)
    (bound : pos < c.cantRegistros) : Tabla c (cortar m i pos espacio dif) := by
  refine Tabla.pon_unuse (Tabla.pon (table.anota _) bound ?_) i (a64 dif)
  exact table.claves pos bound

theorem Hallazgo.tabla {espacio : Nat} {it : Option Nat} (stable : Estable c P)
    (found : Hallazgo c P espacio m it) : Tabla c m := by
  cases found with
  | nulo _ holds => exact stable.tabla m holds
  | particion m₀ prueba i holds =>
    rcases crearParticion_cases c m₀ prueba i espacio with same | ⟨pos, free, same⟩ | same
    · rw [same]
      exact stable.tabla _ holds
    · rw [same]
      exact (stable.tabla _ holds).cortar _ (buscarPosLibre_some free).1
    · rw [same]
      exact (stable.tabla _ holds).anota _
  | bloque m₀ lugares holds _ => exact ((stable.tabla _ holds).anota _).pon_unuse lugares _

theorem Hallazgo.mono {Q : Motor → Prop} {espacio : Nat} {it : Option Nat}
    (weaker : ∀ m, P m → Q m) (found : Hallazgo c P espacio m it) : Hallazgo c Q espacio m it := by
  cases found with
  | nulo _ holds => exact .nulo m (weaker m holds)
  | particion m₀ prueba i holds => exact .particion m₀ prueba i (weaker m₀ holds)
  | bloque m₀ lugares holds block => exact .bloque m₀ lugares (weaker m₀ holds) block

theorem Hallazgo.of_none {espacio : Nat} (found : Hallazgo c P espacio m none) : P m := by
  generalize absent : (none : Option Nat) = it at found
  cases found with
  | nulo _ holds => exact holds
  | particion m₀ prueba i holds =>
    rcases crearParticion_cases c m₀ prueba i espacio with same | ⟨pos, -, same⟩ | same
    · rwa [same]
    · simp [same] at absent
    · simp [same] at absent
  | bloque => cases absent

/-- Kept by a whole search, whatever partition it settles on. -/
structure Buscada (c : Config) (P : Motor → Prop) : Prop extends Estable c P where
  anota : ∀ m h, P m → P (m.anota h)
  libera : ∀ m i, P m → i < c.cantRegistros → P (liberarClave m i)
  corta : ∀ m i pos espacio dif, P m → pos < c.cantRegistros → P (cortar m i pos espacio dif)
  cierra : ∀ m lugares prox espacio, P m → P (cerrar m lugares prox espacio)

theorem Buscada.and {P Q : Motor → Prop} (left : Buscada c P) (right : Buscada c Q) :
    Buscada c (fun m => P m ∧ Q m) where
  toEstable := left.toEstable.and right.toEstable
  anota m h holds := ⟨left.anota m h holds.1, right.anota m h holds.2⟩
  libera m i holds bound := ⟨left.libera m i holds.1 bound, right.libera m i holds.2 bound⟩
  corta m i pos espacio dif holds bound :=
    ⟨left.corta m i pos espacio dif holds.1 bound, right.corta m i pos espacio dif holds.2 bound⟩
  cierra m lugares prox espacio holds :=
    ⟨left.cierra m lugares prox espacio holds.1, right.cierra m lugares prox espacio holds.2⟩

theorem Buscada.congr {Q : Motor → Prop} (same : ∀ m, P m ↔ Q m) (serves : Buscada c P) :
    Buscada c Q := by
  have equal : P = Q := funext fun m => propext (same m)
  rwa [← equal]

theorem Hallazgo.buscada (serves : Buscada c P) {espacio : Nat} {it : Option Nat}
    (found : Hallazgo c P espacio m it) : P m := by
  cases found with
  | nulo _ holds => exact holds
  | particion m₀ prueba i holds =>
    rcases crearParticion_cases c m₀ prueba i espacio with same | ⟨pos, free, same⟩ | same
    · rwa [same]
    · rw [same]
      exact serves.corta _ _ _ _ _ holds (buscarPosLibre_some free).1
    · rw [same]
      exact serves.anota _ _ holds
  | bloque m₀ lugares holds _ => exact serves.cierra _ _ _ _ holds

theorem lugarPara_buscada (serves : Buscada c P) (minima : 0 < c.partMinima) (holds : P m)
    {fuel nbytes : Nat} {key : List UInt8} {it : Option Nat}
    (runs : lugarPara c fuel m key nbytes = some (m', it)) : P m' := by
  unfold lugarPara at runs
  split at runs
  · rename_i j found
    have freed := serves.libera m (j + 1) holds (vectorGet_some found).1
    dsimp only at runs
    split at runs
    · simp only [Option.some.injEq, Prod.mk.injEq] at runs
      rw [← runs.1]
      exact serves.anota _ _ freed
    · exact (vectorSearch_hallazgo serves.toEstable minima freed runs).buscada serves
  · exact (vectorSearch_hallazgo serves.toEstable minima holds runs).buscada serves

theorem tabla_buscada (registros : 0 < c.cantRegistros) : Buscada c (Tabla c) where
  toEstable := tabla_estable registros
  anota _ h table := table.anota h
  libera _ _ table bound := table.liberarClave bound
  corta _ _ _ _ dif table bound := table.cortar dif bound
  cierra _ lugares _ _ table := (table.anota _).pon_unuse lugares _

theorem dummyNgAllocate_estable {Valida : Nat → Prop} (serves : Atendible c Valida P) {fuel : Nat}
    {key : List UInt8} {nbytes : Nat} {ahora : Tiempo} {r : Respuesta} (holds : P m)
    (valid : Valida nbytes)
    (runs : dummyNgAllocate c fuel m key nbytes ahora = some (m', r)) : P m' := by
  have freed : P (desalojar c m key) := by
    unfold desalojar
    split
    · rename_i j found
      obtain ⟨bound, mine⟩ := vectorGet_some found
      exact serves.libera m _ holds bound (tieneClave_libre mine)
    · exact holds
  rcases dummyNgAllocate_cases serves.toEstable serves.minima freed runs with
    ⟨-, same, -⟩ | ⟨j, found, fits, ends⟩ | ⟨m₁, it, search, ends⟩
  · rwa [same]
  · obtain ⟨bound, mine⟩ := vectorGet_some found
    have busy := tieneClave_libre mine
    have table := (serves.tabla _ (serves.libera m _ holds bound busy)).anota
      (.reusa (m.keyVector (j + 1)).dataSize nbytes)
    rcases asignar_cases table ends with ⟨none, -, -⟩ | ⟨i, same, outside, -⟩ | chosen
    · cases none
    · simp only [Option.some.injEq] at same
      omega
    · obtain ⟨i, p, same, -, -, last, -⟩ := chosen
      simp only [Option.some.injEq] at same
      rw [last, ← same]
      exact serves.reusa m (j + 1) p key nbytes ahora holds bound busy fits
  · rcases asignar_cases (search.tabla serves.toEstable) ends with
      ⟨none, same, -⟩ | ⟨i, some, outside, same, -⟩ | ⟨i, p, some, bound, -, last, -⟩
    · subst none
      rw [same]
      exact search.of_none
    · subst some
      rw [same]
      exact serves.rehusa m₁ i nbytes search valid outside
    · subst some
      rw [last]
      exact serves.aloja m₁ i p key nbytes ahora search valid bound

/-- A delete changes nothing, or goes on from the evicted entry. -/
theorem dummyNgItemDelete_estable (stable : Estable c P)
    (suelta : ∀ m i, P m → i < c.cantRegistros → P (m.pon i { m.keyVector i with libre := true }))
    {fuel : Nat} {key : List UInt8}
    (missing : vectorGet c m key = none → P m)
    (evicted : ∀ res, vectorGet c m key = some res → P (eliminarParticion c m (some res)).1)
    (runs : dummyNgItemDelete c fuel m key = some m') : P m' := by
  unfold dummyNgItemDelete at runs
  split at runs
  · rename_i absent
    simp only [Option.some.injEq] at runs
    rw [← runs]
    exact missing absent
  · rename_i res found
    obtain ⟨bound, -⟩ := vectorGet_some found
    have kept := evicted res found
    have position : (eliminarParticion c m (some res)).2 = res := by
      simp only [eliminarParticion, Option.getD_some]
      split <;> rfl
    dsimp only at runs
    rw [position] at runs
    split at runs
    · simp only [Option.bind_eq_bind, Option.bind_eq_some_iff] at runs
      obtain ⟨⟨m₁, pos⟩, joins, ends⟩ := runs
      simp only [Option.some.injEq] at ends
      obtain ⟨joined, inside⟩ := eliminaBuddy_estable stable kept joins
      rw [← ends]
      exact dummyNgItemRelease_estable suelta joined (inside bound)
    · simp only [Option.bind_eq_bind, Option.bind_some, Option.some.injEq] at runs
      rw [← runs]
      exact dummyNgItemRelease_estable suelta kept bound

/-- One call keeps the predicate, if an allocate does. -/
theorem atender_conserva (stable : Estable c P)
    (guarda : ∀ m i, P m → i < c.cantRegistros → P (dummyNgStore m i))
    (suelta : ∀ m i, P m → i < c.cantRegistros → P (m.pon i { m.keyVector i with libre := true }))
    (toca : ∀ m i ahora, P m → i < c.cantRegistros →
      P (m.pon i { m.keyVector i with tp := ahora }))
    {fuel : Nat} {l : Llamada} (holds : P { m with hechos := [] })
    (allocates : ∀ key nbytes ahora r, l = .allocate key nbytes ahora →
      dummyNgAllocate c fuel { m with hechos := [] } key nbytes ahora = some (m', r) → P m')
    (runs : atender c fuel m l = some m') : P m' := by
  cases l with
  | allocate key nbytes ahora =>
    simp only [atender, Option.map_eq_some_iff] at runs
    obtain ⟨⟨m₁, r⟩, search, ends⟩ := runs
    dsimp only at ends
    subst ends
    exact allocates key nbytes ahora r rfl search
  | store i =>
    simp only [atender, Option.ite_none_right_eq_some, Option.some.injEq] at runs
    rw [← runs.2]
    exact guarda _ i holds runs.1
  | release i =>
    simp only [atender, Option.ite_none_right_eq_some, Option.some.injEq] at runs
    rw [← runs.2]
    exact dummyNgItemRelease_estable suelta holds runs.1
  | get key ahora =>
    simp only [atender, Option.some.injEq, dummyNgGet] at runs
    rw [← runs]
    split
    · exact holds
    · rename_i res found
      unfold actualizarKey
      split
      · exact toca _ res ahora holds (vectorGet_some found).1
      · exact holds
  | delete key =>
    refine dummyNgItemDelete_estable stable suelta (fun _ => holds) ?_ runs
    intro res found
    obtain ⟨bound, mine⟩ := vectorGet_some found
    exact stable.elimina _ res holds bound (tieneClave_libre mine)
  | flush =>
    simp only [atender, Option.some.injEq] at runs
    rw [← runs]
    exact stable.inicializa _ holds

theorem atender_estable {Valida : Nat → Prop} (serves : Atendible c Valida P) {fuel : Nat}
    {l : Llamada} (holds : P { m with hechos := [] }) (valid : l.Pide Valida)
    (runs : atender c fuel m l = some m') : P m' := by
  refine atender_conserva serves.toEstable serves.guarda serves.suelta serves.toca holds ?_ runs
  rintro key nbytes ahora r rfl search
  exact dummyNgAllocate_estable serves holds valid search

end Recorridos

theorem dummyNgInitialize_some {c : Config} {keysSpace cache : Memoria} {m : Motor}
    (starts : dummyNgInitialize c keysSpace cache = some m) :
    0 < c.cantRegistros ∧ 0 < c.partMinima ∧
      m = { vectorInicializar c
              { keyVector := fun _ => .nulo, ultimaPosicion := 0, keysSpace, cache, hechos := [] }
            with hechos := [] } := by
  unfold dummyNgInitialize at starts
  split at starts
  · cases starts
  · split at starts
    · cases starts
    · simp only [Option.some.injEq] at starts
      exact ⟨by omega, by omega, starts.symm⟩

theorem inicio_tabla {c : Config} {keysSpace cache : Memoria} {m : Motor}
    (starts : dummyNgInitialize c keysSpace cache = some m) : Tabla c m := by
  obtain ⟨registros, -, rfl⟩ := dummyNgInitialize_some starts
  constructor
  · intro i below
    by_cases zero : i = 0
    · simp [vectorInicializar, zero]
    · simp [vectorInicializar, zero, below]
  · intro i outside
    have positive : i ≠ 0 := by omega
    have past : ¬i < c.cantRegistros := by omega
    simp [vectorInicializar, positive, past, KeyElement.nulo]

end LosAltos.Rc
