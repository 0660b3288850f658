import LosAltos.Rc.Semantics
import LosAltos.Rc.Sorting

/-!
# The areas of the keys

`vector_inicializar` lays the areas out in `keys_space`, `rc/src/vector.c:377-397`, one after the
other at the distance `(int8_t) MAX_KEY`. From then on the operations only exchange the pointers of
neighbours: what depends on the pointers alone, up to an exchange, holds in every state. The copy of
the key, `rc/src/our_engine.c:319-333`, is bounded by the length of the key and nothing else.
-/
namespace LosAltos.Rc

open Lib

def Motor.punteros (m : Motor) (i : Nat) : Option Int := (m.keyVector i).key

/-- A property of the pointers of the table that no operation breaks. -/
structure DePunteros (c : Config) (Q : (Nat → Option Int) → Prop) : Prop where
  congr : ∀ {k k' : Nat → Option Int}, (∀ i, i < c.cantRegistros → k' i = k i) → Q k → Q k'
  permuta : ∀ {k : Nat → Option Int} {i : Nat}, i + 1 < c.cantRegistros → Q k →
    Q (k ∘ Equiv.swap i (i + 1))
  inicia : Q fun i => some (i * aInt8 c.maxKey)

def ConPunteros (c : Config) (Q : (Nat → Option Int) → Prop) (m : Motor) : Prop :=
  Tabla c m ∧ Q m.punteros

section Punteros

variable {c : Config} {Q : (Nat → Option Int) → Prop} {ks : Memoria} {m m' : Motor}

/-- An operation that leaves every pointer where it is. -/
theorem ConPunteros.igual (kept : DePunteros c Q) (holds : ConPunteros c Q m) (table : Tabla c m')
    (same : ∀ i, m'.punteros i = m.punteros i) : ConPunteros c Q m' :=
  ⟨table, kept.congr (fun i _ => same i) holds.2⟩

theorem punteros_inicializa (kept : DePunteros c Q) (m : Motor) :
    Q (vectorInicializar c m).punteros := by
  refine kept.congr (fun i bound => ?_) kept.inicia
  by_cases zero : i = 0
  · simp [Motor.punteros, vectorInicializar, zero]
  · simp [Motor.punteros, vectorInicializar, zero, bound]

theorem punteros_pon {i : Nat} {e : KeyElement} (key : e.key = m.punteros i) (k : Nat) :
    (m.pon i e).punteros k = m.punteros k := by
  simp only [Motor.punteros, Motor.pon_keyVector]
  split
  · rename_i same
    rw [key, same, Motor.punteros]
  · rfl

theorem punteros_unir {queda hueco data : Nat} {primera segunda : KeyElement}
    (different : queda ≠ hueco) (k : Nat) :
    (unir m queda hueco data primera segunda).punteros k = m.punteros k := by
  unfold Motor.punteros
  by_cases first : k = queda
  · rw [first, unir_queda m data primera segunda different]
  · by_cases second : k = hueco
    · rw [second, unir_hueco m data primera segunda different]
    · rw [unir_other m data primera segunda first second]

theorem punteros_juntarlos {actual vecino : Nat} (different : actual ≠ vecino) (k : Nat) :
    (juntarlos m actual vecino).punteros k = m.punteros k := by
  unfold Motor.punteros
  by_cases first : k = actual
  · rw [first, juntarlos_actual m different]
  · by_cases second : k = vecino
    · rw [second, juntarlos_posicion m different]
    · rw [juntarlos_other m first second]

theorem punteros_dividir {lugares pos : Nat} (prox : Nat) (different : lugares ≠ pos) (k : Nat) :
    (dividir m lugares pos prox).punteros k = m.punteros k := by
  by_cases left : k = lugares
  · rw [left]
    exact congrArg (·.key) (dividir_lugares m prox different)
  · by_cases right : k = pos
    · rw [right]
      exact congrArg (·.key) (dividir_posicionn m prox different)
    · exact congrArg (·.key) (dividir_other m prox left right)

/-- The two entries of a move exchange their areas. -/
theorem punteros_mover (i k : Nat) :
    (mover m i).punteros k = (m.punteros ∘ Equiv.swap i (i + 1)) k := by
  by_cases upper : k = i + 1
  · simp [Motor.punteros, mover, upper]
  · by_cases lower : k = i
    · simp [Motor.punteros, mover, lower]
    · rw [Function.comp_apply, Equiv.swap_apply_of_ne_of_ne lower upper]
      simp [Motor.punteros, mover, upper, lower]

theorem punteros_cortar (i pos espacio : Nat) (dif : Int) (k : Nat) :
    (cortar m i pos espacio dif).punteros k = m.punteros k := by
  unfold Motor.punteros
  by_cases fresh : k = pos
  · rw [fresh]
    exact (cortar_pos m i pos espacio dif).1
  · rw [cortar_other m espacio dif fresh]

theorem conPunteros_buscada (registros : 0 < c.cantRegistros) (kept : DePunteros c Q) :
    Buscada c (ConPunteros c Q) := by
  have each := tabla_buscada registros
  exact
  { tabla := fun m holds => holds.1
    posicion := fun m i holds => holds.igual kept (each.posicion m i holds.1) fun _ => rfl
    elimina := fun m i holds bound busy => by
      refine holds.igual kept (each.elimina m i holds.1 bound busy) fun k => ?_
      simp only [eliminarParticion, Option.getD_some]
      rw [if_pos (by omega)]
      refine punteros_pon ?_ k
      rfl
    permuta := fun m j holds bound filled => by
      refine ⟨each.permuta m j holds.1 bound filled,
        kept.congr (fun k _ => ?_) (kept.permuta bound holds.2)⟩
      simp only [Motor.punteros, Motor.permuta_keyVector, Function.comp_apply]
    junta := fun m i j holds first second different free size =>
      holds.igual kept (each.junta m i j holds.1 first second different free size)
        (punteros_juntarlos different)
    uneAdelante := fun m i holds bound free next size =>
      holds.igual kept (each.uneAdelante m i holds.1 bound free next size)
        (punteros_unir (by omega))
    uneAtras := fun m i holds bound free next size =>
      holds.igual kept (each.uneAtras m i holds.1 bound free next size) (punteros_unir (by omega))
    anula := fun m i holds bound free empty =>
      holds.igual kept (each.anula m i holds.1 bound free empty) (punteros_pon rfl)
    mueve := fun m i holds bound pair =>
      ⟨each.mueve m i holds.1 bound pair,
        kept.congr (fun k _ => punteros_mover i k) (kept.permuta bound holds.2)⟩
    inicializa := fun m holds => ⟨each.inicializa m holds.1, punteros_inicializa kept m⟩
    divide := fun m l p prox holds first second different free empty size half slot =>
      holds.igual kept (each.divide m l p prox holds.1 first second different free empty size half slot)
        (punteros_dividir prox different)
    anota := fun m h holds => holds.igual kept (each.anota m h holds.1) fun _ => rfl
    libera := fun m i holds bound =>
      holds.igual kept (each.libera m i holds.1 bound) (punteros_pon rfl)
    corta := fun m i pos espacio dif holds bound =>
      holds.igual kept (each.corta m i pos espacio dif holds.1 bound)
        (punteros_cortar i pos espacio dif)
    cierra := fun m l prox espacio holds =>
      holds.igual kept (each.cierra m l prox espacio holds.1) (punteros_pon rfl) }

theorem punteros_ocupar (i : Nat) (p : Int) (key : List UInt8) (nbytes : Nat) (ahora : Tiempo)
    (k : Nat) : (ocupar m i p key nbytes ahora).punteros k = m.punteros k := by
  by_cases same : k = i
  · simp [Motor.punteros, ocupar, same]
  · simp [Motor.punteros, ocupar, same]

/-- An allocate keeps what the search and the taking of an entry keep. -/
theorem dummyNgAllocate_buscada {P : Motor → Prop} (serves : Buscada c P)
    (minima : 0 < c.partMinima) {fuel nbytes : Nat} {key : List UInt8} {ahora : Tiempo}
    {r : Respuesta} (holds : P m)
    (takes : ∀ m i p, P m → i < c.cantRegistros → (m.keyVector i).key = some p →
      P (ocupar m i p key nbytes ahora))
    (runs : dummyNgAllocate c fuel m key nbytes ahora = some (m', r)) : P m' := by
  unfold dummyNgAllocate at runs
  split at runs
  · simp only [Option.some.injEq, Prod.mk.injEq] at runs
    rwa [← runs.1]
  · simp only [Option.bind_eq_bind, Option.bind_eq_some_iff] at runs
    obtain ⟨⟨m₁, it⟩, place, ends⟩ := runs
    have found := lugarPara_buscada serves minima holds place
    rcases asignar_cases (serves.tabla m₁ found) ends with ⟨-, same, -⟩ | ⟨i, -, -, same, -⟩ |
      ⟨i, p, -, bound, area, same, -⟩
    · rwa [same]
    · rwa [same]
    · rw [same]
      exact takes m₁ i p found bound area

/-- One call keeps the property of the pointers. -/
theorem atender_punteros (registros : 0 < c.cantRegistros) (minima : 0 < c.partMinima)
    (kept : DePunteros c Q) {fuel : Nat} {l : Llamada} (holds : ConPunteros c Q m)
    (runs : atender c fuel m l = some m') : ConPunteros c Q m' := by
  have serves := conPunteros_buscada registros kept
  have start : ConPunteros c Q { m with hechos := [] } :=
    holds.igual kept ⟨holds.1.claves, holds.1.fin⟩ fun _ => rfl
  have set : ∀ (m : Motor) (i : Nat) (e : KeyElement), ConPunteros c Q m → i < c.cantRegistros →
      e.key = m.punteros i → ConPunteros c Q (m.pon i e) := fun m i e holds bound key =>
    holds.igual kept (holds.1.pon bound (by rw [key]; exact holds.1.claves i bound))
      (punteros_pon key)
  refine atender_conserva serves.toEstable (fun m i holds bound => set m i _ holds bound rfl)
    (fun m i holds bound => set m i _ holds bound rfl)
    (fun m i ahora holds bound => set m i _ holds bound rfl)
    start ?_ runs
  intro key nbytes ahora r _ search
  refine dummyNgAllocate_buscada serves minima start ?_ search
  intro m i p holds bound _
  exact holds.igual kept (holds.1.ocupar bound) (punteros_ocupar i p key nbytes ahora)

theorem alcanzable_punteros {Cond : Nat → Motor → Llamada → Prop} (kept : DePunteros c Q)
    (reached : Alcanzable c Cond m) :
    0 < c.cantRegistros ∧ 0 < c.partMinima ∧ ConPunteros c Q m := by
  induction reached with
  | inicio keysSpace cache m starts =>
    obtain ⟨registros, minima, same⟩ := dummyNgInitialize_some starts
    refine ⟨registros, minima, inicio_tabla starts, ?_⟩
    rw [same]
    exact punteros_inicializa kept _
  | llamada fuel m m' l _ _ runs ih =>
    obtain ⟨registros, minima, holds⟩ := ih
    exact ⟨registros, minima, atender_punteros registros minima kept holds runs⟩

end Punteros

/-- The pointers are the areas of `keys_space`, in some order. -/
def ClavesRepartidas (c : Config) (k : Nat → Option Int) : Prop :=
  ((List.range c.cantRegistros).map k).Perm
    ((List.range c.cantRegistros).map fun i : Nat => some ((i : Int) * c.maxKey))

theorem clavesRepartidas_punteros {c : Config} (low : 1 ≤ c.maxKey) (high : c.maxKey ≤ 127) :
    DePunteros c (ClavesRepartidas c) where
  congr same repartidas := by
    refine List.Perm.trans (List.Perm.of_eq (List.map_congr_left fun i member => ?_)) repartidas
    exact same i (List.mem_range.mp member)
  permuta bound repartidas := by
    refine (perm_range_map _ fun i outside => ?_).trans repartidas
    exact Equiv.swap_apply_of_ne_of_ne (by omega) (by omega)
  inicia := by
    have stride : aInt8 c.maxKey = c.maxKey := by
      unfold aInt8
      omega
    unfold ClavesRepartidas
    rw [stride]

/-- The pointer of every entry is an area of its own. -/
theorem ClavesRepartidas.area {c : Config} {k : Nat → Option Int}
    (repartidas : ClavesRepartidas c k) {i : Nat} (bound : i < c.cantRegistros) :
    ∃ a : Nat, a < c.cantRegistros ∧ k i = some (a * c.maxKey) := by
  have member : k i ∈ (List.range c.cantRegistros).map fun i : Nat => some ((i : Int) * c.maxKey) :=
    repartidas.subset (List.mem_map_of_mem (List.mem_range.mpr bound))
  simp only [List.mem_map, List.mem_range] at member
  obtain ⟨a, inside, same⟩ := member
  exact ⟨a, inside, same.symm⟩

theorem ClavesRepartidas.areas {c : Config} {m : Motor} (low : 1 ≤ c.maxKey)
    (repartidas : ClavesRepartidas c m.punteros) : Areas c m := by
  have unique : ((List.range c.cantRegistros).map m.punteros).Nodup := by
    refine repartidas.nodup_iff.mpr (List.nodup_range.map fun i j same => ?_)
    simp only [Option.some.injEq] at same
    exact_mod_cast Int.eq_of_mul_eq_mul_right (by omega) same
  intro i left j right different p q first second
  obtain ⟨a, -, one⟩ := repartidas.area left
  obtain ⟨b, -, other⟩ := repartidas.area right
  have apart : a ≠ b := by
    rintro rfl
    have same : m.punteros i = m.punteros j := by rw [one, other]
    exact different (List.inj_on_of_nodup_map unique (List.mem_range.mpr left)
      (List.mem_range.mpr right) same)
  have start : p = a * c.maxKey := by simpa using first.symm.trans one
  have begins : q = b * c.maxKey := by simpa using second.symm.trans other
  rw [start, begins]
  exact areas_apart (by omega) apart

/-- In every state the engine reaches the key pointers are the areas of `keys_space` in some order,
and no two of them overlap. -/
theorem claves_repartidas {c : Config} {m : Motor} (low : 1 ≤ c.maxKey) (high : c.maxKey ≤ 127)
    (reached : Alcanzable c (fun _ _ _ => True) m) :
    ((List.range c.cantRegistros).map fun i => (m.keyVector i).key).Perm
        ((List.range c.cantRegistros).map fun i : Nat => some ((i : Int) * c.maxKey)) ∧
      Areas c m := by
  obtain ⟨-, -, -, repartidas⟩ :=
    alcanzable_punteros (clavesRepartidas_punteros low high) reached
  exact ⟨repartidas, repartidas.areas low⟩

/-- Two values set and the first deleted. -/
theorem claves_repartidas_buddy :
    ∃ m, corrida buddyDe64 9 [.allocate [1] 10 ⟨1, 0⟩, .allocate [2] 10 ⟨2, 0⟩, .delete [1]] =
        some m ∧
      ((List.range 8).map fun i => (m.keyVector i).key).Perm
        ((List.range 8).map fun i : Nat => some ((i : Int) * 40)) := by
  have fresh : Alcanzable buddyDe64 (fun _ _ _ => True) _ :=
    .inicio (fun _ => 0) (fun _ => 0) _ rfl
  have first := Alcanzable.llamada 9 _ _ (.allocate [1] 10 ⟨1, 0⟩) fresh trivial rfl
  have second := Alcanzable.llamada 9 _ _ (.allocate [2] 10 ⟨2, 0⟩) first trivial rfl
  have third := Alcanzable.llamada 9 _ _ (.delete [1]) second trivial rfl
  exact ⟨_, rfl, (claves_repartidas (by decide) (by decide) third).1⟩

/-- No operation but the copy of a key writes to `keys_space`. -/
theorem mismosBytes_buscada {c : Config} (registros : 0 < c.cantRegistros) (ks : Memoria) :
    Buscada c (fun m => Tabla c m ∧ m.keysSpace = ks) := by
  have each := tabla_buscada registros
  exact
  { tabla := fun m holds => holds.1
    posicion := fun m i holds => ⟨each.posicion m i holds.1, holds.2⟩
    elimina := fun m i holds bound busy => by
      refine ⟨each.elimina m i holds.1 bound busy, ?_⟩
      simp only [eliminarParticion, Option.getD_some]
      rw [if_pos (by omega)]
      exact holds.2
    permuta := fun m j holds bound filled => ⟨each.permuta m j holds.1 bound filled, holds.2⟩
    junta := fun m i j holds first second different free size =>
      ⟨each.junta m i j holds.1 first second different free size, holds.2⟩
    uneAdelante := fun m i holds bound free next size =>
      ⟨each.uneAdelante m i holds.1 bound free next size, holds.2⟩
    uneAtras := fun m i holds bound free next size =>
      ⟨each.uneAtras m i holds.1 bound free next size, holds.2⟩
    anula := fun m i holds bound free empty => ⟨each.anula m i holds.1 bound free empty, holds.2⟩
    mueve := fun m i holds bound pair => ⟨each.mueve m i holds.1 bound pair, holds.2⟩
    inicializa := fun m holds => ⟨each.inicializa m holds.1, holds.2⟩
    divide := fun m l p prox holds first second different free empty size half slot =>
      ⟨each.divide m l p prox holds.1 first second different free empty size half slot,
        (dividir_resto m l p prox).2.1.trans holds.2⟩
    anota := fun m h holds => ⟨each.anota m h holds.1, holds.2⟩
    libera := fun m i holds bound => ⟨each.libera m i holds.1 bound, holds.2⟩
    corta := fun m i pos espacio dif holds bound =>
      ⟨each.corta m i pos espacio dif holds.1 bound, holds.2⟩
    cierra := fun m l prox espacio holds => ⟨each.cierra m l prox espacio holds.1, holds.2⟩ }

/-- No entry remembers a key longer than its area. -/
def ClavesCortas (c : Config) (m : Motor) : Prop :=
  Tabla c m ∧ ∀ i, i < c.cantRegistros → ((m.keyVector i).nkey : Int) ≤ c.maxKey

section Largos

variable {c : Config} {m m' : Motor}

/-- Every length comes from an entry of before. -/
theorem ClavesCortas.de (holds : ClavesCortas c m) (table : Tabla c m')
    (source : ∀ i, i < c.cantRegistros → ∃ j, j < c.cantRegistros ∧
      (m'.keyVector i).nkey = (m.keyVector j).nkey) : ClavesCortas c m' := by
  refine ⟨table, fun i bound => ?_⟩
  obtain ⟨j, inside, same⟩ := source i bound
  rw [same]
  exact holds.2 j inside

theorem ClavesCortas.igual (holds : ClavesCortas c m) (table : Tabla c m')
    (same : ∀ i, (m'.keyVector i).nkey = (m.keyVector i).nkey) : ClavesCortas c m' :=
  holds.de table fun i bound => ⟨i, bound, same i⟩

theorem nkey_pon {i : Nat} {e : KeyElement} (same : e.nkey = (m.keyVector i).nkey) (k : Nat) :
    ((m.pon i e).keyVector k).nkey = (m.keyVector k).nkey := by
  rw [Motor.pon_keyVector]
  split
  · rename_i here
    rw [same, here]
  · rfl

theorem nkey_unir {queda hueco data : Nat} {primera segunda : KeyElement}
    (different : queda ≠ hueco) (k : Nat) :
    ((unir m queda hueco data primera segunda).keyVector k).nkey = (m.keyVector k).nkey := by
  by_cases first : k = queda
  · rw [first, unir_queda m data primera segunda different]
  · by_cases second : k = hueco
    · rw [second, unir_hueco m data primera segunda different]
    · rw [unir_other m data primera segunda first second]

theorem clavesCortas_buscada (registros : 0 < c.cantRegistros) : Buscada c (ClavesCortas c) := by
  have each := tabla_buscada registros
  exact
  { tabla := fun m holds => holds.1
    posicion := fun m i holds => holds.igual (each.posicion m i holds.1) fun _ => rfl
    elimina := fun m i holds bound busy => by
      refine holds.igual (each.elimina m i holds.1 bound busy) fun k => ?_
      simp only [eliminarParticion, Option.getD_some]
      rw [if_pos (by omega)]
      refine nkey_pon ?_ k
      rfl
    permuta := fun m j holds bound filled => by
      refine holds.de (each.permuta m j holds.1 bound filled) fun i inside => ?_
      refine ⟨Equiv.swap j (j + 1) i, Sorter.swap_lt ?_ inside, by rw [Motor.permuta_keyVector]⟩
      omega
    junta := fun m i j holds first second different free size => by
      refine holds.igual (each.junta m i j holds.1 first second different free size) fun k => ?_
      by_cases left : k = i
      · rw [left, juntarlos_actual m different]
      · by_cases right : k = j
        · rw [right, juntarlos_posicion m different]
        · rw [juntarlos_other m left right]
    uneAdelante := fun m i holds bound free next size =>
      holds.igual (each.uneAdelante m i holds.1 bound free next size) (nkey_unir (by omega))
    uneAtras := fun m i holds bound free next size =>
      holds.igual (each.uneAtras m i holds.1 bound free next size) (nkey_unir (by omega))
    anula := fun m i holds bound free empty =>
      holds.igual (each.anula m i holds.1 bound free empty) (nkey_pon rfl)
    mueve := fun m i holds bound pair => by
      refine holds.de (each.mueve m i holds.1 bound pair) fun k inside => ?_
      by_cases pair : k = i ∨ k = i + 1
      · refine ⟨i + 1, bound, ?_⟩
        rcases pair with rfl | rfl
        · simp [mover]
        · simp [mover]
      · simp only [not_or] at pair
        exact ⟨k, inside, by simp [mover, pair.1, pair.2]⟩
    inicializa := fun m holds => by
      refine holds.igual (each.inicializa m holds.1) fun k => ?_
      simp only [vectorInicializar, Motor.anota_keyVector]
      split
      · rename_i zero
        rw [zero]
      · split <;> rfl
    divide := fun m l p prox holds first second different free empty size half slot => by
      refine holds.igual (each.divide m l p prox holds.1 first second different free empty size
        half slot) fun k => ?_
      by_cases left : k = l
      · rw [left]
        exact congrArg (·.nkey) (dividir_lugares m prox different)
      · by_cases right : k = p
        · rw [right]
          exact congrArg (·.nkey) (dividir_posicionn m prox different)
        · exact congrArg (·.nkey) (dividir_other m prox left right)
    anota := fun m h holds => holds.igual (each.anota m h holds.1) fun _ => rfl
    libera := fun m i holds bound => holds.igual (each.libera m i holds.1 bound) (nkey_pon rfl)
    corta := fun m i pos espacio dif holds bound => by
      refine holds.igual (each.corta m i pos espacio dif holds.1 bound) fun k => ?_
      by_cases fresh : k = pos
      · by_cases same : pos = i
        · simp [cortar, cargarEnVector, fresh, same]
        · simp [cortar, cargarEnVector, fresh, same]
      · rw [cortar_other m espacio dif fresh]
    cierra := fun m l prox espacio holds =>
      holds.igual (each.cierra m l prox espacio holds.1) (nkey_pon rfl) }

/-- The key of the call fits in an area. -/
def Llamada.ClaveCorta (c : Config) : Llamada → Prop
  | .allocate key _ _ => (key.length : Int) ≤ c.maxKey
  | _ => True

theorem atender_clavesCortas (registros : 0 < c.cantRegistros) (minima : 0 < c.partMinima)
    {fuel : Nat} {l : Llamada} (short : l.ClaveCorta c) (holds : ClavesCortas c m)
    (runs : atender c fuel m l = some m') : ClavesCortas c m' := by
  have serves := clavesCortas_buscada registros
  have start : ClavesCortas c { m with hechos := [] } :=
    holds.igual ⟨holds.1.claves, holds.1.fin⟩ fun _ => rfl
  have set : ∀ (m : Motor) (i : Nat) (e : KeyElement), ClavesCortas c m → i < c.cantRegistros →
      e.key = (m.keyVector i).key → e.nkey = (m.keyVector i).nkey → ClavesCortas c (m.pon i e) :=
    fun m i e holds bound key nkey =>
      holds.igual (holds.1.pon bound (by rw [key]; exact holds.1.claves i bound)) (nkey_pon nkey)
  refine atender_conserva serves.toEstable (fun m i holds bound => set m i _ holds bound rfl rfl)
    (fun m i holds bound => set m i _ holds bound rfl rfl)
    (fun m i ahora holds bound => set m i _ holds bound rfl rfl) start ?_ runs
  rintro key nbytes ahora r rfl search
  refine dummyNgAllocate_buscada serves minima start ?_ search
  intro m i p holds bound _
  refine ⟨holds.1.ocupar bound, fun k inside => ?_⟩
  by_cases same : k = i
  · simpa [ocupar, same, Llamada.ClaveCorta] using short
  · simpa [ocupar, same] using holds.2 k inside

theorem alcanzable_clavesCortas (low : 1 ≤ c.maxKey)
    (reached : Alcanzable c (fun _ _ l => l.ClaveCorta c) m) :
    0 < c.cantRegistros ∧ 0 < c.partMinima ∧ ClavesCortas c m := by
  induction reached with
  | inicio keysSpace cache m starts =>
    obtain ⟨registros, minima, same⟩ := dummyNgInitialize_some starts
    refine ⟨registros, minima, inicio_tabla starts, fun i inside => ?_⟩
    rw [same]
    by_cases zero : i = 0
    · simp only [vectorInicializar, zero, if_true, Motor.anota_keyVector, KeyElement.nulo]
      omega
    · simp only [vectorInicializar, zero, inside, if_true, if_false, Motor.anota_keyVector,
        KeyElement.nulo]
      omega
  | llamada fuel m m' l _ short runs ih =>
    obtain ⟨registros, minima, holds⟩ := ih
    exact ⟨registros, minima, atender_clavesCortas registros minima short holds runs⟩

end Largos

/-- The copy of the key, from `m₁` to `m'`, in a call from `m`: it stays in the area of the entry,
the area is one of `keys_space`, and the key of no other entry changes. -/
structure EscribeEnSuArea (c : Config) (m m₁ m' : Motor) (i : Nat) (p : Int) : Prop where
  arena : 0 ≤ p ∧ p + c.maxKey ≤ c.maxKey * c.cantRegistros
  area : ∀ dir, m'.keysSpace dir ≠ m.keysSpace dir → p ≤ dir ∧ dir < p + c.maxKey
  demas : ∀ j, j < c.cantRegistros → j ≠ i → clave m' j = clave m₁ j
  previas : ∀ j, j < c.cantRegistros → m.punteros j ≠ some p →
    clave { m with keysSpace := m'.keysSpace } j = clave m j

/-- An allocate writes key bytes to the area of the entry it chooses and nowhere else. -/
structure ClaveEnSuArea (c : Config) (fuel : Nat) (m : Motor) (key : List UInt8) (nbytes : Nat)
    (ahora : Tiempo) : Prop where
  escribe : ∀ m₁ i p, nbytes ≤ c.cacheSize → lugarPara c fuel m key nbytes = some (m₁, some i) →
    (m₁.keyVector i).key = some p →
    ∃ m', dummyNgAllocate c fuel m key nbytes ahora = some (m', .item i) ∧
      EscribeEnSuArea c m m₁ m' i p
  rehusa : ∀ m' r, dummyNgAllocate c fuel m key nbytes ahora = some (m', r) →
    (∀ i, r ≠ .item i) → m'.keysSpace = m.keysSpace

theorem escribir_fuera {mem : Memoria} {p dir : Int} {bytes : List UInt8}
    (changed : escribir mem p bytes dir ≠ mem dir) : p ≤ dir ∧ dir < p + bytes.length := by
  by_contra outside
  have apart : dir + (1 : Nat) ≤ p ∨ p + bytes.length ≤ dir := by omega
  have same := leer_escribir_disjoint mem p dir 1 bytes apart
  simp [leer] at same
  exact changed same

theorem clave_fuera {c : Config} {m m' : Motor} {j : Nat} {p : Int} {key : List UInt8}
    (keys : m'.keysSpace = escribir m.keysSpace p key) (entry : m'.keyVector j = m.keyVector j)
    (short : (key.length : Int) ≤ c.maxKey) (nkey : ((m.keyVector j).nkey : Int) ≤ c.maxKey)
    (apart : ∀ q, m.punteros j = some q → p + c.maxKey ≤ q ∨ q + c.maxKey ≤ p) :
    clave m' j = clave m j := by
  simp only [clave, entry, keys]
  split
  · rename_i q here
    apply leer_escribir_disjoint
    have := apart q here
    omega
  · rfl

/-- Two partitions, with an area of one byte for each key. -/
def areasDeUno : Config where
  esquema := .partDinam
  particion := .next
  victim := .fifo
  freq := -1
  maxKey := 1
  cacheSize := 32
  partMinima := 16
  cacheSize_lt := cabe_32

end LosAltos.Rc
