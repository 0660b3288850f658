import LosAltos.Rc.Frequency
import LosAltos.Rc.Semantics

/-!
# What `dummy_ng_allocate` answers

`rc/src/our_engine.c:267-334`. It answers `ENGINE_SUCCESS` without an item to a value above
`part_maxima`, and before it answers `ENGINE_ENOMEM` it may have freed the entry of the key and the
search may have evicted others.
-/
namespace LosAltos.Rc

open Lib

/-- Whether the answer is `ENGINE_SUCCESS`. -/
def Respuesta.exito : Respuesta → Bool
  | .enomem => false
  | _ => true

/-- What `*item` is assigned. -/
def Respuesta.asignado : Respuesta → Option Nat
  | .item i => some i
  | _ => none

def Lleva (m : Motor) (i : Nat) (key : List UInt8) (nbytes : Nat) : Prop :=
  (m.keyVector i).libre = false ∧ (m.keyVector i).dataSize = nbytes ∧ clave m i = key

/-- The value `dummy_ng_get` finds. -/
def leido (c : Config) (m : Motor) (key : List UInt8) (ahora : Tiempo) : Option (List UInt8) :=
  let r := dummyNgGet c m key ahora
  r.2.map (valor r.1)

/-- The call succeeds exactly where it assigns an entry with the key and the size, and otherwise
every key that was found still has its value. -/
structure Veraz (c : Config) (fuel : Nat) (m : Motor) (key : List UInt8) (nbytes : Nat)
    (ahora : Tiempo) : Prop where
  exito : ∀ m' r, dummyNgAllocate c fuel m key nbytes ahora = some (m', r) →
    (r.exito ↔ ∃ i < c.cantRegistros, r.asignado = some i ∧ Lleva m' i key nbytes)
  rechazo : ∀ m' r, dummyNgAllocate c fuel m key nbytes ahora = some (m', r) →
    r.exito = false → ∀ k t v, leido c m k t = some v → leido c m' k t = some v

/-- The first scan of the search comes to the end of what it scans without a fit, so the search
makes room. -/
def FallaPrimera (c : Config) (m : Motor) (espacio : Nat) : Prop :=
  match c.esquema with
  | .buddy => ∃ p < c.cantRegistros, (m.keyVector p).dataSize = 0 ∧
      ∀ j < p, (m.keyVector j).dataSize ≠ 0 ∧ ¬Sirve m espacio j
  | .partDinam =>
    match c.particion with
    | .next => SinLugarNext c espacio m m.ultimaPosicion
    | .worst => ∃ p, SinLugarWorst c espacio m 0 0 p

/-- There is no entry for the value: the table has no slot left for what is cut off. -/
def SinEntrada (c : Config) (fuel : Nat) (m : Motor) (key : List UInt8) (nbytes : Nat) : Prop :=
  ∃ m' it, lugarPara c fuel m key nbytes = some (m', it) ∧
    ∀ i, it = some i → (m'.keyVector i).key = none

variable {c : Config} {m m' : Motor} {fuel espacio nbytes i : Nat} {key : List UInt8}
  {ahora : Tiempo}

/-! ### What keeps the keys -/

/-- Every partition stays what it is, and the occupied ones stay as they are. -/
structure Respeta (c : Config) (m m' : Motor) : Prop where
  llena : ∀ i < c.cantRegistros, (m.keyVector i).dataSize ≠ 0 → (m'.keyVector i).dataSize ≠ 0
  libre : ∀ i < c.cantRegistros, (m.keyVector i).dataSize ≠ 0 →
    (m'.keyVector i).libre = (m.keyVector i).libre
  ocupada : ∀ i < c.cantRegistros, (m.keyVector i).dataSize ≠ 0 → (m.keyVector i).libre = false →
    (m'.keyVector i).key = (m.keyVector i).key ∧ (m'.keyVector i).nkey = (m.keyVector i).nkey ∧
    (m'.keyVector i).data = (m.keyVector i).data ∧
    (m'.keyVector i).dataSize = (m.keyVector i).dataSize
  keysSpace : m'.keysSpace = m.keysSpace
  cache : m'.cache = m.cache

theorem Respeta.congr (entries : m'.keyVector = m.keyVector) (keys : m'.keysSpace = m.keysSpace)
    (bytes : m'.cache = m.cache) : Respeta c m m' := by
  refine ⟨fun i _ filled => ?_, fun i _ _ => ?_, fun i _ _ _ => ?_, keys, bytes⟩
  all_goals rw [entries]
  · exact filled
  · exact ⟨rfl, rfl, rfl, rfl⟩

theorem Respeta.trans {m₁ : Motor} (first : Respeta c m m₁) (second : Respeta c m₁ m') :
    Respeta c m m' where
  llena i inside filled := second.llena i inside (first.llena i inside filled)
  libre i inside filled :=
    (second.libre i inside (first.llena i inside filled)).trans (first.libre i inside filled)
  ocupada i inside filled busy := by
    obtain ⟨key, nkey, data, size⟩ := first.ocupada i inside filled busy
    obtain ⟨key', nkey', data', size'⟩ := second.ocupada i inside (first.llena i inside filled)
      ((first.libre i inside filled).trans busy)
    exact ⟨key'.trans key, nkey'.trans nkey, data'.trans data, size'.trans size⟩
  keysSpace := second.keysSpace.trans first.keysSpace
  cache := second.cache.trans first.cache

theorem Respeta.tieneClave (kept : Respeta c m m') (inside : i < c.cantRegistros)
    (filled : (m.keyVector i).dataSize ≠ 0) : tieneClave m' key i = tieneClave m key i := by
  cases busy : (m.keyVector i).libre with
  | true => simp [Rc.tieneClave, kept.libre i inside filled, busy]
  | false =>
    obtain ⟨same, length, -, -⟩ := kept.ocupada i inside filled busy
    simp [Rc.tieneClave, kept.libre i inside filled, busy, same, length, kept.keysSpace]

/-- A key that is found is found at the same entry. -/
theorem Respeta.vectorGetLoop (kept : Respeta c m m') {k res : Nat}
    (found : vectorGetLoop c m key k i = some res) :
    vectorGetLoop c m' key k i = some res ∧ (m.keyVector res).dataSize ≠ 0 := by
  induction k generalizing i with
  | zero => cases found
  | succ k ih =>
    rw [Rc.vectorGetLoop] at found ⊢
    split at found
    · rename_i inside
      split at found
      · cases found
      · rename_i filled
        rw [if_pos inside, if_neg (kept.llena i inside filled), kept.tieneClave inside filled]
        split at found
        · rename_i here
          cases found
          rw [if_pos here]
          exact ⟨rfl, filled⟩
        · rename_i other
          rw [if_neg other]
          exact ih found
    · cases found

theorem leido_eq (c : Config) (m : Motor) (key : List UInt8) (ahora : Tiempo) :
    leido c m key ahora = (vectorGet c m key).map (valor m) := by
  unfold leido dummyNgGet
  cases vectorGet c m key with
  | none => rfl
  | some res =>
    simp only [Option.map_some, Option.some.injEq]
    unfold valor actualizarKey
    split
    · simp
    · rfl

theorem Respeta.leido (kept : Respeta c m m') {v : List UInt8}
    (found : leido c m key ahora = some v) : leido c m' key ahora = some v := by
  rw [leido_eq] at found ⊢
  obtain ⟨res, place, rfl⟩ := Option.map_eq_some_iff.mp found
  obtain ⟨inside, has⟩ := vectorGet_some place
  obtain ⟨same, filled⟩ := kept.vectorGetLoop place
  obtain ⟨-, -, data, size⟩ := kept.ocupada res inside filled (tieneClave_libre has)
  rw [vectorGet, same, Option.map_some, valor, valor, kept.cache, data, size]

/-! ### A search that makes no room -/

theorem Respeta.cerrar (m : Motor) (lugares prox espacio : Nat) :
    Respeta c m (cerrar m lugares prox espacio) := by
  refine ⟨fun k _ filled => ?_, fun k _ _ => ?_, fun k _ _ _ => ?_, rfl, rfl⟩
  all_goals by_cases here : k = lugares
  all_goals simp_all [Rc.cerrar]

theorem buscarPosLibre_apart {pos k : Nat} (found : buscarPosLibre c m = some pos)
    (filled : (m.keyVector k).dataSize ≠ 0) : k ≠ pos := by
  rintro rfl
  exact filled (buscarPosLibre_some found).2

theorem Respeta.cortar {pos : Nat} (dif : Int) (found : buscarPosLibre c m = some pos) :
    Respeta c m (cortar m i pos espacio dif) := by
  refine ⟨fun k _ filled => ?_, fun k _ filled => ?_, fun k _ filled _ => ?_, rfl, rfl⟩
  all_goals rw [cortar_other m espacio dif (buscarPosLibre_apart found filled)]
  · exact filled
  · exact ⟨rfl, rfl, rfl, rfl⟩

theorem Respeta.crearParticion (m : Motor) (prueba i espacio : Nat) :
    Respeta c m (crearParticion c m prueba i espacio).1 := by
  rcases crearParticion_cases c m prueba i espacio with same | ⟨pos, found, same⟩ | same
  · rw [same]
    exact .congr rfl rfl rfl
  · rw [same]
    exact .cortar _ found
  · rw [same]
    exact .congr rfl rfl rfl

theorem Respeta.dividir {lugares pos prox : Nat} (free : (m.keyVector lugares).libre)
    (filled : (m.keyVector lugares).dataSize ≠ 0) (found : buscarPosLibre c m = some pos)
    (positive : prox ≠ 0) : Respeta c m (dividir m lugares pos prox) := by
  obtain ⟨-, keys, bytes⟩ := dividir_resto m lugares pos prox
  have half := dividir_lugares m prox (buscarPosLibre_apart found filled)
  have rest (k : Nat) (other : k ≠ lugares) (filled : (m.keyVector k).dataSize ≠ 0) :=
    dividir_other m prox other (buscarPosLibre_apart found filled)
  simp only [KeyElement.sinRotulo, KeyElement.mk.injEq] at half rest
  refine ⟨fun k _ filled => ?_, fun k _ filled => ?_, fun k _ filled busy => ?_, keys, bytes⟩
  all_goals by_cases here : k = lugares
  · rw [here, half.2.2.2.1]
    exact positive
  · rw [(rest k here filled).2.2.2.1]
    exact filled
  · rw [here]
    exact half.2.2.2.2.2.2.2.2.1
  · exact (rest k here filled).2.2.2.2.2.2.2.2.1
  · rw [here, free] at busy
    cases busy
  · obtain ⟨key, nkey, -, size, -, data, -⟩ := rest k here filled
    exact ⟨key, nkey, data, size⟩

theorem Respeta.crearArbol (registros : 0 < c.cantRegistros) (minima : 0 < c.partMinima)
    {lugares k : Nat} {it : Option Nat} (table : Tabla c m) (block : Bloque c m lugares espacio)
    (runs : crearArbol c lugares espacio k m = some (m', it)) : Respeta c m m' := by
  induction k generalizing m with
  | zero => cases runs
  | succ k ih =>
    simp only [Rc.crearArbol] at runs
    split at runs
    · rename_i divides
      obtain ⟨bound, free⟩ : lugares < c.cantRegistros ∧ (m.keyVector lugares).libre := by
        rcases block with last | fits
        · have := (table.fin lugares (by omega)).1
          omega
        · exact ⟨fits.1, fits.2.1⟩
      split at runs
      · rename_i pos found
        have filled : (m.keyVector lugares).dataSize ≠ 0 := by
          have := Nat.mod_le ((m.keyVector lugares).dataSize / 2) (2 ^ 32)
          omega
        obtain ⟨inside, empty⟩ := buscarPosLibre_some found
        have apart := buscarPosLibre_apart found filled
        have step : Respeta c m _ := .dividir free filled found
          (by omega : (m.keyVector lugares).dataSize / 2 % 2 ^ 32 ≠ 0)
        refine step.trans (ih ?_ (Or.inr ⟨bound, ?_, ?_⟩) runs)
        · exact (tabla_estable registros).divide m lugares pos _ table bound inside apart free empty
            (by omega) (by omega) found
        · rw [step.libre lugares bound filled]
          exact free
        · have size := congrArg (·.dataSize)
            (dividir_lugares m ((m.keyVector lugares).dataSize / 2 % 2 ^ 32) apart)
          exact divides.1.trans_eq size.symm
      · simp only [Option.some.injEq, Prod.mk.injEq] at runs
        rw [← runs.1]
        exact .congr rfl rfl rfl
    · simp only [Option.some.injEq, Prod.mk.injEq] at runs
      rw [← runs.1]
      exact .cerrar m _ _ _

theorem RecorreBuddy.falla {t : EstadoBuddy} (scans : RecorreBuddy c m espacio t)
    (fails : HaceLugarBuddy c espacio t) :
    ∃ p < c.cantRegistros, (m.keyVector p).dataSize = 0 ∧
      ∀ j < p, (m.keyVector j).dataSize ≠ 0 ∧ ¬Sirve m espacio j := by
  obtain ⟨searching, inside, empty, missing⟩ := fails
  cases scans with
  | antes i lugares bound filled chosen =>
    refine ⟨i, inside, empty, fun j before => ⟨filled j before, ?_⟩⟩
    rcases chosen with ⟨-, absent⟩ | ⟨-, serves, -⟩
    · exact absent j before
    · rcases missing with ⟨-, small⟩ | busy
      · exact absurd serves.2 (Nat.not_le.mpr small)
      · exact absurd (serves.1.symm.trans busy) (by decide)
  | despues => cases searching

theorem buscarNext_quieto {t : EstadoNext}
    (visited : Visits (turnoNext c espacio) (m, m.ultimaPosicion, 0) t)
    (quiet : ∀ u, Visits (turnoNext c espacio) (m, m.ultimaPosicion, 0) u →
      ¬HaceLugarNext c espacio u) : t.1 = m := by
  induction visited with
  | start => rfl
  | @again t u visited next ih =>
    obtain ⟨m₁, i, fallidas⟩ := t
    rcases turnoNext_again next with ⟨-, rfl⟩ | ⟨fails, -⟩
    · exact ih
    · exact absurd (haceLugarNext_iff.mpr fails) (quiet _ visited)

theorem turnoNext_quieto {t : EstadoNext} {r : Motor × Nat} (quiet : ¬HaceLugarNext c espacio t)
    (last : turnoNext c espacio t = .done r) : r.1 = t.1 := by
  obtain ⟨m, i, fallidas⟩ := t
  have finds : ¬((recorrerNext c m espacio i).1 = m.ultimaPosicion ∧
      (recorrerNext c m espacio i).2 = false) := quiet
  simp only [turnoNext] at last
  rw [if_neg finds] at last
  split at last
  · cases last
    rfl
  · cases last

theorem buscarWorst_quieto {t : EstadoWorst}
    (visited : Visits (turnoWorst c espacio) (m, 0, 0, 0, false) t)
    (quiet : ∀ u, Visits (turnoWorst c espacio) (m, 0, 0, 0, false) u →
      ¬HaceLugarWorst c u) : t.1 = m := by
  induction visited with
  | start => rfl
  | @again t u visited next ih =>
    obtain ⟨m₁, i, pos, mayor, encontrado⟩ := t
    obtain ⟨inside, ⟨_, _, _, rfl, -⟩ | ⟨empty, none, searching, -⟩⟩ := turnoWorst_again next
    · exact ih
    · exact absurd ⟨Or.inl searching, inside, empty, none⟩ (quiet _ visited)

/-- A search whose first scan does not fail touches no occupied partition. -/
theorem Respeta.vectorSearch (registros : 0 < c.cantRegistros) (minima : 0 < c.partMinima)
    (table : Tabla c m) (finds : ¬FallaPrimera c m espacio) {it : Option Nat}
    (runs : vectorSearch c fuel m espacio = some (m', it)) : Respeta c m m' := by
  unfold Rc.vectorSearch at runs
  unfold FallaPrimera at finds
  cases scheme : c.esquema with
  | buddy =>
    rw [scheme] at runs finds
    simp only [buscarLibreBuddy, buscarBuddyLoop_turnos, Option.bind_eq_bind,
      Option.bind_eq_some_iff] at runs
    obtain ⟨⟨m₁, lugares⟩, search, tree⟩ := runs
    obtain ⟨t, visited, last⟩ := run_some search
    have scans := recorreBuddy_visita visited fun u _ scans fails => finds (scans.falla fails)
    obtain ⟨rfl, chosen⟩ := scans.fin last
    refine .crearArbol registros minima table ?_ tree
    rcases chosen with ⟨last, -⟩ | ⟨before, serves, -⟩
    · exact Or.inl last
    · exact Or.inr ⟨before.1, serves.1, serves.2⟩
  | partDinam =>
    rw [scheme] at runs finds
    dsimp only at runs finds
    cases choice : c.particion with
    | next =>
      rw [choice] at runs finds
      simp only [buscarLibreNext, buscarNextLoop_turnos, Option.bind_eq_bind,
        Option.bind_eq_some_iff] at runs
      obtain ⟨⟨m₁, i⟩, search, ends⟩ := runs
      have quiet (u : EstadoNext)
          (visited : Visits (turnoNext c espacio) (m, m.ultimaPosicion, 0) u) :
          ¬HaceLugarNext c espacio u := fun fails =>
        finds ((reaches_next_iff 0 (Or.inl rfl)).mp (visited.reaches fails))
      obtain ⟨t, visited, last⟩ := run_some search
      obtain rfl : m₁ = m :=
        (turnoNext_quieto (quiet t visited) last).trans (buscarNext_quieto visited quiet)
      have moved : Respeta c m₁
          { m₁ with ultimaPosicion := if i + 1 < c.cantRegistros then i + 1 else 0 } :=
        .congr rfl rfl rfl
      have cut : Respeta c _ _ := .crearParticion
        { m₁ with ultimaPosicion := if i + 1 < c.cantRegistros then i + 1 else 0 }
        (m₁.keyVector i).dataSize i espacio
      simp only [Option.some.injEq] at ends
      rw [ends] at cut
      exact moved.trans cut
    | worst =>
      rw [choice] at runs finds
      simp only [buscarLibreWorst, buscarWorstLoop_turnos, Option.bind_eq_bind,
        Option.bind_eq_some_iff] at runs
      obtain ⟨⟨m₁, i, pos⟩, search, ends⟩ := runs
      have quiet (u : EstadoWorst)
          (visited : Visits (turnoWorst c espacio) (m, 0, 0, 0, false) u) :
          ¬HaceLugarWorst c u := fun fails =>
        finds ((reaches_worst_iff 0 (Or.inl rfl)).mp (visited.reaches fails))
      obtain ⟨t, visited, last⟩ := run_some search
      have whole := (turnoWorst_done last).1
      obtain rfl : m₁ = m :=
        (congrArg Prod.fst whole).trans (buscarWorst_quieto visited quiet)
      have cut : Respeta c m₁ _ := .crearParticion m₁ (m₁.keyVector i).dataSize pos espacio
      simp only [Option.some.injEq] at ends
      rwa [ends] at cut

/-! ### The answer -/

theorem ocupar_lleva (m : Motor) (i : Nat) (p : Int) (key : List UInt8) (nbytes : Nat)
    (ahora : Tiempo) (area : (m.keyVector i).key = some p) :
    Lleva (ocupar m i p key nbytes ahora) i key nbytes := by
  refine ⟨by simp [ocupar], by simp [ocupar], ?_⟩
  have bytes := leer_escribir_self m.keysSpace p key
  simpa [clave, ocupar, area] using bytes

theorem Respeta.lugarPara (registros : 0 < c.cantRegistros) (minima : 0 < c.partMinima)
    (table : Tabla c m) (absent : ∀ j, vectorGet c m key ≠ some (j + 1))
    (finds : ¬FallaPrimera c m (nbytes % 2 ^ 32)) {it : Option Nat}
    (runs : lugarPara c fuel m key nbytes = some (m', it)) : Respeta c m m' := by
  unfold Rc.lugarPara at runs
  split at runs
  · rename_i j found
    exact absurd found (absent j)
  · exact .vectorSearch registros minima table finds runs

end LosAltos.Rc
