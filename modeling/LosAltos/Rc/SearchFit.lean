import LosAltos.Rc.SearchResults
import LosAltos.Rc.SearchEnds

/-!
# When a search finds the free partition that fits

`rc/src/vector.c:399-522, 524-642, 681-797`. A search reaches the partitions its scan passes, and
hands out the one it chose where the table has an entry for the rest. The conditions say which
partitions these are, on the table as it is when the search starts.
-/
namespace LosAltos.Rc

open Lib

/-! ### The searches without making room -/

/-- The test in front of `eliminar_particion` and `compactarDinam`, `vector.c:442`. -/
def HaceLugarNext (c : Config) (espacio : Nat) (t : EstadoNext) : Prop :=
  (recorrerNext c t.1 espacio t.2.1).1 = t.1.ultimaPosicion ∧
    (recorrerNext c t.1 espacio t.2.1).2 = false

/-- The tests in front of them in `buscarLibreWorst`, `vector.c:541-546`. -/
def HaceLugarWorst (c : Config) (t : EstadoWorst) : Prop :=
  (t.2.2.2.2 = false ∨ 0 < (t.1.keyVector t.2.1).dataSize) ∧ t.2.1 < c.cantRegistros ∧
    (t.1.keyVector t.2.1).dataSize = 0 ∧ t.2.2.2.1 = 0

/-- The tests in front of `eliminar_particion` in `buscarLibreBuddy`, `vector.c:752-757`. -/
def HaceLugarBuddy (c : Config) (espacio : Nat) (t : EstadoBuddy) : Prop :=
  t.2.2.2 = false ∧ t.2.1 < c.cantRegistros ∧ (t.1.keyVector t.2.1).dataSize = 0 ∧
    ((t.2.2.1 = 0 ∧ (t.1.keyVector t.2.2.1).dataSize < espacio) ∨
      (t.1.keyVector t.2.2.1).libre = false)

instance (c : Config) (espacio : Nat) : DecidablePred (HaceLugarNext c espacio) := fun _ =>
  inferInstanceAs (Decidable (_ ∧ _))

instance (c : Config) : DecidablePred (HaceLugarWorst c) := fun _ =>
  inferInstanceAs (Decidable (_ ∧ _))

instance (c : Config) (espacio : Nat) : DecidablePred (HaceLugarBuddy c espacio) := fun _ =>
  inferInstanceAs (Decidable (_ ∧ _))

/-- The search returns an entry that was free and large enough and makes no room for it. -/
def EncuentraNext (c : Config) (m : Motor) (espacio : Nat) : Prop :=
  (∃ fuel m' j, buscarLibreNext c fuel m espacio = some (m', some j) ∧ Sirve m espacio j) ∧
    ∀ t, Visits (turnoNext c espacio) (m, m.ultimaPosicion, 0) t → ¬HaceLugarNext c espacio t

/-- No free entry is larger. -/
def Maxima (c : Config) (m : Motor) (j : Nat) : Prop :=
  ∀ k < c.cantRegistros, (m.keyVector k).libre → (m.keyVector k).dataSize ≤ (m.keyVector j).dataSize

/-- The entry is also a largest one. -/
def EncuentraWorst (c : Config) (m : Motor) (espacio : Nat) : Prop :=
  (∃ fuel m' j, buscarLibreWorst c fuel m espacio = some (m', some j) ∧ Sirve m espacio j ∧
    Maxima c m j) ∧
    ∀ t, Visits (turnoWorst c espacio) (m, 0, 0, 0, false) t → ¬HaceLugarWorst c t

def EncuentraBuddy (c : Config) (m : Motor) (espacio : Nat) : Prop :=
  ∃ fuel, (∃ m' j, buscarLibreBuddy c fuel m espacio = some (m', some j) ∧ Sirve m espacio j) ∧
    ∀ t, Visits (turnoBuddy c fuel espacio) (m, 0, c.cantRegistros, false) t →
      ¬HaceLugarBuddy c espacio t

/-! ### What the scans pass -/

/-- From `i` on there are occupied entries, then empty ones, and then `s`. -/
def Detiene (c : Config) (m : Motor) (i s : Nat) : Prop :=
  s < c.cantRegistros ∧ ¬((m.keyVector s).libre ∧ (m.keyVector s).dataSize = 0) ∧
    ∃ t, i ≤ t ∧ t ≤ s ∧ (m.keyVector t).libre ∧
      (∀ k, i ≤ k → k < t → (m.keyVector k).libre = false) ∧
      ∀ k, t ≤ k → k < s → (m.keyVector k).libre ∧ (m.keyVector k).dataSize = 0

/-- What is left of a partition of `prueba` bytes needs an entry. -/
def Corta (c : Config) (prueba espacio : Nat) : Prop :=
  0 < a64 (prueba - espacio - diferencia c espacio)

instance (c : Config) (prueba espacio : Nat) : Decidable (Corta c prueba espacio) :=
  inferInstanceAs (Decidable (_ < _))

/-- The partition is free and large enough, and there is an entry for its rest. -/
def Toma (c : Config) (m : Motor) (espacio s : Nat) : Prop :=
  Sirve m espacio s ∧ (Corta c (m.keyVector s).dataSize espacio →
    ∃ k < c.cantRegistros, (m.keyVector k).dataSize = 0)

/-- The first free partition from `ultima_posicion` on can be taken, or it is too small and the
first one of the table can. -/
def AlcanzaNext (c : Config) (m : Motor) (espacio : Nat) : Prop :=
  ∃ s, Detiene c m m.ultimaPosicion s ∧ (Toma c m espacio s ∨
    (m.ultimaPosicion < s ∧ (m.keyVector s).dataSize < espacio ∧
      ∃ s', Detiene c m 0 s' ∧ Toma c m espacio s'))

variable {c : Config} {m m' : Motor} {espacio i j k s : Nat}

theorem avanza_eq (p : Nat → Bool) (n fuel : Nat) (enough : s ≤ i + fuel) (below : s ≤ n)
    (start : i ≤ s) (pass : ∀ k, i ≤ k → k < s → p k = true) (stop : s < n → p s = false) :
    avanza p n fuel i = s := by
  induction fuel generalizing i with
  | zero =>
    have : avanza p n 0 i = i := rfl
    omega
  | succ fuel ih =>
    unfold avanza
    by_cases here : i = s
    · subst here
      by_cases inside : i < n
      · simp [stop inside]
      · simp [inside]
    · have inside : i < n := by omega
      simp only [pass i le_rfl (by omega), inside, decide_true, Bool.and_true, if_true]
      exact ih (by omega) (by omega) fun k low high => pass k (by omega) high

theorem detiene_iff : Detiene c m i s ↔ s < c.cantRegistros ∧ parada c m i = s := by
  constructor
  · rintro ⟨inside, filled, t, start, before, free, busy, empty⟩
    refine ⟨inside, ?_⟩
    have first := avanza_eq (fun i => !(m.keyVector i).libre) c.cantRegistros c.cantRegistros
      (by omega) (by omega) start (fun k low high => by simp [busy k low high])
      (fun _ => by simp [free])
    unfold parada
    dsimp only
    rw [first]
    refine avanza_eq _ _ _ (by omega) (by omega) before (fun k low high => ?_) fun _ => ?_
    · simp [empty k low high]
    · simpa using filled
  · rintro ⟨inside, rfl⟩
    let n := c.cantRegistros
    let vacia : Nat → Bool := fun i => (m.keyVector i).libre && (m.keyVector i).dataSize == 0
    let t := avanza (fun i => !(m.keyVector i).libre) n n i
    have start : i ≤ t := avanza_ge _ _ _ _
    have whole : avanza vacia n n t = parada c m i := rfl
    have after : t ≤ parada c m i := whole ▸ avanza_ge vacia n n t
    have stopped := avanza_stops vacia n n t (by omega) (by omega) (by omega)
    have free := avanza_stops (fun i => !(m.keyVector i).libre) n n i (by omega) (by omega)
      (by omega)
    rw [whole] at stopped
    refine ⟨inside, by simpa [vacia] using stopped, t, start, after, by simpa using free, ?_, ?_⟩
    · intro k low high
      simpa using avanza_pasa (fun i => !(m.keyVector i).libre) n n i low high
    · intro k low high
      simpa [vacia] using avanza_pasa vacia n n t low (whole ▸ high)

/-! ### Next -/

theorem haceLugarNext_iff {fallidas : Int} :
    HaceLugarNext c espacio (m, i, fallidas) ↔ FaltaLugar c m espacio i := by
  unfold HaceLugarNext FaltaLugar
  dsimp only
  rw [recorrerNext_eq]
  by_cases last : parada c m i = c.cantRegistros
  · simp [last]
  · by_cases fits : espacio ≤ (m.keyVector (parada c m i)).dataSize
    · simp only [last, if_false, ge_iff_le, fits, if_true, Bool.true_eq_false, and_false, false_or,
        false_iff]
      omega
    · simp only [last, if_false, ge_iff_le, fits, and_true, false_or, max_eq_right_iff]
      omega

theorem parada_le (start : i ≤ c.cantRegistros) : parada c m i ≤ c.cantRegistros :=
  avanza_le _ _ _ _ (avanza_le _ _ _ _ start)

theorem parada_fuera (outside : c.cantRegistros < i) : parada c m i = i := by
  have stays : ∀ (p : Nat → Bool) (k : Nat), avanza p c.cantRegistros k i = i := by
    intro p k
    cases k with
    | zero => rfl
    | succ k => simp [avanza, outside.not_gt]
  unfold parada
  dsimp only
  rw [stays, stays]

theorem Vuelve.dentro (back : Vuelve c m espacio m.ultimaPosicion) :
    parada c m m.ultimaPosicion < c.cantRegistros := by
  obtain ⟨other, -, behind⟩ := back
  rcases Nat.lt_or_ge c.cantRegistros m.ultimaPosicion with outside | inside
  · rw [parada_fuera outside] at behind
    omega
  · have := parada_le (m := m) inside
    omega

theorem buscarPosLibre_iff :
    (∃ pos, buscarPosLibre c m = some pos) ↔ ∃ k < c.cantRegistros, (m.keyVector k).dataSize = 0 := by
  constructor
  · rintro ⟨pos, found⟩
    exact ⟨pos, buscarPosLibre_some found⟩
  · rintro ⟨k, inside, empty⟩
    cases found : buscarPosLibre c m with
    | some pos => exact ⟨pos, rfl⟩
    | none =>
      simp only [buscarPosLibre] at found
      split at found
      · rename_i last
        have filled := avanza_pasa (fun i => (m.keyVector i).dataSize != 0) c.cantRegistros
          c.cantRegistros 0 (Nat.zero_le k) (lt_of_lt_of_eq inside last.symm)
        simp [empty] at filled
      · cases found

/-- The chosen partition is handed out where the rest has an entry. -/
theorem crearParticion_iff {prueba : Nat} :
    (∃ m', crearParticion c m prueba i espacio = (m', some j)) ↔
      j = i ∧ (Corta c prueba espacio → ∃ k < c.cantRegistros, (m.keyVector k).dataSize = 0) := by
  rw [← buscarPosLibre_iff]
  unfold crearParticion Corta
  dsimp only
  by_cases cut : 0 < a64 (prueba - espacio - diferencia c espacio)
  · rw [if_pos cut]
    cases found : buscarPosLibre c m with
    | some pos => simp [eq_comm]
    | none => simp [cut]
  · rw [if_neg cut]
    simp [cut, eq_comm]

theorem Sirve.dentro (serves : Sirve m espacio s) (table : Tabla c m) : s < c.cantRegistros := by
  by_contra outside
  have busy := (table.fin s (by omega)).2.1
  rw [serves.1] at busy
  cases busy

theorem recorrido_cases (c : Config) (m : Motor) (espacio i : Nat) :
    (parada c m i ≠ c.cantRegistros ∧ espacio ≤ (m.keyVector (parada c m i)).dataSize) ∨
      Vuelve c m espacio i ∨ FaltaLugar c m espacio i := by
  unfold Vuelve FaltaLugar
  omega

/-- The search from `t` hands out an entry that `m` had free and large enough. -/
def Entrega (c : Config) (m : Motor) (espacio : Nat) (t : EstadoNext) : Prop :=
  ∃ fuel m₁ i₁ m' j, run (turnoNext c espacio) fuel t = some (m₁, i₁) ∧
    crearParticion c { m₁ with
      ultimaPosicion := if i₁ + 1 < c.cantRegistros then i₁ + 1 else 0 }
      (m₁.keyVector i₁).dataSize i₁ espacio = (m', some j) ∧ Sirve m espacio j

theorem entrega_iff :
    (∃ fuel m' j, buscarLibreNext c fuel m espacio = some (m', some j) ∧ Sirve m espacio j) ↔
      Entrega c m espacio (m, m.ultimaPosicion, 0) := by
  constructor
  · rintro ⟨fuel, m', j, runs, serves⟩
    simp only [buscarLibreNext, Option.bind_eq_bind, Option.bind_eq_some_iff] at runs
    obtain ⟨⟨m₁, i₁⟩, search, ends⟩ := runs
    rw [buscarNextLoop_turnos] at search
    exact ⟨fuel, m₁, i₁, m', j, search, Option.some.inj ends, serves⟩
  · rintro ⟨fuel, m₁, i₁, m', j, search, ends, serves⟩
    refine ⟨fuel, m', j, ?_, serves⟩
    simp only [buscarLibreNext, buscarNextLoop_turnos, search, Option.bind_eq_bind,
      Option.bind_some]
    rw [ends]

theorem entrega_again {t u : EstadoNext} (next : turnoNext c espacio t = .again u) :
    Entrega c m espacio t ↔ Entrega c m espacio u := by
  constructor
  · rintro ⟨fuel, m₁, i₁, m', j, search, rest⟩
    cases fuel with
    | zero => cases search
    | succ fuel =>
      rw [run, next] at search
      exact ⟨fuel, m₁, i₁, m', j, search, rest⟩
  · rintro ⟨fuel, m₁, i₁, m', j, search, rest⟩
    exact ⟨fuel + 1, m₁, i₁, m', j, by rw [run, next]; exact search, rest⟩

theorem entrega_done {t : EstadoNext} (last : turnoNext c espacio t = .done (m, s)) :
    Entrega c m espacio t ↔ Toma c m espacio s := by
  constructor
  · rintro ⟨fuel, m₁, i₁, m', j, search, ends, serves⟩
    obtain ⟨u, visited, here⟩ := run_some search
    rw [visited.of_done last, last] at here
    cases here
    obtain ⟨rfl, cut⟩ := crearParticion_iff.mp ⟨m', ends⟩
    exact ⟨serves, cut⟩
  · rintro ⟨serves, cut⟩
    obtain ⟨m', ends⟩ := (crearParticion_iff (m := { m with
      ultimaPosicion := if s + 1 < c.cantRegistros then s + 1 else 0 }) (j := s)).mpr ⟨rfl, cut⟩
    exact ⟨1, m, s, m', s, by rw [run, last], ends, serves⟩

theorem turnoNext_para (fallidas : Int)
    (stops : parada c m i ≠ c.cantRegistros ∧ espacio ≤ (m.keyVector (parada c m i)).dataSize) :
    turnoNext c espacio (m, i, fallidas) = .done (m, parada c m i) := by
  rw [turnoNext_eq, if_pos stops]

/-- A partition that can be taken is where the scan that meets it ends the search. -/
theorem Toma.para (taken : Toma c m espacio s) (stops : Detiene c m i s) :
    parada c m i = s ∧ parada c m i ≠ c.cantRegistros ∧
      espacio ≤ (m.keyVector (parada c m i)).dataSize := by
  obtain ⟨inside, rfl⟩ := detiene_iff.mp stops
  exact ⟨rfl, inside.ne, taken.1.2⟩

/-- `buscarLibreNext` finds an entry without making room exactly where its two scans meet one. -/
theorem encuentraNext_iff (table : Tabla c m) :
    EncuentraNext c m espacio ↔ AlcanzaNext c m espacio := by
  unfold EncuentraNext
  rw [entrega_iff]
  constructor
  · rintro ⟨hands, quiet⟩
    rcases recorrido_cases c m espacio m.ultimaPosicion with stops | back | missing
    · have taken := (entrega_done (turnoNext_para 0 stops)).mp hands
      exact ⟨_, detiene_iff.mpr ⟨taken.1.dentro table, rfl⟩, Or.inl taken⟩
    · have next := turnoNext_vuelve 0 back
      rw [entrega_again next] at hands
      refine ⟨_, detiene_iff.mpr ⟨back.dentro, rfl⟩, Or.inr ⟨back.2.2, back.2.1, ?_⟩⟩
      rcases recorrido_cases c m espacio 0 with stops | again | missing
      · have taken := (entrega_done (turnoNext_para 0 stops)).mp hands
        exact ⟨_, detiene_iff.mpr ⟨taken.1.dentro table, rfl⟩, taken⟩
      · obtain ⟨fuel, m₁, i₁, -, -, search, -⟩ := hands
        exact absurd (ends_of_run search) (vuelve_sin_fin again again)
      · exact absurd (haceLugarNext_iff.mpr missing) (quiet _ (Visits.start.again next))
    · exact absurd (haceLugarNext_iff.mpr missing) (quiet _ .start)
  · rintro ⟨s, stops, taken | ⟨behind, small, s', stops', taken⟩⟩
    · obtain ⟨here, para⟩ := taken.para stops
      have last := turnoNext_para 0 para
      refine ⟨(entrega_done last).mpr (here ▸ taken), fun t visited room => ?_⟩
      rw [visited.of_done last, haceLugarNext_iff] at room
      unfold FaltaLugar at room
      omega
    · obtain ⟨inside, rfl⟩ := detiene_iff.mp stops
      have back : Vuelve c m espacio m.ultimaPosicion := ⟨inside.ne, small, behind⟩
      have next := turnoNext_vuelve 0 back
      obtain ⟨here, para⟩ := taken.para stops'
      have last := turnoNext_para 0 para
      refine ⟨(entrega_again next).mpr ((entrega_done last).mpr (here ▸ taken)),
        fun t visited room => ?_⟩
      rcases visited.of_again next with rfl | later
      · rw [haceLugarNext_iff] at room
        unfold FaltaLugar at room
        omega
      · rw [later.of_done last, haceLugarNext_iff] at room
        unfold FaltaLugar at room
        omega

/-! ### Worst -/

/-- A free partition of `R` that is large enough, where no later one of `R` is above the 32 bits
that `mayor_tamano` keeps of its size. -/
def Retenida (m : Motor) (espacio : Nat) (R : Nat → Prop) (j : Nat) : Prop :=
  R j ∧ Sirve m espacio j ∧ ∀ k, R k → j < k → Sirve m espacio k →
    (m.keyVector k).dataSize ≤ (m.keyVector j).dataSize % 2 ^ 32

/-- With an empty entry at `z` and the next one at `z'`: a partition is retained before `z`, and a
largest one before `z'`. In a table with no empty entry the largest one is retained and there is
no rest. -/
def AlcanzaWorst (c : Config) (m : Motor) (espacio : Nat) : Prop :=
  (∃ z z', z < z' ∧ z' ≤ c.cantRegistros ∧ (∀ k < z', k ≠ z → (m.keyVector k).dataSize ≠ 0) ∧
    (m.keyVector z).dataSize = 0 ∧ (m.keyVector z').dataSize = 0 ∧
    (∃ j, Retenida m espacio (· < z) j ∧ 0 < (m.keyVector j).dataSize % 2 ^ 32) ∧
    ∃ j, Retenida m espacio (fun k => k < z' ∧ k ≠ z) j ∧ Maxima c m j) ∨
  ((∀ k < c.cantRegistros, (m.keyVector k).dataSize ≠ 0) ∧ ¬Corta c 0 espacio ∧
    ∃ j, Retenida m espacio (· < c.cantRegistros) j ∧ Maxima c m j)

/-- The choice among the entries `R` scanned so far: the first one that is retained. -/
def Elegida (m : Motor) (espacio : Nat) (R : Nat → Prop) (pos mayor : Nat) : Prop :=
  (mayor = 0 ∧ ∀ k, R k → ¬Sirve m espacio k) ∨
    (Retenida m espacio R pos ∧ mayor = (m.keyVector pos).dataSize % 2 ^ 32 ∧
      ∀ j, j < pos → ¬Retenida m espacio R j)

/-- The states of a scan that makes no room: up to the first empty entry, and behind it. -/
inductive RecorreWorst (c : Config) (m : Motor) (espacio : Nat) : EstadoWorst → Prop where
  | antes (i pos mayor : Nat) : i ≤ c.cantRegistros → (∀ k < i, (m.keyVector k).dataSize ≠ 0) →
      Elegida m espacio (· < i) pos mayor → RecorreWorst c m espacio (m, i, pos, mayor, false)
  | despues (z i pos mayor pos₀ mayor₀ : Nat) : z < c.cantRegistros →
      (∀ k < z, (m.keyVector k).dataSize ≠ 0) → (m.keyVector z).dataSize = 0 →
      Elegida m espacio (· < z) pos₀ mayor₀ → mayor₀ ≠ 0 →
      z < i → i ≤ c.cantRegistros → (∀ k, z < k → k < i → (m.keyVector k).dataSize ≠ 0) →
      Elegida m espacio (fun k => k < i ∧ k ≠ z) pos mayor →
      RecorreWorst c m espacio (m, i, pos, mayor, true)

theorem Elegida.mas {R R' : Nat → Prop} {pos mayor : Nat} (chosen : Elegida m espacio R pos mayor)
    (filled : (m.keyVector i).dataSize ≠ 0) (below : ∀ k, R k → k < i)
    (more : ∀ k, R' k ↔ R k ∨ k = i) :
    Elegida m espacio R'
      (if (m.keyVector i).dataSize ≥ espacio ∧ (m.keyVector i).dataSize > mayor ∧
        (m.keyVector i).libre then i else pos)
      (if (m.keyVector i).dataSize ≥ espacio ∧ (m.keyVector i).dataSize > mayor ∧
        (m.keyVector i).libre then (m.keyVector i).dataSize % 2 ^ 32 else mayor) := by
  have here : R' i := (more i).mpr (Or.inr rfl)
  have narrower : ∀ j, j < i → Retenida m espacio R' j → Retenida m espacio R j := by
    rintro j before ⟨member, serves, last⟩
    refine ⟨?_, serves, fun k inside => last k ((more k).mpr (Or.inl inside))⟩
    rcases (more j).mp member with inside | rfl
    · exact inside
    · omega
  split
  · rename_i takes
    refine Or.inr ⟨⟨here, ⟨takes.2.2, takes.1⟩, fun k member later _ => ?_⟩, rfl, ?_⟩
    · rcases (more k).mp member with inside | rfl
      · have := below k inside
        omega
      · omega
    · -- the new size is above what the old choice kept, and so above every size behind it
      intro j before kept
      have size := kept.2.2 i here before ⟨takes.2.2, takes.1⟩
      have old := narrower j before kept
      rcases chosen with ⟨-, absent⟩ | ⟨best, same, first⟩
      · exact absent j old.1 old.2.1
      · rcases Nat.lt_trichotomy j pos with less | rfl | greater
        · exact first j less old
        · omega
        · have := best.2.2 j old.1 greater old.2.1
          have := Nat.mod_le (m.keyVector j).dataSize (2 ^ 32)
          omega
  · rename_i leaves
    rcases chosen with ⟨none, absent⟩ | ⟨best, same, first⟩
    · refine Or.inl ⟨none, fun k member serves => ?_⟩
      rcases (more k).mp member with inside | rfl
      · exact absent k inside serves
      · exact leaves ⟨serves.2, by omega, serves.1⟩
    · have before := below pos best.1
      refine Or.inr ⟨⟨(more pos).mpr (Or.inl best.1), best.2.1, fun k member later fits => ?_⟩, same,
        fun j less kept => first j less (narrower j (by omega) kept)⟩
      rcases (more k).mp member with inside | rfl
      · exact best.2.2 k inside later fits
      · by_contra larger
        exact leaves ⟨fits.2, by omega, fits.1⟩

theorem RecorreWorst.turno {t u : EstadoWorst} (scans : RecorreWorst c m espacio t)
    (quiet : ¬HaceLugarWorst c t) (next : turnoWorst c espacio t = .again u) :
    RecorreWorst c m espacio u := by
  cases scans with
  | antes i pos mayor bound filled chosen =>
    simp only [turnoWorst] at next
    split at next
    · rename_i runs
      split at next
      · rename_i empty
        split at next
        · rename_i none
          exact absurd ⟨Or.inl rfl, runs.2, empty, none⟩ quiet
        · rename_i some
          cases next
          refine .despues i (i + 1) pos mayor pos mayor runs.2 filled empty chosen some (by omega)
            runs.2 (fun k low high => by omega) ?_
          have same : (fun k => k < i + 1 ∧ k ≠ i) = fun k => k < i := by
            funext k
            apply propext
            omega
          rw [same]
          exact chosen
      · rename_i full
        have wider := chosen.mas full (fun k below => below)
          (fun k => (by omega : k < i + 1 ↔ k < i ∨ k = i))
        have filled' : ∀ k < i + 1, (m.keyVector k).dataSize ≠ 0 := by
          intro k below
          by_cases here : k = i
          · exact here ▸ full
          · exact filled k (by omega)
        split at next
        · rename_i takes
          cases next
          rw [if_pos takes, if_pos takes] at wider
          exact .antes _ _ _ runs.2 filled' wider
        · rename_i leaves
          cases next
          rw [if_neg leaves, if_neg leaves] at wider
          exact .antes _ _ _ runs.2 filled' wider
    · cases next
  | despues z i pos mayor pos₀ mayor₀ inside filled empty first some before bound filled₁ chosen =>
    simp only [turnoWorst] at next
    split at next
    · rename_i runs
      have full : (m.keyVector i).dataSize ≠ 0 := by
        rcases runs.1 with no | positive
        · cases no
        · omega
      rw [if_neg full] at next
      have wider := chosen.mas full (fun k below => below.1)
        (fun k => (by omega : k < i + 1 ∧ k ≠ z ↔ (k < i ∧ k ≠ z) ∨ k = i))
      have filled' : ∀ k, z < k → k < i + 1 → (m.keyVector k).dataSize ≠ 0 := by
        intro k low high
        by_cases here : k = i
        · exact here ▸ full
        · exact filled₁ k low (by omega)
      split at next
      · rename_i takes
        cases next
        rw [if_pos takes, if_pos takes] at wider
        exact .despues _ _ _ _ _ _ inside filled empty first some (by omega) runs.2 filled' wider
      · rename_i leaves
        cases next
        rw [if_neg leaves, if_neg leaves] at wider
        exact .despues _ _ _ _ _ _ inside filled empty first some (by omega) runs.2 filled' wider
    · cases next

/-- The choice is as large as any retained partition, in what is kept of its size too. -/
theorem Elegida.retenida {R : Nat → Prop} {pos mayor : Nat}
    (chosen : Elegida m espacio R pos mayor) (kept : Retenida m espacio R j) :
    Retenida m espacio R pos ∧ mayor = (m.keyVector pos).dataSize % 2 ^ 32 ∧
      (m.keyVector j).dataSize ≤ (m.keyVector pos).dataSize ∧
      (m.keyVector j).dataSize % 2 ^ 32 ≤ mayor := by
  rcases chosen with ⟨-, absent⟩ | ⟨best, same, first⟩
  · exact absurd kept.2.1 (absent j kept.1)
  · refine ⟨best, same, ?_⟩
    rcases Nat.lt_trichotomy j pos with less | rfl | greater
    · exact absurd kept (first j less)
    · exact ⟨le_rfl, same.ge⟩
    · have size := best.2.2 j kept.1 greater kept.2.1
      have whole := Nat.mod_le (m.keyVector pos).dataSize (2 ^ 32)
      have part := Nat.mod_le (m.keyVector j).dataSize (2 ^ 32)
      omega

theorem AlcanzaWorst.quieto {t : EstadoWorst} (reaches : AlcanzaWorst c m espacio)
    (scans : RecorreWorst c m espacio t) : ¬HaceLugarWorst c t := by
  rintro ⟨runs, inside, empty, none⟩
  cases scans with
  | antes i pos mayor bound filled chosen =>
    dsimp only at inside empty none
    rcases reaches with ⟨z, z', before, last, others, here, -, ⟨j, kept, positive⟩, -⟩ | ⟨full, -⟩
    · have same : z = i := by
        rcases Nat.lt_trichotomy z i with less | equal | greater
        · exact absurd here (filled z less)
        · exact equal
        · exact absurd empty (others i (by omega) (by omega))
      rw [same] at kept
      have := (chosen.retenida kept).2.2.2
      omega
    · exact full i inside empty
  | despues =>
    rcases runs with no | positive
    · cases no
    · dsimp only at positive empty
      omega

theorem turnoWorst_fault {t : EstadoWorst} (last : turnoWorst c espacio t = .fault) :
    HaceLugarWorst c t := by
  obtain ⟨m, i, pos, mayor, encontrado⟩ := t
  simp only [turnoWorst] at last
  split at last
  · rename_i runs
    split at last
    · rename_i empty
      split at last
      · rename_i none
        exact ⟨runs.1, runs.2, empty, none⟩
      · cases last
    · split at last <;> cases last
  · cases last

/-- How a scan that makes no room ends: at the end of a full table, or at the second empty
entry. -/
theorem RecorreWorst.fin {t : EstadoWorst} {r : Motor × Nat × Nat} (table : Tabla c m)
    (scans : RecorreWorst c m espacio t) (last : turnoWorst c espacio t = .done r) :
    (r = (m, c.cantRegistros, r.2.2) ∧ (∀ k < c.cantRegistros, (m.keyVector k).dataSize ≠ 0) ∧
      ∃ mayor, Elegida m espacio (· < c.cantRegistros) r.2.2 mayor) ∨
    ∃ z z', r = (m, z', r.2.2) ∧ z < z' ∧ z' ≤ c.cantRegistros ∧
      (∀ k < z', k ≠ z → (m.keyVector k).dataSize ≠ 0) ∧ (m.keyVector z).dataSize = 0 ∧
      (m.keyVector z').dataSize = 0 ∧
      (∃ pos mayor, Elegida m espacio (· < z) pos mayor ∧ mayor ≠ 0) ∧
      ∃ mayor, Elegida m espacio (fun k => k < z' ∧ k ≠ z) r.2.2 mayor := by
  obtain ⟨rfl, stops⟩ := turnoWorst_done last
  cases scans with
  | antes i pos mayor bound filled chosen =>
    have here : i = c.cantRegistros := by
      by_contra other
      exact stops ⟨Or.inl rfl, by dsimp only; omega⟩
    subst here
    exact Or.inl ⟨rfl, filled, mayor, chosen⟩
  | despues z i pos mayor pos₀ mayor₀ inside filled empty first some before bound filled₁ chosen =>
    refine Or.inr ⟨z, i, rfl, before, bound, fun k below other => ?_, empty, ?_,
      ⟨pos₀, mayor₀, first, some⟩, mayor, chosen⟩
    · rcases Nat.lt_or_gt_of_ne other with less | greater
      · exact filled k less
      · exact filled₁ k greater below
    · by_contra full
      rcases Nat.lt_or_ge i c.cantRegistros with within | outside
      · exact stops ⟨Or.inr (Nat.pos_of_ne_zero full), within⟩
      · exact full (table.fin i outside).1

theorem buscarLibreWorst_some {fuel : Nat} :
    buscarLibreWorst c fuel m espacio = some (m', some j) ↔
      ∃ m₁ i pos, run (turnoWorst c espacio) fuel (m, 0, 0, 0, false) = some (m₁, i, pos) ∧
        crearParticion c m₁ (m₁.keyVector i).dataSize pos espacio = (m', some j) := by
  simp only [buscarLibreWorst, buscarWorstLoop_turnos, Option.bind_eq_bind,
    Option.bind_eq_some_iff, Prod.exists, Option.some.injEq]

theorem recorreWorst_inicio : RecorreWorst c m espacio (m, 0, 0, 0, false) :=
  .antes 0 0 0 (Nat.zero_le _) (fun k before => absurd before (Nat.not_lt_zero k))
    (Or.inl ⟨rfl, fun k before => absurd before (Nat.not_lt_zero k)⟩)

theorem recorreWorst_visita {t : EstadoWorst}
    (visited : Visits (turnoWorst c espacio) (m, 0, 0, 0, false) t)
    (quiet : ∀ u, Visits (turnoWorst c espacio) (m, 0, 0, 0, false) u →
      RecorreWorst c m espacio u → ¬HaceLugarWorst c u) : RecorreWorst c m espacio t := by
  induction visited with
  | start => exact recorreWorst_inicio
  | again visited next ih => exact ih.turno (quiet _ visited ih) next

/-- `buscarLibreWorst` finds a largest free entry without making room exactly where its scan
meets one. -/
theorem encuentraWorst_iff (table : Tabla c m) :
    EncuentraWorst c m espacio ↔ AlcanzaWorst c m espacio := by
  constructor
  · rintro ⟨⟨fuel, m', j, runs, serves, largest⟩, quiet⟩
    obtain ⟨m₁, i, pos, search, ends⟩ := buscarLibreWorst_some.mp runs
    obtain ⟨t, visited, last⟩ := run_some search
    have scans := recorreWorst_visita visited fun u visits _ => quiet u visits
    rcases scans.fin table last with ⟨same, full, mayor, chosen⟩ |
      ⟨z, z', same, before, bound, others, first, second, ⟨pos₀, mayor₀, chosen₀, some⟩, mayor,
        chosen⟩
    · cases same
      obtain ⟨rfl, cut⟩ := crearParticion_iff.mp ⟨m', ends⟩
      refine Or.inr ⟨full, fun cuts => ?_, ?_⟩
      · rw [(table.fin _ le_rfl).1] at cut
        obtain ⟨k, inside, empty⟩ := cut cuts
        exact full k inside empty
      · rcases chosen with ⟨-, absent⟩ | ⟨best, -, -⟩
        · exact absurd serves (absent j (serves.dentro table))
        · exact ⟨j, best, largest⟩
    · cases same
      obtain ⟨rfl, -⟩ := crearParticion_iff.mp ⟨m', ends⟩
      refine Or.inl ⟨z, i, before, bound, others, first, second, ?_, ?_⟩
      · rcases chosen₀ with ⟨none, -⟩ | ⟨best, rfl, -⟩
        · exact absurd none some
        · exact ⟨pos₀, best, Nat.pos_of_ne_zero some⟩
      · rcases chosen with ⟨-, absent⟩ | ⟨best, -, -⟩
        · exfalso
          rcases chosen₀ with ⟨none, -⟩ | ⟨best, -, -⟩
          · exact some none
          · have low : pos₀ < z := best.1
            exact absent pos₀ ⟨by omega, by omega⟩ best.2.1
        · exact ⟨j, best, largest⟩
  · intro reaches
    have quiet : ∀ t, Visits (turnoWorst c espacio) (m, 0, 0, 0, false) t →
        ¬HaceLugarWorst c t := fun t visited =>
      reaches.quieto (recorreWorst_visita visited fun u _ scans => reaches.quieto scans)
    refine ⟨?_, quiet⟩
    have ends : Ends (turnoWorst c espacio) (m, 0, 0, 0, false) := by
      refine ends_of_measure (fun t => c.cantRegistros - t.2.1) fun t u visited next => ?_
      obtain ⟨m₁, i, pos, mayor, encontrado⟩ := t
      obtain ⟨inside, ⟨_, _, _, rfl, -⟩ | ⟨empty, none, searching, -⟩⟩ := turnoWorst_again next
      · dsimp only
        omega
      · exact absurd ⟨Or.inl searching, inside, empty, none⟩ (quiet _ visited)
    obtain ⟨fuel, r, search⟩ := ends.run fun t visited fault =>
      quiet t visited (turnoWorst_fault fault)
    obtain ⟨t, visited, last⟩ := run_some search
    have scans := recorreWorst_visita visited fun u visits _ => quiet u visits
    obtain ⟨m₁, i, pos⟩ := r
    rcases scans.fin table last with ⟨same, full, mayor, chosen⟩ |
      ⟨z, z', same, before, bound, others, first, second, -, mayor, chosen⟩
    · cases same
      rcases reaches with ⟨y, y', less, top, -, here, -⟩ | ⟨-, uncut, j, kept, largest⟩
      · exact absurd here (full y (by omega))
      · obtain ⟨best, -, size, -⟩ := chosen.retenida kept
        have room : Corta c (m.keyVector c.cantRegistros).dataSize espacio →
            ∃ k < c.cantRegistros, (m.keyVector k).dataSize = 0 := by
          rw [(table.fin _ le_rfl).1]
          exact fun cuts => absurd cuts uncut
        obtain ⟨m', ends⟩ := crearParticion_iff.mpr ⟨rfl, room⟩
        exact ⟨fuel, m', pos, buscarLibreWorst_some.mpr ⟨_, _, _, search, ends⟩, best.2.1,
          fun k inside free => (largest k inside free).trans size⟩
    · cases same
      rcases reaches with ⟨y, y', less, top, rest, here, there, -, j, kept, largest⟩ | ⟨full, -⟩
      · have same : y = z := by
          rcases Nat.lt_trichotomy y z with lower | equal | higher
          · exact absurd here (others y (by omega) (by omega))
          · exact equal
          · exact absurd first (rest z (by omega) (by omega))
        subst same
        have same : y' = i := by
          rcases Nat.lt_trichotomy y' i with lower | equal | higher
          · exact absurd there (others y' lower (by omega))
          · exact equal
          · exact absurd second (rest i higher (by omega))
        subst same
        obtain ⟨best, -, size, -⟩ := chosen.retenida kept
        have room : Corta c (m.keyVector y').dataSize espacio →
            ∃ k < c.cantRegistros, (m.keyVector k).dataSize = 0 := fun _ => ⟨y, by omega, first⟩
        obtain ⟨m', ends⟩ := crearParticion_iff.mpr ⟨rfl, room⟩
        exact ⟨fuel, m', pos, buscarLibreWorst_some.mpr ⟨_, _, _, search, ends⟩, best.2.1,
          fun k inside free => (largest k inside free).trans size⟩
      · exact absurd first (full z (by omega))

/-! ### Buddy -/

/-- A block of `s` bytes is halved `d` times for the value. -/
inductive Divide (c : Config) (espacio : Nat) : Nat → Nat → Prop where
  | fin (s : Nat) : ¬(espacio ≤ s / 2 % 2 ^ 32 ∧ s / 2 % 2 ^ 32 ≥ c.partMinima) →
      Divide c espacio s 0
  | mas (s d : Nat) : (espacio ≤ s / 2 % 2 ^ 32 ∧ s / 2 % 2 ^ 32 ≥ c.partMinima) →
      Divide c espacio (s / 2 % 2 ^ 32) d → Divide c espacio s (d + 1)

def vacias (c : Config) (m : Motor) : Finset Nat :=
  {k ∈ Finset.range c.cantRegistros | (m.keyVector k).dataSize = 0}

/-- Before the first empty entry. -/
def Antes (c : Config) (m : Motor) (k : Nat) : Prop :=
  k < c.cantRegistros ∧ ∀ l ≤ k, (m.keyVector l).dataSize ≠ 0

/-- A smallest block of `R` that is free and large enough, the end of the table for none. -/
def Menor (c : Config) (m : Motor) (espacio : Nat) (R : Nat → Prop) (lugares : Nat) : Prop :=
  (lugares = c.cantRegistros ∧ ∀ k, R k → ¬Sirve m espacio k) ∨
    (R lugares ∧ Sirve m espacio lugares ∧ ∀ k, R k → Sirve m espacio k →
      (m.keyVector lugares).dataSize ≤ (m.keyVector k).dataSize)

/-- Before the first empty entry there is a block that is free and large enough, and the table has
an empty entry for each time a smallest one is halved. -/
def AlcanzaBuddy (c : Config) (m : Motor) (espacio : Nat) : Prop :=
  ∃ j, Antes c m j ∧ Menor c m espacio (Antes c m) j ∧
    ∃ d ≤ (vacias c m).card, Divide c espacio (m.keyVector j).dataSize d

theorem vacias_dividir {lugares pos prox : Nat} (filled : (m.keyVector lugares).dataSize ≠ 0)
    (empty : (m.keyVector pos).dataSize = 0) (positive : prox ≠ 0) :
    vacias c (dividir m lugares pos prox) = (vacias c m).erase pos := by
  have apart : lugares ≠ pos := by
    rintro rfl
    exact filled empty
  ext k
  simp only [vacias, Finset.mem_filter, Finset.mem_range, Finset.mem_erase]
  by_cases first : k = lugares
  · subst first
    have size : ((dividir m k pos prox).keyVector k).dataSize = prox :=
      congrArg (·.dataSize) (dividir_lugares m prox apart)
    simp [size, positive, filled]
  · by_cases second : k = pos
    · subst second
      have size : ((dividir m lugares k prox).keyVector k).dataSize = prox :=
        congrArg (·.dataSize) (dividir_posicionn m prox apart)
      simp [size, positive]
    · have size : ((dividir m lugares pos prox).keyVector k).dataSize =
          (m.keyVector k).dataSize := congrArg (·.dataSize) (dividir_other m prox first second)
      simp [size, second]

section Arbol
variable (minima : 0 < c.partMinima)
include minima

/-- A halving leaves the half behind and one empty entry less. -/
theorem dividir_vacias {lugares pos : Nat}
    (divides : espacio ≤ (m.keyVector lugares).dataSize / 2 % 2 ^ 32 ∧
      (m.keyVector lugares).dataSize / 2 % 2 ^ 32 ≥ c.partMinima)
    (found : buscarPosLibre c m = some pos) :
    ((dividir m lugares pos ((m.keyVector lugares).dataSize / 2 % 2 ^ 32)).keyVector
        lugares).dataSize = (m.keyVector lugares).dataSize / 2 % 2 ^ 32 ∧
      (vacias c (dividir m lugares pos ((m.keyVector lugares).dataSize / 2 % 2 ^ 32))).card + 1 =
        (vacias c m).card := by
  obtain ⟨inside, empty⟩ := buscarPosLibre_some found
  have filled : (m.keyVector lugares).dataSize ≠ 0 := by
    intro zero
    rw [zero] at divides
    omega
  have apart : lugares ≠ pos := by
    rintro rfl
    exact filled empty
  have member : pos ∈ vacias c m := Finset.mem_filter.mpr ⟨Finset.mem_range.mpr inside, empty⟩
  refine ⟨congrArg (·.dataSize) (dividir_lugares m _ apart), ?_⟩
  rw [vacias_dividir filled empty (by omega)]
  exact Finset.card_erase_add_one member

omit minima in
theorem buscarPosLibre_vacias (some : 0 < (vacias c m).card) :
    ∃ pos, buscarPosLibre c m = Option.some pos := by
  obtain ⟨k, member⟩ := Finset.card_pos.mp some
  have ⟨inside, empty⟩ := Finset.mem_filter.mp member
  exact buscarPosLibre_iff.mpr ⟨k, Finset.mem_range.mp inside, empty⟩

theorem crearArbol_divide {lugares fuel : Nat}
    (runs : crearArbol c lugares espacio fuel m = some (m', some j)) :
    j = lugares ∧ ∃ d ≤ (vacias c m).card, Divide c espacio (m.keyVector lugares).dataSize d := by
  induction fuel generalizing m with
  | zero => cases runs
  | succ fuel ih =>
    simp only [crearArbol] at runs
    split at runs
    · rename_i divides
      split at runs
      · rename_i pos found
        obtain ⟨size, fewer⟩ := dividir_vacias minima divides found
        obtain ⟨same, d, few, halves⟩ := ih runs
        rw [size] at halves
        exact ⟨same, d + 1, by omega, .mas _ d divides halves⟩
      · cases runs
    · rename_i stays
      cases runs
      exact ⟨rfl, 0, Nat.zero_le _, .fin _ stays⟩

theorem Divide.crearArbol {lugares s d fuel : Nat} (halves : Divide c espacio s d) :
    ∀ {m : Motor}, (m.keyVector lugares).dataSize = s → d ≤ (vacias c m).card → d < fuel →
      ∃ m', crearArbol c lugares espacio fuel m = some (m', some lugares) := by
  induction halves generalizing fuel with
  | fin s stays =>
    intro m size _ enough
    obtain ⟨fuel, rfl⟩ : ∃ k, fuel = k + 1 := ⟨fuel - 1, by omega⟩
    subst size
    exact ⟨_, by rw [Rc.crearArbol, if_neg stays]⟩
  | mas s d divides _ ih =>
    intro m size few enough
    obtain ⟨fuel, rfl⟩ : ∃ k, fuel = k + 1 := ⟨fuel - 1, by omega⟩
    subst size
    obtain ⟨pos, found⟩ := buscarPosLibre_vacias (by omega : 0 < (vacias c m).card)
    obtain ⟨size, fewer⟩ := dividir_vacias minima divides found
    rw [Rc.crearArbol]
    simp only [if_pos divides, found]
    exact ih size (by omega) (by omega)

end Arbol

/-- The states of a scan that evicts nothing: up to the first empty entry, and behind it. -/
inductive RecorreBuddy (c : Config) (m : Motor) (espacio : Nat) : EstadoBuddy → Prop where
  | antes (i lugares : Nat) : i ≤ c.cantRegistros → (∀ k < i, (m.keyVector k).dataSize ≠ 0) →
      Menor c m espacio (· < i) lugares → RecorreBuddy c m espacio (m, i, lugares, false)
  | despues (z lugares : Nat) : z < c.cantRegistros → (∀ k < z, (m.keyVector k).dataSize ≠ 0) →
      (m.keyVector z).dataSize = 0 → Menor c m espacio (· < z) lugares →
      RecorreBuddy c m espacio (m, z + 1, lugares, true)

theorem Menor.mas {lugares : Nat} (chosen : Menor c m espacio (· < i) lugares)
    (inside : i < c.cantRegistros) :
    Menor c m espacio (· < i + 1)
      (if (m.keyVector i).dataSize ≥ espacio ∧ (m.keyVector i).libre then
        if lugares = c.cantRegistros then i
        else if (m.keyVector i).dataSize ≤ (m.keyVector lugares).dataSize then i else lugares
      else lugares) := by
  have splits : ∀ k, k < i + 1 → k < i ∨ k = i := by omega
  split
  · rename_i fits
    have here : Sirve m espacio i := ⟨fits.2, fits.1⟩
    rcases chosen with ⟨rfl, absent⟩ | ⟨member, serves, least⟩
    · rw [if_pos rfl]
      refine Or.inr ⟨Nat.lt_succ_self i, here, fun k below other => ?_⟩
      rcases splits k below with before | rfl
      · exact absurd other (absent k before)
      · exact le_rfl
    · have before : lugares < i := member
      rw [if_neg (by omega)]
      split
      · rename_i smaller
        refine Or.inr ⟨Nat.lt_succ_self i, here, fun k below other => ?_⟩
        rcases splits k below with before | rfl
        · exact smaller.trans (least k before other)
        · exact le_rfl
      · rename_i larger
        refine Or.inr ⟨Nat.lt_succ_of_lt before, serves, fun k below other => ?_⟩
        rcases splits k below with before | rfl
        · exact least k before other
        · omega
  · rename_i leaves
    have notHere : ¬Sirve m espacio i := fun serves => leaves ⟨serves.2, serves.1⟩
    rcases chosen with ⟨rfl, absent⟩ | ⟨member, serves, least⟩
    · refine Or.inl ⟨rfl, fun k below => ?_⟩
      rcases splits k below with before | rfl
      · exact absent k before
      · exact notHere
    · refine Or.inr ⟨Nat.lt_succ_of_lt member, serves, fun k below other => ?_⟩
      rcases splits k below with before | rfl
      · exact least k before other
      · exact absurd other notHere

theorem RecorreBuddy.turno {fuel : Nat} {t u : EstadoBuddy} (scans : RecorreBuddy c m espacio t)
    (quiet : ¬HaceLugarBuddy c espacio t) (next : turnoBuddy c fuel espacio t = .again u) :
    RecorreBuddy c m espacio u ∧ u.2.1 = t.2.1 + 1 := by
  cases scans with
  | antes i lugares bound filled chosen =>
    simp only [turnoBuddy] at next
    split at next
    · rename_i runs
      split at next
      · rename_i empty
        split at next
        · rename_i missing
          exact absurd ⟨rfl, runs.2, empty, missing⟩ quiet
        · cases next
          exact ⟨.despues i lugares runs.2 filled empty chosen, rfl⟩
      · rename_i full
        have wider := chosen.mas runs.2
        have filled' : ∀ k < i + 1, (m.keyVector k).dataSize ≠ 0 := by
          intro k below
          by_cases here : k = i
          · exact here ▸ full
          · exact filled k (by omega)
        split at next
        · rename_i fits
          cases next
          rw [if_pos fits] at wider
          exact ⟨.antes _ _ runs.2 filled' wider, rfl⟩
        · rename_i leaves
          cases next
          rw [if_neg leaves] at wider
          exact ⟨.antes _ _ runs.2 filled' wider, rfl⟩
    · cases next
  | despues z lugares => simp [turnoBuddy] at next

theorem turnoBuddy_fault {fuel : Nat} {t : EstadoBuddy}
    (last : turnoBuddy c fuel espacio t = .fault) : HaceLugarBuddy c espacio t := by
  obtain ⟨m, i, lugares, encontrado⟩ := t
  simp only [turnoBuddy] at last
  split at last
  · rename_i runs
    split at last
    · rename_i empty
      split at last
      · rename_i missing
        exact ⟨runs.1, runs.2, empty, missing⟩
      · cases last
    · split at last <;> cases last
  · cases last

theorem Menor.congr {R R' : Nat → Prop} {lugares : Nat} (chosen : Menor c m espacio R lugares)
    (same : ∀ k, R' k ↔ R k) : Menor c m espacio R' lugares := by
  have equal : R' = R := funext fun k => propext (same k)
  rwa [equal]

/-- A scan that evicts nothing ends with a smallest block from before the first empty entry. -/
theorem RecorreBuddy.fin {fuel : Nat} {t : EstadoBuddy} {r : Motor × Nat}
    (scans : RecorreBuddy c m espacio t) (last : turnoBuddy c fuel espacio t = .done r) :
    r.1 = m ∧ Menor c m espacio (Antes c m) r.2 := by
  obtain ⟨rfl, stops⟩ := turnoBuddy_done last
  cases scans with
  | antes i lugares bound filled chosen =>
    have here : i = c.cantRegistros := by
      by_contra other
      exact stops ⟨rfl, by dsimp only; omega⟩
    subst here
    exact ⟨rfl, chosen.congr fun k =>
      ⟨fun before => before.1, fun below => ⟨below, fun l upto => filled l (by omega)⟩⟩⟩
  | despues z lugares inside filled empty chosen =>
    refine ⟨rfl, chosen.congr fun k => ⟨fun before => ?_, fun below => ?_⟩⟩
    · by_contra behind
      exact before.2 z (by omega) empty
    · exact ⟨by omega, fun l upto => filled l (by omega)⟩

theorem AlcanzaBuddy.quieto {t : EstadoBuddy} (reaches : AlcanzaBuddy c m espacio)
    (scans : RecorreBuddy c m espacio t) : ¬HaceLugarBuddy c espacio t := by
  rintro ⟨searching, inside, empty, missing⟩
  obtain ⟨j, before, chosen₀, -⟩ := reaches
  cases scans with
  | antes i lugares bound filled chosen =>
    dsimp only at inside empty missing
    have serves : Sirve m espacio j := by
      rcases chosen₀ with ⟨last, -⟩ | ⟨-, serves, -⟩
      · have := before.1
        omega
      · exact serves
    rcases chosen with ⟨-, absent⟩ | ⟨-, fits, -⟩
    · refine absent j ?_ serves
      by_contra behind
      exact before.2 i (by omega) empty
    · rcases missing with ⟨-, small⟩ | busy
      · have := fits.2
        omega
      · exact absurd (fits.1.symm.trans busy) (by decide)
  | despues => cases searching

theorem recorreBuddy_visita {fuel : Nat} {t : EstadoBuddy}
    (visited : Visits (turnoBuddy c fuel espacio) (m, 0, c.cantRegistros, false) t)
    (quiet : ∀ u, Visits (turnoBuddy c fuel espacio) (m, 0, c.cantRegistros, false) u →
      RecorreBuddy c m espacio u → ¬HaceLugarBuddy c espacio u) : RecorreBuddy c m espacio t := by
  induction visited with
  | start =>
    exact .antes 0 _ (Nat.zero_le _) (fun k before => absurd before (Nat.not_lt_zero k))
      (Or.inl ⟨rfl, fun k before => absurd before (Nat.not_lt_zero k)⟩)
  | again visited next ih => exact (ih.turno (quiet _ visited ih) next).1

theorem buscarLibreBuddy_some {fuel : Nat} :
    buscarLibreBuddy c fuel m espacio = some (m', some j) ↔
      ∃ m₁ lugares, run (turnoBuddy c fuel espacio) fuel (m, 0, c.cantRegistros, false) =
          some (m₁, lugares) ∧ crearArbol c lugares espacio fuel m₁ = some (m', some j) := by
  simp only [buscarLibreBuddy, buscarBuddyLoop_turnos, Option.bind_eq_bind,
    Option.bind_eq_some_iff, Prod.exists]

/-- A scan that evicts nothing comes to its end. -/
theorem recorreBuddy_acaba {fuel : Nat} (enough : c.cantRegistros < k)
    (quiet : ∀ u, Visits (turnoBuddy c fuel espacio) (m, 0, c.cantRegistros, false) u →
      RecorreBuddy c m espacio u → ¬HaceLugarBuddy c espacio u) :
    ∃ lugares, run (turnoBuddy c fuel espacio) k (m, 0, c.cantRegistros, false) =
      some (m, lugares) ∧ Menor c m espacio (Antes c m) lugares := by
  have scans : ∀ t, Visits (turnoBuddy c fuel espacio) (m, 0, c.cantRegistros, false) t →
      RecorreBuddy c m espacio t := fun t visited => recorreBuddy_visita visited quiet
  have found : ∃ r, run (turnoBuddy c fuel espacio) k (m, 0, c.cantRegistros, false) = some r := by
    refine run_of_measure (fun t => c.cantRegistros - t.2.1) ?_ ?_ (by dsimp only; omega)
    · intro t u visited next
      have on := ((scans t visited).turno (quiet t visited (scans t visited)) next).2
      have inside : t.2.1 < c.cantRegistros := (turnoBuddy_again next).1
      omega
    · exact fun t visited fault => quiet t visited (scans t visited) (turnoBuddy_fault fault)
  obtain ⟨⟨m₁, lugares⟩, search⟩ := found
  obtain ⟨t, visited, last⟩ := run_some search
  obtain ⟨rfl, chosen⟩ := (scans t visited).fin last
  exact ⟨lugares, search, chosen⟩

/-- Any smallest block will do. -/
theorem AlcanzaBuddy.menor {lugares : Nat} (reaches : AlcanzaBuddy c m espacio)
    (chosen : Menor c m espacio (Antes c m) lugares) :
    (Antes c m lugares ∧ Sirve m espacio lugares) ∧
      ∃ d ≤ (vacias c m).card, Divide c espacio (m.keyVector lugares).dataSize d := by
  obtain ⟨j, before, chosen₀, d, few, halves⟩ := reaches
  rcases chosen₀ with ⟨last, -⟩ | ⟨first, serves, least⟩
  · exact absurd last before.1.ne
  rcases chosen with ⟨-, absent⟩ | ⟨first', serves', least'⟩
  · exact absurd serves (absent j first)
  · have size : (m.keyVector lugares).dataSize = (m.keyVector j).dataSize :=
      (least' j first serves).antisymm (least lugares first' serves')
    exact ⟨⟨first', serves'⟩, d, few, size ▸ halves⟩

/-- `buscarLibreBuddy` finds a block without evicting exactly where it meets one and can halve
it. -/
theorem encuentraBuddy_iff (table : Tabla c m) (minima : 0 < c.partMinima) :
    EncuentraBuddy c m espacio ↔ AlcanzaBuddy c m espacio := by
  constructor
  · rintro ⟨fuel, ⟨m', j, runs, serves⟩, quiet⟩
    obtain ⟨m₁, lugares, search, tree⟩ := buscarLibreBuddy_some.mp runs
    obtain ⟨t, visited, last⟩ := run_some search
    have scans := recorreBuddy_visita visited fun u visits _ => quiet u visits
    obtain ⟨same, chosen⟩ := scans.fin last
    dsimp only at same chosen
    subst same
    obtain ⟨rfl, d, few, halves⟩ := crearArbol_divide minima tree
    refine ⟨j, ?_, chosen, d, few, halves⟩
    rcases chosen with ⟨rfl, -⟩ | ⟨before, -, -⟩
    · exact absurd (serves.dentro table) (Nat.lt_irrefl _)
    · exact before
  · intro reaches
    have quiet : ∀ fuel t, Visits (turnoBuddy c fuel espacio) (m, 0, c.cantRegistros, false) t →
        ¬HaceLugarBuddy c espacio t := fun fuel t visited =>
      reaches.quieto (recorreBuddy_visita visited fun u _ scans => reaches.quieto scans)
    let fuel := c.cantRegistros + 1
    obtain ⟨lugares, search, chosen⟩ := recorreBuddy_acaba (Nat.lt_succ_self c.cantRegistros)
      fun u visited _ => quiet fuel u visited
    obtain ⟨⟨-, serves⟩, d, few, halves⟩ := reaches.menor chosen
    have bound : (vacias c m).card ≤ c.cantRegistros :=
      (Finset.card_filter_le _ _).trans (Finset.card_range _).le
    obtain ⟨m', tree⟩ := halves.crearArbol minima rfl few (by dsimp only [fuel]; omega : d < fuel)
    exact ⟨fuel, ⟨m', lugares, buscarLibreBuddy_some.mpr ⟨_, _, search, tree⟩, serves⟩, quiet fuel⟩

/-! ### The three searches -/

/-- In every state the engine searches in, for every `espacio`: if some free entry is large enough,
the search finds one without making room, exactly where its scan reaches one it can hand out. -/
theorem busquedas_encuentran (start : Buscable c m) (espacio : Nat) :
    (((∃ j < c.cantRegistros, Sirve m espacio j) → EncuentraNext c m espacio) ↔
      ((∃ j < c.cantRegistros, Sirve m espacio j) → AlcanzaNext c m espacio)) ∧
    (((∃ j < c.cantRegistros, Sirve m espacio j) → EncuentraWorst c m espacio) ↔
      ((∃ j < c.cantRegistros, Sirve m espacio j) → AlcanzaWorst c m espacio)) ∧
    (((∃ j < c.cantRegistros, Sirve m espacio j) → EncuentraBuddy c m espacio) ↔
      ((∃ j < c.cantRegistros, Sirve m espacio j) → AlcanzaBuddy c m espacio)) := by
  obtain ⟨-, minima, table⟩ := start.tabla
  exact ⟨imp_congr_right fun _ => encuentraNext_iff table,
    imp_congr_right fun _ => encuentraWorst_iff table,
    imp_congr_right fun _ => encuentraBuddy_iff table minima⟩

/-- The three searches find the whole cache of a fresh engine. -/
theorem busquedas_encuentran_inicio :
    ∃ m, dummyNgInitialize nextDe64 (fun _ => 0) (fun _ => 0) = some m ∧
      EncuentraNext nextDe64 m 32 ∧ EncuentraWorst nextDe64 m 32 ∧ EncuentraBuddy nextDe64 m 32 := by
  refine ⟨_, rfl, ?_⟩
  have fresh : Alcanzable nextDe64 (fun _ _ _ => True) _ :=
    .inicio (fun _ => 0) (fun _ => 0) _ rfl
  obtain ⟨next, worst, buddy⟩ := busquedas_encuentran ⟨_, fresh, Or.inl rfl⟩ 32
  refine ⟨next.mpr (fun _ => ?_) ⟨0, by decide, by decide, by decide⟩,
    worst.mpr (fun _ => ?_) ⟨0, by decide, by decide, by decide⟩,
    buddy.mpr (fun _ => ?_) ⟨0, by decide, by decide, by decide⟩⟩
  · refine ⟨0, ⟨by decide, by decide, 0, le_rfl, le_rfl, by decide, ?_, ?_⟩,
      Or.inl ⟨⟨by decide, by decide⟩, fun _ => ⟨1, by decide, by decide⟩⟩⟩
    · exact fun k _ before => absurd before (Nat.not_lt_zero k)
    · exact fun k _ before => absurd before (Nat.not_lt_zero k)
  · refine Or.inl ⟨1, 2, by decide, by decide, by decide, by decide, by decide,
      ⟨0, ⟨by decide, ⟨by decide, by decide⟩, fun k below after => by omega⟩, by decide⟩,
      0, ⟨by decide, ⟨by decide, by decide⟩, fun k below after => by omega⟩, by unfold Maxima; decide⟩
  · refine ⟨0, ⟨by decide, fun l upto => ?_⟩, Or.inr ⟨⟨by decide, fun l upto => ?_⟩,
      ⟨by decide, by decide⟩, fun k before _ => ?_⟩, 1, by decide, .mas 64 0 (by decide)
        (.fin 32 (by decide))⟩
    · rw [Nat.le_zero.mp upto]
      decide
    · rw [Nat.le_zero.mp upto]
      decide
    · have zero : k = 0 := by
        by_contra later
        exact before.2 1 (by omega) rfl
      rw [zero]

/-- Entry 1 is free with 32 bytes and `ultima_posicion` is 3: the search for 32 bytes scans the
last entry only and evicts. -/
theorem busqueda_desaloja : ¬∀ (c : Config) (m : Motor) (espacio : Nat), Buscable c m →
    (∃ j < c.cantRegistros, Sirve m espacio j) → EncuentraNext c m espacio := by
  intro all
  have fresh : Alcanzable nextDe64 (fun _ _ _ => True) _ :=
    .inicio (fun _ => 0) (fun _ => 0) _ rfl
  have set₁ := Alcanzable.llamada 9 _ _ (.allocate [1] 16 ⟨1, 0⟩) fresh trivial rfl
  have set₂ := Alcanzable.llamada 9 _ _ (.allocate [2] 32 ⟨2, 0⟩) set₁ trivial rfl
  have set₃ := Alcanzable.llamada 9 _ _ (.allocate [3] 16 ⟨3, 0⟩) set₂ trivial rfl
  have gone₁ := Alcanzable.llamada 9 _ _ (.delete [1]) set₃ trivial rfl
  have gone₂ := Alcanzable.llamada 9 _ _ (.delete [2]) gone₁ trivial rfl
  have found := all nextDe64 _ 32 ⟨_, gone₂, Or.inl rfl⟩ ⟨1, by decide, by decide, by decide⟩
  exact found.2 _ .start ⟨by decide, by decide⟩

end LosAltos.Rc
