import LosAltos.Rc.Disjoint
import LosAltos.Rc.SearchTurns

/-!
# The victim of an eviction

`borrar`, `rc/src/vector.c:73-111`. From the first entry that is not free it compares the times of
the occupied entries, and stops at a time of zero seconds or at a free entry of size 0; entries
behind it are not seen. Whether it finds the oldest entry of the table depends on where that is.
-/
namespace LosAltos.Rc

/-- The order of `tv_sec`, then `tv_nsec`. -/
def Tiempo.Antes (a b : Tiempo) : Prop := a.sec < b.sec ∨ (a.sec = b.sec ∧ a.nsec < b.nsec)

instance (a b : Tiempo) : Decidable (a.Antes b) := inferInstanceAs (Decidable (_ ∨ _))

def Ocupada (m : Motor) (i : Nat) : Prop :=
  (m.keyVector i).libre = false ∧ 0 < (m.keyVector i).dataSize

instance (m : Motor) (i : Nat) : Decidable (Ocupada m i) := inferInstanceAs (Decidable (_ ∧ _))

/-- The first entry that is not free. -/
def PrimeraNoLibre (c : Config) (m : Motor) (a : Nat) : Prop :=
  a < c.cantRegistros ∧ (m.keyVector a).libre = false ∧ ∀ j, j < a → (m.keyVector j).libre

/-- The scan that starts at `a` stops at `k`. -/
def CortaRevision (m : Motor) (a k : Nat) : Prop :=
  (m.keyVector k).tp.sec = 0 ∨
    (((m.keyVector k).libre ∨ k = a) ∧ (m.keyVector k).dataSize = 0)

/-- The scan that starts at `a` gets to `k`. -/
def Revisa (m : Motor) (a k : Nat) : Prop :=
  k = a ∨ (a < k ∧ ∀ j, a ≤ j → j ≤ k → ¬CortaRevision m a j)

/-- The first of the oldest among the entries from `a` on, before `s`, that are not free. -/
structure Escogida (m : Motor) (a s r : Nat) : Prop where
  lugar : r = a ∨ (a < r ∧ r < s ∧ (m.keyVector r).libre = false)
  vieja : ∀ x, x = a ∨ (a < x ∧ x < s) → (m.keyVector x).libre = false →
    ¬(m.keyVector x).tp.Antes (m.keyVector r).tp ∧
      (x < r → (m.keyVector r).tp.Antes (m.keyVector x).tp)

section Recorrido

variable {c : Config} {m : Motor} {a i k r : Nat} {tp : Tiempo}

theorem Escogida.inicio (m : Motor) (a : Nat) : Escogida m a a a where
  lugar := Or.inl rfl
  vieja x place _ := by
    obtain rfl : x = a := by omega
    unfold Tiempo.Antes
    omega

/-- A free entry is passed over. -/
theorem Escogida.pasa (chosen : Escogida m a i r) (free : (m.keyVector i).libre) :
    Escogida m a (i + 1) r where
  lugar := chosen.lugar.imp_right fun inside => ⟨inside.1, by omega, inside.2.2⟩
  vieja x place busy := by
    refine chosen.vieja x ?_ busy
    have other : x ≠ i := by
      rintro rfl
      simp [free] at busy
    omega

/-- An older entry is taken instead. -/
theorem Escogida.toma (chosen : Escogida m a i r) (past : a ≤ i)
    (busy : (m.keyVector i).libre = false)
    (older : (m.keyVector i).tp.Antes (m.keyVector r).tp) : Escogida m a (i + 1) i where
  lugar := by
    rcases Nat.eq_or_lt_of_le past with same | after
    · exact Or.inl same.symm
    · exact Or.inr ⟨after, by omega, busy⟩
  vieja x place other := by
    by_cases here : x = i
    · subst here
      unfold Tiempo.Antes
      omega
    · have before := (chosen.vieja x (by omega) other).1
      unfold Tiempo.Antes at *
      omega

/-- One that is not older is left. -/
theorem Escogida.deja (chosen : Escogida m a i r) (past : a ≤ i)
    (younger : ¬(m.keyVector i).tp.Antes (m.keyVector r).tp) : Escogida m a (i + 1) r where
  lugar := chosen.lugar.imp_right fun inside => ⟨inside.1, by omega, inside.2.2⟩
  vieja x place other := by
    by_cases here : x = i
    · subst here
      refine ⟨younger, fun before => ?_⟩
      have := chosen.lugar
      omega
    · exact chosen.vieja x (by omega) other

theorem borrarOcupadas_elige (k : Nat) (fuel : c.cantRegistros ≤ i + k) (past : a ≤ i)
    (chosen : Escogida m a i r) (time : tp = (m.keyVector r).tp) :
    let s := borrarOcupadas c m k i tp r
    Escogida m a s.1 s.2.2 ∧ s.2.1 = (m.keyVector s.2.2).tp ∧ i ≤ s.1 ∧
      (∀ x, i ≤ x → x < s.1 → x < c.cantRegistros ∧ (m.keyVector x).tp.sec ≠ 0 ∧
        (m.keyVector x).libre = false) ∧
      ¬(s.1 < c.cantRegistros ∧ (m.keyVector s.1).tp.sec ≠ 0 ∧
        (m.keyVector s.1).libre = false) := by
  induction k generalizing i tp r with
  | zero =>
    refine ⟨chosen, time, le_rfl, fun x low high => ?_, fun inside => ?_⟩
    · simp only [borrarOcupadas] at high
      omega
    · simp only [borrarOcupadas] at inside
      omega
  | succ k ih =>
    simp only [borrarOcupadas]
    split
    · rename_i runs
      have next : ∀ r' tp', Escogida m a (i + 1) r' → tp' = (m.keyVector r').tp →
          let s := borrarOcupadas c m k (i + 1) tp' r'
          Escogida m a s.1 s.2.2 ∧ s.2.1 = (m.keyVector s.2.2).tp ∧ i ≤ s.1 ∧
            (∀ x, i ≤ x → x < s.1 → x < c.cantRegistros ∧ (m.keyVector x).tp.sec ≠ 0 ∧
              (m.keyVector x).libre = false) ∧
            ¬(s.1 < c.cantRegistros ∧ (m.keyVector s.1).tp.sec ≠ 0 ∧
              (m.keyVector s.1).libre = false) := by
        intro r' tp' chosen' time'
        obtain ⟨last, same, after, seen, stops⟩ := ih (by omega) (by omega) chosen' time'
        refine ⟨last, same, by omega, fun x low high => ?_, stops⟩
        rcases Nat.eq_or_lt_of_le low with rfl | later
        · exact runs
        · exact seen x later high
      split
      · rename_i older
        rw [time] at older
        exact next i _ (chosen.toma past runs.2.2 older) rfl
      · rename_i younger
        rw [time] at younger
        exact next r _ (chosen.deja past younger) time
    · rename_i stops
      exact ⟨chosen, time, le_rfl, fun x low high => by omega, stops⟩

/-- A turn of the outer loop passes entry `i` and the occupied ones behind it. -/
theorem borrarLoop_turno (inside : i < c.cantRegistros) (size : 0 < (m.keyVector i).dataSize)
    (sec : (m.keyVector i).tp.sec ≠ 0) (past : a ≤ i) (chosen : Escogida m a i r)
    (time : tp = (m.keyVector r).tp) :
    let s := borrarOcupadas c m c.cantRegistros (if (m.keyVector i).libre then i + 1 else i) tp r
    Escogida m a s.1 s.2.2 ∧ s.2.1 = (m.keyVector s.2.2).tp ∧ i + 1 ≤ s.1 ∧
      s.1 ≤ c.cantRegistros ∧ (∀ j, i ≤ j → j < s.1 → ¬CortaRevision m a j) ∧
      ¬(s.1 < c.cantRegistros ∧ (m.keyVector s.1).tp.sec ≠ 0 ∧
        (m.keyVector s.1).libre = false) := by
  have start : Escogida m a (if (m.keyVector i).libre then i + 1 else i) r := by
    split
    · rename_i free
      exact chosen.pasa free
    · exact chosen
  have low : i ≤ if (m.keyVector i).libre then i + 1 else i := by split <;> omega
  have high : (if (m.keyVector i).libre then i + 1 else i) ≤ i + 1 := by split <;> omega
  obtain ⟨last, same, after, seen, stops⟩ :=
    borrarOcupadas_elige (c := c) c.cantRegistros (by omega) (by omega) start time
  have advances : i + 1 ≤ (borrarOcupadas c m c.cantRegistros
      (if (m.keyVector i).libre then i + 1 else i) tp r).1 := by
    by_cases free : (m.keyVector i).libre
    · rwa [if_pos free] at after ⊢
    · rw [if_neg free] at after stops ⊢
      by_contra stays
      have equal : (borrarOcupadas c m c.cantRegistros i tp r).1 = i := by omega
      rw [equal] at stops
      exact stops ⟨inside, sec, by simpa using free⟩
  have within : (borrarOcupadas c m c.cantRegistros
      (if (m.keyVector i).libre then i + 1 else i) tp r).1 ≤ c.cantRegistros := by
    by_contra outside
    have := seen c.cantRegistros (by omega) (by omega)
    omega
  refine ⟨last, same, advances, within, fun j from_i below => ?_, stops⟩
  rcases Nat.eq_or_lt_of_le from_i with rfl | later
  · rintro (zero | ⟨-, empty⟩)
    · exact sec zero
    · omega
  · obtain ⟨-, sec', busy⟩ := seen j (by omega) below
    rintro (zero | ⟨free | first, -⟩)
    · exact sec' zero
    · simp [busy] at free
    · omega

/-- The scan ends at the first entry that stops it, with the oldest of those before. -/
theorem borrarLoop_elige (k : Nat) (fuel : c.cantRegistros < i + k) (past : a ≤ i)
    (bound : i ≤ c.cantRegistros) (chosen : Escogida m a i r)
    (time : tp = (m.keyVector r).tp) (clean : ∀ j, a ≤ j → j < i → ¬CortaRevision m a j)
    (enters : i = a ∨ ¬(i < c.cantRegistros ∧ (m.keyVector i).tp.sec ≠ 0 ∧
      (m.keyVector i).libre = false)) :
    ∃ s, a ≤ s ∧ s ≤ c.cantRegistros ∧ (s = c.cantRegistros ∨ CortaRevision m a s) ∧
      (∀ j, a ≤ j → j < s → ¬CortaRevision m a j) ∧ Escogida m a s (borrarLoop c m k i tp r) := by
  induction k generalizing i tp r with
  | zero => omega
  | succ k ih =>
    simp only [borrarLoop]
    split
    · rename_i runs
      obtain ⟨size, inside, sec⟩ := runs
      obtain ⟨last, same, advances, within, passed, stops⟩ :=
        borrarLoop_turno inside size sec past chosen time
      refine ih (by omega) (by omega) within last same (fun j low below => ?_) (Or.inr stops)
      by_cases before : j < i
      · exact clean j low before
      · exact passed j (by omega) below
    · rename_i stops
      refine ⟨i, past, bound, ?_, clean, chosen⟩
      rcases Nat.eq_or_lt_of_le bound with last | inside
      · exact Or.inl last
      · refine Or.inr ?_
        by_cases sec : (m.keyVector i).tp.sec = 0
        · exact Or.inl sec
        · refine Or.inr ⟨?_, by omega⟩
          rcases enters with start | busy
          · exact Or.inr start
          · left
            by_contra free
            exact busy ⟨inside, sec, by simpa using free⟩

theorem avanza_libres (inside : PrimeraNoLibre c m a) :
    avanza (fun i => (m.keyVector i).libre) c.cantRegistros c.cantRegistros 0 = a := by
  obtain ⟨bound, busy, before⟩ := inside
  have le : avanza (fun i => (m.keyVector i).libre) c.cantRegistros c.cantRegistros 0 ≤ a := by
    by_contra past
    have free := avanza_pasa (fun i => (m.keyVector i).libre) c.cantRegistros c.cantRegistros 0
      (Nat.zero_le a) (by omega)
    simp [busy] at free
  by_contra other
  have stops := avanza_stops (fun i => (m.keyVector i).libre) c.cantRegistros c.cantRegistros 0
    (by omega) (by omega) (by omega)
  rw [before _ (by omega)] at stops
  cases stops

/-- What `borrar` returns when some entry is not free. -/
theorem borrar_elige (first : PrimeraNoLibre c m a) :
    ∃ s, a ≤ s ∧ s ≤ c.cantRegistros ∧ (s = c.cantRegistros ∨ CortaRevision m a s) ∧
      (∀ j, a ≤ j → j < s → ¬CortaRevision m a j) ∧ Escogida m a s (borrar c m) := by
  have bound := first.1
  unfold borrar
  rw [avanza_libres first]
  exact borrarLoop_elige _ (by omega) le_rfl (by omega) (.inicio m a) rfl (fun j low high => by omega)
    (Or.inl rfl)

theorem borrar_libres
    (free : ∀ i, i < c.cantRegistros → (m.keyVector i).libre) :
    borrar c m = c.cantRegistros := by
  rcases borrar_victim (c := c) (m := m) with last | ⟨inside, busy⟩
  · exact last
  · rw [free _ inside] at busy
    cases busy

theorem exists_primeraNoLibre (inside : i < c.cantRegistros)
    (busy : (m.keyVector i).libre = false) : ∃ a, PrimeraNoLibre c m a := by
  have some : ∃ a, a < c.cantRegistros ∧ (m.keyVector a).libre = false := ⟨i, inside, busy⟩
  obtain ⟨bound, here⟩ := Nat.find_spec some
  refine ⟨Nat.find some, bound, here, fun j before => ?_⟩
  have none := Nat.find_min some before
  simp only [not_and, Bool.not_eq_false] at none
  exact none (by omega)

end Recorrido

/-- `borrar` returns an oldest occupied entry, or the end of the table if there is none. -/
structure VictimaMasVieja (c : Config) (m : Motor) : Prop where
  ocupada : (∃ i, i < c.cantRegistros ∧ Ocupada m i) →
    borrar c m < c.cantRegistros ∧ Ocupada m (borrar c m) ∧
      ∀ j, j < c.cantRegistros → Ocupada m j →
        ¬(m.keyVector j).tp.Antes (m.keyVector (borrar c m)).tp
  ninguna : (¬∃ i, i < c.cantRegistros ∧ Ocupada m i) → borrar c m = c.cantRegistros

/-- Some oldest occupied entry comes before anything that stops the scan, and no entry of length 0
that is not free and comes there is older, or as old and before it. -/
def RevisaLaMasVieja (c : Config) (m : Motor) : Prop :=
  ∃ a k, PrimeraNoLibre c m a ∧ k < c.cantRegistros ∧ Revisa m a k ∧ Ocupada m k ∧
    (∀ j, j < c.cantRegistros → Ocupada m j →
      ¬(m.keyVector j).tp.Antes (m.keyVector k).tp) ∧
    ∀ j, j < c.cantRegistros → Revisa m a j → (m.keyVector j).libre = false →
      (m.keyVector j).dataSize = 0 → (m.keyVector k).tp.Antes (m.keyVector j).tp ∨
        ((m.keyVector k).tp = (m.keyVector j).tp ∧ k < j)

theorem Tiempo.eq_of_not_antes {a b : Tiempo} (first : ¬a.Antes b) (second : ¬b.Antes a) :
    a = b := by
  cases a
  cases b
  simp only [Tiempo.Antes, Tiempo.mk.injEq] at *
  omega

section Victima

variable {c : Config} {m : Motor}

theorem PrimeraNoLibre.unica {a b : Nat} (one : PrimeraNoLibre c m a)
    (other : PrimeraNoLibre c m b) : a = b := by
  rcases Nat.lt_trichotomy a b with before | same | after
  · have := other.2.2 a before
    simp [one.2.1] at this
  · exact same
  · have := one.2.2 b after
    simp [other.2.1] at this

theorem revisa_iff {a s x : Nat} (inside : x < c.cantRegistros)
    (ends : s = c.cantRegistros ∨ CortaRevision m a s) (low : a ≤ s)
    (clean : ∀ j, a ≤ j → j < s → ¬CortaRevision m a j) :
    Revisa m a x ↔ x = a ∨ (a < x ∧ x < s) := by
  unfold Revisa
  constructor
  · rintro (same | ⟨after, none⟩)
    · exact Or.inl same
    · refine Or.inr ⟨after, ?_⟩
      by_contra past
      rcases ends with last | stops
      · omega
      · exact none s low (by omega) stops
  · rintro (same | ⟨after, before⟩)
    · exact Or.inl same
    · exact Or.inr ⟨after, fun j low' high => clean j low' (by omega)⟩

/-- When the victim is an oldest entry, for any table. -/
theorem victima_mas_vieja_iff (c : Config) (m : Motor) :
    VictimaMasVieja c m ↔
      ((∃ i, i < c.cantRegistros ∧ Ocupada m i) → RevisaLaMasVieja c m) ∧
      ((¬∃ i, i < c.cantRegistros ∧ Ocupada m i) →
        ∀ i, i < c.cantRegistros → (m.keyVector i).libre) := by
  constructor
  · intro oldest
    refine ⟨fun some => ?_, fun none i inside => ?_⟩
    · obtain ⟨i, inside, busy⟩ := some
      obtain ⟨a, first⟩ := exists_primeraNoLibre inside busy.1
      obtain ⟨s, low, bound, ends, clean, chosen⟩ := borrar_elige first
      obtain ⟨within, taken, minimal⟩ := oldest.ocupada ⟨i, inside, busy⟩
      refine ⟨a, borrar c m, first, within, ?_, taken, minimal, fun j range seen free empty => ?_⟩
      · rw [revisa_iff within ends low clean]
        exact chosen.lugar.imp_right fun place => ⟨place.1, place.2.1⟩
      · rw [revisa_iff range ends low clean] at seen
        obtain ⟨before, strict⟩ := chosen.vieja j seen free
        by_cases older : (m.keyVector (borrar c m)).tp.Antes (m.keyVector j).tp
        · exact Or.inl older
        · refine Or.inr ⟨Tiempo.eq_of_not_antes older before, ?_⟩
          by_contra late
          rcases Nat.eq_or_lt_of_le (Nat.not_lt.mp late) with same | less
          · have := taken.2
            rw [← same] at this
            omega
          · exact older (strict less)
    · have last := oldest.ninguna none
      by_contra busy
      obtain ⟨a, first⟩ := exists_primeraNoLibre inside (by simpa using busy)
      obtain ⟨s, low, bound, -, -, chosen⟩ := borrar_elige first
      have := first.1
      have := chosen.lugar
      omega
  · rintro ⟨seen, free⟩
    refine ⟨fun some => ?_, fun none => borrar_libres (free none)⟩
    obtain ⟨a, k, first, range, reached, busy, minimal, empties⟩ := seen some
    obtain ⟨s, low, bound, ends, clean, chosen⟩ := borrar_elige first
    have within : borrar c m < c.cantRegistros := by
      have := first.1
      have := chosen.lugar
      omega
    have place : Revisa m a (borrar c m) := by
      rw [revisa_iff within ends low clean]
      exact chosen.lugar.imp_right fun place => ⟨place.1, place.2.1⟩
    have taken : (m.keyVector (borrar c m)).libre = false := by
      rcases chosen.lugar with same | inside
      · rw [same]
        exact first.2.1
      · exact inside.2.2
    rw [revisa_iff range ends low clean] at reached
    obtain ⟨notOlder, strict⟩ := chosen.vieja k reached busy.1
    have filled : 0 < (m.keyVector (borrar c m)).dataSize := by
      by_contra empty
      rcases empties _ within place taken (by omega) with older | ⟨same, before⟩
      · exact notOlder older
      · have younger := strict before
        rw [same] at younger
        unfold Tiempo.Antes at younger
        omega
    refine ⟨within, ⟨taken, filled⟩, fun j inside other older => ?_⟩
    have oldest := minimal j inside other
    unfold Tiempo.Antes at *
    omega

end Victima

/-- Two deletes leave an empty entry between an entry just read and an older one: the entry just
read is the victim. -/
theorem victima_mas_nueva :
    ¬∀ (c : Config) (m : Motor), Alcanzable c (fun _ _ _ => True) m → VictimaMasVieja c m := by
  intro all
  have fresh : Alcanzable { buddyDe64 with victim := .lru } (fun _ _ _ => True) _ :=
    .inicio (fun _ => 0) (fun _ => 0) _ rfl
  have first := Alcanzable.llamada 9 _ _ (.allocate [1] 16 ⟨1, 0⟩) fresh trivial rfl
  have second := Alcanzable.llamada 9 _ _ (.allocate [2] 8 ⟨2, 0⟩) first trivial rfl
  have third := Alcanzable.llamada 9 _ _ (.allocate [3] 8 ⟨3, 0⟩) second trivial rfl
  have fourth := Alcanzable.llamada 9 _ _ (.allocate [4] 32 ⟨4, 0⟩) third trivial rfl
  have fifth := Alcanzable.llamada 9 _ _ (.delete [2]) fourth trivial rfl
  have sixth := Alcanzable.llamada 9 _ _ (.delete [3]) fifth trivial rfl
  have last := Alcanzable.llamada 9 _ _ (.get [1] ⟨5, 0⟩) sixth trivial rfl
  have oldest := ((all _ _ last).ocupada ⟨0, by decide, by decide⟩).2.2 3 (by decide) (by decide)
  exact oldest (by decide)

end LosAltos.Rc
