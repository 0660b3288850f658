import LosAltos.Rc.Conservation
import LosAltos.Rc.SearchFit
import Mathlib.Tactic.IntervalCases

/-!
# The frequency of the compactions

What `buscarLibreNext` and `buscarLibreWorst` do at a failed search
(`rc/src/vector.c:437-471, 544-591`): the one counts the failed searches in an `int16_t`, the
other assigns `FREQ` to that counter where it should compare, so it evicts at every failed search,
or compacts at every one where the sixteen bits kept of `FREQ` are zero.
-/
namespace LosAltos.Rc

open Lib

section
variable (c : Config) (espacio : Nat)

/-- What a failed search that does not compact leaves, and where it goes on. -/
def vaciar (m : Motor) (i : Nat) : Motor × Nat :=
  let r := eliminarParticion c m none
  if r.2 = c.cantRegistros then (vectorInicializar c r.1, i) else r

/-- The failed searches since the call began or since its last compaction, after a turn. -/
def cuentaNext (t : EstadoNext) (r : Nat) : Nat :=
  if HaceLugarNext c espacio t then if eliminaNext c t.2.2 then r + 1 else 0 else r

def cuentaWorst (t : EstadoWorst) (r : Nat) : Nat :=
  if HaceLugarWorst c t then if eliminaWorst c then r + 1 else 0 else r

/-- What is asked of a failed search after `r` others: it compacts where it is the `FREQ`-th, and
otherwise evicts a partition, or starts over if none is occupied. -/
structure CumpleFrecuencia (m : Motor) (i : Nat) (elimina : Bool) (r : Nat) : Prop where
  compacta : elimina = false ↔ c.freq ≠ -1 ∧ (r + 1 : Nat) = c.freq
  elimina : elimina = true →
    (∃ v < c.cantRegistros, (m.keyVector v).libre = false ∧
      hacerLugar c m i true = some ((eliminarParticion c m (some v)).1, v)) ∨
    ((∀ v < c.cantRegistros, (m.keyVector v).libre) ∧
      hacerLugar c m i true = some (vectorInicializar c m, i))

/-- Every failed search of a call of `buscarLibreNext`. -/
def FrecuenciaNext (m : Motor) : Prop :=
  ∀ t r, Tallies (turnoNext c espacio) (cuentaNext c espacio) (m, m.ultimaPosicion, 0) 0 t r →
    HaceLugarNext c espacio t →
    CumpleFrecuencia c t.1 t.1.ultimaPosicion (eliminaNext c t.2.2) r

/-- Every failed search of a call of `buscarLibreWorst`. -/
def FrecuenciaWorst (m : Motor) : Prop :=
  ∀ t r, Tallies (turnoWorst c espacio) (cuentaWorst c) (m, 0, 0, 0, false) 0 t r →
    HaceLugarWorst c t → CumpleFrecuencia c t.1 t.2.1 (eliminaWorst c) r

/-- The search of `buscarLibreNext` from `i` fails: the scan from `i` does, or it goes back to
entry 0 and the scan from there does. -/
def SinLugarNext (m : Motor) (i : Nat) : Prop :=
  FaltaLugar c m espacio i ∨ (Vuelve c m espacio i ∧ FaltaLugar c m espacio 0)

/-- The search from `i` fails, and so do those after each of the next `k` evictions. -/
def InsisteNext : Nat → Motor → Nat → Prop
  | 0, m, i => SinLugarNext c espacio m i
  | k + 1, m, i =>
    let r := vaciar c m m.ultimaPosicion
    SinLugarNext c espacio m i ∧ (r.1.keyVector r.2).dataSize < espacio ∧ InsisteNext k r.1 r.2

/-- `mayor_tamano` after `d` entries from `i`, if it is `mayor` before. -/
def mayorTras (m : Motor) : Nat → Nat → Nat → Nat
  | 0, mayor, _ => mayor
  | d + 1, mayor, i =>
    let e := m.keyVector i
    mayorTras m d
      (if e.dataSize ≥ espacio ∧ e.dataSize > mayor ∧ e.libre then e.dataSize % 2 ^ 32 else mayor)
      (i + 1)

/-- The scan of `buscarLibreWorst` from `i` comes to the empty entry `p` with no fit. -/
structure SinLugarWorst (m : Motor) (mayor i p : Nat) : Prop where
  desde : i ≤ p
  dentro : p < c.cantRegistros
  vacia : (m.keyVector p).dataSize = 0
  llenas : ∀ j, i ≤ j → j < p → 0 < (m.keyVector j).dataSize
  ninguno : mayorTras espacio m (p - i) mayor i = 0

def InsisteWorst : Nat → Motor → Nat → Prop
  | 0, m, i => ∃ p, SinLugarWorst c espacio m 0 i p
  | k + 1, m, i => ∃ p, SinLugarWorst c espacio m 0 i p ∧
    ((vaciar c m p).1.keyVector (vaciar c m p).2).dataSize < espacio ∧
    InsisteWorst k (vaciar c m p).1 1

end

variable {c : Config} {m : Motor} {espacio k i : Nat}

/-! ### A failed search -/

theorem hacerLugar_vaciar (c : Config) (m : Motor) (i : Nat) :
    hacerLugar c m i true = some (vaciar c m i) := by
  simp only [hacerLugar, vaciar, if_true]
  split <;> rfl

theorem vaciar_cases (c : Config) (m : Motor) (i : Nat) :
    (∃ v < c.cantRegistros, (m.keyVector v).libre = false ∧
      hacerLugar c m i true = some ((eliminarParticion c m (some v)).1, v)) ∨
    ((∀ v < c.cantRegistros, (m.keyVector v).libre) ∧
      hacerLugar c m i true = some (vectorInicializar c m, i)) := by
  obtain ⟨m', i', room⟩ : ∃ m' i', hacerLugar c m i true = some (m', i') :=
    ⟨_, _, hacerLugar_vaciar c m i⟩
  rcases hacerLugar_cases room with ⟨-, last, rfl, rfl⟩ | ⟨-, v, inside, busy, rfl, rfl⟩ |
    ⟨never, -⟩ | ⟨never, -⟩ | ⟨never, -⟩
  · exact Or.inr ⟨fun v inside => borrar_fin last inside, room⟩
  · exact Or.inl ⟨_, inside, busy, room⟩
  all_goals cases never

/-- A search that evicts does what is asked of it unless it is the `FREQ`-th. -/
theorem cumple_desalojo_iff (c : Config) (m : Motor) (i r : Nat) :
    CumpleFrecuencia c m i true r ↔ c.freq = -1 ∨ (r + 1 : Nat) ≠ c.freq := by
  constructor
  · intro meets
    by_contra wrong
    rw [not_or, not_not] at wrong
    cases meets.compacta.mpr wrong
  · intro other
    refine ⟨⟨fun never => (Bool.noConfusion never), fun wrong => ?_⟩, fun _ => vaciar_cases c m i⟩
    rcases other with none | other
    · exact absurd none wrong.1
    · exact absurd wrong.2 other

theorem cumple_compactacion_iff (c : Config) (m : Motor) (i r : Nat) :
    CumpleFrecuencia c m i false r ↔ c.freq ≠ -1 ∧ (r + 1 : Nat) = c.freq :=
  ⟨fun meets => meets.compacta.mp rfl, fun due => ⟨⟨fun _ => due, fun _ => rfl⟩,
    fun never => Bool.noConfusion never⟩⟩

/-! ### Next fit -/

/-- What a turn does to the counter of the source. -/
theorem turnoNext_cuenta {t u : EstadoNext} (next : turnoNext c espacio t = .again u) :
    u.2.2 = if HaceLugarNext c espacio t then
      if eliminaNext c t.2.2 then aInt16 (t.2.2 + 1) else 0 else t.2.2 := by
  obtain ⟨m, i, fallidas⟩ := t
  rcases turnoNext_again next with ⟨back, rfl⟩ | ⟨fails, m', i', -, -, rfl⟩
  · have goes : ¬HaceLugarNext c espacio (m, i, fallidas) := by
      rw [haceLugarNext_iff]
      rintro (last | short)
      · exact back.1 last
      · exact Nat.not_lt.mpr short.2 back.2.2
    rw [if_neg goes]
  · rw [if_pos (haceLugarNext_iff.mpr fails)]

theorem aInt16_lt (x : Int) : aInt16 x ≤ 32767 := by
  unfold aInt16
  omega

theorem aInt16_of_le {x : Int} (low : 0 ≤ x) (high : x ≤ 32767) : aInt16 x = x := by
  unfold aInt16
  omega

/-- A frequency an `int16_t` holds: the counter is the number of failed searches. -/
theorem frecuenciaNext_of_le (low : 1 ≤ c.freq) (high : c.freq ≤ 32767) :
    FrecuenciaNext c espacio m := by
  intro t r visited fails
  have counted : t.2.2 = r ∧ (r : Int) < c.freq := by
    refine visited.keeps (P := fun t r => t.2.2 = (r : Int) ∧ (r : Int) < c.freq)
      ⟨rfl, by simpa using (by omega : 0 < c.freq)⟩ ?_
    intro t u r ⟨counter, before⟩ next
    have kept := aInt16_of_le (x := r + 1) (by omega) (by omega)
    rw [turnoNext_cuenta next, cuentaNext]
    split
    · cases evicts : eliminaNext c t.2.2 with
      | false => exact ⟨rfl, by simpa using (by omega : 0 < c.freq)⟩
      | true =>
        rw [eliminaNext, counter, kept] at evicts
        simp only [Bool.or_eq_true, decide_eq_true_eq, beq_iff_eq] at evicts
        rw [if_pos rfl, if_pos rfl, counter, kept]
        exact ⟨by push_cast; rfl, by push_cast; omega⟩
    · exact ⟨counter, before⟩
  obtain ⟨counter, before⟩ := counted
  have kept := aInt16_of_le (x := r + 1) (by omega) (by omega)
  cases evicts : eliminaNext c t.2.2 with
  | false =>
    rw [eliminaNext, counter, kept] at evicts
    simp only [Bool.or_eq_false_iff, decide_eq_false_iff_not] at evicts
    rw [cumple_compactacion_iff]
    exact ⟨by omega, by push_cast; omega⟩
  | true =>
    rw [eliminaNext, counter, kept] at evicts
    simp only [Bool.or_eq_true, decide_eq_true_eq, beq_iff_eq] at evicts
    rw [cumple_desalojo_iff]
    refine Or.inr fun due => ?_
    push_cast at due
    omega

/-- A search that goes back to entry 0 from there fails at no turn. -/
theorem not_reaches_vuelta {fallidas : Int} (goes : ¬FaltaLugar c m espacio 0) :
    ¬Reaches (turnoNext c espacio) (HaceLugarNext c espacio) k (m, 0, fallidas) := by
  refine not_reaches (P := (· = (m, 0, fallidas))) rfl ?_ ?_
  · rintro t u rfl next
    rcases turnoNext_again next with ⟨-, same⟩ | ⟨fails, -⟩
    · exact same
    · exact absurd fails goes
  · rintro t rfl
    exact fun fails => goes (haceLugarNext_iff.mp fails)

theorem reaches_next_skip {fallidas : Int} (goes : ¬FaltaLugar c m espacio i) :
    Reaches (turnoNext c espacio) (HaceLugarNext c espacio) k (m, i, fallidas) ↔
      (Vuelve c m espacio i ∧ FaltaLugar c m espacio 0) ∧
      Reaches (turnoNext c espacio) (HaceLugarNext c espacio) k (m, 0, fallidas) := by
  rw [reaches_skip (fun mark => goes (haceLugarNext_iff.mp mark))]
  constructor
  · rintro ⟨u, next, rest⟩
    rcases turnoNext_again next with ⟨back, rfl⟩ | ⟨fails, -⟩
    · refine ⟨⟨back, ?_⟩, rest⟩
      by_contra turns
      exact not_reaches_vuelta turns rest
    · exact absurd fails goes
  · exact fun both => ⟨_, turnoNext_vuelve fallidas both.1.1, both.2⟩

theorem turnoNext_desaloja {fallidas : Int} (evicts : eliminaNext c fallidas = true)
    (fails : FaltaLugar c m espacio i) :
    turnoNext c espacio (m, i, fallidas) =
      if espacio ≤ ((vaciar c m m.ultimaPosicion).1.keyVector
          (vaciar c m m.ultimaPosicion).2).dataSize then
        .done (vaciar c m m.ultimaPosicion)
      else .again ((vaciar c m m.ultimaPosicion).1, (vaciar c m m.ultimaPosicion).2,
        aInt16 (fallidas + 1)) := by
  unfold FaltaLugar at fails
  rw [turnoNext_eq, if_neg (by omega), if_neg (by omega), evicts, hacerLugar_vaciar]
  rfl

theorem reaches_next_succ {fallidas : Int} (evicts : eliminaNext c fallidas = true)
    (fails : FaltaLugar c m espacio i) :
    Reaches (turnoNext c espacio) (HaceLugarNext c espacio) (k + 1) (m, i, fallidas) ↔
      ((vaciar c m m.ultimaPosicion).1.keyVector (vaciar c m m.ultimaPosicion).2).dataSize <
          espacio ∧
        Reaches (turnoNext c espacio) (HaceLugarNext c espacio) k
          ((vaciar c m m.ultimaPosicion).1, (vaciar c m m.ultimaPosicion).2,
            aInt16 (fallidas + 1)) := by
  rw [reaches_succ (haceLugarNext_iff.mpr fails), turnoNext_desaloja evicts fails]
  by_cases fits : espacio ≤ ((vaciar c m m.ultimaPosicion).1.keyVector
      (vaciar c m m.ultimaPosicion).2).dataSize
  · rw [if_pos fits]
    refine iff_of_false ?_ fun both => absurd both.1 (Nat.not_lt.mpr fits)
    rintro ⟨u, next, -⟩
    cases next
  · rw [if_neg fits]
    simp [Nat.lt_of_not_le fits]

/-- The failed searches of a call that evicts at each of them. -/
theorem reaches_next_iff (fallidas : Int)
    (evicts : k = 0 ∨ ∀ fallidas, eliminaNext c fallidas = true) :
    Reaches (turnoNext c espacio) (HaceLugarNext c espacio) k (m, i, fallidas) ↔
      InsisteNext c espacio k m i := by
  induction k generalizing m i fallidas with
  | zero =>
    rw [InsisteNext, SinLugarNext]
    by_cases fails : FaltaLugar c m espacio i
    · exact iff_of_true (reaches_zero (haceLugarNext_iff.mpr fails)) (Or.inl fails)
    · rw [reaches_next_skip fails, or_iff_right fails, and_iff_left_iff_imp]
      exact fun turns => reaches_zero (haceLugarNext_iff.mpr turns.2)
  | succ k ih =>
    have always := evicts.resolve_left (Nat.succ_ne_zero k)
    simp only [InsisteNext, SinLugarNext]
    by_cases fails : FaltaLugar c m espacio i
    · rw [reaches_next_succ (always _) fails, ih _ (Or.inr always)]
      exact ⟨fun both => ⟨Or.inl fails, both⟩, fun both => both.2⟩
    · rw [reaches_next_skip fails, or_iff_right fails]
      refine and_congr_right fun turns => ?_
      rw [reaches_next_succ (always _) turns.2, ih _ (Or.inr always)]

/-- A call that evicts at each failed search does what is asked unless it comes to a `FREQ`-th. -/
theorem frecuenciaNext_iff (evicts : ∀ fallidas, eliminaNext c fallidas = true)
    (low : 1 ≤ c.freq) :
    FrecuenciaNext c espacio m ↔ ¬InsisteNext c espacio (c.freq.toNat - 1) m m.ultimaPosicion := by
  have tally : cuentaNext c espacio = bump (HaceLugarNext c espacio) := by
    funext t r
    rw [cuentaNext, evicts, if_pos rfl, bump]
  rw [← reaches_next_iff 0 (Or.inr evicts), not_reaches_iff, ← tally, FrecuenciaNext]
  simp only [evicts, cumple_desalojo_iff]
  refine forall₄_congr fun t r visited fails => ?_
  omega

/-! ### Worst fit -/

theorem turnoWorst_falla {t : EstadoWorst} (fails : HaceLugarWorst c t) :
    turnoWorst c espacio t =
      match hacerLugar c t.1 t.2.1 (eliminaWorst c) with
      | none => .fault
      | some (m, i) =>
        if (m.keyVector i).dataSize ≥ espacio then
          .again (m, i + 1, i, (m.keyVector i).dataSize % 2 ^ 32, true)
        else .again (m, 1, t.2.2.1, t.2.2.2.1, t.2.2.2.2) := by
  obtain ⟨m, i, pos, mayor, encontrado⟩ := t
  obtain ⟨searching, inside, empty, none⟩ := fails
  dsimp only at inside empty none searching
  simp only [turnoWorst]
  rw [if_pos ⟨searching, inside⟩, if_pos empty]
  exact if_pos none

/-- Once `encontrado` is set no search fails. -/
theorem not_reaches_encontrado {pos mayor : Nat} :
    ¬Reaches (turnoWorst c espacio) (HaceLugarWorst c) k (m, i, pos, mayor, true) := by
  refine not_reaches (P := fun t => t.2.2.2.2 = true) rfl ?_ ?_
  · rintro ⟨m, i, pos, mayor, encontrado⟩ u found next
    dsimp only at found
    subst found
    simp only [turnoWorst, Bool.true_eq_false, false_or] at next
    split at next
    · rename_i goes
      rw [if_neg (Nat.pos_iff_ne_zero.mp goes.1)] at next
      split at next <;> (cases next; rfl)
    · cases next
  · rintro t found ⟨searching, -, empty, -⟩
    rw [found, empty] at searching
    simp at searching

theorem SinLugarWorst.cases_head {mayor p : Nat} (inside : i < c.cantRegistros) :
    SinLugarWorst c espacio m mayor i p ↔
      if (m.keyVector i).dataSize = 0 then p = i ∧ mayor = 0
      else SinLugarWorst c espacio m (mayorTras espacio m 1 mayor i) (i + 1) p := by
  split
  · rename_i empty
    constructor
    · intro scan
      have same : p = i := by
        by_contra other
        have filled := scan.llenas i le_rfl (lt_of_le_of_ne scan.desde (Ne.symm other))
        omega
      subst same
      have none := scan.ninguno
      rw [Nat.sub_self] at none
      exact ⟨rfl, none⟩
    · rintro ⟨rfl, rfl⟩
      refine ⟨le_rfl, inside, empty, fun j from_ before => by omega, ?_⟩
      rw [Nat.sub_self]
      rfl
  · rename_i filled
    have advance (later : i + 1 ≤ p) : mayorTras espacio m (p - i) mayor i =
        mayorTras espacio m (p - (i + 1)) (mayorTras espacio m 1 mayor i) (i + 1) := by
      rw [show p - i = p - (i + 1) + 1 by omega]
      rfl
    constructor
    · intro scan
      have later : i + 1 ≤ p := by
        refine Nat.succ_le_of_lt (lt_of_le_of_ne scan.desde ?_)
        rintro rfl
        exact filled scan.vacia
      refine ⟨later, scan.dentro, scan.vacia, fun j start => scan.llenas j (by omega), ?_⟩
      rw [← advance later]
      exact scan.ninguno
    · intro scan
      refine ⟨by have := scan.desde; omega, scan.dentro, scan.vacia, ?_, ?_⟩
      · intro j start before
        by_cases here : j = i
        · rw [here]
          omega
        · exact scan.llenas j (by omega) before
      · rw [advance scan.desde]
        exact scan.ninguno

/-- The failed searches from a scan of the table, by those from the empty entry it comes to. -/
theorem reaches_worst_scan (Rest : Nat → Prop) {pos mayor : Nat}
    (rest : ∀ pos p, p < c.cantRegistros → (m.keyVector p).dataSize = 0 →
      (Reaches (turnoWorst c espacio) (HaceLugarWorst c) k (m, p, pos, 0, false) ↔ Rest p)) :
    Reaches (turnoWorst c espacio) (HaceLugarWorst c) k (m, i, pos, mayor, false) ↔
      ∃ p, SinLugarWorst c espacio m mayor i p ∧ Rest p := by
  induction left : c.cantRegistros - i generalizing i pos mayor with
  | zero =>
    have mark : ¬HaceLugarWorst c (m, i, pos, mayor, false) := by
      intro fails
      have := fails.2.1
      dsimp only at this
      omega
    rw [reaches_skip mark]
    refine iff_of_false ?_ ?_
    · rintro ⟨u, next, -⟩
      simp only [turnoWorst] at next
      rw [if_neg (by omega)] at next
      cases next
    · rintro ⟨p, scan, -⟩
      have := scan.desde
      have := scan.dentro
      omega
  | succ left ih =>
    have inside : i < c.cantRegistros := by omega
    by_cases empty : (m.keyVector i).dataSize = 0
    · simp only [SinLugarWorst.cases_head inside, if_pos empty]
      by_cases none : mayor = 0
      · subst none
        simp [rest pos i inside empty]
      · have mark : ¬HaceLugarWorst c (m, i, pos, mayor, false) := fun fails => none fails.2.2.2
        rw [reaches_skip mark]
        simp only [turnoWorst, inside, empty, none, if_true, if_false, true_or, and_self,
          Turn.again.injEq, exists_eq_left', and_false, false_and, exists_false, iff_false]
        exact not_reaches_encontrado
    · simp only [SinLugarWorst.cases_head inside, if_neg empty]
      have mark : ¬HaceLugarWorst c (m, i, pos, mayor, false) := fun fails => empty fails.2.2.1
      rw [reaches_skip mark]
      simp only [turnoWorst, inside, empty, if_true, if_false, true_or, and_self]
      simp only [mayorTras]
      split <;> simpa using ih (by omega)

/-- The failed searches of a call that evicts at each of them. -/
theorem reaches_worst_iff (pos : Nat) (evicts : k = 0 ∨ eliminaWorst c = true) :
    Reaches (turnoWorst c espacio) (HaceLugarWorst c) k (m, i, pos, 0, false) ↔
      InsisteWorst c espacio k m i := by
  induction k generalizing m i pos with
  | zero =>
    rw [reaches_worst_scan fun _ => True, InsisteWorst]
    · simp only [and_true]
    · exact fun pos p inside empty => iff_true_intro (reaches_zero ⟨Or.inl rfl, inside, empty, rfl⟩)
  | succ k ih =>
    have always := evicts.resolve_left (Nat.succ_ne_zero k)
    rw [reaches_worst_scan fun p =>
      ((vaciar c m p).1.keyVector (vaciar c m p).2).dataSize < espacio ∧
        InsisteWorst c espacio k (vaciar c m p).1 1, InsisteWorst]
    intro pos p inside empty
    have mark : HaceLugarWorst c (m, p, pos, 0, false) := ⟨Or.inl rfl, inside, empty, rfl⟩
    rw [reaches_succ mark, turnoWorst_falla mark, always]
    dsimp only
    rw [hacerLugar_vaciar]
    dsimp only
    by_cases fits : espacio ≤ ((vaciar c m p).1.keyVector (vaciar c m p).2).dataSize
    · rw [if_pos fits]
      refine iff_of_false ?_ fun both => absurd both.1 (Nat.not_lt.mpr fits)
      rintro ⟨u, next, more⟩
      cases next
      exact not_reaches_encontrado more
    · rw [if_neg fits]
      simp [Nat.lt_of_not_le fits, ih _ (Or.inr always)]

theorem frecuenciaWorst_iff (low : 1 ≤ c.freq) :
    FrecuenciaWorst c espacio m ↔
      ¬InsisteWorst c espacio (if aInt16 c.freq = 0 then 0 else c.freq.toNat - 1) m 0 := by
  by_cases bits : aInt16 c.freq = 0
  · have compacts : eliminaWorst c = false := by
      have whole : c.freq ≠ -1 := by omega
      simpa [eliminaWorst, bits] using whole
    -- no count leaves zero, and a frequency of one has its low bits set
    have zero {t : EstadoWorst} {r : Nat} (visited : Tallies (turnoWorst c espacio) (cuentaWorst c)
        (m, 0, 0, 0, false) 0 t r) : (r + 1 : Nat) ≠ c.freq := by
      have none : r = 0 := by
        refine visited.keeps (P := fun _ r => r = 0) rfl ?_
        rintro t u r rfl -
        simp [cuentaWorst, compacts]
      rintro one
      rw [none] at one
      rw [← one] at bits
      cases bits
    rw [if_pos bits, ← reaches_worst_iff 0 (Or.inl rfl)]
    constructor
    · rintro meets ⟨t, visited, fails⟩
      obtain ⟨r, counted⟩ := visited.retally (cuentaWorst c) 0
      have here := meets t r counted fails
      rw [compacts, cumple_compactacion_iff] at here
      exact zero counted here.2
    · intro never t r visited fails
      obtain ⟨k, counted⟩ := visited.retally (bump (HaceLugarWorst c)) 0
      exact absurd (Reaches.first ⟨t, counted, fails⟩) never
  · have evicts : eliminaWorst c = true := by simp [eliminaWorst, bits]
    have tally : cuentaWorst c = bump (HaceLugarWorst c) := by
      funext t r
      rw [cuentaWorst, evicts, if_pos rfl, bump]
    rw [if_neg bits, ← reaches_worst_iff 0 (Or.inr evicts), not_reaches_iff, ← tally,
      FrecuenciaWorst]
    simp only [evicts, cumple_desalojo_iff]
    refine forall₄_congr fun t r visited fails => ?_
    omega

/-! ### Both fits -/

/-- `FREQ` means the same under both fits exactly where it is `-1`, or no call comes to as many
failed searches as the fit needs to miss a compaction: `FREQ` of them under next fit if an
`int16_t` does not hold `FREQ`, and under worst fit `FREQ` of them, or one if the low sixteen bits
of `FREQ` are zero. -/
theorem frecuencia_iff {c : Config} (range : c.freq = -1 ∨ 1 ≤ c.freq) (espacio : Nat)
    (m : Motor) :
    FrecuenciaNext c espacio m ∧ FrecuenciaWorst c espacio m ↔
      c.freq = -1 ∨
        (c.freq ≤ 32767 ∨ ¬InsisteNext c espacio (c.freq.toNat - 1) m m.ultimaPosicion) ∧
        ¬InsisteWorst c espacio (if aInt16 c.freq = 0 then 0 else c.freq.toNat - 1) m 0 := by
  rcases range with never | low
  · refine iff_of_true ⟨fun t r _ _ => ?_, fun t r _ _ => ?_⟩ (Or.inl never)
    · rw [eliminaNext, never, beq_self_eq_true, Bool.or_true, cumple_desalojo_iff]
      exact Or.inl never
    · rw [eliminaWorst, never, beq_self_eq_true, Bool.or_true, cumple_desalojo_iff]
      exact Or.inl never
  · rw [or_iff_right (by omega : c.freq ≠ -1), frecuenciaWorst_iff low]
    refine and_congr_left fun _ => ?_
    by_cases held : c.freq ≤ 32767
    · exact iff_of_true (frecuenciaNext_of_le low held) (Or.inl held)
    · rw [or_iff_right held]
      refine frecuenciaNext_iff (fun fallidas => ?_) low
      have below := aInt16_lt (fallidas + 1)
      simp [eliminaNext, (by omega : aInt16 (fallidas + 1) < c.freq)]

/-- A frequency of two with room after one eviction. -/
theorem frecuencia_dos :
    ∃ m, corrida { worstDe64 with freq := 2 } 9 [.allocate [1] 48 ⟨1, 0⟩, .store 0] = some m ∧
      FrecuenciaNext { worstDe64 with freq := 2 } 48 m ∧
      FrecuenciaWorst { worstDe64 with freq := 2 } 48 m := by
  refine ⟨_, rfl, ?_⟩
  rw [frecuencia_iff (Or.inr (by decide))]
  refine Or.inr ⟨Or.inl (by decide), ?_⟩
  rintro ⟨p, scan, short, -⟩
  have inside : p < 4 := scan.dentro
  interval_cases p
  · exact absurd scan.vacia (by decide)
  · exact absurd scan.vacia (by decide)
  · exact absurd short (by decide)
  · exact absurd (scan.llenas 2 (by decide) (by decide)) (by decide)

/-- With `FREQ=1` the first failed search of `buscarLibreWorst` evicts. -/
theorem frecuencia_worst_desaloja :
    ¬∀ (c : Config) (m : Motor) (espacio : Nat), (c.freq = -1 ∨ 1 ≤ c.freq) → Buscable c m →
      FrecuenciaNext c espacio m ∧ FrecuenciaWorst c espacio m := by
  intro all
  have fresh : Alcanzable worstDe64 (fun _ _ _ => True) _ :=
    .inicio (fun _ => 0) (fun _ => 0) _ rfl
  have first := Alcanzable.llamada 9 _ _ (.allocate [1] 48 ⟨1, 0⟩) fresh trivial rfl
  have last := Alcanzable.llamada 9 _ _ (.store 0) first trivial rfl
  have worst := (all _ _ 48 (Or.inr (by decide)) ⟨_, last, Or.inl rfl⟩).2
  have never := (frecuenciaWorst_iff (by decide)).mp worst
  refine never ⟨2, by decide, by decide, by decide, ?_, by decide⟩
  intro j _ before
  interval_cases j <;> decide

end LosAltos.Rc
