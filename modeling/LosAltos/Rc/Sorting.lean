import LosAltos.Lib.BubbleMark
import LosAltos.Rc.Stable

/-!
# The sort of the partition table

`ordenar_vector`, `rc/src/vector.c:160-197`. It makes `cantRegistros - 2` sweeps of a bubble sort
over the table by `data`, and exchanges no entry of size 0: the entries between two empty ones are
sorted on their own. The position it returns follows the entry it was given when that entry is
exchanged with the next one, not when it is exchanged with the one before.
-/
namespace LosAltos.Rc

open Lib

/-- What the sort reads of an entry. -/
def porData : Sorter KeyElement Nat where
  present e := decide (0 < e.dataSize)
  key e := e.data

/-- The entries the sort takes for the one it follows. -/
def seguida (c : Config) (m : Motor) (clave : Option (Option Int)) (e : KeyElement) : Bool :=
  match clave, e.key with
  | some (some q), some p => strcmpIgual m.keysSpace (c.maxKey * c.cantRegistros).toNat p q
  | _, _ => false

section Ordenar

variable {c : Config} {m : Motor} {clave : Option (Option Int)}

/-- No entry compared has a null key. -/
def Comparable (clave : Option (Option Int)) (f : Nat → KeyElement) : Prop :=
  clave ≠ none → (∃ q, clave = some (some q)) ∧ ∀ i, 0 < (f i).dataSize → (f i).key.isSome

theorem Comparable.exchange {f : Nat → KeyElement} (safe : Comparable clave f) (j : Nat) :
    Comparable clave (porData.exchange f j) := by
  intro some
  refine ⟨(safe some).1, fun i => ?_⟩
  exact Sorter.exchange_all (Q := fun e : KeyElement => 0 < e.dataSize → e.key.isSome)
    (safe some).2 i

theorem Comparable.sweep {f : Nat → KeyElement} (safe : Comparable clave f) (k : Nat) :
    Comparable clave (porData.sweep f k) := by
  induction k with
  | zero => exact safe
  | succ k ih => exact ih.exchange k

theorem permuta_exchange {f : Nat → KeyElement} {j : Nat} (due : porData.Due f j) :
    Motor.permuta { m with keyVector := f } j (j + 1) =
      { m with keyVector := porData.exchange f j } := by
  have row : (Motor.permuta { m with keyVector := f } j (j + 1)).keyVector =
      porData.exchange f j := by
    funext i
    rw [Motor.permuta_keyVector, Sorter.exchange, if_pos due]
    rfl
  rw [← row]
  rfl

theorem ordenarPaso_exchange {f : Nat → KeyElement} (safe : Comparable clave f)
    (posicion2 j : Nat) (flag : Bool) :
    ordenarPaso c clave { m with keyVector := f } posicion2 flag j =
      some ({ m with keyVector := porData.exchange f j },
        porData.advance (seguida c m clave) f posicion2 j, flag || decide (porData.Due f j)) := by
  have guard : porData.Due f j ↔ (f j).data > (f (j + 1)).data ∧ (f j).dataSize > 0 ∧
      (f (j + 1)).dataSize > 0 := by
    simp only [Sorter.Due, porData, decide_eq_true_eq]
    omega
  simp only [ordenarPaso]
  by_cases due : porData.Due f j
  · rw [if_pos (guard.mp due)]
    rw [permuta_exchange due]
    cases clave with
    | none => simp [Sorter.advance, seguida, due]
    | some original =>
      obtain ⟨⟨q, area⟩, keys⟩ := safe (by simp)
      have here := keys j (guard.mp due).2.1
      obtain ⟨p, key⟩ := Option.isSome_iff_exists.mp here
      simp only [Option.some.injEq] at area
      subst area
      rw [key]
      simp [Sorter.advance, seguida, due, key]
  · rw [if_neg fun swap => due (guard.mpr swap), Sorter.exchange_idle due]
    simp [Sorter.advance, due]

theorem ordenarPasada_sweep {f : Nat → KeyElement} (safe : Comparable clave f) (posicion2 : Nat) :
    ∃ flag, ordenarPasada c clave { m with keyVector := f } posicion2 =
        some ({ m with keyVector := porData.sweep f c.cantRegistros },
          porData.follow (seguida c m clave) f posicion2 c.cantRegistros, flag) ∧
      (flag = false → porData.sweep f c.cantRegistros = f ∧
        porData.follow (seguida c m clave) f posicion2 c.cantRegistros = posicion2) := by
  have pass : ∀ k, ∃ flag,
      (List.range k).foldlM (fun r j => ordenarPaso c clave r.1 r.2.1 r.2.2 j)
          (({ m with keyVector := f } : Motor), posicion2, false) =
        some ({ m with keyVector := porData.sweep f k },
          porData.follow (seguida c m clave) f posicion2 k, flag) ∧
      (flag = false → porData.sweep f k = f ∧
        porData.follow (seguida c m clave) f posicion2 k = posicion2) := by
    intro k
    induction k with
    | zero => exact ⟨false, rfl, fun _ => ⟨rfl, rfl⟩⟩
    | succ k ih =>
      obtain ⟨flag, run, still⟩ := ih
      refine ⟨flag || decide (porData.Due (porData.sweep f k) k), ?_, ?_⟩
      · rw [List.range_succ, List.foldlM_append, run]
        simp only [Option.bind_eq_bind, Option.bind_some, List.foldlM_cons, List.foldlM_nil]
        rw [ordenarPaso_exchange (safe.sweep k)]
        rfl
      · intro none
        simp only [Bool.or_eq_false_iff, decide_eq_false_iff_not] at none
        obtain ⟨row, mark⟩ := still none.1
        constructor
        · rw [Sorter.sweep, Sorter.exchange_idle none.2, row]
        · rw [Sorter.follow, Sorter.advance, if_neg fun moved => none.2 moved.1, mark]
  exact pass c.cantRegistros

theorem ordenarPasadas_sweeps (k : Nat) {f : Nat → KeyElement} (safe : Comparable clave f)
    (posicion2 : Nat) :
    ordenarPasadas c clave k { m with keyVector := f } posicion2 =
      some ({ m with keyVector := porData.sweeps c.cantRegistros k f },
        porData.follows (seguida c m clave) c.cantRegistros k f posicion2) := by
  induction k generalizing f posicion2 with
  | zero => rfl
  | succ k ih =>
    obtain ⟨flag, run, still⟩ := ordenarPasada_sweep (c := c) (m := m) safe posicion2
    rw [ordenarPasadas, run]
    simp only [Option.bind_eq_bind, Option.bind_some]
    split
    · rw [ih (safe.sweep _)]
      rfl
    · rename_i stops
      obtain ⟨row, mark⟩ := still (by simpa using stops)
      rw [Sorter.sweeps, Sorter.follows, row, mark, Sorter.sweeps_of_fixed row,
        Sorter.follows_of_fixed row mark]

/-- The sort is `cantRegistros - 2` sweeps. -/
theorem ordenarVector_sweeps {posicion : Option Nat}
    (safe : Comparable (posicion.map fun i => (m.keyVector i).key) m.keyVector) :
    ordenarVector c m posicion =
      some ({ m with
          keyVector := porData.sweeps c.cantRegistros (c.cantRegistros - 2) m.keyVector },
        porData.follows (seguida c m (posicion.map fun i => (m.keyVector i).key)) c.cantRegistros
          (c.cantRegistros - 2) m.keyVector (posicion.getD 0)) :=
  ordenarPasadas_sweeps _ safe _

end Ordenar

/-- Between two entries with an empty one between them, the first is the lower. -/
def TramosEnOrden (c : Config) (m : Motor) : Prop :=
  ∀ i e j, i < e → e < j → j < c.cantRegistros → 0 < (m.keyVector i).dataSize →
    (m.keyVector e).dataSize = 0 → 0 < (m.keyVector j).dataSize →
    (m.keyVector i).data ≤ (m.keyVector j).data

/-- No entry is empty, and the last one is below all others. -/
def UltimaMasBaja (c : Config) (m : Motor) : Prop :=
  2 ≤ c.cantRegistros ∧ (∀ i, i < c.cantRegistros → 0 < (m.keyVector i).dataSize) ∧
    ∀ i, i < c.cantRegistros - 1 →
      (m.keyVector (c.cantRegistros - 1)).data < (m.keyVector i).data

theorem apart_iff {c : Config} {m : Motor} :
    porData.Apart c.cantRegistros m.keyVector ↔ TramosEnOrden c m := by
  simp [Sorter.Apart, TramosEnOrden, porData]

theorem lastLowest_iff {c : Config} {m : Motor} :
    porData.LastLowest c.cantRegistros m.keyVector ↔ UltimaMasBaja c m := by
  simp [Sorter.LastLowest, UltimaMasBaja, porData]

/-- `m'` is the table of `m` in the order of `data`. -/
structure Ordenada (c : Config) (m m' : Motor) : Prop where
  permutacion : ((List.range c.cantRegistros).map m'.keyVector).Perm
    ((List.range c.cantRegistros).map m.keyVector)
  orden : ∀ i j, i < j → j < c.cantRegistros → 0 < (m'.keyVector i).dataSize →
    0 < (m'.keyVector j).dataSize → (m'.keyVector i).data ≤ (m'.keyVector j).data

theorem perm_range_map {α : Type} (f : Nat → α) {n : Nat} {σ : Equiv.Perm Nat}
    (fixed : ∀ i, n ≤ i → σ i = i) :
    ((List.range n).map (f ∘ σ)).Perm ((List.range n).map f) := by
  have places : ((List.range n).map σ).Perm (List.range n) := by
    rw [List.perm_ext_iff_of_nodup (List.nodup_range.map σ.injective) List.nodup_range]
    intro i
    simp only [List.mem_map, List.mem_range]
    constructor
    · rintro ⟨k, inside, rfl⟩
      by_contra outside
      have := σ.injective (fixed (σ k) (by omega))
      omega
    · intro inside
      refine ⟨σ.symm i, ?_, σ.apply_symm_apply i⟩
      by_contra outside
      have stays := fixed (σ.symm i) (by omega)
      rw [Equiv.apply_symm_apply] at stays
      omega
  rw [← List.map_map]
  exact places.map f

theorem comparable_of_claves {m : Motor} {c : Config} (posicion : Option Nat)
    (vacias : ∀ i, c.cantRegistros ≤ i → (m.keyVector i).dataSize = 0)
    (claves : posicion ≠ none → ∀ i, i < c.cantRegistros → (m.keyVector i).key.isSome)
    (dentro : ∀ p ∈ posicion, p < c.cantRegistros) :
    Comparable (posicion.map fun i => (m.keyVector i).key) m.keyVector := by
  intro some
  cases posicion with
  | none => exact absurd rfl some
  | some p =>
    have keys := claves (by simp)
    constructor
    · obtain ⟨q, area⟩ := Option.isSome_iff_exists.mp (keys p (dentro p rfl))
      exact ⟨q, by simp [area]⟩
    · intro i size
      refine keys i ?_
      by_contra outside
      have := vacias i (by omega)
      omega

/-- The sort sorts when the entries already follow each other across the empty ones, and the lowest
one of a table without empty entries is not the last. -/
theorem ordenarVector_ordenada_iff (c : Config) (m : Motor) (posicion : Option Nat)
    (vacias : ∀ i, c.cantRegistros ≤ i → (m.keyVector i).dataSize = 0)
    (claves : posicion ≠ none → ∀ i, i < c.cantRegistros → (m.keyVector i).key.isSome)
    (dentro : ∀ p ∈ posicion, p < c.cantRegistros) :
    (∃ m' pos, ordenarVector c m posicion = some (m', pos) ∧ Ordenada c m m') ↔
      TramosEnOrden c m ∧ ¬UltimaMasBaja c m := by
  have runs := ordenarVector_sweeps (c := c) (comparable_of_claves posicion vacias claves dentro)
  have absent : porData.present (m.keyVector c.cantRegistros) = false := by
    simp [porData, vacias c.cantRegistros le_rfl]
  obtain ⟨σ, row, fixed⟩ := Sorter.sweeps_perm (k := c.cantRegistros - 2) absent
  rw [← apart_iff, ← lastLowest_iff, ← Sorter.sorted_sweeps_iff absent]
  constructor
  · rintro ⟨m', pos, sorted, ordered⟩ i j before inside one other
    rw [runs] at sorted
    simp only [Option.some.injEq, Prod.mk.injEq] at sorted
    rw [← sorted.1] at ordered
    exact ordered.orden i j before inside (by simpa [porData] using one)
      (by simpa [porData] using other)
  · intro sorted
    refine ⟨_, _, runs, ?_, fun i j before inside one other => ?_⟩
    · rw [row]
      exact perm_range_map m.keyVector fixed
    · exact sorted i j before inside (by simpa [porData] using one) (by simpa [porData] using other)

/-- Three partitions of one byte. -/
def tresRegistros : Config where
  esquema := .partDinam
  particion := .next
  victim := .fifo
  freq := 1
  maxKey := 2
  cacheSize := 3
  partMinima := 1

/-- A full table of three entries at `x`, `y` and `z`, with keys `"a"`, `"b"` and `"c"`. -/
def tablaDeTres (x y z : Nat) : Motor where
  keyVector i :=
    if i < 3 then
      { KeyElement.nulo with
        key := some (2 * i)
        dataSize := 1
        data := if i = 0 then x else if i = 1 then y else z }
    else .nulo
  ultimaPosicion := 0
  keysSpace p := if p % 2 = 0 then UInt8.ofNat (97 + p.toNat / 2) else 0
  cache _ := 0
  hechos := []

theorem tablaDeTres_vacias (x y z : Nat) :
    ∀ i, tresRegistros.cantRegistros ≤ i → ((tablaDeTres x y z).keyVector i).dataSize = 0 := by
  intro i outside
  have past : ¬i < 3 := by
    have : tresRegistros.cantRegistros = 3 := by decide
    omega
  simp [tablaDeTres, past, KeyElement.nulo]

theorem tablaDeTres_claves (x y z : Nat) :
    ∀ i, i < tresRegistros.cantRegistros → ((tablaDeTres x y z).keyVector i).key.isSome := by
  intro i inside
  have below : i < 3 := by
    have : tresRegistros.cantRegistros = 3 := by decide
    omega
  simp [tablaDeTres, below]

theorem ordenarVector_ordenada_tres :
    ∃ m' pos, ordenarVector tresRegistros (tablaDeTres 2 0 1) (some 0) = some (m', pos) ∧
      Ordenada tresRegistros (tablaDeTres 2 0 1) m' :=
  (ordenarVector_ordenada_iff tresRegistros (tablaDeTres 2 0 1) (some 0) (tablaDeTres_vacias 2 0 1)
    (fun _ => tablaDeTres_claves 2 0 1) (by decide)).mpr (by
      constructor
      · intro i e j before after inside
        have three : tresRegistros.cantRegistros = 3 := by decide
        have middle : e = 1 := by omega
        simp [middle, tablaDeTres]
      · intro last
        have lowest := last.2.2 1 (by decide)
        revert lowest
        decide)

/-- A full table in descending order is not sorted by its one sweep. -/
theorem ordenarVector_descendente :
    ¬∃ m' pos, ordenarVector tresRegistros (tablaDeTres 2 1 0) none = some (m', pos) ∧
      Ordenada tresRegistros (tablaDeTres 2 1 0) m' := by
  rintro ⟨m', pos, sorted, ordered⟩
  have first : (ordenarVector tresRegistros (tablaDeTres 2 1 0) none).map
      (fun r => ((r.1.keyVector 0).data, (r.1.keyVector 1).data)) = some (1, 0) := by decide
  have sizes : (ordenarVector tresRegistros (tablaDeTres 2 1 0) none).map
      (fun r => ((r.1.keyVector 0).dataSize, (r.1.keyVector 1).dataSize)) = some (1, 1) := by decide
  rw [sorted] at first sizes
  simp only [Option.map_some, Option.some.injEq, Prod.mk.injEq] at first sizes
  have order := ordered.orden 0 1 (by omega) (by decide) (by omega) (by omega)
  omega

theorem strcmpIgual_self (mem : Memoria) (n : Nat) (p : Int) : strcmpIgual mem n p p = true := by
  induction n generalizing p with
  | zero => rfl
  | succ n ih => simp [strcmpIgual, ih]

/-- No two entries have the same C string for a key. -/
def ClavesDistintas (c : Config) (m : Motor) : Prop :=
  ∀ i j p q, i < c.cantRegistros → j < c.cantRegistros → i ≠ j → (m.keyVector i).key = some p →
    (m.keyVector j).key = some q →
    strcmpIgual m.keysSpace (c.maxKey * c.cantRegistros).toNat p q = false

/-- No entry from `i` to `j` is empty. -/
def Seguidas (m : Motor) (i j : Nat) : Prop :=
  ∀ k, i ≤ k → k ≤ j → 0 < (m.keyVector k).dataSize

def SinMayorAntes (m : Motor) (p : Nat) : Prop :=
  ∀ i, i < p → Seguidas m i p → (m.keyVector i).data ≤ (m.keyVector p).data

def SinMenorDespues (m : Motor) (p : Nat) : Prop :=
  ∀ j, p < j → Seguidas m p j → (m.keyVector p).data ≤ (m.keyVector j).data

/-- The first of the lowest entries, but for the last of the table. -/
def PrimeraMasBaja (c : Config) (m : Motor) (p : Nat) : Prop :=
  p < c.cantRegistros - 1 ∧
    (∀ i, i < p → (m.keyVector p).data < (m.keyVector i).data) ∧
    ∀ i, i < c.cantRegistros - 1 → (m.keyVector p).data ≤ (m.keyVector i).data

/-- The sort returns the place of the entry it was given, and `elimina_buddy` goes on from there. -/
def SigueLaEntrada (c : Config) (m : Motor) (p : Nat) : Prop :=
  ∃ m' pos, ordenarVector c m (some p) = some (m', pos) ∧ pos < c.cantRegistros ∧
    m'.keyVector pos = m.keyVector p ∧
    ∀ fuel, eliminaBuddy c fuel m p =
      (eliminaBuddyLoop c pos fuel m' (pos + 1) (pos - 1) 0 0).map fun m'' => (m'', pos)

theorem tops_iff {m : Motor} {p : Nat} : porData.Tops m.keyVector p ↔ SinMayorAntes m p := by
  simp [Sorter.Tops, Sorter.Joined, SinMayorAntes, Seguidas, porData]

theorem bottoms_iff {m : Motor} {p : Nat} :
    porData.Bottoms m.keyVector p ↔ SinMenorDespues m p := by
  simp [Sorter.Bottoms, Sorter.Joined, SinMenorDespues, Seguidas, porData]

theorem foremost_iff {c : Config} {m : Motor} {p : Nat} :
    porData.Foremost c.cantRegistros m.keyVector p ↔ PrimeraMasBaja c m p := by
  simp [Sorter.Foremost, PrimeraMasBaja, porData]

theorem ClavesDistintas.marked {c : Config} {m : Motor} (distinct : ClavesDistintas c m)
    (table : Tabla c m) {p : Nat} (inside : p < c.cantRegistros) :
    Sorter.Marked (seguida c m (some (m.keyVector p).key)) m.keyVector p := by
  intro k
  obtain ⟨q, area⟩ := Option.isSome_iff_exists.mp (table.claves p inside)
  by_cases same : k = p
  · simp [seguida, same, area, strcmpIgual_self]
  · simp only [same, iff_false]
    by_cases within : k < c.cantRegistros
    · obtain ⟨r, key⟩ := Option.isSome_iff_exists.mp (table.claves k within)
      simp [seguida, area, key, distinct k p r q within inside same key area]
    · simp [seguida, area, (table.fin k (by omega)).2.2]

/-- The sort returns the place of the entry when it makes no sweep, when no higher entry of the
stretch comes before it, or when a lower one comes after it; but for the lowest entry but one of a
full table that ends in the lowest. -/
theorem ordenarVector_sigue_iff (c : Config) (m : Motor) (p : Nat) (table : Tabla c m)
    (distinct : ClavesDistintas c m) (inside : p < c.cantRegistros) :
    SigueLaEntrada c m p ↔
      c.cantRegistros ≤ 2 ∨ SinMayorAntes m p ∨
        (¬SinMenorDespues m p ∧ ¬(UltimaMasBaja c m ∧ PrimeraMasBaja c m p)) := by
  have runs := ordenarVector_sweeps (c := c) (comparable_of_claves (some p)
    (fun i outside => (table.fin i outside).1) (fun _ => table.claves) (by simpa using inside))
  have absent : porData.present (m.keyVector c.cantRegistros) = false := by
    simp [porData, (table.fin c.cantRegistros le_rfl).1]
  have marked := distinct.marked table inside
  obtain ⟨σ, row, fixed⟩ := Sorter.sweeps_perm (k := c.cantRegistros - 2) absent
  rw [← tops_iff, ← bottoms_iff, ← lastLowest_iff, ← foremost_iff,
    ← Sorter.marked_follows_iff marked absent inside]
  simp only [Option.map_some, Option.getD_some] at runs
  have place : ∀ k, seguida c m (some (m.keyVector p).key)
      (porData.sweeps c.cantRegistros (c.cantRegistros - 2) m.keyVector k) = true ↔ σ k = p := by
    intro k
    rw [row, Function.comp_apply, marked]
  constructor
  · rintro ⟨m', pos, sorted, -, found, -⟩ k
    rw [runs] at sorted
    simp only [Option.some.injEq, Prod.mk.injEq] at sorted
    rw [← sorted.1, row] at found
    have here : σ pos = p := by
      rw [← marked]
      have entry : m.keyVector (σ pos) = m.keyVector p := found
      rw [entry]
      exact (marked p).mpr rfl
    rw [place, sorted.2]
    exact ⟨fun same => σ.injective (same.trans here.symm), fun same => by rw [same, here]⟩
  · intro followed
    have here := (place _).mp ((followed _).mpr rfl)
    refine ⟨_, _, runs, ?_, ?_, fun fuel => ?_⟩
    · by_contra outside
      rw [fixed _ (by omega)] at here
      omega
    · rw [row]
      exact congrArg m.keyVector here
    · rw [eliminaBuddy, runs]
      simp only [Option.bind_eq_bind, Option.bind_some]
      cases eliminaBuddyLoop c _ fuel _ _ _ 0 0 <;> rfl

theorem tablaDeTres_tabla (x y z : Nat) : Tabla tresRegistros (tablaDeTres x y z) := by
  refine ⟨tablaDeTres_claves x y z, fun i outside => ?_⟩
  have past : ¬i < 3 := by
    have : tresRegistros.cantRegistros = 3 := by decide
    omega
  simp [tablaDeTres, past, KeyElement.nulo]

theorem tablaDeTres_distintas (x y z : Nat) :
    ClavesDistintas tresRegistros (tablaDeTres x y z) := by
  have three : tresRegistros.cantRegistros = 3 := by decide
  have compared : ∀ i j : Fin 3, i ≠ j →
      strcmpIgual (tablaDeTres 0 0 0).keysSpace 6 (2 * i) (2 * j) = false := by decide
  intro i j p q first second different key other
  rw [three] at first second
  simp only [tablaDeTres, first, second, if_true, Option.some.injEq] at key other
  rw [← key, ← other]
  exact compared ⟨i, first⟩ ⟨j, second⟩ (by simpa using different)

/-- The first of three entries goes to the end, and the position with it. -/
theorem ordenarVector_sigue_tres : SigueLaEntrada tresRegistros (tablaDeTres 2 0 1) 0 :=
  (ordenarVector_sigue_iff tresRegistros (tablaDeTres 2 0 1) 0 (tablaDeTres_tabla 2 0 1)
    (tablaDeTres_distintas 2 0 1) (by decide)).mpr
    (Or.inr (Or.inl fun i before => by omega))

/-- The second of three entries goes to the first place; the position returned is still the
second. -/
theorem ordenarVector_pierde_tres : ¬SigueLaEntrada tresRegistros (tablaDeTres 1 0 2) 1 := by
  rintro ⟨m', pos, sorted, -, found, -⟩
  have result : (ordenarVector tresRegistros (tablaDeTres 1 0 2) (some 1)).map
      (fun r => (r.2, (r.1.keyVector 1).data)) = some (1, 1) := by decide
  have before : ((tablaDeTres 1 0 2).keyVector 1).data = 0 := by decide
  rw [sorted] at result
  simp only [Option.map_some, Option.some.injEq, Prod.mk.injEq] at result
  rw [result.1] at found
  rw [found] at result
  omega

end LosAltos.Rc
