import LosAltos.Lib.Intervals
import LosAltos.Rc.Conservation
import LosAltos.Rc.Disjoint
import LosAltos.Rc.SearchFit

/-!
# How a buddy block is split

`rc/src/vector.c:42-71, 681-742`. A free block is halved until the value would not fit in a half or
the half would be smaller than `part_minima`. The upper half of each split goes to an empty entry;
in a table of `cache_size / part_minima` entries there is always one left for it.
-/
namespace LosAltos.Rc

open Lib

/-- The bytes of an entry and its padding, none if it is empty. -/
def huella (e : KeyElement) : Nat := if e.dataSize = 0 then 0 else peso e

/-- The non-empty entries tile the cache, each with a power of two of at least `part_minima`. -/
structure Mosaico (c : Config) (m : Motor) : Prop where
  separadas : Separados c.cantRegistros c.cacheSize (fun i => (m.keyVector i).data)
    (fun i => huella (m.keyVector i))
  cubren : ∀ x < c.cacheSize, ∃ i < c.cantRegistros,
    Cubre (fun i => (m.keyVector i).data) (fun i => huella (m.keyVector i)) i x
  potencia : ∀ i < c.cantRegistros, 0 < (m.keyVector i).dataSize →
    c.partMinima ≤ peso (m.keyVector i) ∧ ∃ k, peso (m.keyVector i) = 2 ^ k

/-- The cache and `part_minima` are powers of two, and the table has an entry for each
`part_minima` bytes. -/
structure Potencias (c : Config) : Prop where
  cache : ∃ a, c.cacheSize = 2 ^ a
  minima : ∃ b, c.partMinima = 2 ^ b
  cacheSize_lt : c.cacheSize < 2 ^ 32
  divide : c.partMinima ∣ c.cacheSize

/-- The block at `lugares` was split for `espacio` bytes: `ps` are the entries that took the upper
halves, one after the other, each from where its block was halved to where the one before it
starts. -/
structure Partido (c : Config) (m m' : Motor) (lugares espacio : Nat) (ps : List Nat) : Prop where
  tamanio : (m'.keyVector lugares).dataSize = (m.keyVector lugares).dataSize / 2 ^ ps.length
  cabe : espacio ≤ (m'.keyVector lugares).dataSize
  justo : (m'.keyVector lugares).dataSize / 2 < espacio ∨
    (m'.keyVector lugares).dataSize / 2 < c.partMinima
  lugar : (m'.keyVector lugares).data = (m.keyVector lugares).data
  distintas : ps.Nodup
  nuevas : ∀ j p, ps[j]? = some p →
    p < c.cantRegistros ∧ (m.keyVector p).dataSize = 0 ∧ (m'.keyVector p).libre = true ∧
      (m'.keyVector p).dataSize = (m.keyVector lugares).dataSize / 2 ^ (j + 1) ∧
      (m'.keyVector p).data =
        (m.keyVector lugares).data + (m.keyVector lugares).dataSize / 2 ^ (j + 1)
  otras : ∀ i, i ≠ lugares → i ∉ ps → (m'.keyVector i).sinRotulo = (m.keyVector i).sinRotulo

variable {c : Config} {m m' : Motor} {lugares espacio fuel : Nat}

/-! ### The halves -/

theorem Partido.cerrar {prox : Nat} (fits : espacio ≤ (m.keyVector lugares).dataSize)
    (tight : (m.keyVector lugares).dataSize / 2 < espacio ∨
      (m.keyVector lugares).dataSize / 2 < c.partMinima) :
    Partido c m (cerrar m lugares prox espacio) lugares espacio [] := by
  have size : ((Rc.cerrar m lugares prox espacio).keyVector lugares).dataSize =
      (m.keyVector lugares).dataSize := by simp [Rc.cerrar]
  refine ⟨by simpa using size, size ▸ fits, size ▸ tight, by simp [Rc.cerrar], List.nodup_nil,
    fun j p found => by simp at found, fun i other _ => by simp [Rc.cerrar, other]⟩

/-- The upper half of `lugares` is at `pos`, and what is left of `lugares` was split further. -/
theorem Partido.dividir {pos prox : Nat} {ps : List Nat}
    (half : (m.keyVector lugares).dataSize / 2 = prox) (positive : 0 < prox)
    (place : (m.keyVector lugares).data + prox < 2 ^ 64)
    (found : buscarPosLibre c m = some pos)
    (rest : Partido c (dividir m lugares pos prox) m' lugares espacio ps) :
    Partido c m m' lugares espacio (pos :: ps) := by
  obtain ⟨inside, empty⟩ := buscarPosLibre_some found
  have apart : lugares ≠ pos := by
    rintro rfl
    omega
  have kept := dividir_lugares m prox apart
  have new := dividir_posicionn m prox apart
  have other : ∀ i, i ≠ lugares → i ≠ pos →
      ((Rc.dividir m lugares pos prox).keyVector i).sinRotulo = (m.keyVector i).sinRotulo :=
    fun i first second => dividir_other m prox first second
  have keptSize : ((Rc.dividir m lugares pos prox).keyVector lugares).dataSize = prox :=
    congrArg (·.dataSize) kept
  have keptData : ((Rc.dividir m lugares pos prox).keyVector lugares).data =
      (m.keyVector lugares).data := congrArg (·.data) kept
  have newSize : ((Rc.dividir m lugares pos prox).keyVector pos).dataSize = prox :=
    congrArg (·.dataSize) new
  have newData : ((Rc.dividir m lugares pos prox).keyVector pos).data =
      (m.keyVector lugares).data + prox := by
    have field := congrArg (·.data) new
    have word := a64_of_lt (x := ((m.keyVector lugares).data + prox : Nat)) (by omega) (by omega)
    simp only [KeyElement.sinRotulo] at field
    rw [field]
    exact_mod_cast word
  have newFree : ((Rc.dividir m lugares pos prox).keyVector pos).libre = true :=
    congrArg (·.libre) new
  -- an entry taken later was empty, and the one just taken is not
  have fresh : pos ∉ ps := by
    intro member
    obtain ⟨j, bound, same⟩ := List.getElem_of_mem member
    have later := (rest.nuevas j pos (by rw [List.getElem?_eq_getElem bound, same])).2.1
    omega
  have halves : ∀ j, prox / 2 ^ j = (m.keyVector lugares).dataSize / 2 ^ (j + 1) := by
    intro j
    rw [← half, Nat.div_div_eq_div_mul, Nat.pow_succ, Nat.mul_comm]
  have last := rest.otras pos (Ne.symm apart) fresh
  refine ⟨?_, rest.cabe, rest.justo, rest.lugar.trans keptData, List.nodup_cons.mpr
    ⟨fresh, rest.distintas⟩, fun j p taken => ?_, fun i first second => ?_⟩
  · rw [rest.tamanio, keptSize, halves, List.length_cons]
  · cases j with
    | zero =>
      obtain rfl : pos = p := by simpa using taken
      have size : (m'.keyVector pos).dataSize = prox := (congrArg (·.dataSize) last).trans newSize
      have data : (m'.keyVector pos).data = (m.keyVector lugares).data + prox :=
        (congrArg (·.data) last).trans newData
      have free : (m'.keyVector pos).libre = true := (congrArg (·.libre) last).trans newFree
      rw [← halves 0]
      simpa using ⟨inside, empty, free, size, data⟩
    | succ j =>
      have later := rest.nuevas j p (by simpa using taken)
      rw [keptSize, keptData, halves] at later
      have different : p ≠ pos := by
        rintro rfl
        omega
      have further : p ≠ lugares := by
        rintro rfl
        omega
      have same : ((Rc.dividir m lugares pos prox).keyVector p).dataSize =
          (m.keyVector p).dataSize := congrArg (·.dataSize) (other p further different)
      exact ⟨later.1, same ▸ later.2.1, later.2.2⟩
  · rw [List.mem_cons, not_or] at second
    rw [rest.otras i first second.2, other i first second.1]

/-- What a run that returns the block did to the table. -/
theorem crearArbol_partido {k b : Nat} (minima : c.partMinima = 2 ^ b)
    (size : (m.keyVector lugares).dataSize = 2 ^ k) (word : k < 32)
    (place : (m.keyVector lugares).data + 2 ^ k ≤ 2 ^ 32) (fits : espacio ≤ 2 ^ k)
    (runs : crearArbol c lugares espacio fuel m = some (m', some lugares)) :
    ∃ ps, Partido c m m' lugares espacio ps := by
  have positive := Nat.two_pow_pos b
  induction fuel generalizing m k with
  | zero => cases runs
  | succ fuel ih =>
    have below := Nat.pow_lt_pow_right (show 1 < 2 by decide) word
    have half :
        (m.keyVector lugares).dataSize / 2 % 2 ^ 32 = (m.keyVector lugares).dataSize / 2 := by
      rw [size]
      exact Nat.mod_eq_of_lt (by omega)
    simp only [crearArbol, half] at runs
    split at runs
    · rename_i divides
      split at runs
      · rename_i pos found
        obtain ⟨l, rfl⟩ : ∃ l, k = l + 1 := by
          refine ⟨k - 1, ?_⟩
          rcases k with _ | k
          · rw [size] at divides
            omega
          · rfl
        have prox : (m.keyVector lugares).dataSize / 2 = 2 ^ l := by
          rw [size, Nat.pow_succ, Nat.mul_div_cancel _ (by decide)]
        have power := Nat.pow_succ 2 l
        rw [prox] at runs divides
        have apart : lugares ≠ pos := by
          rintro rfl
          have := (buscarPosLibre_some found).2
          omega
        have kept := dividir_lugares m (2 ^ l) apart
        have keptSize : ((dividir m lugares pos (2 ^ l)).keyVector lugares).dataSize = 2 ^ l :=
          congrArg (·.dataSize) kept
        have keptData : ((dividir m lugares pos (2 ^ l)).keyVector lugares).data =
            (m.keyVector lugares).data := congrArg (·.data) kept
        obtain ⟨ps, rest⟩ := ih keptSize (by omega) (by rw [keptData]; omega) divides.1 runs
        exact ⟨pos :: ps, rest.dividir prox (by omega) (by omega) found⟩
      · cases runs
    · rename_i stays
      cases runs
      exact ⟨[], .cerrar (by omega) (by omega)⟩

/-! ### The empty entries -/

/-- How often a block of `2 ^ k` bytes is halved. -/
theorem divide_potencia {b : Nat} (minima : c.partMinima = 2 ^ b) (k : Nat) (word : k < 33) :
    ∃ d ≤ k - b, Divide c espacio (2 ^ k) d := by
  induction k with
  | zero =>
    refine ⟨0, Nat.zero_le _, .fin _ ?_⟩
    have := Nat.two_pow_pos b
    omega
  | succ k ih =>
    have below := Nat.pow_lt_pow_right (show 1 < 2 by decide) (show k < 32 by omega)
    have half : 2 ^ (k + 1) / 2 % 2 ^ 32 = 2 ^ k := by
      rw [Nat.pow_succ, Nat.mul_div_cancel _ (by decide), Nat.mod_eq_of_lt below]
    by_cases divides : espacio ≤ 2 ^ k ∧ 2 ^ k ≥ c.partMinima
    · obtain ⟨d, few, rest⟩ := ih (by omega)
      have enough : b ≤ k := by
        rw [minima] at divides
        exact (Nat.pow_le_pow_iff_right (by decide)).mp divides.2
      exact ⟨d + 1, by omega, .mas _ d (by rwa [half]) (by rwa [half])⟩
    · exact ⟨0, Nat.zero_le _, .fin _ (by rwa [half])⟩

theorem Potencias.registros (sizes : Potencias c) :
    c.cantRegistros * c.partMinima = c.cacheSize := by
  have below := Nat.lt_of_le_of_lt (Nat.div_le_self c.cacheSize c.partMinima) sizes.cacheSize_lt
  simp only [Config.cantRegistros, Nat.mod_eq_zero_of_dvd sizes.divide, Nat.zero_mod, ne_eq,
    not_true_eq_false, if_false, Nat.mod_eq_of_lt below]
  exact Nat.div_mul_cancel sizes.divide

/-- Beside a block of `2 ^ k` bytes the table has an empty entry for each half that can be split
off it. -/
theorem Mosaico.vacias (tiles : Mosaico c m) (sizes : Potencias c) {b k : Nat}
    (minima : c.partMinima = 2 ^ b) (inside : lugares < c.cantRegistros)
    (size : peso (m.keyVector lugares) = 2 ^ k) (filled : 0 < (m.keyVector lugares).dataSize) :
    k - b ≤ (vacias c m).card := by
  classical
  have large := (tiles.potencia lugares inside filled).1
  rw [size, minima] at large
  have exponent : b ≤ k := (Nat.pow_le_pow_iff_right (by decide)).mp large
  have counted := tiles.separadas.sum_le
  let llenas := (Finset.range c.cantRegistros).filter (fun i => ¬(m.keyVector i).dataSize = 0)
  have split : (Rc.vacias c m).card + llenas.card = c.cantRegistros := by
    have both := Finset.card_filter_add_card_filter_not (s := Finset.range c.cantRegistros)
      (fun i => (m.keyVector i).dataSize = 0)
    rwa [Finset.card_range] at both
  have member : lugares ∈ llenas := Finset.mem_filter.mpr ⟨Finset.mem_range.mpr inside, by omega⟩
  have some_full := Finset.card_pos.mpr ⟨lugares, member⟩
  -- every other non-empty entry takes at least `part_minima` bytes
  have least : (llenas.card - 1) * c.partMinima ≤
      ∑ i ∈ llenas.erase lugares, huella (m.keyVector i) := by
    rw [← Finset.card_erase_of_mem member, ← Nat.nsmul_eq_mul]
    apply Finset.card_nsmul_le_sum
    intro i other
    obtain ⟨within, full⟩ := Finset.mem_filter.mp (Finset.mem_of_mem_erase other)
    rw [huella, if_neg full]
    exact (tiles.potencia i (Finset.mem_range.mp within) (by omega)).1
  have whole : 2 ^ k + (llenas.card - 1) * c.partMinima ≤ c.cacheSize := by
    have own : huella (m.keyVector lugares) = 2 ^ k := by rw [huella, if_neg (by omega), size]
    calc 2 ^ k + (llenas.card - 1) * c.partMinima
        ≤ 2 ^ k + ∑ i ∈ llenas.erase lugares, huella (m.keyVector i) := by omega
      _ = ∑ i ∈ llenas, huella (m.keyVector i) := by
        rw [← own, Finset.add_sum_erase llenas (fun i => huella (m.keyVector i)) member]
      _ ≤ ∑ i ∈ Finset.range c.cantRegistros, huella (m.keyVector i) :=
        Finset.sum_le_sum_of_subset (Finset.filter_subset _ _)
      _ ≤ c.cacheSize := counted
  have entries : 2 ^ (k - b) + (llenas.card - 1) ≤ c.cantRegistros := by
    have power : 2 ^ k = 2 ^ (k - b) * c.partMinima := by
      rw [minima, ← Nat.pow_add, Nat.sub_add_cancel exponent]
    rw [power, ← Nat.add_mul, ← sizes.registros, minima] at whole
    exact Nat.le_of_mul_le_mul_right whole (Nat.two_pow_pos b)
  have more := Nat.lt_two_pow_self (n := k - b)
  omega

/-- A fresh engine has one block, the whole cache. -/
theorem mosaico_inicio {keysSpace cache : Memoria} (sizes : Potencias c)
    (starts : dummyNgInitialize c keysSpace cache = some m) : Mosaico c m := by
  obtain ⟨registros, minima, same⟩ := dummyNgInitialize_some starts
  obtain ⟨a, power⟩ := sizes.cache
  have filled : c.cacheSize ≠ 0 := by
    have := Nat.two_pow_pos a
    omega
  have first : peso (m.keyVector 0) = c.cacheSize ∧ huella (m.keyVector 0) = c.cacheSize ∧
      (m.keyVector 0).data = 0 := by
    rw [same]
    simp [vectorInicializar, huella, peso, KeyElement.nulo, filled]
  have empty : ∀ i < c.cantRegistros, i ≠ 0 → (m.keyVector i).dataSize = 0 := by
    intro i bound later
    rw [same]
    simp [vectorInicializar, later, bound]
  refine ⟨⟨fun i x bound here => ?_, fun i j x left right here there => ?_⟩, fun x below => ?_,
    fun i bound full => ?_⟩
  · by_cases zero : i = 0
    · subst zero
      rw [Cubre, first.2.1, first.2.2] at here
      omega
    · rw [Cubre, huella, if_pos (empty i bound zero)] at here
      omega
  · by_cases zero : i = 0
    · by_cases zero' : j = 0
      · rw [zero, zero']
      · rw [Cubre, huella, if_pos (empty j right zero')] at there
        omega
    · rw [Cubre, huella, if_pos (empty i left zero)] at here
      omega
  · refine ⟨0, registros, ?_⟩
    rw [Cubre, first.2.1, first.2.2]
    omega
  · obtain rfl : i = 0 := by
      by_contra later
      have := empty i bound later
      omega
    rw [first.1]
    exact ⟨Nat.le_of_dvd (by omega) sizes.divide, a, power⟩

/-- A free block is split down to the smallest half that holds the value, and the table never
runs out of entries for it. -/
theorem crearArbol_parte (c : Config) (m : Motor) (lugares espacio fuel : Nat)
    (sizes : Potencias c) (tiles : Mosaico c m) (inside : lugares < c.cantRegistros)
    (whole : (m.keyVector lugares).dataUnuse = 0)
    (first : 1 ≤ espacio) (fits : espacio ≤ (m.keyVector lugares).dataSize) (enough : 32 ≤ fuel) :
    ∃ m' ps, crearArbol c lugares espacio fuel m = some (m', some lugares) ∧
      Partido c m m' lugares espacio ps := by
  obtain ⟨b, minima⟩ := sizes.minima
  obtain ⟨-, k, power⟩ := tiles.potencia lugares inside (by omega)
  have size : (m.keyVector lugares).dataSize = 2 ^ k := by
    rw [← power, peso, whole, Nat.add_zero]
  have taken : huella (m.keyVector lugares) = 2 ^ k := by rw [huella, if_neg (by omega), power]
  have room := tiles.separadas.inside inside (by rw [taken]; exact Nat.two_pow_pos k)
  rw [taken] at room
  have cache := sizes.cacheSize_lt
  have word : k < 32 := (Nat.pow_lt_pow_iff_right (by decide)).mp (show 2 ^ k < 2 ^ 32 by omega)
  obtain ⟨d, few, halves⟩ : ∃ d ≤ k - b, Divide c espacio (2 ^ k) d :=
    divide_potencia minima k (by omega)
  have some_left := tiles.vacias sizes minima inside power (by omega)
  have positive : 0 < c.partMinima := minima ▸ Nat.two_pow_pos b
  obtain ⟨m', runs⟩ := halves.crearArbol positive size (few.trans some_left)
    (Nat.lt_of_lt_of_le (by omega) enough)
  obtain ⟨ps, split⟩ := crearArbol_partido minima size word (by omega) (size ▸ fits) runs
  exact ⟨m', ps, runs, split⟩

/-- Ten bytes in a fresh engine: the cache of 64 bytes is halved twice. -/
theorem crearArbol_parte_diez : ∃ m m' ps,
    dummyNgInitialize buddyDe64 (fun _ => 0) (fun _ => 0) = some m ∧
      crearArbol buddyDe64 0 10 32 m = some (m', some 0) ∧ Partido buddyDe64 m m' 0 10 ps := by
  have sizes : Potencias buddyDe64 := ⟨⟨6, rfl⟩, ⟨3, rfl⟩, by decide, by decide⟩
  have starts : dummyNgInitialize buddyDe64 (fun _ => 0) (fun _ => 0) = some _ := rfl
  obtain ⟨m', ps, runs, split⟩ := crearArbol_parte buddyDe64 _ 0 10 32 sizes
    (mosaico_inicio sizes starts) (by decide) rfl (by decide) (by decide) (by decide)
  exact ⟨_, m', ps, rfl, runs, split⟩

end LosAltos.Rc
