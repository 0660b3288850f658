import LosAltos.Rc.Halving
import LosAltos.Rc.Lookup

/-!
# The halves of the cache

`rc/src/vector.c:658-797`, `our_engine.c:143-290`. What sets that fit leave of a fresh engine: the
cache as one block, its two halves as they were cut, or the labels and losses of `Dispar`.
-/
namespace LosAltos.Rc

open Lib Finset

/-- A block of `s` bytes is taken whole for a value of `v` bytes, and freed with its `s` bytes. -/
def Llena (c : Config) (v s : Nat) : Prop :=
  ¬Parte c (v % 2 ^ 32) s ∧ a64 (v + relleno s (v % 2 ^ 32)) = s

/-- The cache is halved for the value, and a half of it taken whole. -/
def Mitad (c : Config) (v : Nat) : Prop :=
  Parte c (v % 2 ^ 32) c.cacheSize ∧ Llena c v (c.cacheSize / 2)

instance (c : Config) (v s : Nat) : Decidable (Llena c v s) := inferInstanceAs (Decidable (_ ∧ _))

instance (c : Config) (v : Nat) : Decidable (Mitad c v) := inferInstanceAs (Decidable (_ ∧ _))

/-- The sets of the list, one after the other; all of them fit. -/
inductive Guardan (c : Config) : Motor → List (List UInt8 × List UInt8) → Motor → Prop where
  | fin (m : Motor) : Guardan c m [] m
  | mas (fuel : Nat) (m m₁ m' : Motor) (key value : List UInt8) (ahora : Tiempo)
      (l : List (List UInt8 × List UInt8)) :
      Entra c fuel m key value → completarSet c fuel m key value ahora = some (m₁, true) →
      Guardan c m₁ l m' → Guardan c m ((key, value) :: l) m'

/-- The first key is still at the start of `keys_space` when the second one was copied. -/
def Sobrevive (c : Config) (key₁ key₂ : List UInt8) : Prop :=
  leer (escribir (escribir (fun _ => 0) 0 key₁) (aInt8 c.maxKey) key₂) 0 key₁.length = key₁

/-- The deletions of `dels` after these sets make the cache one free block. -/
def SeFunde (c : Config) : List (List UInt8 × List UInt8) → List (List UInt8) → Prop
  | [], _ => True
  | [(key, value)], _ =>
    (0 : UInt8) ∉ key ∧ (Llena c value.length c.cacheSize ∨ Mitad c value.length)
  | [(key₁, value₁), (key₂, value₂)], dels =>
    dels = [key₂, key₁] ∧ (0 : UInt8) ∉ key₁ ∧ (0 : UInt8) ∉ key₂ ∧ Sobrevive c key₁ key₂ ∧
      Mitad c value₁.length ∧ Mitad c value₂.length
  | _, _ => False

/-- The fresh engine. -/
structure Fresca (c : Config) (espacio : Memoria) (m : Motor) : Prop where
  tabla : Tabla c m
  registros : 0 < c.cantRegistros
  libre : (m.keyVector 0).libre
  dataSize : (m.keyVector 0).dataSize = c.cacheSize
  data : (m.keyVector 0).data = 0
  rotulos : (m.keyVector 0).padre = 0 ∧ (m.keyVector 0).actual = 0
  claves : (m.keyVector 0).key = some 0 ∧
    (1 < c.cantRegistros → (m.keyVector 1).key = some (aInt8 c.maxKey))
  resto : ∀ i, 0 < i → (m.keyVector i).dataSize = 0
  espacio : m.keysSpace = espacio

/-- The two halves of the cache, each a block that was not halved. -/
structure Mitades (c : Config) (m : Motor) : Prop where
  tabla : Tabla c m
  registros : 1 < c.cantRegistros
  media : ∀ i < 2, abarca (m.keyVector i) * 2 = c.cacheSize
  colmada : ∀ i < 2, Colmada (m.keyVector i)
  padre : ∀ i < 2, (m.keyVector i).padre = 0
  actual : (m.keyVector 0).actual = 1 ∧ (m.keyVector 1).actual = -1
  data : (m.keyVector 0).data = 0 ∧ (m.keyVector 1).data * 2 = c.cacheSize
  claves : (m.keyVector 0).key = some 0 ∧ (m.keyVector 1).key = some (aInt8 c.maxKey)
  resto : ∀ i, 2 ≤ i → (m.keyVector i).dataSize = 0

variable {c : Config} {m m' : Motor} {fuel espacio i j k pos s v : Nat} {signo : Int}
  {key value : List UInt8} {ahora : Tiempo} {mem : Memoria}

/-! ### Values and blocks -/

theorem llena_iff (small : s < 2 ^ 32) (positive : 0 < s) (fits : v ≤ s) :
    Llena c v s ↔ ¬Parte c (v % 2 ^ 32) s ∧ s / 2 < v := by
  unfold Llena
  rw [relleno_chico small fits]
  unfold a64
  refine and_congr_right fun _ => ⟨fun whole => ?_, fun most => ?_⟩
  · by_contra most
    rw [if_neg most] at whole
    omega
  · rw [if_pos most]
    omega

/-- A cache of a power of two that is halved has at most 4 GiB. -/
theorem parte_cache {a : Nat} (cache : c.cacheSize = 2 ^ a) (minima : 0 < c.partMinima)
    (halves : Parte c espacio c.cacheSize) : c.cacheSize ≤ 2 ^ 32 := by
  have positive := halves.2
  by_contra wide
  have exponent : 33 ≤ a := by
    by_contra few
    have power : 2 ^ a ≤ 2 ^ 32 := Nat.pow_le_pow_right (by decide) (by omega)
    omega
  obtain ⟨b, rfl⟩ := Nat.exists_eq_add_of_le exponent
  have multiple : c.cacheSize / 2 % 2 ^ 32 = 0 := by
    rw [cache, Nat.pow_add]
    omega
  omega

/-! ### The fresh engine and the halves -/

theorem inicio_fresca {espacio cache : Memoria}
    (starts : dummyNgInitialize c espacio cache = some m) : Fresca c espacio m := by
  have table := inicio_tabla starts
  obtain ⟨registros, -, same⟩ := dummyNgInitialize_some starts
  refine ⟨table, registros, ?_, ?_, ?_, ?_, ⟨?_, fun more => ?_⟩, fun i later => ?_, ?_⟩
  · simp [same, vectorInicializar]
  · simp [same, vectorInicializar]
  · simp [same, vectorInicializar]
  · simp [same, vectorInicializar]
  · simp [same, vectorInicializar]
  · simp [same, vectorInicializar, more]
  · by_cases inside : i < c.cantRegistros
    · simp [same, vectorInicializar, inside, later.ne']
    · exact (table.fin i (by omega)).1
  · simp [same, vectorInicializar]

/-- The first empty entry of a table with `k` blocks in front. -/
theorem buscarPosLibre_tras (found : buscarPosLibre c m = some pos)
    (filled : ∀ i < k, (m.keyVector i).dataSize ≠ 0) (empty : (m.keyVector k).dataSize = 0) :
    pos = k := by
  obtain ⟨-, here⟩ := buscarPosLibre_some found
  rcases Nat.lt_trichotomy pos k with less | same | more
  · exact absurd here (filled pos less)
  · exact same
  · have before := buscarPosLibre_primera found more
    omega

/-- The halves of the whole cache. -/
theorem Fresca.parte {a : Nat} (fresh : Fresca c mem m) (cache : c.cacheSize = 2 ^ a)
    (halves : Partida c m m' 0 pos) : Mitades c m' := by
  have positive : 0 < c.cacheSize := cache ▸ Nat.two_pow_pos a
  have narrow := c.cacheSize_lt
  have whole : abarca (m.keyVector 0) = c.cacheSize :=
    (abarca_libre fresh.libre).trans fresh.dataSize
  have dense : Colmada (m.keyVector 0) := colmada_libre fresh.libre (whole.trans cache)
  have half := halves.justa dense
  have other := halves.pareja
  have place : pos = 1 := by
    refine buscarPosLibre_tras halves.lugar (fun i below => ?_) (fresh.resto 1 (by decide))
    obtain rfl : i = 0 := by omega
    rw [fresh.dataSize]
    omega
  subst place
  obtain ⟨lower, upper⟩ := halves.colmada dense
  obtain ⟨low, high⟩ := halves.datos
  have offset : ((m'.keyVector 1).data : Int) = abarca (m'.keyVector 0) := by
    have word := a64_of_lt (x := ((m.keyVector 0).data + abarca (m'.keyVector 0) : Nat)) (by omega)
      (by rw [fresh.data]; omega)
    rw [high]
    rw [fresh.data] at word ⊢
    simpa using word
  refine ⟨halves.tabla, halves.segunda, fun i below => ?_, fun i below => ?_, fun i below => ?_,
    ⟨?_, ?_⟩, ⟨low.trans fresh.data, by omega⟩,
    ⟨(halves.claves 0).trans fresh.claves.1, (halves.claves 1).trans (fresh.claves.2 halves.segunda)⟩,
    fun i later => ?_⟩
  · obtain rfl | rfl : i = 0 ∨ i = 1 := by omega
    · omega
    · omega
  · obtain rfl | rfl : i = 0 ∨ i = 1 := by omega
    · exact lower
    · exact upper
  · obtain rfl | rfl : i = 0 ∨ i = 1 := by omega
    · exact halves.padre.trans fresh.rotulos.2
    · exact halves.padreNuevo.trans fresh.rotulos.2
  · rw [halves.actual, if_pos fresh.rotulos.2, fresh.rotulos.1]
    rfl
  · rw [halves.actualNuevo, if_pos fresh.rotulos.2, fresh.rotulos.1]
    rfl
  · rw [halves.otras i (by omega) (by omega)]
    exact fresh.resto i (by omega)

theorem Mitades.total (halves : Mitades c m) : total c m = c.cacheSize := by
  have two : ∑ k ∈ ({0, 1} : Finset Nat), abarca (m.keyVector k) = Rc.total c m := by
    unfold Rc.total suma
    refine sum_subset (fun k member => ?_) (fun k member outside => ?_)
    · have registros := halves.registros
      have small : k = 0 ∨ k = 1 := by simpa using member
      exact mem_range.mpr (by omega)
    · have large : ¬(k = 0 ∨ k = 1) := by simpa using outside
      unfold abarca
      rw [if_pos (halves.resto k (by omega))]
  have low := halves.media 0 (by decide)
  have high := halves.media 1 (by decide)
  rw [← two, sum_pair (by decide)]
  omega

theorem Mitades.lugar (halves : Mitades c m) (filled : 0 < abarca (m.keyVector i)) : i < 2 := by
  by_contra later
  have empty := halves.resto i (by omega)
  rw [abarca_pos, empty] at filled
  omega

/-- A half is halved. -/
theorem Mitades.parte (halves : Mitades c m) (narrow : c.cacheSize ≤ 2 ^ 32)
    (splits : Partida c m m' i pos) : Dispar c m' := by
  have half := splits.mitad
  have positive := splits.positiva
  have inside := halves.lugar (i := i) (by omega)
  have whole := halves.media i inside
  have exact := splits.justa (halves.colmada i inside)
  have other := splits.pareja
  obtain ⟨lower, upper⟩ := splits.colmada (halves.colmada i inside)
  have empty := splits.vacia
  have later : 2 ≤ pos := by
    by_contra early
    have full := halves.media pos (by omega)
    omega
  have sum := splits.cuenta
  have all := halves.total
  -- the other half, its label and the one of the half that is halved
  obtain ⟨o, below, apart, only⟩ : ∃ o < 2, o ≠ i ∧ ∀ k < 2, k = i ∨ k = o := by
    obtain rfl | rfl : i = 0 ∨ i = 1 := by omega
    · exact ⟨1, by decide, by decide, by omega⟩
    · exact ⟨0, by decide, by decide, by omega⟩
  obtain ⟨signo, sign, own, mine⟩ : ∃ signo : Int, (signo = 1 ∨ signo = -1) ∧
      (m.keyVector o).actual = signo ∧ (m.keyVector i).actual = -signo := by
    obtain ⟨first, second⟩ := halves.actual
    obtain rfl | rfl : i = 0 ∨ i = 1 := by omega
    · obtain rfl : o = 1 := by omega
      exact ⟨-1, by decide, second, first⟩
    · obtain rfl : o = 0 := by omega
      exact ⟨1, by decide, first, second⟩
  have kept := splits.otras o apart (by omega)
  have cases : ∀ k, 0 < abarca (m'.keyVector k) → k = i ∨ k = pos ∨ k = o := by
    intro k filled
    by_cases first : k = i
    · exact Or.inl first
    · by_cases second : k = pos
      · exact Or.inr (Or.inl second)
      · rw [splits.otras k first second] at filled
        rcases only k (halves.lugar filled) with same | same
        · exact absurd same first
        · exact Or.inr (Or.inr same)
  have registros := halves.registros
  refine ⟨splits.tabla, narrow, fun k _ => ?_, by omega, Or.inr ⟨fun k _ filled => ?_, signo, sign,
    o, by omega, i, splits.primera, ⟨0, by omega, ?_, ?_⟩, Or.inr ⟨?_, ?_, ?_, ?_⟩⟩⟩
  · by_cases filled : 0 < abarca (m'.keyVector k)
    · rcases cases k filled with rfl | rfl | rfl
      · omega
      · omega
      · rw [kept]
        exact (halves.media k below).le
    · omega
  · rcases cases k filled with rfl | rfl | rfl
    · exact lower
    · exact upper
    · rw [kept]
      exact halves.colmada k below
  · rw [splits.padre, mine]
    ring
  · rw [splits.actual, mine]
    rcases sign with rfl | rfl <;> rfl
  · rw [kept]
    exact halves.media o below
  · rw [kept]
    exact halves.padre o below
  · rw [kept]
    exact own
  · intro k _ different filled
    rcases cases k filled with rfl | rfl | rfl
    · rw [splits.padre, splits.actual, mine, if_neg (by omega)]
      refine ⟨by omega, ?_⟩
      split <;> omega
    · rw [splits.padreNuevo, splits.actualNuevo, mine, if_neg (by omega)]
      refine ⟨by omega, ?_⟩
      split <;> omega
    · exact absurd rfl different

/-- The half at `i` is taken for a value of more than half of it. -/
theorem Mitades.toma (halves : Mitades c m) (narrow : c.cacheSize ≤ 2 ^ 32) (inside : i < 2)
    (free : (m.keyVector i).libre) (taken : Colocada c m m' i key value ahora)
    (most : (m.keyVector i).dataSize / 2 < value.length) : Mitades c m' := by
  have registros := halves.registros
  have here := taken.aqui
  have half := halves.media i inside
  have size := abarca_libre free
  have fits := taken.cabe
  have span := abarca_tomada key ahora free (by omega) fits
  rw [← here, if_neg (by omega), if_pos most] at span
  have label : ∀ k, abarca (m'.keyVector k) = abarca (m.keyVector k) ∧
      (m'.keyVector k).padre = (m.keyVector k).padre ∧
      (m'.keyVector k).actual = (m.keyVector k).actual ∧
      (m'.keyVector k).data = (m.keyVector k).data ∧
      (m'.keyVector k).key = (m.keyVector k).key := by
    intro k
    by_cases same : k = i
    · subst same
      refine ⟨span, ?_⟩
      rw [here]
      exact ⟨rfl, rfl, rfl, rfl⟩
    · rw [taken.otras same]
      exact ⟨rfl, rfl, rfl, rfl, rfl⟩
  refine ⟨taken.tabla halves.tabla (by omega), registros, fun k below => ?_, fun k below => ?_,
    fun k below => (label k).2.1.trans (halves.padre k below),
    ⟨(label 0).2.2.1.trans halves.actual.1, (label 1).2.2.1.trans halves.actual.2⟩,
    ⟨(label 0).2.2.2.1.trans halves.data.1, ?_⟩,
    ⟨(label 0).2.2.2.2.trans halves.claves.1, (label 1).2.2.2.2.trans halves.claves.2⟩,
    fun k later => ?_⟩
  · rw [(label k).1]
    exact halves.media k below
  · by_cases same : k = i
    · subst same
      obtain ⟨t, power, -⟩ := halves.colmada k below
      have data : (m'.keyVector k).dataSize = value.length := by
        rw [here]
        rfl
      exact ⟨t, span.trans power, by omega⟩
    · rw [taken.otras same]
      exact halves.colmada k below
  · rw [(label 1).2.2.2.1]
    exact halves.data.2
  · rw [taken.otras (by omega)]
    exact halves.resto k later

/-- The half at `i` is taken for a value of at most half of it. -/
theorem Mitades.desperdicia (halves : Mitades c m) (narrow : c.cacheSize ≤ 2 ^ 32) (inside : i < 2)
    (free : (m.keyVector i).libre) (taken : Colocada c m m' i key value ahora)
    (least : ¬(m.keyVector i).dataSize / 2 < value.length) : Dispar c m' := by
  have registros := halves.registros
  have here := taken.aqui
  have half := halves.media i inside
  have size := abarca_libre free
  have all := halves.total
  obtain ⟨t, power, -⟩ := halves.colmada i inside
  have positive : 0 < 2 ^ t := Nat.two_pow_pos t
  have span := abarca_tomada key ahora free (by omega) taken.cabe
  rw [← here, if_neg least] at span
  have fewer : abarca (m'.keyVector i) ≤ abarca (m.keyVector i) / 2 := by
    rw [span]
    split
    · omega
    · exact le_rfl
  have sum := total_uno (c := c) (by omega : i < c.cantRegistros) fun k other => taken.otras other
  refine ⟨taken.tabla halves.tabla (by omega), narrow, fun k below => ?_, by omega,
    Or.inl (by omega)⟩
  by_cases same : k = i
  · subst same
    omega
  · rw [taken.otras same]
    by_cases filled : 0 < abarca (m.keyVector k)
    · exact (halves.media k (halves.lugar filled)).le
    · omega

/-! ### The states the sets lead to -/

/-- The entry holds the key, at `p`. -/
def Porta (e : KeyElement) (key : List UInt8) : Prop :=
  e.libre = false ∧ e.nkey = key.length

/-- The whole cache is one block, and it is taken. -/
structure Entregada (c : Config) (mem : Memoria) (key value : List UInt8) (m : Motor) : Prop where
  tabla : Tabla c m
  registros : 0 < c.cantRegistros
  lleva : Porta (m.keyVector 0) key
  dataSize : (m.keyVector 0).dataSize = value.length
  dataUnuse : (m.keyVector 0).dataUnuse = relleno c.cacheSize (value.length % 2 ^ 32)
  data : (m.keyVector 0).data = 0
  clave : (m.keyVector 0).key = some 0
  resto : ∀ i, 0 < i → (m.keyVector i).dataSize = 0
  espacio : m.keysSpace = escribir mem 0 key

/-- What the sets of the list leave of a fresh engine. -/
inductive Etapa (c : Config) (mem : Memoria) : List (List UInt8 × List UInt8) → Motor → Prop where
  | fresca (m : Motor) : Fresca c mem m → Etapa c mem [] m
  | entera (m : Motor) (key value : List UInt8) :
      ¬Parte c (value.length % 2 ^ 32) c.cacheSize → Entregada c mem key value m →
      Etapa c mem [(key, value)] m
  | una (m : Motor) (key value : List UInt8) :
      Mitad c value.length → Mitades c m → Porta (m.keyVector 0) key → (m.keyVector 1).libre →
      m.keysSpace = escribir mem 0 key → Etapa c mem [(key, value)] m
  | dos (m : Motor) (key₁ value₁ key₂ value₂ : List UInt8) :
      Mitad c value₁.length → Mitad c value₂.length → Mitades c m →
      Porta (m.keyVector 0) key₁ → Porta (m.keyVector 1) key₂ →
      m.keysSpace = escribir (escribir mem 0 key₁) (aInt8 c.maxKey) key₂ →
      Etapa c mem [(key₁, value₁), (key₂, value₂)] m
  | dispar (m : Motor) (l : List (List UInt8 × List UInt8)) :
      Dispar c m → (∀ dels, ¬SeFunde c l dels) → Etapa c mem l m

/-- The blocks in front of the first empty entry of a cache of two halves. -/
theorem Mitades.antes (halves : Mitades c m) (before : Antes c m i) : i < 2 := by
  by_contra later
  exact before.2 2 (by omega) (halves.resto 2 le_rfl)

theorem seFunde_prefijo {l : List (List UInt8 × List UInt8)} {x : List UInt8 × List UInt8}
    {dels : List (List UInt8)} (joins : SeFunde c (l ++ [x]) dels) : ∃ dels, SeFunde c l dels := by
  cases l with
  | nil => exact ⟨[], trivial⟩
  | cons y rest =>
    cases rest with
    | nil => exact ⟨[], joins.2.1, Or.inr joins.2.2.2.2.1⟩
    | cons z rest =>
      cases rest with
      | nil => exact joins.elim
      | cons w rest => exact joins.elim

/-- A free block of a cache of two halves is halved once more. -/
theorem Mitades.divide (halves : Mitades c m) (narrow : c.cacheSize ≤ 2 ^ 32) (inside : i < 2)
    (free : (m.keyVector i).libre) (positive : 0 < (m.keyVector i).dataSize / 2 % 2 ^ 32)
    (found : buscarPosLibre c m = some pos) :
    Dispar c (dividir m i pos ((m.keyVector i).dataSize / 2 % 2 ^ 32)) ∧
      ((dividir m i pos ((m.keyVector i).dataSize / 2 % 2 ^ 32)).keyVector i).libre ∧
      0 < ((dividir m i pos ((m.keyVector i).dataSize / 2 % 2 ^ 32)).keyVector i).dataSize := by
  have registros := halves.registros
  have half := halves.media i inside
  have size := abarca_libre free
  have splits := dividir_partida halves.tabla (by omega) free (by omega) positive found
  refine ⟨halves.parte narrow splits, splits.libres.1, ?_⟩
  rw [← abarca_libre splits.libres.1]
  exact splits.positiva

/-- What a set halves further keeps the halves apart. -/
def Sigue (c : Config) (i : Nat) (m : Motor) : Prop :=
  Dispar c m ∧ i < c.cantRegistros ∧ (m.keyVector i).libre ∧ 0 < (m.keyVector i).dataSize

theorem Sigue.divide (goes : Sigue c i m) (positive : 0 < (m.keyVector i).dataSize / 2 % 2 ^ 32)
    (found : buscarPosLibre c m = some pos) :
    Sigue c i (dividir m i pos ((m.keyVector i).dataSize / 2 % 2 ^ 32)) := by
  obtain ⟨odd, inside, free, filled⟩ := goes
  have small := odd.chica i inside
  have cache := odd.cache
  rw [abarca_libre free] at small
  have splits := dividir_partida odd.tabla inside free (by omega) positive found
  refine ⟨odd.parte splits, inside, splits.libres.1, ?_⟩
  rw [← abarca_libre splits.libres.1]
  exact splits.positiva

/-- A half that is halved for the value is not taken whole for it. -/
theorem no_mitad (halves : Parte c (v % 2 ^ 32) (c.cacheSize / 2)) : ¬Mitad c v :=
  fun half => half.2.1 halves

theorem Fresca.set {a : Nat} (fresh : Fresca c mem m) (buddy : c.esquema = .buddy)
    (cache : c.cacheSize = 2 ^ a) (minima : 0 < c.partMinima) (fits : Entra c fuel m key value)
    (runs : completarSet c fuel m key value ahora = some (m', true)) :
    Etapa c mem [(key, value)] m' := by
  have size := fresh.dataSize
  obtain ⟨i, m₁, ⟨rfl, before⟩, taken⟩ := set_regla
    (P := fun i m₁ => i = 0 ∧ (m₁ = m ∨
      Parte c (value.length % 2 ^ 32) c.cacheSize ∧
        (Mitades c m₁ ∧ (m₁.keyVector 0).libre ∧ (m₁.keyVector 1).libre ∧ m₁.keysSpace = mem ∨
          Parte c (value.length % 2 ^ 32) (c.cacheSize / 2) ∧ Sigue c 0 m₁)))
    buddy fresh.tabla minima fits runs
    (fun i before _ => by
      refine ⟨?_, Or.inl rfl⟩
      by_contra later
      exact before.2 1 (by omega) (fresh.resto 1 (by decide)))
    (fun i m₁ pos holds splits found => by
      obtain ⟨rfl, holds⟩ := holds
      refine ⟨rfl, Or.inr ?_⟩
      have positive : 0 < (m₁.keyVector 0).dataSize / 2 % 2 ^ 32 := lt_of_lt_of_le minima splits.2
      rcases holds with rfl | ⟨first, ⟨halves, free, -, -⟩ | ⟨second, goes⟩⟩
      · rw [size] at splits
        have narrow := parte_cache cache minima splits
        have parts := dividir_partida fresh.tabla fresh.registros fresh.libre (size ▸ narrow)
          positive found
        have halves := fresh.parte cache parts
        have place : pos = 1 := by
          by_contra other
          have later : 2 ≤ pos := by
            have different := parts.distintas
            omega
          have empty := halves.resto pos later
          have filled := abarca_pos.mp (parts.pareja ▸ parts.positiva)
          omega
        exact ⟨splits, Or.inl ⟨halves, parts.libres.1, place ▸ parts.libres.2,
          parts.espacio.trans fresh.espacio⟩⟩
      · have narrow := parte_cache cache minima first
        have half := halves.media 0 (by decide)
        have whole : (m₁.keyVector 0).dataSize = c.cacheSize / 2 := by
          rw [← abarca_libre free]
          omega
        obtain ⟨odd, opened, filled⟩ := halves.divide narrow (by decide) free positive found
        exact ⟨first, Or.inr ⟨whole ▸ splits, odd, fresh.registros, opened, filled⟩⟩
      · exact ⟨first, Or.inr ⟨second, goes.divide positive found⟩⟩)
  obtain ⟨p, area, space⟩ := taken.clave
  rcases before with rfl | ⟨first, ⟨halves, free, other, rest⟩ | ⟨second, odd, inside, free, filled⟩⟩
  · have whole := taken.entera
    rw [size] at whole
    refine .entera m' key value whole ⟨taken.tabla fresh.tabla fresh.registros, fresh.registros, ?_,
      ?_, ?_, ?_, ?_, fun i later => ?_, ?_⟩
    · rw [taken.aqui]
      exact ⟨rfl, rfl⟩
    · rw [taken.aqui]
      rfl
    · rw [taken.aqui, ← size]
      rfl
    · rw [taken.aqui]
      exact fresh.data
    · rw [taken.aqui]
      exact fresh.claves.1
    · rw [taken.otras later.ne']
      exact fresh.resto i later
    · rw [fresh.claves.1] at area
      cases area
      rw [space, fresh.espacio]
  · have narrow := parte_cache cache minima first
    have half := halves.media 0 (by decide)
    have positive : 0 < c.cacheSize := cache ▸ Nat.two_pow_pos a
    have length : (m₁.keyVector 0).dataSize = c.cacheSize / 2 := by
      rw [← abarca_libre free]
      omega
    have fill := llena_iff (c := c) (by omega) (by omega) (length ▸ taken.cabe)
    have whole := taken.entera
    rw [length] at whole
    by_cases most : c.cacheSize / 2 / 2 < value.length
    · refine .una m' key value ⟨first, fill.mpr ⟨whole, most⟩⟩
        (halves.toma narrow (by decide) free taken (length ▸ most)) ?_ ?_ ?_
      · rw [taken.aqui]
        exact ⟨rfl, rfl⟩
      · rw [taken.otras (by decide)]
        exact other
      · rw [halves.claves.1] at area
        cases area
        rw [space, rest]
    · refine .dispar m' _ (halves.desperdicia narrow (by decide) free taken (length ▸ most))
        fun dels joins => ?_
      rcases joins.2 with all | part
      · exact all.1 first
      · exact most (fill.mp part.2).2
  · refine .dispar m' _ (odd.toma inside free filled taken) fun dels joins => ?_
    rcases joins.2 with all | part
    · exact all.1 first
    · exact no_mitad second part

/-- A second value, while the lower half of the cache is taken. -/
theorem Mitades.set {a : Nat} {key₁ value₁ : List UInt8} (halves : Mitades c m)
    (buddy : c.esquema = .buddy) (cache : c.cacheSize = 2 ^ a) (minima : 0 < c.partMinima)
    (first : Mitad c value₁.length) (mine : Porta (m.keyVector 0) key₁)
    (free : (m.keyVector 1).libre) (space : m.keysSpace = escribir mem 0 key₁)
    (fits : Entra c fuel m key value)
    (runs : completarSet c fuel m key value ahora = some (m', true)) :
    Etapa c mem [(key₁, value₁), (key, value)] m' := by
  have narrow := parte_cache cache minima first.1
  have half := halves.media 1 (by decide)
  have length : (m.keyVector 1).dataSize = c.cacheSize / 2 := by
    rw [← abarca_libre free]
    omega
  obtain ⟨i, m₁, ⟨rfl, before⟩, taken⟩ := set_regla
    (P := fun i m₁ => i = 1 ∧ (m₁ = m ∨
      Parte c (value.length % 2 ^ 32) (c.cacheSize / 2) ∧ Sigue c 1 m₁))
    buddy halves.tabla minima fits runs
    (fun i before free => by
      refine ⟨?_, Or.inl rfl⟩
      have inside := halves.antes before
      by_contra other
      obtain rfl : i = 0 := by omega
      rw [mine.1] at free
      cases free)
    (fun i m₁ pos holds splits found => by
      obtain ⟨rfl, holds⟩ := holds
      refine ⟨rfl, Or.inr ?_⟩
      have positive : 0 < (m₁.keyVector 1).dataSize / 2 % 2 ^ 32 := lt_of_lt_of_le minima splits.2
      rcases holds with rfl | ⟨second, goes⟩
      · obtain ⟨odd, opened, filled⟩ := halves.divide narrow (by decide) free positive found
        exact ⟨length ▸ splits, odd, halves.registros, opened, filled⟩
      · exact ⟨second, goes.divide positive found⟩)
  obtain ⟨p, area, written⟩ := taken.clave
  rcases before with rfl | ⟨second, odd, inside, free, filled⟩
  · have positive : 0 < c.cacheSize := cache ▸ Nat.two_pow_pos a
    have fits := taken.cabe
    rw [length] at fits
    have fill := llena_iff (c := c) (by omega) (by omega) fits
    have whole := taken.entera
    rw [length] at whole
    by_cases most : c.cacheSize / 2 / 2 < value.length
    · have parts : Parte c (value.length % 2 ^ 32) c.cacheSize := ⟨by omega, first.1.2⟩
      refine .dos m' key₁ value₁ key value first ⟨parts, fill.mpr ⟨whole, most⟩⟩
        (halves.toma narrow (by decide) free taken (length ▸ most)) ?_ ?_ ?_
      · rw [taken.otras (by decide)]
        exact mine
      · rw [taken.aqui]
        exact ⟨rfl, rfl⟩
      · rw [halves.claves.2] at area
        cases area
        rw [written, space]
    · refine .dispar m' _ (halves.desperdicia narrow (by decide) free taken (length ▸ most))
        fun dels joins => ?_
      exact most (fill.mp joins.2.2.2.2.2.2).2
  · exact .dispar m' _ (odd.toma inside free filled taken) fun dels joins =>
      no_mitad second joins.2.2.2.2.2

/-- One more set that fits. -/
theorem Etapa.set {a : Nat} {l : List (List UInt8 × List UInt8)} (stage : Etapa c mem l m)
    (buddy : c.esquema = .buddy) (cache : c.cacheSize = 2 ^ a) (minima : 0 < c.partMinima)
    (fits : Entra c fuel m key value)
    (runs : completarSet c fuel m key value ahora = some (m', true)) :
    Etapa c mem (l ++ [(key, value)]) m' := by
  cases stage with
  | fresca _ fresh => exact fresh.set buddy cache minima fits runs
  | entera _ key₁ value₁ _ taken =>
    -- there is no free block
    obtain ⟨i, -, before, free, -⟩ := entra_lugar taken.tabla minima fits
    obtain rfl : i = 0 := by
      by_contra later
      exact before.2 i le_rfl (taken.resto i (by omega))
    rw [taken.lleva.1] at free
    cases free
  | una _ key₁ value₁ first halves mine free space =>
    exact halves.set buddy cache minima first mine free space fits runs
  | dos _ key₁ value₁ key₂ value₂ _ _ halves low high _ =>
    obtain ⟨i, -, before, free, -⟩ := entra_lugar halves.tabla minima fits
    have inside := halves.antes before
    obtain rfl | rfl : i = 0 ∨ i = 1 := by omega
    · rw [low.1] at free
      cases free
    · rw [high.1] at free
      cases free
  | dispar _ _ odd apart =>
    refine .dispar m' _ (odd.set buddy minima fits runs) fun dels joins => ?_
    obtain ⟨dels, before⟩ := seFunde_prefijo joins
    exact apart dels before

theorem Guardan.etapa {a : Nat} {l l₀ : List (List UInt8 × List UInt8)}
    (sets : Guardan c m l m') (buddy : c.esquema = .buddy) (cache : c.cacheSize = 2 ^ a)
    (minima : 0 < c.partMinima) (stage : Etapa c mem l₀ m) : Etapa c mem (l₀ ++ l) m' := by
  induction sets generalizing l₀ with
  | fin m => rwa [List.append_nil]
  | mas fuel m m₁ m' key value ahora l fits runs _ ih =>
    have next := ih (stage.set buddy cache minima fits runs)
    rwa [List.append_assoc] at next

end LosAltos.Rc
