import LosAltos.Rc.Labels
import LosAltos.Rc.Semantics
import Mathlib.Tactic.Ring

/-!
# Sets that halve the cache

`rc/src/vector.c:658-797`, `our_engine.c:190-270`. From a fresh engine each set that needs no room
halves free blocks and takes one. `Dispar` is what such sets keep once one half of the cache was
halved itself, or once a block was taken for a value of at most half of it.
-/
namespace LosAltos.Rc

open Lib Finset

/-- `crear_arbol` halves a block of `s` bytes for `espacio` bytes. -/
def Parte (c : Config) (espacio s : Nat) : Prop :=
  espacio ≤ s / 2 % 2 ^ 32 ∧ s / 2 % 2 ^ 32 ≥ c.partMinima

instance (c : Config) (espacio s : Nat) : Decidable (Parte c espacio s) :=
  inferInstanceAs (Decidable (_ ∧ _))

/-- The `data_unuse` of a block of `s` bytes taken for `espacio` bytes. -/
def relleno (s espacio : Nat) : Nat :=
  if espacio > s / 2 % 2 ^ 32 then a64 (s - espacio) else a64 ((s / 2 % 2 ^ 32 : Nat) - espacio)

/-- A block after a set of `key` took it. -/
def tomada (e : KeyElement) (key value : List UInt8) (ahora : Tiempo) : KeyElement :=
  { e with
    nkey := key.length
    dataSize := value.length
    dataUnuse := relleno e.dataSize (value.length % 2 ^ 32)
    stored := true
    libre := false
    tp := ahora }

/-- The set frees no entry, and its search ends, without making room, with a free block the value
fits in. -/
def Entra (c : Config) (fuel : Nat) (m : Motor) (key value : List UInt8) : Prop :=
  (∀ i, vectorGet c m key ≠ some (i + 1)) ∧
    (∃ m' j, buscarLibreBuddy c fuel m (value.length % 2 ^ 32) = some (m', some j) ∧
      Sirve m' value.length j) ∧
    ∀ t, Visits (turnoBuddy c fuel (value.length % 2 ^ 32)) (m, 0, c.cantRegistros, false) t →
      ¬HaceLugarBuddy c (value.length % 2 ^ 32) t

/-- The lowest block of a half that was halved, with the labels the halving gave it. -/
def Brote (c : Config) (signo : Int) (e : KeyElement) : Prop :=
  ∃ k : Nat, abarca e * 2 ^ (k + 2) = c.cacheSize ∧ e.padre = signo * (2 * k + 1) ∧
    e.actual = signo * (2 * k + 3)

/-- The half at `i` was not halved, and no other block has the labels it has. -/
def Intacta (c : Config) (m : Motor) (signo : Int) (i : Nat) : Prop :=
  abarca (m.keyVector i) * 2 = c.cacheSize ∧ (m.keyVector i).padre = 0 ∧
    (m.keyVector i).actual = signo ∧
    ∀ k < c.cantRegistros, k ≠ i → 0 < abarca (m.keyVector k) →
      (m.keyVector k).padre ≠ 0 ∧ (m.keyVector k).actual ≠ 0

/-- Some bytes are lost, or one half of the cache was halved. -/
structure Dispar (c : Config) (m : Motor) : Prop where
  tabla : Tabla c m
  cache : c.cacheSize ≤ 2 ^ 32
  chica : ∀ i < c.cantRegistros, abarca (m.keyVector i) * 2 ≤ c.cacheSize
  cabe : total c m ≤ c.cacheSize
  pierde : total c m < c.cacheSize ∨
    (∀ i < c.cantRegistros, 0 < abarca (m.keyVector i) → Colmada (m.keyVector i)) ∧
      ∃ signo : Int, (signo = 1 ∨ signo = -1) ∧
        ∃ i < c.cantRegistros, ∃ j < c.cantRegistros, Brote c (-signo) (m.keyVector j) ∧
          (Brote c signo (m.keyVector i) ∨ Intacta c m signo i)

variable {c : Config} {m m' : Motor} {fuel espacio i j k pos s : Nat} {signo : Int}
  {e f : KeyElement} {key value : List UInt8} {ahora : Tiempo}

theorem Brote.ficha (bud : Brote c signo e) : Ficha c signo e := by
  obtain ⟨k, size, parent, -⟩ := bud
  exact Or.inl ⟨k, size, parent⟩

theorem Brote.congr (bud : Brote c signo e) (span : abarca f = abarca e)
    (parent : f.padre = e.padre) (own : f.actual = e.actual) : Brote c signo f := by
  unfold Brote
  rwa [span, parent, own]

theorem Dispar.rota (odd : Dispar c m) : Rota c m := by
  refine ⟨odd.tabla, odd.cabe, ?_⟩
  rcases odd.pierde with lost | ⟨dense, signo, sign, i, first, j, second, bud, mark⟩
  · exact Or.inl lost
  refine Or.inr ⟨dense, ?_⟩
  rcases mark with other | ⟨half, parent, -, rest⟩
  · rcases sign with rfl | rfl
    · exact Or.inl ⟨i, first, j, second, other.ficha, bud.ficha⟩
    · exact Or.inl ⟨j, second, i, first, bud.ficha, other.ficha⟩
  · exact Or.inr ⟨i, first, half, parent, fun k below different filled =>
      (rest k below different filled).1⟩

/-! ### A block is halved -/

theorem dividir_rotulos (m : Motor) {lugares posicionn : Nat} (prox : Nat)
    (different : lugares ≠ posicionn) :
    ((dividir m lugares posicionn prox).keyVector lugares).padre =
        (m.keyVector lugares).actual ∧
      ((dividir m lugares posicionn prox).keyVector posicionn).padre =
        (m.keyVector lugares).actual ∧
      ((dividir m lugares posicionn prox).keyVector lugares).actual =
        (if (m.keyVector lugares).actual = 0 then (m.keyVector lugares).padre + 1
        else if (m.keyVector lugares).actual < 0 then (m.keyVector lugares).actual - 2
        else (m.keyVector lugares).actual + 2) ∧
      ((dividir m lugares posicionn prox).keyVector posicionn).actual =
        (if (m.keyVector lugares).actual = 0 then (m.keyVector lugares).padre - 1
        else if (m.keyVector lugares).actual < 0 then (m.keyVector lugares).actual - 1
        else (m.keyVector lugares).actual + 1) := by
  by_cases root : (m.keyVector lugares).actual = 0
  · simp [dividir, cargarEnVector, actualizarFlags, insertPadreActual, different, different.symm,
      root]
  · by_cases below : (m.keyVector lugares).actual < 0
    · simp [dividir, cargarEnVector, actualizarFlags, insertPadreActual, different, different.symm,
        root, below]
    · simp [dividir, cargarEnVector, actualizarFlags, insertPadreActual, different, different.symm,
        root, below]

theorem dividir_otras (m : Motor) {lugares posicionn i : Nat} (prox : Nat) (first : i ≠ lugares)
    (second : i ≠ posicionn) :
    (dividir m lugares posicionn prox).keyVector i = m.keyVector i := by
  by_cases root : (m.keyVector lugares).actual = 0
  · simp [dividir, cargarEnVector, actualizarFlags, insertPadreActual, first, second, root]
  · by_cases below : (m.keyVector lugares).actual < 0
    · simp [dividir, cargarEnVector, actualizarFlags, insertPadreActual, first, second, root, below]
    · simp [dividir, cargarEnVector, actualizarFlags, insertPadreActual, first, second, root, below]

/-- What halving the free block `i` does: its lower half stays, the upper one goes to `pos`. -/
structure Partida (c : Config) (m m' : Motor) (i pos : Nat) : Prop where
  tabla : Tabla c m'
  primera : i < c.cantRegistros
  segunda : pos < c.cantRegistros
  distintas : i ≠ pos
  lugar : buscarPosLibre c m = some pos
  vacia : abarca (m.keyVector pos) = 0
  libres : (m'.keyVector i).libre ∧ (m'.keyVector pos).libre
  positiva : 0 < abarca (m'.keyVector i)
  pareja : abarca (m'.keyVector pos) = abarca (m'.keyVector i)
  mitad : abarca (m'.keyVector i) = abarca (m.keyVector i) / 2
  padre : (m'.keyVector i).padre = (m.keyVector i).actual
  padreNuevo : (m'.keyVector pos).padre = (m.keyVector i).actual
  actual : (m'.keyVector i).actual =
    if (m.keyVector i).actual = 0 then (m.keyVector i).padre + 1
    else if (m.keyVector i).actual < 0 then (m.keyVector i).actual - 2
    else (m.keyVector i).actual + 2
  actualNuevo : (m'.keyVector pos).actual =
    if (m.keyVector i).actual = 0 then (m.keyVector i).padre - 1
    else if (m.keyVector i).actual < 0 then (m.keyVector i).actual - 1
    else (m.keyVector i).actual + 1
  datos : (m'.keyVector i).data = (m.keyVector i).data ∧
    (m'.keyVector pos).data = a64 ((m.keyVector i).data + abarca (m'.keyVector i))
  claves : ∀ k, (m'.keyVector k).key = (m.keyVector k).key
  espacio : m'.keysSpace = m.keysSpace
  otras : ∀ k, k ≠ i → k ≠ pos → m'.keyVector k = m.keyVector k

theorem dividir_partida (table : Tabla c m) (inside : i < c.cantRegistros)
    (free : (m.keyVector i).libre) (narrow : (m.keyVector i).dataSize ≤ 2 ^ 32)
    (positive : 0 < (m.keyVector i).dataSize / 2 % 2 ^ 32)
    (found : buscarPosLibre c m = some pos) :
    Partida c m (dividir m i pos ((m.keyVector i).dataSize / 2 % 2 ^ 32)) i pos := by
  obtain ⟨within, empty⟩ := buscarPosLibre_some found
  have different : i ≠ pos := by
    rintro rfl
    simp [empty] at positive
  have word : (m.keyVector i).dataSize / 2 % 2 ^ 32 = (m.keyVector i).dataSize / 2 := by omega
  rw [word] at positive ⊢
  have lower := dividir_lugares m ((m.keyVector i).dataSize / 2) different
  have upper := dividir_posicionn m ((m.keyVector i).dataSize / 2) different
  have freeLower : ((dividir m i pos ((m.keyVector i).dataSize / 2)).keyVector i).libre := by
    rw [← free]
    exact congrArg (·.libre) lower
  have freeUpper : ((dividir m i pos ((m.keyVector i).dataSize / 2)).keyVector pos).libre :=
    congrArg (·.libre) upper
  have sizeLower : ((dividir m i pos ((m.keyVector i).dataSize / 2)).keyVector i).dataSize =
      (m.keyVector i).dataSize / 2 := congrArg (·.dataSize) lower
  have sizeUpper : ((dividir m i pos ((m.keyVector i).dataSize / 2)).keyVector pos).dataSize =
      (m.keyVector i).dataSize / 2 := congrArg (·.dataSize) upper
  obtain ⟨parent, parentNew, own, ownNew⟩ :=
    dividir_rotulos m ((m.keyVector i).dataSize / 2) different
  have registros : 0 < c.cantRegistros := by omega
  refine ⟨(tabla_estable registros).divide m i pos _ table inside within different free empty
    positive (by omega) found, inside, within, different, found, ?_, ⟨freeLower, freeUpper⟩, ?_, ?_, ?_,
    parent, parentNew, own, ownNew, ⟨congrArg (·.data) lower, ?_⟩, fun k => ?_,
    (dividir_resto m i pos _).2.1, fun k first second => dividir_otras m _ first second⟩
  · unfold abarca
    rw [if_pos empty]
  · rw [abarca_libre freeLower, sizeLower]
    exact positive
  · rw [abarca_libre freeUpper, abarca_libre freeLower, sizeUpper, sizeLower]
  · rw [abarca_libre freeLower, abarca_libre free, sizeLower]
  · rw [abarca_libre freeLower, sizeLower]
    exact congrArg (·.data) upper
  · by_cases first : k = i
    · subst first
      exact congrArg (·.key) lower
    · by_cases second : k = pos
      · subst second
        exact congrArg (·.key) upper
      · rw [dividir_otras m _ first second]

theorem Partida.cuenta (halves : Partida c m m' i pos) :
    total c m' + abarca (m.keyVector i) =
      total c m + 2 * (abarca (m.keyVector i) / 2) := by
  have sum := total_par (c := c) halves.primera halves.segunda halves.distintas halves.otras
  have empty := halves.vacia
  have half := halves.mitad
  have other := halves.pareja
  omega

/-- The halves of a power of two are half of it each. -/
theorem Partida.justa (halves : Partida c m m' i pos)
    (dense : Colmada (m.keyVector i)) : abarca (m'.keyVector i) * 2 = abarca (m.keyVector i) := by
  obtain ⟨t, span, -⟩ := dense
  have half := halves.mitad
  have positive := halves.positiva
  cases t with
  | zero => omega
  | succ t =>
    rw [Nat.pow_succ] at span
    omega

theorem colmada_libre {t : Nat} (free : e.libre) (span : abarca e = 2 ^ t) : Colmada e := by
  have positive : 0 < 2 ^ t := Nat.two_pow_pos t
  refine ⟨t, span, ?_⟩
  rw [← span, ← abarca_libre free]
  omega

theorem Partida.colmada (halves : Partida c m m' i pos) (dense : Colmada (m.keyVector i)) :
    Colmada (m'.keyVector i) ∧ Colmada (m'.keyVector pos) := by
  have half := halves.justa dense
  have positive := halves.positiva
  have other := halves.pareja
  obtain ⟨t, span, -⟩ := dense
  cases t with
  | zero => omega
  | succ t =>
    rw [Nat.pow_succ] at span
    exact ⟨colmada_libre halves.libres.1 (by omega : _ = 2 ^ t),
      colmada_libre halves.libres.2 (by omega : _ = 2 ^ t)⟩

/-- The mark of a half stays in its entry when a block is halved. -/
theorem Partida.brote (halves : Partida c m m' i pos) (sign : signo = 1 ∨ signo = -1)
    (cache : 0 < c.cacheSize) (dense : Colmada (m.keyVector i))
    (bud : Brote c signo (m.keyVector j)) : Brote c signo (m'.keyVector j) := by
  have notEmpty : j ≠ pos := by
    rintro rfl
    have filled := bud.ficha.pos cache
    exact absurd halves.vacia filled.ne'
  by_cases here : j = i
  · subst here
    have half := halves.justa dense
    obtain ⟨k, size, -, own⟩ := bud
    refine ⟨k + 1, ?_, ?_, ?_⟩
    · rw [← size, ← half, Nat.pow_succ 2 (k + 2), Nat.mul_assoc, Nat.mul_comm 2]
    · rw [halves.padre, own]
      push_cast
      ring
    · rw [halves.actual, own]
      push_cast
      rcases sign with rfl | rfl
      · rw [if_neg (by omega), if_neg (by omega)]
        ring
      · rw [if_neg (by omega), if_pos (by omega)]
        ring
  · rwa [halves.otras j here notEmpty]

theorem Dispar.parte (odd : Dispar c m) (halves : Partida c m m' i pos) : Dispar c m' := by
  have sum := halves.cuenta
  have half := halves.mitad
  have other := halves.pareja
  have positive := halves.positiva
  have bounded := odd.cabe
  have small := odd.chica i halves.primera
  refine ⟨halves.tabla, odd.cache, fun k below => ?_, by omega, ?_⟩
  · by_cases first : k = i
    · subst first
      omega
    · by_cases second : k = pos
      · subst second
        omega
      · rw [halves.otras k first second]
        exact odd.chica k below
  rcases odd.pierde with lost | ⟨dense, signo, sign, x, first, y, second, bud, mark⟩
  · exact Or.inl (by omega)
  have here := dense i halves.primera (by omega)
  have exact := halves.justa here
  obtain ⟨lower, upper⟩ := halves.colmada here
  have minus : -signo = 1 ∨ -signo = -1 := by omega
  refine Or.inr ⟨fun k below filled => ?_, signo, sign, x, first, y, second,
    halves.brote minus (by omega) here bud, ?_⟩
  · by_cases first : k = i
    · exact first ▸ lower
    · by_cases second : k = pos
      · exact second ▸ upper
      · rw [halves.otras k first second] at filled ⊢
        exact dense k below filled
  rcases mark with both | ⟨whole, root, own, rest⟩
  · exact Or.inl (halves.brote sign (by omega) here both)
  by_cases same : x = i
  · -- the half that was whole is halved
    subst same
    refine Or.inl ⟨0, by omega, ?_, ?_⟩
    · rw [halves.padre, own]
      ring
    · rw [halves.actual, own]
      rcases sign with rfl | rfl <;> rfl
  · have notEmpty : x ≠ pos := by
      rintro rfl
      have empty := halves.vacia
      omega
    have marked := rest i halves.primera (Ne.symm same) (by omega)
    have kept := halves.otras x same notEmpty
    refine Or.inr ⟨by rwa [kept], by rwa [kept], by rwa [kept], fun k below different filled => ?_⟩
    by_cases first : k = i
    · subst first
      rw [halves.padre, halves.actual, if_neg marked.2]
      refine ⟨marked.2, ?_⟩
      split <;> omega
    · by_cases second : k = pos
      · subst second
        rw [halves.padreNuevo, halves.actualNuevo, if_neg marked.2]
        refine ⟨marked.2, ?_⟩
        split <;> omega
      · rw [halves.otras k first second] at filled ⊢
        exact rest k below different filled

/-! ### A block is taken -/

theorem relleno_chico {v : Nat} (small : s < 2 ^ 32) (fits : v ≤ s) :
    relleno s (v % 2 ^ 32) = if s / 2 < v then s - v else s / 2 - v := by
  have length : v % 2 ^ 32 = v := by omega
  have half : s / 2 % 2 ^ 32 = s / 2 := by omega
  unfold relleno a64
  rw [length, half]
  split <;> omega

/-- A block taken for at most half of its bytes loses the other half. -/
theorem abarca_tomada (key : List UInt8) (ahora : Tiempo) (free : e.libre)
    (small : e.dataSize < 2 ^ 32) (fits : value.length ≤ e.dataSize) :
    abarca (tomada e key value ahora) =
      if value.length = 0 then 0 else if e.dataSize / 2 < value.length then abarca e
      else abarca e / 2 := by
  have rest := relleno_chico small fits
  rw [abarca_libre free]
  unfold abarca tomada
  dsimp only
  rw [rest]
  split
  · rfl
  · rw [if_neg (by decide)]
    split <;> omega

/-- A set of `key` takes the block at `i` as it is. -/
structure Colocada (c : Config) (m m' : Motor) (i : Nat) (key value : List UInt8) (ahora : Tiempo) :
    Prop where
  entera : ¬Parte c (value.length % 2 ^ 32) (m.keyVector i).dataSize
  cabe : value.length ≤ (m.keyVector i).dataSize
  vector : m'.keyVector = Function.update m.keyVector i (tomada (m.keyVector i) key value ahora)
  clave : ∃ p, (m.keyVector i).key = some p ∧ m'.keysSpace = escribir m.keysSpace p key

theorem Colocada.aqui (taken : Colocada c m m' i key value ahora) :
    m'.keyVector i = tomada (m.keyVector i) key value ahora := by
  rw [taken.vector, Function.update_self]

theorem Colocada.otras (taken : Colocada c m m' i key value ahora) (other : k ≠ i) :
    m'.keyVector k = m.keyVector k := by
  rw [taken.vector, Function.update_of_ne other]

theorem Colocada.tabla (taken : Colocada c m m' i key value ahora) (table : Tabla c m)
    (inside : i < c.cantRegistros) : Tabla c m' := by
  have same : Tabla c (m.pon i (tomada (m.keyVector i) key value ahora)) :=
    table.pon inside (table.claves i inside)
  exact same.congr fun k => congrArg (fun v => (v k).sinRotulo) taken.vector

theorem Dispar.toma (odd : Dispar c m) (inside : i < c.cantRegistros)
    (free : (m.keyVector i).libre) (filled : 0 < (m.keyVector i).dataSize)
    (taken : Colocada c m m' i key value ahora) : Dispar c m' := by
  have here := taken.aqui
  have others : ∀ k, k ≠ i → m'.keyVector k = m.keyVector k := fun k => taken.otras
  have fits := taken.cabe
  have sum := total_uno (c := c) inside others
  have small := odd.chica i inside
  have cache := odd.cache
  have size := abarca_libre free
  have span := abarca_tomada key ahora free (by omega) fits
  rw [← here] at span
  have fewer : abarca (m'.keyVector i) ≤ abarca (m.keyVector i) := by
    rw [span]
    split
    · omega
    · split <;> omega
  have bounded := odd.cabe
  refine ⟨taken.tabla odd.tabla inside, cache, fun k below => ?_, by omega, ?_⟩
  · by_cases same : k = i
    · subst same
      omega
    · rw [others k same]
      exact odd.chica k below
  rcases odd.pierde with lost | ⟨dense, signo, sign, x, first, y, second, bud, mark⟩
  · exact Or.inl (by omega)
  by_cases most : (m.keyVector i).dataSize / 2 < value.length
  · have kept : abarca (m'.keyVector i) = abarca (m.keyVector i) := by
      rw [span, if_neg (by omega), if_pos most]
    have label : ∀ k, abarca (m'.keyVector k) = abarca (m.keyVector k) ∧
        (m'.keyVector k).padre = (m.keyVector k).padre ∧
        (m'.keyVector k).actual = (m.keyVector k).actual := by
      intro k
      by_cases same : k = i
      · subst same
        exact ⟨kept, by rw [here]; rfl, by rw [here]; rfl⟩
      · rw [others k same]
        exact ⟨rfl, rfl, rfl⟩
    refine Or.inr ⟨fun k below positive => ?_, signo, sign, x, first, y, second,
      bud.congr (label y).1 (label y).2.1 (label y).2.2, ?_⟩
    · by_cases same : k = i
      · subst same
        obtain ⟨t, power, -⟩ := dense k below (by omega)
        refine ⟨t, kept.trans power, ?_⟩
        have data : (m'.keyVector k).dataSize = value.length := by
          rw [here]
          rfl
        omega
      · rw [others k same] at positive ⊢
        exact dense k below positive
    · rcases mark with both | ⟨whole, root, own, rest⟩
      · exact Or.inl (both.congr (label x).1 (label x).2.1 (label x).2.2)
      · refine Or.inr ⟨(label x).1 ▸ whole, (label x).2.1 ▸ root, (label x).2.2 ▸ own,
          fun k below different positive => ?_⟩
        rw [(label k).1] at positive
        rw [(label k).2.1, (label k).2.2]
        exact rest k below different positive
  · refine Or.inl ?_
    have less : abarca (m'.keyVector i) < abarca (m.keyVector i) := by
      rw [span, if_neg most]
      split <;> omega
    omega

/-! ### A set that fits -/

/-- What every halving of the block keeps holds when the block is handed out. -/
theorem crearArbol_regla {P : Motor → Prop}
    (step : ∀ m pos, P m → Parte c espacio (m.keyVector i).dataSize →
      buscarPosLibre c m = some pos →
      P (dividir m i pos ((m.keyVector i).dataSize / 2 % 2 ^ 32)))
    (holds : P m) (runs : crearArbol c i espacio fuel m = some (m', some j)) :
    j = i ∧ ∃ m₁, P m₁ ∧ ¬Parte c espacio (m₁.keyVector i).dataSize ∧
      m' = cerrar m₁ i ((m₁.keyVector i).dataSize / 2 % 2 ^ 32) espacio := by
  induction fuel generalizing m with
  | zero => cases runs
  | succ fuel ih =>
    simp only [crearArbol] at runs
    split at runs
    · rename_i halves
      split at runs
      · rename_i pos found
        exact ih (step m pos holds halves found) runs
      · cases runs
    · rename_i whole
      simp only [Option.some.injEq, Prod.mk.injEq] at runs
      exact ⟨runs.2.symm, m, holds, whole, runs.1.symm⟩

/-- The block a set that fits is given, before it is halved. -/
theorem entra_lugar (table : Tabla c m) (minima : 0 < c.partMinima)
    (fits : Entra c fuel m key value) :
    ∃ i m', Antes c m i ∧ (m.keyVector i).libre ∧ Sirve m' value.length i ∧
      buscarLibreBuddy c fuel m (value.length % 2 ^ 32) = some (m', some i) ∧
      crearArbol c i (value.length % 2 ^ 32) fuel m = some (m', some i) := by
  obtain ⟨-, ⟨m', j, search, serves⟩, quiet⟩ := fits
  obtain ⟨m₁, lugares, scan, tree⟩ := buscarLibreBuddy_some.mp search
  obtain ⟨t, visited, last⟩ := run_some scan
  obtain ⟨same, chosen⟩ := (recorreBuddy_visita visited fun u visits _ => quiet u visits).fin last
  dsimp only at same chosen
  subst same
  obtain ⟨rfl, -⟩ := crearArbol_divide minima tree
  rcases chosen with ⟨outside, -⟩ | ⟨before, free, -⟩
  · -- no block is free, and the entry after the table is not either
    obtain ⟨size, busy, -⟩ := table.fin j outside.ge
    obtain ⟨-, m₂, rfl, -, rfl⟩ := crearArbol_regla (P := fun m₂ => m₂ = m₁)
      (fun m₂ pos same halves _ => by
        subst same
        have positive := halves.2
        simp [size] at positive
        omega) rfl tree
    have closed := serves.1
    simp [cerrar, busy] at closed
  · exact ⟨j, m', before, free.1, serves, search, tree⟩

/-- A set that fits takes a block that only halvings led to. -/
theorem set_regla {P : Nat → Motor → Prop} (buddy : c.esquema = .buddy) (table : Tabla c m)
    (minima : 0 < c.partMinima) (fits : Entra c fuel m key value)
    (runs : completarSet c fuel m key value ahora = some (m', true))
    (start : ∀ i, Antes c m i → (m.keyVector i).libre → P i m)
    (step : ∀ i m₁ pos, P i m₁ → Parte c (value.length % 2 ^ 32) (m₁.keyVector i).dataSize →
      buscarPosLibre c m₁ = some pos →
      P i (dividir m₁ i pos ((m₁.keyVector i).dataSize / 2 % 2 ^ 32))) :
    ∃ i m₁, P i m₁ ∧ Colocada c m₁ m' i key value ahora := by
  obtain ⟨i, found, before, free, serves, search, tree⟩ := entra_lugar table minima fits
  obtain ⟨-, m₁, holds, whole, rfl⟩ := crearArbol_regla (step i) (start i before free) tree
  refine ⟨i, m₁, holds, ?_⟩
  simp only [completarSet, Option.bind_eq_bind, Option.bind_eq_some_iff, Prod.exists] at runs
  obtain ⟨m₂, r, allocates, ends⟩ := runs
  have lugar : lugarPara c fuel m key value.length =
      some (cerrar m₁ i ((m₁.keyVector i).dataSize / 2 % 2 ^ 32) (value.length % 2 ^ 32),
        some i) := by
    unfold lugarPara
    split
    · rename_i j found
      exact absurd found (fits.1 j)
    · simp only [vectorSearch, buddy]
      exact search
  unfold dummyNgAllocate at allocates
  split at allocates
  · simp only [Option.some.injEq, Prod.mk.injEq] at allocates
    obtain ⟨-, rfl⟩ := allocates
    simp at ends
  simp only [lugar, Option.bind_eq_bind, Option.bind_some, asignar] at allocates
  split at allocates
  · simp only [Option.some.injEq, Prod.mk.injEq] at allocates
    obtain ⟨-, rfl⟩ := allocates
    simp at ends
  rename_i p area
  split at allocates
  · simp only [Option.some.injEq, Prod.mk.injEq] at allocates
    obtain ⟨rfl, rfl⟩ := allocates
    simp only [Option.some.injEq, Prod.mk.injEq, and_true] at ends
    subst ends
    refine ⟨whole, ?_, ?_, p, ?_, ?_⟩
    · simpa [cerrar] using serves.2
    · funext k
      by_cases same : k = i
      · subst same
        simp [dummyNgItemRelease, dummyNgStore, copiar, ocupar, cerrar, tomada, relleno]
      · simp [dummyNgItemRelease, dummyNgStore, copiar, ocupar, cerrar, same]
    · simpa [cerrar] using area
    · simp [dummyNgItemRelease, dummyNgStore, copiar, ocupar, cerrar]
  · cases allocates

/-- Sets that fit keep the halves of the cache apart. -/
theorem Dispar.set (odd : Dispar c m) (buddy : c.esquema = .buddy) (minima : 0 < c.partMinima)
    (fits : Entra c fuel m key value)
    (runs : completarSet c fuel m key value ahora = some (m', true)) : Dispar c m' := by
  obtain ⟨i, m₁, ⟨odd₁, inside, free, filled⟩, taken⟩ := set_regla
    (P := fun i m => Dispar c m ∧ i < c.cantRegistros ∧ (m.keyVector i).libre ∧
      0 < (m.keyVector i).dataSize) buddy odd.tabla minima fits runs
    (fun i before free => ⟨odd, before.1, free, Nat.pos_of_ne_zero (before.2 i le_rfl)⟩)
    (fun i m₁ pos holds halves found => by
      obtain ⟨odd₁, inside, free, filled⟩ := holds
      have small := odd₁.chica i inside
      have cache := odd₁.cache
      have positive := halves.2
      rw [abarca_libre free] at small
      have split := dividir_partida odd₁.tabla inside free (by omega) (by omega) found
      refine ⟨odd₁.parte split, inside, split.libres.1, ?_⟩
      rw [← abarca_libre split.libres.1]
      exact split.positiva)
  exact odd₁.toma inside free filled taken

end LosAltos.Rc
