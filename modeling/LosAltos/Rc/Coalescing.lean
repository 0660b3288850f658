import LosAltos.Rc.Halves
import LosAltos.Rc.Sorting

/-!
# When the deletions make the cache whole

`rc/src/vector.c:199-273`, `our_engine.c:443-475`. Sets that fit and then deletions of all their
keys. The halves of the cache are joined again only if none of them was halved, the lower one is
freed last, and no byte of the blocks was given up.
-/
namespace LosAltos.Rc

open Lib

/-- The deletions of the keys, one after the other. -/
inductive Borran (c : Config) : Motor → List (List UInt8) → Motor → Prop where
  | fin (m : Motor) : Borran c m [] m
  | mas (fuel : Nat) (m m₁ m' : Motor) (key : List UInt8) (l : List (List UInt8)) :
      dummyNgItemDelete c fuel m key = some m₁ → Borran c m₁ l m' → Borran c m (key :: l) m'

variable {c : Config} {m m' : Motor} {fuel i j : Nat} {key value : List UInt8} {mem : Memoria}

/-! ### A deletion -/

theorem ordenarVector_quieta {posicion : Option Nat}
    (sorted : ∀ j, ¬((m.keyVector j).data > (m.keyVector (j + 1)).data ∧
      (m.keyVector j).dataSize > 0 ∧ (m.keyVector (j + 1)).dataSize > 0)) :
    ordenarVector c m posicion = some (m, posicion.getD 0) := by
  have step : ∀ clave p flag j, ordenarPaso c clave m p flag j = some (m, p, flag) := by
    intro clave p flag j
    simp only [ordenarPaso]
    rw [if_neg (sorted j)]
  have pass : ∀ clave p, ordenarPasada c clave m p = some (m, p, false) := by
    intro clave p
    unfold ordenarPasada
    induction List.range c.cantRegistros with
    | nil => rfl
    | cons j rest ih =>
      rw [List.foldlM_cons, step]
      exact ih
  have passes : ∀ clave k p, ordenarPasadas c clave k m p = some (m, p) := by
    intro clave k p
    cases k with
    | zero => rfl
    | succ k => simp [ordenarPasadas, pass]
  exact passes _ _ _

theorem cumple_vacia {vecino : Int} (empty : (m.keyVector vecino.toNat).dataSize = 0) :
    cumple c m i vecino = false := by
  simp [cumple, empty]

theorem cumple_ocupada {vecino : Int} (busy : (m.keyVector vecino.toNat).libre = false) :
    cumple c m i vecino = false := by
  simp [cumple, busy]

theorem cumple_antes {vecino : Int} (before : vecino < 0) : cumple c m i vecino = false := by
  unfold cumple
  rw [if_neg (by omega)]

theorem juntarSiCumple_quieta {vecino : Int} (apart : cumple c m i vecino = false) (cuenta : Nat) :
    juntarSiCumple c m i vecino cuenta = (m, cuenta) := by
  simp [juntarSiCumple, apart]

/-- With no block to join the loop leaves the table alone. -/
theorem eliminaBuddyLoop_quieta {siguiente anterior : Int} (inside : i < c.cantRegistros)
    (next : cumple c m i siguiente = false) (previous : cumple c m i anterior = false)
    (runs : eliminaBuddyLoop c i fuel m siguiente anterior 0 0 = some m') : m' = m := by
  cases fuel with
  | zero => cases runs
  | succ fuel =>
    simp only [eliminaBuddyLoop, inside, if_true, juntarSiCumple_quieta next,
      juntarSiCumple_quieta previous] at runs
    rw [if_neg (by simp [next, previous])] at runs
    exact (Option.some.inj runs).symm

/-- A deletion in a table whose data is in order. -/
theorem dummyNgItemDelete_ordenada (buddy : c.esquema = .buddy)
    (found : vectorGet c m key = some i)
    (sorted : ∀ j, ¬(((eliminarParticion c m (some i)).1.keyVector j).data >
        ((eliminarParticion c m (some i)).1.keyVector (j + 1)).data ∧
      ((eliminarParticion c m (some i)).1.keyVector j).dataSize > 0 ∧
      ((eliminarParticion c m (some i)).1.keyVector (j + 1)).dataSize > 0))
    (runs : dummyNgItemDelete c fuel m key = some m') :
    ∃ m₁, eliminaBuddyLoop c i fuel (eliminarParticion c m (some i)).1 (i + 1) (i - 1) 0 0 =
      some m₁ ∧ m' = dummyNgItemRelease m₁ i := by
  have place : (eliminarParticion c m (some i)).2 = i := by
    simp [eliminarParticion, (vectorGet_some found).1.ne]
  simp only [dummyNgItemDelete, found, buddy, if_true, Option.bind_eq_bind, Option.bind_eq_some_iff,
    Prod.exists, Option.some.injEq, place, eliminaBuddy, ordenarVector_quieta sorted,
    Option.bind_some, Prod.mk.injEq, Option.getD_some] at runs
  obtain ⟨joined, last, ⟨m₁, joins, rfl, rfl⟩, released⟩ := runs
  exact ⟨m₁, joins, released.symm⟩

theorem release_libre (free : (m.keyVector i).libre) :
    (dummyNgItemRelease m i).keyVector = m.keyVector ∧
      (dummyNgItemRelease m i).keysSpace = m.keysSpace := by
  unfold dummyNgItemRelease
  split
  · exact ⟨rfl, rfl⟩
  · refine ⟨funext fun k => ?_, rfl⟩
    rw [Motor.pon_keyVector]
    split
    · rename_i same
      rw [same, ← free]
    · rfl

/-- The entry `i` is one free block, the whole cache. -/
structure Sola (c : Config) (m : Motor) (i : Nat) : Prop where
  dentro : i < c.cantRegistros
  libre : (m.keyVector i).libre
  dataSize : (m.keyVector i).dataSize = c.cacheSize
  resto : ∀ k, k ≠ i → (m.keyVector k).dataSize = 0

theorem Sola.fundida_iff (alone : Sola c m i) (cache : 0 < c.cacheSize) :
    Fundida c m ↔ (m.keyVector i).data = 0 := by
  have size := alone.dataSize
  constructor
  · rintro ⟨k, -, filled, -, -, start, -⟩
    have same : k = i := by
      by_contra other
      rw [alone.resto k other] at filled
      cases filled
    exact same ▸ start
  · intro start
    refine ⟨i, alone.dentro, by omega, fun k _ filled => ?_, alone.libre, start, size⟩
    by_contra other
    rw [alone.resto k other] at filled
    cases filled

theorem Mitades.no_fundida (halves : Mitades c m) (cache : 0 < c.cacheSize) : ¬Fundida c m := by
  rintro ⟨i, -, -, only, -⟩
  have registros := halves.registros
  have low := halves.media 0 (by decide)
  have high := halves.media 1 (by decide)
  have first := only 0 (by omega) (abarca_pos.mp (by omega))
  have second := only 1 registros (abarca_pos.mp (by omega))
  omega

/-- A half is freed, before it is joined. -/
theorem Mitades.suelta (halves : Mitades c m) (inside : i < 2)
    (busy : (m.keyVector i).libre = false) :
    Mitades c (eliminarParticion c m (some i)).1 := by
  have registros := halves.registros
  have within : i < c.cantRegistros := by omega
  have narrow := c.cacheSize_lt
  have half := halves.media i inside
  have filled : (m.keyVector i).dataSize ≠ 0 := by
    have positive := abarca_pos (e := m.keyVector i)
    obtain ⟨t, power, -⟩ := halves.colmada i inside
    have two := Nat.two_pow_pos t
    omega
  have span : abarca (m.keyVector i) =
      (m.keyVector i).dataSize + (m.keyVector i).dataUnuse := by
    unfold abarca
    rw [if_neg filled, if_neg (by simp [busy])]
  have word : a64 ((m.keyVector i).dataSize + (m.keyVector i).dataUnuse) =
      abarca (m.keyVector i) := by
    have small := a64_of_lt
      (x := ((m.keyVector i).dataSize + (m.keyVector i).dataUnuse : Nat)) (by omega) (by omega)
    rw [span]
    exact_mod_cast small
  have table := (tabla_estable (by omega)).elimina m i halves.tabla within busy
  rw [eliminarParticion_some within] at table ⊢
  have label : ∀ k, abarca ((m.pon i { m.keyVector i with
        dataSize := a64 ((m.keyVector i).dataSize + (m.keyVector i).dataUnuse)
        libre := true
        stored := false
        dataUnuse := 0 }).keyVector k) = abarca (m.keyVector k) := by
    intro k
    rw [Motor.pon_keyVector]
    split
    · rename_i same
      rw [abarca_libre rfl, word, same]
    · rfl
  refine ⟨table, registros, fun k below => ?_, fun k below => ?_, fun k below => ?_, ?_, ?_, ?_,
    fun k later => ?_⟩
  · rw [label]
    exact halves.media k below
  · by_cases same : k = i
    · subst same
      obtain ⟨t, power, -⟩ := halves.colmada k below
      exact colmada_libre (by simp) ((label k).trans power)
    · simpa [same] using halves.colmada k below
  · by_cases same : k = i
    · subst same
      simpa using halves.padre k below
    · simpa [same] using halves.padre k below
  · obtain rfl | rfl : i = 0 ∨ i = 1 := by omega
    · simpa using halves.actual
    · simpa using halves.actual
  · obtain rfl | rfl : i = 0 ∨ i = 1 := by omega
    · simpa using halves.data
    · simpa using halves.data
  · obtain rfl | rfl : i = 0 ∨ i = 1 := by omega
    · simpa using halves.claves
    · simpa using halves.claves
  · have other : k ≠ i := by omega
    simpa [other] using halves.resto k later

theorem Mitades.igual (halves : Mitades c m) (same : m'.keyVector = m.keyVector) :
    Mitades c m' where
  tabla := halves.tabla.congr fun k => by rw [same]
  registros := halves.registros
  media := same ▸ halves.media
  colmada := same ▸ halves.colmada
  padre := same ▸ halves.padre
  actual := same ▸ halves.actual
  data := same ▸ halves.data
  claves := same ▸ halves.claves
  resto := same ▸ halves.resto

theorem Mitades.ordenada (halves : Mitades c m) (j : Nat) :
    ¬((m.keyVector j).data > (m.keyVector (j + 1)).data ∧
      (m.keyVector j).dataSize > 0 ∧ (m.keyVector (j + 1)).dataSize > 0) := by
  rintro ⟨down, -, filled⟩
  cases j with
  | zero =>
    rw [halves.data.1] at down
    cases down
  | succ j =>
    rw [halves.resto (j + 1 + 1) (by omega)] at filled
    cases filled

/-- Two free halves are joined at the one that was freed last. -/
theorem Mitades.junta (halves : Mitades c m) (inside : i < 2) (other : j < 2) (apart : j ≠ i)
    (free : (m.keyVector i).libre) (buddy : (m.keyVector j).libre) :
    cumple c m i j = true ∧ Sola c (juntarlos m i j) i ∧
      ((juntarlos m i j).keyVector i).data = (m.keyVector i).data ∧
      (juntarlos m i j).keysSpace = m.keysSpace := by
  have registros := halves.registros
  have half := halves.media i inside
  have rest := halves.media j other
  have first := abarca_libre free
  have second := abarca_libre buddy
  have positive : 0 < abarca (m.keyVector i) := by
    obtain ⟨t, power, -⟩ := halves.colmada i inside
    have two := Nat.two_pow_pos t
    omega
  have joins : cumple c m i j = true := by
    have same : (m.keyVector j).dataSize = (m.keyVector i).dataSize := by omega
    have within : j < c.cantRegistros := by omega
    simp only [cumple, Int.toNat_natCast]
    rw [if_pos (by omega)]
    simp [same, halves.padre i inside, halves.padre j other, buddy]
    omega
  have joined := juntarlos_unida halves.tabla halves.total.le (by omega) (by omega) joins
  rw [Int.toNat_natCast] at joined
  have kept := juntarlos_actual m apart.symm
  refine ⟨joins, ⟨by omega, ?_, ?_, fun k outside => ?_⟩, ?_, rfl⟩
  · rw [kept]
    exact free
  · rw [joined.doble]
    omega
  · by_cases same : k = j
    · rw [same, juntarlos_posicion m apart.symm]
    · rw [joined.otras k outside same]
      exact halves.resto k (by omega)
  · rw [kept]

theorem cumple_sola {vecino : Int} (alone : ∀ k, k ≠ i → (m.keyVector k).dataSize = 0)
    (apart : vecino ≠ i) : cumple c m i vecino = false := by
  by_cases before : vecino < 0
  · exact cumple_antes before
  · exact cumple_vacia (alone _ (by omega))

/-- The loop ends after a join that leaves one block. -/
theorem eliminaBuddyLoop_une (inside : i < c.cantRegistros) (joins : cumple c m i j = true)
    (alone : ∀ k, k ≠ i → ((juntarlos m i j).keyVector k).dataSize = 0)
    (side : j = i + 1 ∨ i = j + 1 ∧ cumple c m i (i + 1) = false)
    (runs : eliminaBuddyLoop c i fuel m (i + 1) (i - 1) 0 0 = some m') :
    m' = juntarlos m i j := by
  cases fuel with
  | zero => cases runs
  | succ fuel =>
    have united : ∀ cuenta, juntarSiCumple c m i j cuenta = (juntarlos m i j, cuenta + 1) := by
      intro cuenta
      simp [juntarSiCumple, joins]
    have quiet : ∀ vecino : Int, vecino ≠ i → cumple c (juntarlos m i j) i vecino = false :=
      fun vecino => cumple_sola alone
    simp only [eliminaBuddyLoop, inside, if_true] at runs
    rcases side with next | ⟨previous, apart⟩
    · have place : (i : Int) + 1 = j := by omega
      simp only [place, united] at runs
      rw [juntarSiCumple_quieta (quiet _ (by omega))] at runs
      simp only [quiet _ (by omega : (j : Int) + (0 + 1 : Nat) ≠ i),
        quiet _ (by omega : (i : Int) - 1 - (0 : Nat) ≠ i)] at runs
      exact (Option.some.inj runs).symm
    · have place : (i : Int) - 1 = j := by omega
      simp only [juntarSiCumple_quieta apart, place, united] at runs
      simp only [quiet _ (by omega : (i : Int) + 1 + (0 : Nat) ≠ i),
        quiet _ (by omega : (j : Int) - (0 + 1 : Nat) ≠ i)] at runs
      exact (Option.some.inj runs).symm

/-- A half is deleted. -/
theorem Mitades.borra (halves : Mitades c m) (esquema : c.esquema = .buddy)
    (found : vectorGet c m key = some i) (inside : i < 2) (other : j < 2) (apart : j ≠ i)
    (runs : dummyNgItemDelete c fuel m key = some m') :
    ((m.keyVector j).libre = false → Mitades c m' ∧ (m'.keyVector i).libre ∧
      m'.keyVector j = m.keyVector j ∧ m'.keysSpace = m.keysSpace) ∧
    ((m.keyVector j).libre → Sola c m' i ∧ (m'.keyVector i).data = (m.keyVector i).data) := by
  obtain ⟨within, held⟩ := vectorGet_some found
  have freed := halves.suelta inside (tieneClave_libre held)
  obtain ⟨m₁, joins, rfl⟩ := dummyNgItemDelete_ordenada esquema found freed.ordenada runs
  have here : ((eliminarParticion c m (some i)).1.keyVector i).libre ∧
      ((eliminarParticion c m (some i)).1.keyVector i).data = (m.keyVector i).data := by
    rw [eliminarParticion_some within]
    simp
  have there : (eliminarParticion c m (some i)).1.keyVector j = m.keyVector j := by
    rw [eliminarParticion_some within]
    simp [apart]
  have space : (eliminarParticion c m (some i)).1.keysSpace = m.keysSpace := by
    rw [eliminarParticion_some within]
    rfl
  constructor
  · intro busy
    have quiet : ∀ vecino : Int, vecino ≠ i →
        cumple c (eliminarParticion c m (some i)).1 i vecino = false := by
      intro vecino different
      by_cases before : vecino < 0
      · exact cumple_antes before
      · by_cases same : vecino.toNat = j
        · refine cumple_ocupada ?_
          rw [same, there]
          exact busy
        · exact cumple_vacia (freed.resto _ (by omega))
    have still := eliminaBuddyLoop_quieta within (quiet _ (by omega)) (quiet _ (by omega)) joins
    subst still
    obtain ⟨vector, keys⟩ := release_libre here.1
    refine ⟨freed.igual vector, ?_⟩
    rw [vector, keys]
    exact ⟨here.1, there, space⟩
  · intro free
    obtain ⟨meets, alone, start, -⟩ := freed.junta inside other apart here.1 (there ▸ free)
    have united := eliminaBuddyLoop_une within meets alone.resto (by
      obtain rfl | rfl : i = 0 ∨ i = 1 := by omega
      · exact Or.inl (by omega)
      · exact Or.inr ⟨by omega, cumple_vacia (freed.resto 2 le_rfl)⟩) joins
    subst united
    obtain ⟨vector, -⟩ := release_libre alone.libre
    rw [vector]
    exact ⟨⟨alone.dentro, vector ▸ alone.libre, vector ▸ alone.dataSize, vector ▸ alone.resto⟩,
      start.trans here.2⟩

/-! ### The keys -/

theorem take_strlen_iff : key.take (strlen key) = key ↔ (0 : UInt8) ∉ key := by
  refine ⟨fun whole zero => ?_, take_strlen⟩
  have length : strlen key = key.length := by
    have cut := congrArg List.length whole
    rw [List.length_take] at cut
    have most : strlen key ≤ key.length := (List.takeWhile_prefix _).length_le
    omega
  have same : key.takeWhile (· ≠ 0) = key :=
    (List.takeWhile_prefix _).eq_of_length length
  have clean := List.takeWhile_eq_self_iff.mp same 0 zero
  simp at clean

theorem length_take_strlen_iff : (key.take (strlen key)).length = key.length ↔ (0 : UInt8) ∉ key :=
  ⟨fun length => take_strlen_iff.mp ((List.take_prefix _ _).eq_of_length length),
    fun clean => by rw [take_strlen clean]⟩

/-- A search among two blocks. -/
theorem Mitades.busca (halves : Mitades c m) (key : List UInt8) :
    vectorGet c m key = if tieneClave m (key.take (strlen key)) 0 then some 0
      else if tieneClave m (key.take (strlen key)) 1 then some 1 else none := by
  have registros := halves.registros
  have filled : ∀ i < 2, (m.keyVector i).dataSize ≠ 0 := by
    intro i below
    obtain ⟨t, power, -⟩ := halves.colmada i below
    have two := Nat.two_pow_pos t
    exact (abarca_pos.mp (power ▸ two)).ne'
  obtain ⟨n, count⟩ : ∃ n, c.cantRegistros = n + 2 := ⟨c.cantRegistros - 2, by omega⟩
  unfold vectorGet
  rw [count]
  simp only [vectorGetLoop]
  rw [if_pos (by omega : 0 < c.cantRegistros), if_neg (filled 0 (by decide)),
    if_pos (by omega : 0 + 1 < c.cantRegistros), if_neg (filled (0 + 1) (by decide))]
  have past : vectorGetLoop c m (key.take (strlen key)) n (0 + 1 + 1) = none := by
    cases n with
    | zero => rfl
    | succ n =>
      simp only [vectorGetLoop]
      rw [if_pos (halves.resto (0 + 1 + 1) (by decide))]
      split <;> rfl
  rw [past]

theorem tieneClave_lleva {p : Int} (held : Porta (m.keyVector i) key)
    (area : (m.keyVector i).key = some p) (q : List UInt8) :
    tieneClave m q i ↔ key.length = q.length ∧ leer m.keysSpace p q.length = q := by
  simp [tieneClave, held.1, held.2, area]

theorem tieneClave_cerrada {q : List UInt8} (free : (m.keyVector i).libre) :
    tieneClave m q i = false := by
  simp [tieneClave, free]

/-- A key is found where its bytes were copied last, unless a zero byte ends it early. -/
theorem tieneClave_propia {p : Int} {before : Memoria} (held : Porta (m.keyVector i) key)
    (area : (m.keyVector i).key = some p) (space : m.keysSpace = escribir before p key)
    (q : List UInt8) : tieneClave m q i ↔ q = key := by
  rw [tieneClave_lleva held area, space]
  constructor
  · rintro ⟨length, bytes⟩
    rw [← length, leer_escribir_self] at bytes
    exact bytes.symm
  · rintro rfl
    exact ⟨rfl, leer_escribir_self ..⟩

/-- Whether the first key survives does not depend on what `keys_space` held. -/
theorem sobrevive_iff (key₁ key₂ : List UInt8) (mem : Memoria) :
    Sobrevive c key₁ key₂ ↔
      leer (escribir (escribir mem 0 key₁) (aInt8 c.maxKey) key₂) 0 key₁.length = key₁ := by
  have same : leer (escribir (escribir (fun _ => 0) 0 key₁) (aInt8 c.maxKey) key₂) 0 key₁.length =
      leer (escribir (escribir mem 0 key₁) (aInt8 c.maxKey) key₂) 0 key₁.length := by
    apply leer_congr
    intro j below
    have inside : (0 : Int) ≤ 0 + (j : Int) ∧ 0 + (j : Int) < 0 + (key₁.length : Int) := by omega
    unfold escribir
    rw [if_pos inside, if_pos inside]
  unfold Sobrevive
  rw [same]

/-! ### The deletions -/

theorem dummyNgItemDelete_nada (missing : vectorGet c m key = none)
    (runs : dummyNgItemDelete c fuel m key = some m') : m' = m := by
  simp only [dummyNgItemDelete, missing, Option.some.injEq] at runs
  exact runs.symm

theorem Borran.rota {dels : List (List UInt8)} (deletes : Borran c m dels m')
    (buddy : c.esquema = .buddy) (broken : Rota c m) : Rota c m' := by
  induction deletes with
  | fin m => exact broken
  | mas fuel m m₁ m' key l runs _ ih => exact ih (rota_dummyNgItemDelete buddy broken runs)

theorem Borran.uno (deletes : Borran c m [key] m') :
    ∃ fuel, dummyNgItemDelete c fuel m key = some m' := by
  cases deletes with
  | mas fuel _ m₁ _ _ _ runs rest =>
    cases rest
    exact ⟨fuel, runs⟩

theorem Borran.dos {x y : List UInt8} (deletes : Borran c m [x, y] m') :
    ∃ fuel m₁ fuel₁, dummyNgItemDelete c fuel m x = some m₁ ∧
      dummyNgItemDelete c fuel₁ m₁ y = some m' := by
  cases deletes with
  | mas fuel _ m₁ _ _ _ first rest =>
    obtain ⟨fuel₁, second⟩ := rest.uno
    exact ⟨fuel, m₁, fuel₁, first, second⟩

/-- A deletion comes to an end. -/
theorem dummyNgItemDelete_termina (registros : 0 < c.cantRegistros) (table : Tabla c m)
    (key : List UInt8) (enough : c.cantRegistros < fuel) :
    ∃ m', dummyNgItemDelete c fuel m key = some m' ∧ Tabla c m' := by
  have stable := tabla_estable registros
  have suelta : ∀ m i, Tabla c m → i < c.cantRegistros →
      Tabla c (m.pon i { m.keyVector i with libre := true }) :=
    fun m i table inside => table.pon inside (table.claves i inside)
  have kept : ∀ m', dummyNgItemDelete c fuel m key = some m' → Tabla c m' := fun m' runs =>
    dummyNgItemDelete_estable stable suelta (fun _ => table) (fun res found =>
      have inside := (vectorGet_some found).1
      stable.elimina m res table inside (tieneClave_libre (vectorGet_some found).2)) runs
  obtain ⟨m', runs⟩ : ∃ m', dummyNgItemDelete c fuel m key = some m' := by
    unfold dummyNgItemDelete
    split
    · exact ⟨m, rfl⟩
    · rename_i res found
      obtain ⟨inside, held⟩ := vectorGet_some found
      have freed := stable.elimina m res table inside (tieneClave_libre held)
      have place : (eliminarParticion c m (some res)).2 = res := by
        simp [eliminarParticion, inside.ne]
      simp only [place]
      split
      · have safe : Comparable ((some res).map fun i =>
            ((eliminarParticion c m (some res)).1.keyVector i).key)
            (eliminarParticion c m (some res)).1.keyVector :=
          comparable_of_claves (some res) (fun i outside => (freed.fin i outside).1)
            (fun _ => freed.claves) (fun p same => Option.some.inj same ▸ inside)
        have sorted := ordenarVector_sweeps (c := c) safe
        obtain ⟨joined, ends⟩ := Option.isSome_iff_exists.mp
          (eliminaBuddyLoop_termina c _ _ enough)
        simp only [eliminaBuddy, sorted, Option.bind_eq_bind, Option.bind_some]
        exact ⟨_, by rw [ends]; rfl⟩
      · exact ⟨_, rfl⟩
  exact ⟨m', runs, kept m' runs⟩

theorem borran_terminan (registros : 0 < c.cantRegistros) (table : Tabla c m)
    (dels : List (List UInt8)) : ∃ m', Borran c m dels m' := by
  induction dels generalizing m with
  | nil => exact ⟨m, .fin m⟩
  | cons key dels ih =>
    obtain ⟨m₁, runs, table₁⟩ :=
      dummyNgItemDelete_termina registros table key (Nat.lt_succ_self c.cantRegistros)
    obtain ⟨m', rest⟩ := ih table₁
    exact ⟨m', .mas _ m m₁ m' key dels runs rest⟩

theorem Etapa.tabla {l : List (List UInt8 × List UInt8)} (stage : Etapa c mem l m) :
    Tabla c m := by
  cases stage with
  | fresca _ fresh => exact fresh.tabla
  | entera _ _ _ _ taken => exact taken.tabla
  | una _ _ _ _ halves => exact halves.tabla
  | dos _ _ _ _ _ _ _ halves => exact halves.tabla
  | dispar _ _ odd => exact odd.tabla

/-- The one value of a cache taken whole is deleted. -/
theorem Entregada.borra (taken : Entregada c mem key value m) (buddy : c.esquema = .buddy)
    (cache : 0 < c.cacheSize) (whole : ¬Parte c (value.length % 2 ^ 32) c.cacheSize)
    (runs : dummyNgItemDelete c fuel m key = some m') :
    Fundida c m' ↔ (0 : UInt8) ∉ key ∧ Llena c value.length c.cacheSize := by
  have size := taken.dataSize
  have registros := taken.registros
  have search : vectorGet c m key = if value.length = 0 then none
      else if tieneClave m (key.take (strlen key)) 0 then some 0 else none := by
    obtain ⟨n, count⟩ : ∃ n, c.cantRegistros = n + 1 := ⟨c.cantRegistros - 1, by omega⟩
    unfold vectorGet
    rw [count]
    simp only [vectorGetLoop]
    rw [if_pos registros, size]
    have past : vectorGetLoop c m (key.take (strlen key)) n (0 + 1) = none := by
      cases n with
      | zero => rfl
      | succ n =>
        simp only [vectorGetLoop]
        rw [if_pos (taken.resto (0 + 1) (by decide))]
        split <;> rfl
    rw [past]
  have mine := tieneClave_propia taken.lleva taken.clave taken.espacio (key.take (strlen key))
  rw [take_strlen_iff] at mine
  by_cases found : vectorGet c m key = some 0
  · have filled : value.length ≠ 0 := by
      intro zero
      rw [search, if_pos zero] at found
      cases found
    have clean : (0 : UInt8) ∉ key := by
      rw [search, if_neg filled] at found
      exact mine.mp (by by_contra other; simp [other] at found)
    have freed := eliminarParticion_some (m := m) (vectorGet_some found).1
    have rest : ∀ k, k ≠ 0 →
        ((eliminarParticion c m (some 0)).1.keyVector k).dataSize = 0 := by
      intro k other
      rw [freed]
      simpa [other] using taken.resto k (by omega)
    obtain ⟨m₁, joins, rfl⟩ := dummyNgItemDelete_ordenada buddy found
      (fun j => by rintro ⟨-, -, filled⟩; rw [rest (j + 1) (by omega)] at filled; cases filled) runs
    have still := eliminaBuddyLoop_quieta registros (cumple_sola rest (by omega))
      (cumple_sola rest (by omega)) joins
    subst still
    have here : (eliminarParticion c m (some 0)).1.keyVector 0 =
        { m.keyVector 0 with
          dataSize := a64 (value.length + relleno c.cacheSize (value.length % 2 ^ 32))
          libre := true
          stored := false
          dataUnuse := 0 } := by
      rw [freed, Motor.pon_keyVector, if_pos rfl, size, taken.dataUnuse]
    obtain ⟨vector, -⟩ := release_libre (i := 0) (by rw [here] :
      ((eliminarParticion c m (some 0)).1.keyVector 0).libre)
    have data : ((eliminarParticion c m (some 0)).1.keyVector 0).dataSize =
        a64 (value.length + relleno c.cacheSize (value.length % 2 ^ 32)) := by rw [here]
    constructor
    · rintro ⟨k, -, positive, -, -, -, full⟩
      rw [vector] at positive full
      have same : k = 0 := by
        by_contra other
        rw [rest k other] at positive
        cases positive
      rw [same, data] at full
      exact ⟨clean, whole, full⟩
    · rintro ⟨-, -, full⟩
      have alone : Sola c (dummyNgItemRelease (eliminarParticion c m (some 0)).1 0) 0 :=
        ⟨registros, by rw [vector, here], by rw [vector, data, full], vector ▸ rest⟩
      rw [alone.fundida_iff cache, vector, here]
      exact taken.data
  · have missing : vectorGet c m key = none := by
      rw [search] at found ⊢
      split at found
      · rw [if_pos ‹_›]
      · rw [if_neg ‹_›]
        split at found
        · exact absurd rfl found
        · rw [if_neg ‹_›]
    have same := dummyNgItemDelete_nada missing runs
    subst same
    constructor
    · rintro ⟨k, -, positive, -, free, -⟩
      have first : k = 0 := by
        by_contra other
        rw [taken.resto k (by omega)] at positive
        cases positive
      rw [first, taken.lleva.1] at free
      cases free
    · rintro ⟨clean, -, full⟩
      exfalso
      by_cases zero : value.length = 0
      · have narrow := c.cacheSize_lt
        rw [zero] at full
        unfold relleno a64 at full
        simp only [Nat.zero_mod] at full
        rw [if_neg (by omega)] at full
        omega
      · rw [search, if_neg zero, if_pos (mine.mpr clean)] at found
        exact found rfl

/-- The value in the lower half is deleted. -/
theorem Mitades.borra_una (halves : Mitades c m) (buddy : c.esquema = .buddy)
    (cache : 0 < c.cacheSize) (mine : Porta (m.keyVector 0) key) (free : (m.keyVector 1).libre)
    (space : m.keysSpace = escribir mem 0 key)
    (runs : dummyNgItemDelete c fuel m key = some m') : Fundida c m' ↔ (0 : UInt8) ∉ key := by
  have holds := tieneClave_propia mine halves.claves.1 space (key.take (strlen key))
  rw [take_strlen_iff] at holds
  have search := halves.busca key
  rw [tieneClave_cerrada free] at search
  by_cases clean : (0 : UInt8) ∉ key
  · rw [if_pos (holds.mpr clean)] at search
    obtain ⟨alone, start⟩ := (halves.borra buddy search (by decide) (by decide : 1 < 2) (by decide)
      runs).2 free
    rw [alone.fundida_iff cache, start]
    exact ⟨fun _ => clean, fun _ => halves.data.1⟩
  · rw [if_neg fun held => clean (holds.mp held)] at search
    have same := dummyNgItemDelete_nada (by simpa using search) runs
    subst same
    exact ⟨fun whole => absurd whole (halves.no_fundida cache), fun whole => absurd whole clean⟩

/-- Both values are deleted: the halves are joined at the start of the cache only when the lower
one is found second. -/
theorem Mitades.borra_dos {m₁ : Motor} {fuel₁ : Nat} {x y : List UInt8} (halves : Mitades c m)
    (buddy : c.esquema = .buddy) (cache : 0 < c.cacheSize) (low : (m.keyVector 0).libre = false)
    (high : (m.keyVector 1).libre = false)
    (first : dummyNgItemDelete c fuel m x = some m₁)
    (second : dummyNgItemDelete c fuel₁ m₁ y = some m') :
    Fundida c m' ↔ tieneClave m (x.take (strlen x)) 0 = false ∧
      tieneClave m (x.take (strlen x)) 1 ∧ tieneClave m (y.take (strlen y)) 0 := by
  have wanted := halves.busca x
  by_cases lower : tieneClave m (x.take (strlen x)) 0
  · -- the upper half is left, and is joined away from the start
    rw [if_pos lower] at wanted
    obtain ⟨halves₁, freed, kept, -⟩ :=
      (halves.borra buddy wanted (by decide) (by decide : 1 < 2) (by decide) first).1 high
    have last := halves₁.busca y
    rw [tieneClave_cerrada freed] at last
    refine ⟨fun whole => ?_, fun absent => absurd (lower.symm.trans absent.1) (by decide)⟩
    exfalso
    by_cases upper : tieneClave m₁ (y.take (strlen y)) 1
    · obtain ⟨alone, start⟩ := (halves₁.borra buddy (by simpa [upper] using last) (by decide)
        (by decide : 0 < 2) (by decide) second).2 freed
      have place := (alone.fundida_iff cache).mp whole
      have offset := halves₁.data.2
      omega
    · have same := dummyNgItemDelete_nada (by simpa [upper] using last) second
      subst same
      exact halves₁.no_fundida cache whole
  rw [if_neg lower] at wanted
  have absent : tieneClave m (x.take (strlen x)) 0 = false := by simpa using lower
  by_cases upper : tieneClave m (x.take (strlen x)) 1
  · rw [if_pos upper] at wanted
    obtain ⟨halves₁, freed, kept, space⟩ :=
      (halves.borra buddy wanted (by decide) (by decide : 0 < 2) (by decide) first).1 low
    have last := halves₁.busca y
    have held : tieneClave m₁ (y.take (strlen y)) 0 = tieneClave m (y.take (strlen y)) 0 := by
      unfold tieneClave
      rw [kept, space]
    rw [tieneClave_cerrada freed, held] at last
    by_cases found : tieneClave m (y.take (strlen y)) 0
    · obtain ⟨alone, start⟩ := (halves₁.borra buddy (by simpa [found] using last) (by decide)
        (by decide : 1 < 2) (by decide) second).2 freed
      rw [alone.fundida_iff cache, start]
      exact ⟨fun _ => ⟨absent, upper, found⟩, fun _ => halves₁.data.1⟩
    · have same := dummyNgItemDelete_nada (by simpa [found] using last) second
      subst same
      exact ⟨fun whole => absurd whole (halves₁.no_fundida cache),
        fun both => absurd both.2.2 found⟩
  · -- nothing is deleted by the first call, and at most one half by the second one
    rw [if_neg upper] at wanted
    have same := dummyNgItemDelete_nada wanted first
    subst same
    refine ⟨fun whole => ?_, fun both => absurd both.2.1 upper⟩
    exfalso
    have last := halves.busca y
    by_cases found : tieneClave m₁ (y.take (strlen y)) 0
    · rw [if_pos found] at last
      exact ((halves.borra buddy last (by decide) (by decide : 1 < 2) (by decide) second).1
        high).1.no_fundida cache whole
    · rw [if_neg found] at last
      by_cases other : tieneClave m₁ (y.take (strlen y)) 1
      · rw [if_pos other] at last
        exact ((halves.borra buddy last (by decide) (by decide : 0 < 2) (by decide) second).1
          low).1.no_fundida cache whole
      · rw [if_neg other] at last
        have same := dummyNgItemDelete_nada last second
        subst same
        exact halves.no_fundida cache whole

/-- The two keys are found where the deletions in reverse order need them. -/
theorem Mitades.orden {key₁ key₂ x y : List UInt8} (halves : Mitades c m)
    (mine : Porta (m.keyVector 0) key₁) (other : Porta (m.keyVector 1) key₂)
    (space : m.keysSpace = escribir (escribir mem 0 key₁) (aInt8 c.maxKey) key₂)
    (different : key₁ ≠ key₂) (pair : x = key₁ ∧ y = key₂ ∨ x = key₂ ∧ y = key₁) :
    tieneClave m (x.take (strlen x)) 0 = false ∧ tieneClave m (x.take (strlen x)) 1 ∧
        tieneClave m (y.take (strlen y)) 0 ↔
      [x, y] = [key₂, key₁] ∧ (0 : UInt8) ∉ key₁ ∧ (0 : UInt8) ∉ key₂ ∧
        Sobrevive c key₁ key₂ := by
  have low := fun q => tieneClave_lleva mine halves.claves.1 q
  have high := fun q => tieneClave_propia other halves.claves.2 space q
  have survives := sobrevive_iff (c := c) key₁ key₂ mem
  rw [← space] at survives
  rcases pair with ⟨rfl, rfl⟩ | ⟨rfl, rfl⟩
  · -- in this order the second key would have to be a part of the first one, of the same length
    constructor
    · rintro ⟨-, upper, lower⟩
      have part := (high _).mp upper
      have length := ((low _).mp lower).1
      exfalso
      have short : (y.take (strlen y)).length ≤ y.length := by simp
      have less : (x.take (strlen x)).length ≤ x.length := by simp
      rw [part] at less
      have whole : (x.take (strlen x)).length = x.length := by
        rw [part]
        omega
      have clean := length_take_strlen_iff.mp whole
      rw [take_strlen clean] at part
      exact different part
    · rintro ⟨order, -⟩
      simp only [List.cons.injEq] at order
      exact absurd order.1 different
  · constructor
    · rintro ⟨-, upper, lower⟩
      have clean := take_strlen_iff.mp ((high _).mp upper)
      obtain ⟨length, bytes⟩ := (low _).mp lower
      have clean₁ := length_take_strlen_iff.mp length.symm
      rw [take_strlen clean₁] at bytes
      exact ⟨rfl, clean₁, clean, survives.mpr bytes⟩
    · rintro ⟨-, clean₁, clean, kept⟩
      have bytes := survives.mp kept
      rw [take_strlen clean₁, take_strlen clean]
      refine ⟨?_, (high _).mpr rfl, (low _).mpr ⟨rfl, bytes⟩⟩
      by_contra found
      obtain ⟨length, mixed⟩ := (low _).mp (by simpa using found)
      rw [← length, bytes] at mixed
      exact different mixed

/-- The deletions of all the keys, in any order, make the cache one free block again exactly in
the cases of `SeFunde`. -/
theorem Etapa.borra {l : List (List UInt8 × List UInt8)} {dels : List (List UInt8)}
    (stage : Etapa c mem l m) (buddy : c.esquema = .buddy) (positive : 0 < c.cacheSize)
    (distinct : (l.map Prod.fst).Nodup) (all : dels.Perm (l.map Prod.fst))
    (deletes : Borran c m dels m') : Fundida c m' ↔ SeFunde c l dels := by
  cases stage with
  | fresca _ fresh =>
    obtain rfl : dels = [] := by simpa using all
    cases deletes
    have alone : Sola c m 0 := ⟨fresh.registros, fresh.libre, fresh.dataSize, fun k other =>
      fresh.resto k (by omega)⟩
    exact ⟨fun _ => trivial, fun _ => (alone.fundida_iff positive).mpr fresh.data⟩
  | entera _ key value whole taken =>
    obtain rfl : dels = [key] := by simpa using all
    obtain ⟨fuel, runs⟩ := deletes.uno
    rw [taken.borra buddy positive whole runs]
    refine and_congr_right fun _ => ⟨Or.inl, fun cases => ?_⟩
    rcases cases with full | half
    · exact full
    · exact absurd half.1 whole
  | una _ key value half halves mine free space =>
    obtain rfl : dels = [key] := by simpa using all
    obtain ⟨fuel, runs⟩ := deletes.uno
    rw [halves.borra_una buddy positive mine free space runs]
    exact ⟨fun clean => ⟨clean, Or.inr half⟩, fun both => both.1⟩
  | dos _ key₁ value₁ key₂ value₂ half₁ half₂ halves mine other space =>
    have different : key₁ ≠ key₂ := by simpa using distinct
    obtain ⟨x, y, rfl, pair⟩ : ∃ x y, dels = [x, y] ∧
        (x = key₁ ∧ y = key₂ ∨ x = key₂ ∧ y = key₁) := by
      obtain ⟨x, y, rfl⟩ := List.length_eq_two.mp all.length_eq
      have first : x = key₁ ∨ x = key₂ := by simpa using all.subset List.mem_cons_self
      have second : y = key₁ ∨ y = key₂ := by simpa using all.subset (by simp : y ∈ [x, y])
      have apart : x ≠ y := by simpa using all.nodup_iff.mpr distinct
      refine ⟨x, y, rfl, ?_⟩
      rcases first with rfl | rfl
      · exact Or.inl ⟨rfl, second.resolve_left (Ne.symm apart)⟩
      · exact Or.inr ⟨rfl, second.resolve_right (Ne.symm apart)⟩
    obtain ⟨fuel, m₁, fuel₁, first, second⟩ := deletes.dos
    rw [halves.borra_dos buddy positive mine.1 other.1 first second,
      halves.orden mine other space different pair]
    constructor
    · rintro ⟨order, clean₁, clean₂, kept⟩
      exact ⟨order, clean₁, clean₂, kept, half₁, half₂⟩
    · rintro ⟨order, clean₁, clean₂, kept, -⟩
      exact ⟨order, clean₁, clean₂, kept⟩
  | dispar _ _ odd apart =>
    have broken := deletes.rota buddy odd.rota
    exact ⟨fun whole => absurd whole broken.no_fundida, fun joins => absurd joins (apart dels)⟩

/-- A search that reaches a block makes no room. -/
theorem AlcanzaBuddy.callada {espacio : Nat} (reaches : AlcanzaBuddy c m espacio) {fuel : Nat}
    {t : EstadoBuddy}
    (visited : Visits (turnoBuddy c fuel espacio) (m, 0, c.cantRegistros, false) t) :
    ¬HaceLugarBuddy c espacio t :=
  reaches.quieto (recorreBuddy_visita visited fun _ _ scans => reaches.quieto scans)

/-- From a fresh engine with a cache of a power of two, after sets of distinct keys that fit, the
deletions of all the keys come to an end, and they make the cache one free block again exactly in
the cases of `SeFunde`. -/
theorem borrado_funde_iff {a : Nat} {espacio cache : Memoria} {m₀ : Motor}
    {l : List (List UInt8 × List UInt8)} {dels : List (List UInt8)} (buddy : c.esquema = .buddy)
    (power : c.cacheSize = 2 ^ a) (starts : dummyNgInitialize c espacio cache = some m₀)
    (sets : Guardan c m₀ l m) (distinct : (l.map Prod.fst).Nodup)
    (all : dels.Perm (l.map Prod.fst)) :
    (∃ m', Borran c m dels m') ∧ ∀ m', Borran c m dels m' → (Fundida c m' ↔ SeFunde c l dels) := by
  have fresh := inicio_fresca starts
  obtain ⟨registros, minima, -⟩ := dummyNgInitialize_some starts
  have positive : 0 < c.cacheSize := power ▸ Nat.two_pow_pos a
  have stage := sets.etapa buddy power minima (.fresca m₀ fresh)
  rw [List.nil_append] at stage
  exact ⟨borran_terminan registros stage.tabla dels, fun m' deletes =>
    stage.borra buddy positive distinct all deletes⟩

/-- Two values of twenty bytes, one in each half of the cache, deleted from the last one on. -/
theorem borrado_funde_dos :
    ∃ m₀ m m', dummyNgInitialize buddyDe64 (fun _ => 0) (fun _ => 0) = some m₀ ∧
      Guardan buddyDe64 m₀ [([1], List.replicate 20 0), ([2], List.replicate 20 0)] m ∧
      Borran buddyDe64 m [[2], [1]] m' ∧ Fundida buddyDe64 m' := by
  obtain ⟨m₀, start⟩ : ∃ m₀, dummyNgInitialize buddyDe64 (fun _ => 0) (fun _ => 0) = some m₀ :=
    ⟨_, rfl⟩
  have empty : Entra buddyDe64 9 m₀ [1] (List.replicate 20 0) := by
    cases start
    refine ⟨fun i found => ?_, ⟨_, _, rfl, by decide, by decide⟩, fun t visited => ?_⟩
    · cases found
    · refine AlcanzaBuddy.callada ⟨0, ⟨by decide, fun l upto => ?_⟩,
        Or.inr ⟨⟨by decide, fun l upto => ?_⟩, ⟨by decide, by decide⟩, fun k before _ => ?_⟩,
        1, by decide, .mas 64 0 (by decide) (.fin 32 (by decide))⟩ visited
      · rw [Nat.le_zero.mp upto]
        decide
      · rw [Nat.le_zero.mp upto]
        decide
      · have zero : k = 0 := by
          by_contra later
          exact before.2 1 (by omega) rfl
        rw [zero]
  obtain ⟨m₁, set₁⟩ : ∃ m₁, completarSet buddyDe64 9 m₀ [1] (List.replicate 20 0) ⟨1, 0⟩ =
      some (m₁, true) := by
    cases start
    exact ⟨_, rfl⟩
  have half : Entra buddyDe64 9 m₁ [2] (List.replicate 20 0) := by
    cases start
    cases set₁
    refine ⟨fun i found => ?_, ⟨_, _, rfl, by decide, by decide⟩, fun t visited => ?_⟩
    · cases found
    · refine AlcanzaBuddy.callada ⟨1, ⟨by decide, by decide⟩, Or.inr ⟨⟨by decide, by decide⟩,
        ⟨by decide, by decide⟩, fun k before serves => ?_⟩, 0, by decide,
        .fin 32 (by decide)⟩ visited
      obtain rfl : k = 1 := by
        rcases k with _ | _ | k
        · exact absurd serves.1 (by decide)
        · rfl
        · exact absurd rfl (before.2 2 (by omega))
      exact le_rfl
  obtain ⟨m, set₂⟩ : ∃ m, completarSet buddyDe64 9 m₁ [2] (List.replicate 20 0) ⟨2, 0⟩ =
      some (m, true) := by
    cases start
    cases set₁
    exact ⟨_, rfl⟩
  have sets : Guardan buddyDe64 m₀ [([1], List.replicate 20 0), ([2], List.replicate 20 0)] m :=
    .mas 9 m₀ m₁ m [1] _ ⟨1, 0⟩ _ empty set₁ (.mas 9 m₁ m m [2] _ ⟨2, 0⟩ _ half set₂ (.fin m))
  obtain ⟨⟨m', deletes⟩, joins⟩ :=
    borrado_funde_iff (a := 6) rfl rfl start sets (by decide) (List.Perm.swap [1] [2] [])
  exact ⟨m₀, m, m', start, sets, deletes, (joins m' deletes).mpr
    ⟨rfl, by decide, by decide, rfl, by decide, by decide⟩⟩

end LosAltos.Rc
