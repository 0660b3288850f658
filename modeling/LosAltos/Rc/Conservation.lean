import LosAltos.Rc.Stable
import Mathlib.Algebra.BigOperators.Group.Finset.Basic
import Mathlib.Algebra.Order.BigOperators.Group.Finset

/-!
# Space conservation

The bytes recorded by the table, used or padding, add up to the size of the
cache as long as no step takes one of the branches that forget a remainder.
-/
namespace LosAltos.Rc

open Lib Finset

/-- The bytes an entry accounts for. -/
def peso (e : KeyElement) : Nat := e.dataSize + e.dataUnuse

def pesoTotal (c : Config) (m : Motor) : Nat := ∑ i ∈ range c.cantRegistros, peso (m.keyVector i)

/-- The non-empty entries account for the whole cache. -/
def EspacioConservado (c : Config) (m : Motor) : Prop :=
  ∑ i ∈ (range c.cantRegistros).filter (fun i => 0 < (m.keyVector i).dataSize),
    ((m.keyVector i).dataSize + (m.keyVector i).dataUnuse) = c.cacheSize

/-- Nothing is lost in the empty entries either. -/
structure Reparto (c : Config) (m : Motor) : Prop where
  huecos : ∀ i, i < c.cantRegistros → (m.keyVector i).dataSize = 0 → (m.keyVector i).dataUnuse = 0
  total : pesoTotal c m = c.cacheSize

/-- The branches that account for every byte: a reused slot is filled again, a
cut or a block taken replaces no older padding and leaves its remainder in the
table, a partition taken whole is filled, a half is a half, and the padding of an
entry that is emptied or initialised is zero. -/
def Hecho.Conserva : Hecho → Prop
  | .reusa dataSize nbytes => nbytes = dataSize
  | .parte dataSize espacio diferencia dataUnuse =>
    0 ≤ diferencia ∧ espacio + diferencia ≤ dataSize ∧ dataUnuse = 0
  | .entera dataSize espacio _ _ => espacio = dataSize
  | .divide dataSize prox => 2 * prox = dataSize
  | .cierra _ prox espacio dataUnuse => prox < espacio ∧ dataUnuse = 0
  | .junta _ _ dataUnuse _ => dataUnuse = 0
  | .mueve => True
  | .reinicia dataUnuse => dataUnuse = 0

instance : DecidablePred Hecho.Conserva
  | .reusa .. | .divide .. | .junta .. | .reinicia .. => inferInstanceAs (Decidable (_ = _))
  | .parte .. | .cierra .. => inferInstanceAs (Decidable (_ ∧ _))
  | .entera .. => inferInstanceAs (Decidable (_ = _))
  | .mueve => inferInstanceAs (Decidable True)

/-- The invariant of the loops: nothing is lost, unless a wrong branch was taken. -/
def RepartoSiSano (c : Config) (m : Motor) : Prop :=
  Tabla c m ∧ (m.Todos Hecho.Conserva → Reparto c m)

theorem pesoTotal_pon {c : Config} (m : Motor) {i : Nat} (e : KeyElement)
    (bound : i < c.cantRegistros) :
    pesoTotal c (m.pon i e) + peso (m.keyVector i) = pesoTotal c m + peso e := by
  have member : i ∈ range c.cantRegistros := mem_range.mpr bound
  have rest : ∑ j ∈ (range c.cantRegistros).erase i, peso ((m.pon i e).keyVector j) =
      ∑ j ∈ (range c.cantRegistros).erase i, peso (m.keyVector j) := by
    apply sum_congr rfl
    intro j inside
    simp [ne_of_mem_erase inside]
  have after := add_sum_erase (range c.cantRegistros) (fun j => peso ((m.pon i e).keyVector j)) member
  have before := add_sum_erase (range c.cantRegistros) (fun j => peso (m.keyVector j)) member
  simp only [Motor.pon_keyVector, if_true] at after
  unfold pesoTotal
  simp only [Motor.pon_keyVector] at rest ⊢
  omega

/-- A change of two entries that keeps their joint account. -/
theorem pesoTotal_par {c : Config} {m m' : Motor} {i j : Nat} (first : i < c.cantRegistros)
    (second : j < c.cantRegistros) (different : i ≠ j)
    (others : ∀ k, k ≠ i → k ≠ j → peso (m'.keyVector k) = peso (m.keyVector k))
    (pair : peso (m'.keyVector i) + peso (m'.keyVector j) =
      peso (m.keyVector i) + peso (m.keyVector j)) : pesoTotal c m' = pesoTotal c m := by
  have left := pesoTotal_pon m (m'.keyVector i) first
  have right := pesoTotal_pon (m.pon i (m'.keyVector i)) (m'.keyVector j) second
  have same : pesoTotal c m' = pesoTotal c ((m.pon i (m'.keyVector i)).pon j (m'.keyVector j)) := by
    apply sum_congr rfl
    intro k _
    simp only [Motor.pon_keyVector]
    split
    · rename_i here
      rw [here]
    · split
      · rename_i here
        rw [here]
      · rename_i notJ notI
        exact others k notI notJ
  have other : (m.pon i (m'.keyVector i)).keyVector j = m.keyVector j := by
    simp [Ne.symm different]
  rw [other] at right
  omega

theorem pesoTotal_congr {c : Config} {m m' : Motor}
    (same : ∀ i, i < c.cantRegistros → peso (m'.keyVector i) = peso (m.keyVector i)) :
    pesoTotal c m' = pesoTotal c m :=
  sum_congr rfl fun i member => same i (mem_range.mp member)

theorem Reparto.bound {c : Config} {m : Motor} (kept : Reparto c m) {i : Nat}
    (inside : i < c.cantRegistros) : peso (m.keyVector i) ≤ c.cacheSize := by
  rw [← kept.total]
  exact single_le_sum (f := fun i => peso (m.keyVector i)) (fun _ _ => Nat.zero_le _)
    (mem_range.mpr inside)

theorem Reparto.bound_par {c : Config} {m : Motor} (kept : Reparto c m) {i j : Nat}
    (first : i < c.cantRegistros) (second : j < c.cantRegistros) (different : i ≠ j) :
    peso (m.keyVector i) + peso (m.keyVector j) ≤ c.cacheSize := by
  rw [← kept.total]
  have pair := sum_pair different (f := fun i => peso (m.keyVector i))
  rw [← pair]
  apply sum_le_sum_of_subset
  intro k member
  simp only [mem_insert, mem_singleton] at member
  rcases member with rfl | rfl
  · exact mem_range.mpr first
  · exact mem_range.mpr second

/-- A change of two entries that keeps their joint account and leaves no padding
in an empty one. -/
theorem Reparto.par {c : Config} {m m' : Motor} (kept : Reparto c m) {i j : Nat}
    (first : i < c.cantRegistros) (second : j < c.cantRegistros) (different : i ≠ j)
    (others : ∀ k, k ≠ i → k ≠ j → (m'.keyVector k).sinRotulo = (m.keyVector k).sinRotulo)
    (pair : peso (m'.keyVector i) + peso (m'.keyVector j) =
      peso (m.keyVector i) + peso (m.keyVector j))
    (hueco : ∀ k, k = i ∨ k = j → (m'.keyVector k).dataSize = 0 → (m'.keyVector k).dataUnuse = 0) :
    Reparto c m' := by
  have sizes : ∀ k, k ≠ i → k ≠ j → (m'.keyVector k).dataSize = (m.keyVector k).dataSize :=
    fun k left right => congrArg (·.dataSize) (others k left right)
  have paddings : ∀ k, k ≠ i → k ≠ j → (m'.keyVector k).dataUnuse = (m.keyVector k).dataUnuse :=
    fun k left right => congrArg (·.dataUnuse) (others k left right)
  constructor
  · intro k below empty
    by_cases inside : k = i ∨ k = j
    · exact hueco k inside empty
    · obtain ⟨left, right⟩ := not_or.mp inside
      rw [paddings k left right]
      exact kept.huecos k below (by rw [← sizes k left right]; exact empty)
  · rw [← kept.total]
    refine pesoTotal_par first second different (fun k left right => ?_) pair
    unfold peso
    rw [sizes k left right, paddings k left right]

/-- A change of one entry that keeps its account. -/
theorem Reparto.uno {c : Config} {m m' : Motor} (kept : Reparto c m) {i : Nat}
    (others : ∀ k, k ≠ i → m'.keyVector k = m.keyVector k)
    (same : peso (m'.keyVector i) = peso (m.keyVector i))
    (hueco : i < c.cantRegistros → (m'.keyVector i).dataSize = 0 → (m'.keyVector i).dataUnuse = 0) :
    Reparto c m' := by
  constructor
  · intro k below empty
    by_cases here : k = i
    · subst here
      exact hueco below empty
    · rw [others k here] at empty ⊢
      exact kept.huecos k below empty
  · rw [← kept.total]
    refine pesoTotal_congr fun k _ => ?_
    by_cases here : k = i
    · rw [here, same]
    · rw [others k here]

theorem reparto_inicializa {c : Config} (registros : 0 < c.cantRegistros) (m : Motor)
    (clean : (m.keyVector 0).dataUnuse = 0) : Reparto c (vectorInicializar c m) := by
  have rest : ∀ i, i < c.cantRegistros → i ≠ 0 →
      ((vectorInicializar c m).keyVector i).dataSize = 0 ∧
        ((vectorInicializar c m).keyVector i).dataUnuse = 0 := by
    intro i below positive
    simp [vectorInicializar, positive, below]
  have first : ((vectorInicializar c m).keyVector 0).dataSize = c.cacheSize ∧
      ((vectorInicializar c m).keyVector 0).dataUnuse = 0 := by
    simp [vectorInicializar, clean]
  constructor
  · intro i below _
    by_cases zero : i = 0
    · rw [zero]
      exact first.2
    · exact (rest i below zero).2
  · unfold pesoTotal
    rw [sum_eq_single 0]
    · unfold peso
      omega
    · intro i member positive
      have := rest i (mem_range.mp member) positive
      unfold peso
      omega
    · intro missing
      simp only [mem_range] at missing
      omega

/-- Two entries become one and the emptied one has no padding. -/
theorem reparto_junta {c : Config} {m m' : Motor} {queda hueco : Nat} (kept : Reparto c m)
    (first : queda < c.cantRegistros) (second : hueco < c.cantRegistros) (different : queda ≠ hueco)
    (nonempty : 0 < (m.keyVector queda).dataSize + (m.keyVector hueco).dataSize)
    (clean : (m.keyVector hueco).dataUnuse = 0)
    (size : (m'.keyVector queda).dataSize =
      a64 ((m.keyVector queda).dataSize + (m.keyVector hueco).dataSize))
    (unuse : (m'.keyVector queda).dataUnuse = (m.keyVector queda).dataUnuse)
    (emptied : (m'.keyVector hueco).dataSize = 0 ∧
      (m'.keyVector hueco).dataUnuse = (m.keyVector hueco).dataUnuse)
    (others : ∀ i, i ≠ queda → i ≠ hueco → m'.keyVector i = m.keyVector i) : Reparto c m' := by
  have fits := kept.bound_par first second different
  have limit := c.cacheSize_lt
  unfold peso at fits
  have sum := a64_of_lt (x := (m.keyVector queda).dataSize + (m.keyVector hueco).dataSize)
    (by omega) (by omega)
  refine kept.par first second different (fun k left right => by rw [others k left right]) ?_ ?_
  · unfold peso
    omega
  · intro k here empty
    rcases here with rfl | rfl <;> omega

theorem reparto_estable {c : Config} (registros : 0 < c.cantRegistros) :
    Estable c (RepartoSiSano c) where
  tabla _ holds := holds.1
  posicion m i holds :=
    ⟨(tabla_estable registros).posicion m i holds.1, fun sound =>
      ⟨(holds.2 sound).huecos, (holds.2 sound).total⟩⟩
  elimina m i holds bound busy := by
    refine ⟨(tabla_estable registros).elimina m i holds.1 bound busy, ?_⟩
    simp only [eliminarParticion, Option.getD_some]
    rw [if_pos (by omega)]
    intro sound
    have kept := holds.2 sound
    have fits := kept.bound bound
    have limit := c.cacheSize_lt
    unfold peso at fits
    have sum := a64_of_lt (x := (m.keyVector i).dataSize + (m.keyVector i).dataUnuse)
      (by omega) (by omega)
    refine kept.uno (i := i) (fun k other => by simp [other]) ?_ ?_
    · simp only [peso, Motor.pon_keyVector, if_true]
      omega
    · intro _ _
      simp
  permuta m j holds bound filled := by
    refine ⟨(tabla_estable registros).permuta m j holds.1 bound filled, fun sound => ?_⟩
    have kept := holds.2 sound
    refine kept.par (i := j) (j := j + 1) (by omega) bound (by omega) ?_ ?_ ?_
    · intro k left right
      simp [Motor.permuta, left, right]
    · simp [Motor.permuta, Nat.add_comm]
    · intro k here empty
      rcases here with rfl | rfl
      · simp only [Motor.permuta_keyVector, Equiv.swap_apply_left] at empty ⊢
        exact kept.huecos _ bound empty
      · simp only [Motor.permuta_keyVector, Equiv.swap_apply_right] at empty ⊢
        exact kept.huecos _ (by omega) empty
  junta m actual vecino holds first second different free size := by
    refine ⟨(tabla_estable registros).junta m actual vecino holds.1 first second different free size,
      fun sound => ?_⟩
    obtain ⟨clean, before⟩ := Motor.todos_cons rfl sound
    have kept := juntarlos_actual m different
    have gone := juntarlos_posicion m different
    refine reparto_junta (holds.2 before) first second different (by omega) clean ?_ ?_ ?_ ?_
    · rw [kept]
    · rw [kept]
    · rw [gone]
      exact ⟨rfl, rfl⟩
    · intro i left right
      exact juntarlos_other m left right
  uneAdelante m i holds bound first second size := by
    refine ⟨(tabla_estable registros).uneAdelante m i holds.1 bound first second size,
      fun sound => ?_⟩
    obtain ⟨clean, before⟩ := Motor.todos_cons rfl sound
    have different : i + 1 ≠ i := by omega
    have kept := unir_queda m (m.keyVector i).data (m.keyVector i) (m.keyVector (i + 1)) different
    have gone := unir_hueco m (m.keyVector i).data (m.keyVector i) (m.keyVector (i + 1)) different
    refine reparto_junta (holds.2 before) bound (by omega) different (by omega) clean ?_ ?_ ?_ ?_
    · rw [kept]
    · rw [kept]
    · rw [gone]
      exact ⟨rfl, rfl⟩
    · intro j left right
      exact unir_other m _ _ _ left right
  uneAtras m i holds bound first second size := by
    refine ⟨(tabla_estable registros).uneAtras m i holds.1 bound first second size,
      fun sound => ?_⟩
    obtain ⟨clean, before⟩ := Motor.todos_cons rfl sound
    have different : i ≠ i + 1 := by omega
    have kept := unir_queda m (m.keyVector i).data (m.keyVector i) (m.keyVector (i + 1)) different
    have gone := unir_hueco m (m.keyVector i).data (m.keyVector i) (m.keyVector (i + 1)) different
    refine reparto_junta (holds.2 before) (by omega) bound different (by omega) clean ?_ ?_ ?_ ?_
    · rw [kept]
    · rw [kept]
    · rw [gone]
      exact ⟨rfl, rfl⟩
    · intro j left right
      exact unir_other m _ _ _ left right
  anula m i holds bound free empty := by
    refine ⟨(tabla_estable registros).anula m i holds.1 bound free empty, fun sound => ?_⟩
    have kept := holds.2 sound
    refine kept.uno (i := i) (fun k other => by simp [other]) (by simp [peso]) ?_
    intro _ _
    simpa using kept.huecos i bound empty
  mueve m i holds bound pair := by
    refine ⟨(tabla_estable registros).mueve m i holds.1 bound pair, fun sound => ?_⟩
    have kept := holds.2 (Motor.todos_cons rfl sound).2
    refine kept.par (i := i) (j := i + 1) (by omega) bound (by omega) ?_ ?_ ?_
    · intro k left right
      simp [mover, left, right]
    · simp [mover, peso]
      omega
    · intro k here empty
      rcases here with rfl | rfl
      · simp only [mover, Motor.pon_keyVector] at empty ⊢
        simp only [show ¬(k = k + 1) by omega, if_false, if_true] at empty ⊢
        exact kept.huecos _ bound empty
      · simp only [mover, Motor.pon_keyVector, if_true] at empty ⊢
        exact kept.huecos _ (by omega) empty
  inicializa m holds := by
    refine ⟨(tabla_estable registros).inicializa m holds.1, fun sound => ?_⟩
    obtain ⟨clean, -⟩ := Motor.todos_cons rfl sound
    exact reparto_inicializa registros m clean
  divide m lugares pos prox holds first second different free empty nonempty half slot := by
    refine ⟨(tabla_estable registros).divide m lugares pos prox holds.1 first second different free
      empty nonempty half slot, fun sound => ?_⟩
    obtain ⟨record, -, -⟩ := dividir_resto m lugares pos prox
    obtain ⟨exact, before⟩ := Motor.todos_cons record sound
    have kept := holds.2 before
    have clean := kept.huecos pos second empty
    have lower := dividir_lugares m prox different
    have upper := dividir_posicionn m prox different
    have lowerSize := congrArg (·.dataSize) lower
    have lowerUnuse := congrArg (·.dataUnuse) lower
    have upperSize := congrArg (·.dataSize) upper
    have upperUnuse := congrArg (·.dataUnuse) upper
    simp only [KeyElement.sinRotulo] at lowerSize lowerUnuse upperSize upperUnuse
    simp only [Hecho.Conserva] at exact
    refine kept.par first second different (fun k left right => dividir_other m prox left right)
      ?_ ?_
    · unfold peso
      omega
    · intro k here hollow
      rcases here with rfl | rfl <;> omega

/-- A partition cut, filled and its remainder kept. -/
theorem reparto_corta {c : Config} {m : Motor} {i pos espacio : Nat} {dif : Int} {p : Int}
    {key : List UInt8} {ahora : Tiempo} (kept : Reparto c m) (first : i < c.cantRegistros)
    (second : pos < c.cantRegistros) (empty : (m.keyVector pos).dataSize = 0) (nonempty : 0 < espacio)
    (padding : 0 ≤ dif) (fits : espacio + dif ≤ (m.keyVector i).dataSize)
    (clean : (m.keyVector i).dataUnuse = 0) :
    Reparto c (ocupar (cortar m i pos espacio dif) i p key espacio ahora) := by
  have different : i ≠ pos := by
    rintro rfl
    omega
  have other := Ne.symm different
  have inside := kept.bound first
  have limit := c.cacheSize_lt
  have hollow := kept.huecos pos second empty
  unfold peso at inside
  have pad := a64_of_lt (x := dif) padding (by omega)
  have rest := a64_of_lt (x := (m.keyVector i).dataSize - espacio - dif) (by omega) (by omega)
  refine kept.par first second different ?_ ?_ ?_
  · intro k left right
    simp [ocupar, cortar, cargarEnVector, left, right]
  · simp only [peso, ocupar, cortar, cargarEnVector, Motor.pon_keyVector, Motor.anota_keyVector,
      if_true, other, if_false]
    omega
  · intro k here zero
    rcases here with rfl | rfl
    · simp [ocupar] at zero
      omega
    · simpa [ocupar, cortar, cargarEnVector, other] using hollow

theorem hallazgo_reparto {c : Config} {m : Motor} {i nbytes : Nat} {p : Int} {key : List UInt8}
    {ahora : Tiempo} (nonempty : 0 < nbytes) (narrow : nbytes < 2 ^ 32)
    (bound : i < c.cantRegistros) (sound : m.Todos Hecho.Conserva)
    (found : Hallazgo c (RepartoSiSano c) (nbytes % 2 ^ 32) m (some i)) :
    Reparto c (ocupar m i p key nbytes ahora) := by
  rw [Nat.mod_eq_of_lt narrow] at found
  generalize here : some i = it at found
  cases found with
  | nulo => cases here
  | particion m₀ prueba j holds =>
    rcases crearParticion_cases c m₀ prueba j nbytes with same | ⟨pos, free, same⟩ | same
    · simp [same] at here
    · rw [same] at here sound ⊢
      simp only [Option.some.injEq] at here
      subst here
      obtain ⟨⟨padding, fits, clean⟩, before⟩ := Motor.todos_cons rfl sound
      obtain ⟨inside, empty⟩ := buscarPosLibre_some free
      exact reparto_corta (holds.2 before) bound inside empty nonempty padding fits clean
    · rw [same] at here sound ⊢
      simp only [Option.some.injEq] at here
      subst here
      obtain ⟨full, before⟩ := Motor.todos_cons rfl sound
      simp only [Hecho.Conserva] at full
      refine (holds.2 before).uno (i := i) (fun k other => by simp [ocupar, other]) ?_ ?_
      · simp [ocupar, peso, full]
      · intro _ zero
        simp only [ocupar, Motor.pon_keyVector, if_true] at zero
        omega
  | bloque m₀ lugares holds block =>
    simp only [Option.some.injEq] at here
    subst here
    obtain ⟨⟨large, clean⟩, before⟩ := Motor.todos_cons rfl sound
    have kept := holds.2 before
    rcases block with last | ⟨-, -, fits⟩
    · omega
    · have inside := kept.bound bound
      have limit := c.cacheSize_lt
      unfold peso at inside
      have rest := a64_of_lt (x := (m₀.keyVector i).dataSize - nbytes) (by omega) (by omega)
      refine kept.uno (i := i) (fun k other => by simp [ocupar, cerrar, other]) ?_ ?_
      · simp only [ocupar, cerrar, peso, Motor.pon_keyVector, if_true]
        rw [if_pos large]
        omega
      · intro _ zero
        simp only [ocupar, Motor.pon_keyVector, if_true] at zero
        omega

/-- A search that ends past the table has changed no account. -/
theorem hallazgo_reparto_fin {c : Config} {m : Motor} {i espacio : Nat} (nonempty : 0 < espacio)
    (outside : c.cantRegistros ≤ i) (sound : m.Todos Hecho.Conserva)
    (found : Hallazgo c (RepartoSiSano c) espacio m (some i)) : Reparto c m := by
  generalize here : some i = it at found
  cases found with
  | nulo => cases here
  | particion m₀ prueba j holds =>
    rcases crearParticion_cases c m₀ prueba j espacio with same | ⟨pos, free, same⟩ | same
    · simp [same] at here
    · rw [same] at here sound
      simp only [Option.some.injEq] at here
      subst here
      obtain ⟨⟨padding, fits, -⟩, -⟩ := Motor.todos_cons rfl sound
      have := (holds.1.fin i outside).1
      omega
    · rw [same] at sound ⊢
      have kept := holds.2 (Motor.todos_cons rfl sound).2
      exact ⟨kept.huecos, kept.total⟩
  | bloque m₀ lugares holds block =>
    simp only [Option.some.injEq] at here
    subst here
    have kept := holds.2 (Motor.todos_cons rfl sound).2
    constructor
    · intro j below empty
      have other : j ≠ i := by omega
      simp only [cerrar, Motor.pon_keyVector, other, if_false] at empty ⊢
      exact kept.huecos j below empty
    · rw [← kept.total]
      refine pesoTotal_congr fun j below => ?_
      have other : j ≠ i := by omega
      simp [cerrar, other]

theorem reparto_atendible {c : Config} (registros : 0 < c.cantRegistros)
    (minima : 0 < c.partMinima) :
    Atendible c (fun n => 0 < n ∧ n < 2 ^ 32) (RepartoSiSano c) where
  toEstable := reparto_estable registros
  minima := minima
  libera m i holds bound busy := by
    refine ⟨holds.1.liberarClave bound, fun sound => ?_⟩
    have kept := holds.2 sound
    refine kept.uno (i := i) (fun k other => by simp [liberarClave, other])
      (by simp [liberarClave, peso]) ?_
    intro _ empty
    simpa [liberarClave] using kept.huecos i bound (by simpa [liberarClave] using empty)
  guarda m i holds bound := by
    refine ⟨holds.1.pon bound (holds.1.claves i bound), fun sound => ?_⟩
    have kept := holds.2 sound
    refine kept.uno (i := i) (fun k other => by simp [dummyNgStore, other])
      (by simp [dummyNgStore, peso]) ?_
    intro _ empty
    simpa [dummyNgStore] using kept.huecos i bound (by simpa [dummyNgStore] using empty)
  suelta m i holds bound := by
    refine ⟨holds.1.pon bound (holds.1.claves i bound), fun sound => ?_⟩
    have kept := holds.2 sound
    refine kept.uno (i := i) (fun k other => by simp [other]) (by simp [peso]) ?_
    intro _ empty
    simpa using kept.huecos i bound (by simpa using empty)
  toca m i ahora holds bound := by
    refine ⟨holds.1.pon bound (holds.1.claves i bound), fun sound => ?_⟩
    have kept := holds.2 sound
    refine kept.uno (i := i) (fun k other => by simp [other]) (by simp [peso]) ?_
    intro _ empty
    simpa using kept.huecos i bound (by simpa using empty)
  reusa m i p key nbytes ahora holds bound busy fits := by
    refine ⟨((holds.1.liberarClave bound).anota _).ocupar bound, fun sound => ?_⟩
    obtain ⟨full, before⟩ := Motor.todos_cons rfl sound
    have kept := holds.2 before
    simp only [Hecho.Conserva] at full
    refine kept.uno (i := i) (fun k other => by simp [ocupar, liberarClave, other]) ?_ ?_
    · simp [ocupar, liberarClave, peso, full]
    · intro _ empty
      simpa [ocupar, liberarClave] using
        kept.huecos i bound (by simpa [ocupar, full] using empty)
  aloja m i p key nbytes ahora found valid bound :=
    ⟨(found.tabla (reparto_estable registros)).ocupar bound,
      fun sound => hallazgo_reparto valid.1 valid.2 bound sound found⟩
  rehusa m i nbytes found valid outside := by
    refine ⟨found.tabla (reparto_estable registros), fun sound => ?_⟩
    exact hallazgo_reparto_fin (by rw [Nat.mod_eq_of_lt valid.2]; exact valid.1) outside sound found

/-- The call asks for a non-empty value of less than 4 GiB and takes no branch
that forgets a remainder. -/
def ConservaLlamada (c : Config) (fuel : Nat) (m : Motor) (l : Llamada) : Prop :=
  l.Pide (fun n => 0 < n ∧ n < 2 ^ 32) ∧ ∀ h ∈ hechosDe c fuel m l, h.Conserva

theorem alcanzable_reparto {c : Config} {m : Motor}
    (reached : Alcanzable c (ConservaLlamada c) m) :
    0 < c.cantRegistros ∧ 0 < c.partMinima ∧ Tabla c m ∧ Reparto c m := by
  induction reached with
  | inicio keysSpace cache m starts =>
    obtain ⟨registros, minima, same⟩ := dummyNgInitialize_some starts
    refine ⟨registros, minima, inicio_tabla starts, ?_⟩
    have kept := reparto_inicializa registros
      { keyVector := fun _ => .nulo, ultimaPosicion := 0, keysSpace, cache, hechos := [] } rfl
    rw [same]
    exact ⟨kept.huecos, kept.total⟩
  | llamada fuel m m' l _ meets runs ih =>
    obtain ⟨registros, minima, table, kept⟩ := ih
    have start : RepartoSiSano c { m with hechos := [] } :=
      ⟨⟨table.claves, table.fin⟩, fun _ => ⟨kept.huecos, kept.total⟩⟩
    obtain ⟨table', kept'⟩ :=
      atender_estable (reparto_atendible registros minima) start meets.1 runs
    refine ⟨registros, minima, table', kept' ?_⟩
    simpa [Motor.Todos, hechosDe, runs] using meets.2

theorem Reparto.conservado {c : Config} {m : Motor} (kept : Reparto c m) :
    EspacioConservado c m := by
  unfold EspacioConservado
  rw [← kept.total]
  apply sum_filter_of_ne
  intro i member nonzero
  by_contra empty
  have := kept.huecos i (mem_range.mp member) (by omega)
  omega

def worstDe64 : Config where
  esquema := .partDinam
  particion := .worst
  victim := .lru
  freq := 1
  maxKey := 40
  cacheSize := 64
  partMinima := 16
  cacheSize_lt := cabe_64

def nextDe16 : Config where
  esquema := .partDinam
  particion := .next
  victim := .fifo
  freq := -1
  maxKey := 40
  cacheSize := 16
  partMinima := 16
  cacheSize_lt := cabe_16

end LosAltos.Rc
