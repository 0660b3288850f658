import LosAltos.Lib.Bubble
import LosAltos.Rc.Disjoint
import LosAltos.Rc.SearchTurns

/-!
# Lookup in the partition table

`vector_get`, `rc/src/vector.c:800-829`, takes the first entry of size 0 for the end of the table.
It sees every key as long as the entries that are not empty come first. Cuts fill the first empty
entry, and evictions, sorts and moves empty none; a join empties an entry, and so does a value of
length 0.
-/
namespace LosAltos.Rc

open Lib

/-- The entries that are not empty come first. -/
def EnPrefijo (c : Config) (m : Motor) : Prop :=
  ∀ i j, i < j → j < c.cantRegistros → 0 < (m.keyVector j).dataSize → 0 < (m.keyVector i).dataSize

instance (c : Config) (m : Motor) : Decidable (EnPrefijo c m) :=
  decidable_of_iff (∀ j < c.cantRegistros, ∀ i < j, 0 < (m.keyVector j).dataSize →
    0 < (m.keyVector i).dataSize)
    ⟨fun all i j before inside => all j inside i before,
      fun all j inside i before => all i j before inside⟩

/-- No empty entry comes before one that is not, and none is occupied. -/
structure Densa (c : Config) (m : Motor) : Prop where
  huecos : EnPrefijo c m
  llenas : ∀ i, i < c.cantRegistros → (m.keyVector i).libre = false → 0 < (m.keyVector i).dataSize

instance (c : Config) (m : Motor) : Decidable (Densa c m) :=
  decidable_of_iff (EnPrefijo c m ∧ ∀ i, i < c.cantRegistros → (m.keyVector i).libre = false →
    0 < (m.keyVector i).dataSize) ⟨fun both => ⟨both.1, both.2⟩, fun h => ⟨h.huecos, h.llenas⟩⟩

/-- `data_size + data_unuse` of an occupied entry is not `2 ^ 64`. -/
def HuellaCabe (c : Config) (m : Motor) : Prop :=
  ∀ i, i < c.cantRegistros → (m.keyVector i).libre = false →
    a64 ((m.keyVector i).dataSize + (m.keyVector i).dataUnuse) ≠ 0

instance (c : Config) (m : Motor) : Decidable (HuellaCabe c m) :=
  inferInstanceAs (Decidable (∀ i, i < c.cantRegistros → _))

/-- The branches that empty no partition and take no empty one. -/
def Hecho.Llena : Hecho → Prop
  | .junta .. => False
  | .parte dataSize .. => 0 < dataSize
  | .entera dataSize .. => 0 < dataSize
  | .cierra dataSize .. => 0 < dataSize
  | _ => True

instance : DecidablePred Hecho.Llena
  | .junta .. => inferInstanceAs (Decidable False)
  | .parte .. | .entera .. | .cierra .. => inferInstanceAs (Decidable (_ < _))
  | .reusa .. | .divide .. | .mueve | .reinicia .. => inferInstanceAs (Decidable True)

def DensaSiSana (c : Config) (m : Motor) : Prop :=
  Tabla c m ∧ (m.Todos Hecho.Llena → Densa c m ∧ HuellaCabe c m)

section Pasos

variable {c : Config} {m m' : Motor}

theorem EnPrefijo.igual (prefixed : EnPrefijo c m)
    (same : ∀ i, i < c.cantRegistros →
      (0 < (m'.keyVector i).dataSize ↔ 0 < (m.keyVector i).dataSize)) : EnPrefijo c m' := by
  intro i j before inside filled
  rw [same j inside] at filled
  rw [same i (by omega)]
  exact prefixed i j before inside filled

theorem buscarPosLibre_primera {pos j : Nat} (found : buscarPosLibre c m = some pos)
    (before : j < pos) : 0 < (m.keyVector j).dataSize := by
  simp only [buscarPosLibre] at found
  split at found
  · cases found
  · simp only [Option.some.injEq] at found
    have passed := avanza_pasa (fun i => (m.keyVector i).dataSize != 0) c.cantRegistros
      c.cantRegistros 0 (Nat.zero_le j) (by omega)
    have : (m.keyVector j).dataSize ≠ 0 := by simpa using passed
    omega

/-- The first empty entry may be filled. -/
theorem EnPrefijo.llena (prefixed : EnPrefijo c m) {pos : Nat}
    (found : buscarPosLibre c m = some pos)
    (same : ∀ i, i < c.cantRegistros → i ≠ pos →
      (0 < (m'.keyVector i).dataSize ↔ 0 < (m.keyVector i).dataSize)) : EnPrefijo c m' := by
  intro i j before inside filled
  have empty := (buscarPosLibre_some found).2
  rcases Nat.lt_or_ge i pos with early | late
  · rw [same i (by omega) (by omega)]
    exact buscarPosLibre_primera found early
  · rw [same j inside (by omega)] at filled
    have := prefixed pos j (by omega) inside filled
    omega

/-- An entry changes and keeps its size, or is freed with its padding. -/
theorem Densa.pon (compact : Densa c m) {i : Nat} {e : KeyElement}
    (size : 0 < e.dataSize ↔ 0 < (m.keyVector i).dataSize)
    (busy : e.libre = false → 0 < e.dataSize) : Densa c (m.pon i e) := by
  constructor
  · refine compact.huecos.igual fun k _ => ?_
    rw [Motor.pon_keyVector]
    split
    · rename_i same
      rw [size, same]
    · rfl
  · intro k inside
    rw [Motor.pon_keyVector]
    split
    · exact busy
    · exact compact.llenas k inside

theorem HuellaCabe.pon (sound : HuellaCabe c m) {i : Nat} {e : KeyElement}
    (freed : e.libre = false → (m.keyVector i).libre = false ∧
      e.dataSize = (m.keyVector i).dataSize ∧ e.dataUnuse = (m.keyVector i).dataUnuse) :
    HuellaCabe c (m.pon i e) := by
  intro k inside
  rw [Motor.pon_keyVector]
  split
  · rename_i same
    intro busy
    obtain ⟨was, size, unuse⟩ := freed busy
    rw [size, unuse]
    rw [same] at inside
    exact sound i inside was
  · exact sound k inside

theorem compacta_elimina (holds : Densa c m ∧ HuellaCabe c m) {i : Nat}
    (bound : i < c.cantRegistros) (busy : (m.keyVector i).libre = false) :
    Densa c (eliminarParticion c m (some i)).1 ∧
      HuellaCabe c (eliminarParticion c m (some i)).1 := by
  simp only [eliminarParticion, Option.getD_some]
  rw [if_pos (by omega)]
  have filled := holds.1.llenas i bound busy
  have size := holds.2 i bound busy
  constructor
  · refine holds.1.pon ?_ fun busy => by cases busy
    simp only [filled, iff_true]
    omega
  · exact holds.2.pon fun busy => by cases busy

theorem compacta_permuta (holds : Densa c m ∧ HuellaCabe c m) {j : Nat}
    (bound : j + 1 < c.cantRegistros)
    (filled : 0 < (m.keyVector j).dataSize ∧ 0 < (m.keyVector (j + 1)).dataSize) :
    Densa c (m.permuta j (j + 1)) ∧ HuellaCabe c (m.permuta j (j + 1)) := by
  have range : ∀ k, k < c.cantRegistros → Equiv.swap j (j + 1) k < c.cantRegistros :=
    fun k inside => Sorter.swap_lt (by omega) inside
  refine ⟨⟨holds.1.huecos.igual fun k _ => ?_, fun k inside busy => ?_⟩, fun k inside busy => ?_⟩
  · rw [Motor.permuta_keyVector, Equiv.swap_apply_def]
    split
    · rename_i first
      simp [first, filled]
    · split
      · rename_i second
        simp [second, filled]
      · rfl
  · rw [Motor.permuta_keyVector] at busy ⊢
    exact holds.1.llenas _ (range k inside) busy
  · rw [Motor.permuta_keyVector] at busy ⊢
    exact holds.2 _ (range k inside) busy

theorem compacta_mueve (holds : Densa c m ∧ HuellaCabe c m) {i : Nat}
    (bound : i + 1 < c.cantRegistros)
    (pair : ((m.keyVector i).libre ∧ 0 < (m.keyVector i).dataSize) ∧
      (m.keyVector (i + 1)).libre = false) :
    Densa c (mover m i) ∧ HuellaCabe c (mover m i) := by
  have filled := holds.1.llenas (i + 1) bound pair.2
  have lower : (mover m i).keyVector i = m.keyVector (i + 1) := by simp [mover]
  have free : ((mover m i).keyVector (i + 1)).libre = true := by simp [mover]
  have size : ((mover m i).keyVector (i + 1)).dataSize = (m.keyVector i).dataSize := by simp [mover]
  have other : ∀ k, k ≠ i → k ≠ i + 1 → (mover m i).keyVector k = m.keyVector k := by
    intro k first second
    simp [mover, first, second]
  refine ⟨⟨holds.1.huecos.igual fun k _ => ?_, fun k inside busy => ?_⟩, fun k inside busy => ?_⟩
  · by_cases first : k = i
    · rw [first, lower]
      exact ⟨fun _ => pair.1.2, fun _ => filled⟩
    · by_cases second : k = i + 1
      · rw [second, size]
        exact ⟨fun _ => filled, fun _ => pair.1.2⟩
      · rw [other k first second]
  · by_cases first : k = i
    · rw [first, lower]
      exact filled
    · by_cases second : k = i + 1
      · rw [second, free] at busy
        cases busy
      · rw [other k first second] at busy ⊢
        exact holds.1.llenas k inside busy
  · by_cases first : k = i
    · rw [first, lower]
      exact holds.2 (i + 1) bound pair.2
    · by_cases second : k = i + 1
      · rw [second, free] at busy
        cases busy
      · rw [other k first second] at busy ⊢
        exact holds.2 k inside busy

/-- With every entry free and only the first one not empty. -/
theorem compacta_inicializa (m : Motor) :
    Densa c (vectorInicializar c m) ∧ HuellaCabe c (vectorInicializar c m) := by
  have free : ∀ k, k < c.cantRegistros → ((vectorInicializar c m).keyVector k).libre = true := by
    intro k inside
    by_cases zero : k = 0
    · simp [vectorInicializar, zero]
    · simp [vectorInicializar, zero, inside]
  refine ⟨⟨fun i j before inside filled => ?_, fun k inside busy => ?_⟩, fun k inside busy => ?_⟩
  · have zero : j ≠ 0 := by omega
    simp [vectorInicializar, zero, inside] at filled
  · rw [free k inside] at busy
    cases busy
  · rw [free k inside] at busy
    cases busy

theorem compacta_divide (holds : Densa c m ∧ HuellaCabe c m) {lugares pos prox : Nat}
    (different : lugares ≠ pos) (free : (m.keyVector lugares).libre) (positive : 0 < prox)
    (half : 2 * prox ≤ (m.keyVector lugares).dataSize) (slot : buscarPosLibre c m = some pos) :
    Densa c (dividir m lugares pos prox) ∧ HuellaCabe c (dividir m lugares pos prox) := by
  have lower := dividir_lugares m prox different
  have upper := dividir_posicionn m prox different
  have other : ∀ k, k ≠ lugares → k ≠ pos →
      ((dividir m lugares pos prox).keyVector k).sinRotulo = (m.keyVector k).sinRotulo :=
    fun k => dividir_other m prox
  have size : ((dividir m lugares pos prox).keyVector lugares).dataSize = prox :=
    congrArg (·.dataSize) lower
  have kept : ∀ k, ((dividir m lugares pos prox).keyVector k).libre = false →
      k ≠ lugares ∧ k ≠ pos := by
    intro k busy
    constructor
    · rintro rfl
      have := (congrArg (·.libre) lower).trans free
      exact absurd (busy.symm.trans this) (by decide)
    · rintro rfl
      have : ((dividir m lugares k prox).keyVector k).libre = true := congrArg (·.libre) upper
      rw [this] at busy
      cases busy
  refine ⟨⟨holds.1.huecos.llena slot fun k _ fresh => ?_, fun k inside busy => ?_⟩,
    fun k inside busy => ?_⟩
  · by_cases first : k = lugares
    · rw [first, size]
      omega
    · have same := congrArg (·.dataSize) (other k first fresh)
      exact iff_of_eq (congrArg (0 < ·) same)
  · obtain ⟨first, second⟩ := kept k busy
    have same := other k first second
    have was : (m.keyVector k).libre = false := (congrArg (·.libre) same).symm.trans busy
    exact (holds.1.llenas k inside was).trans_eq (congrArg (·.dataSize) same).symm
  · obtain ⟨first, second⟩ := kept k busy
    have same := other k first second
    have was : (m.keyVector k).libre = false := (congrArg (·.libre) same).symm.trans busy
    have sum := holds.2 k inside was
    have sizes : ((dividir m lugares pos prox).keyVector k).dataSize = (m.keyVector k).dataSize :=
      congrArg (·.dataSize) same
    have padding : ((dividir m lugares pos prox).keyVector k).dataUnuse =
        (m.keyVector k).dataUnuse := congrArg (·.dataUnuse) same
    rwa [sizes, padding]

theorem compacta_estable (registros : 0 < c.cantRegistros) : Estable c (DensaSiSana c) where
  tabla _ holds := holds.1
  posicion m i holds := ⟨(tabla_estable registros).posicion m i holds.1, fun sound =>
    ⟨⟨(holds.2 sound).1.huecos, (holds.2 sound).1.llenas⟩, (holds.2 sound).2⟩⟩
  elimina m i holds bound busy := by
    refine ⟨(tabla_estable registros).elimina m i holds.1 bound busy, fun sound => ?_⟩
    refine compacta_elimina (holds.2 ?_) bound busy
    simpa [Motor.Todos, eliminarParticion, apply_ite] using sound
  permuta m j holds bound filled :=
    ⟨(tabla_estable registros).permuta m j holds.1 bound filled,
      fun sound => compacta_permuta (holds.2 sound) bound filled⟩
  junta m actual vecino holds first second different free size :=
    ⟨(tabla_estable registros).junta m actual vecino holds.1 first second different free size,
      fun sound => absurd (Motor.todos_cons rfl sound).1 id⟩
  uneAdelante m i holds bound first second size :=
    ⟨(tabla_estable registros).uneAdelante m i holds.1 bound first second size,
      fun sound => absurd (Motor.todos_cons rfl sound).1 id⟩
  uneAtras m i holds bound first second size :=
    ⟨(tabla_estable registros).uneAtras m i holds.1 bound first second size,
      fun sound => absurd (Motor.todos_cons rfl sound).1 id⟩
  anula m i holds bound free empty := by
    refine ⟨(tabla_estable registros).anula m i holds.1 bound free empty, fun sound => ?_⟩
    obtain ⟨compact, sums⟩ := holds.2 sound
    refine ⟨compact.pon Iff.rfl fun busy => ?_, sums.pon fun busy => ⟨busy, rfl, rfl⟩⟩
    exact compact.llenas i bound busy
  mueve m i holds bound pair :=
    ⟨(tabla_estable registros).mueve m i holds.1 bound pair, fun sound =>
      compacta_mueve (holds.2 (Motor.todos_cons rfl sound).2) bound pair⟩
  inicializa m holds :=
    ⟨(tabla_estable registros).inicializa m holds.1, fun _ => compacta_inicializa m⟩
  divide m lugares pos prox holds first second different free empty nonempty half slot := by
    refine ⟨(tabla_estable registros).divide m lugares pos prox holds.1 first second different free
      empty nonempty half slot, fun sound => ?_⟩
    obtain ⟨record, -, -⟩ := dividir_resto m lugares pos prox
    exact compacta_divide (holds.2 (Motor.todos_cons record sound).2) different free nonempty half
      slot

end Pasos

/-! ### The calls -/

section Llamadas

variable {c : Config} {m m' : Motor}

/-- The entry a search takes is not empty. -/
theorem Hallazgo.compacta {espacio : Nat} {it : Option Nat}
    (found : Hallazgo c (DensaSiSana c) espacio m it) (sound : m.Todos Hecho.Llena) :
    Densa c m ∧ ∀ i, it = some i → 0 < (m.keyVector i).dataSize := by
  cases found with
  | nulo _ holds => exact ⟨(holds.2 sound).1, nofun⟩
  | particion m₀ prueba i holds =>
    rcases crearParticion_cases c m₀ prueba i espacio with same | ⟨pos, slot, same⟩ | same
    · rw [same] at sound ⊢
      exact ⟨(holds.2 sound).1, nofun⟩
    · rw [same] at sound ⊢
      obtain ⟨filled, before⟩ := Motor.todos_cons rfl sound
      have compact := (holds.2 before).1
      have empty := (buscarPosLibre_some slot).2
      have filled : 0 < (m₀.keyVector i).dataSize := filled
      have other : ∀ k, k ≠ pos →
          ((cortar m₀ i pos espacio (diferencia c espacio)).keyVector k).dataSize =
            (m₀.keyVector k).dataSize := by
        intro k fresh
        rw [cortar_other m₀ espacio _ fresh]
      refine ⟨⟨compact.huecos.llena slot fun k _ fresh => by rw [other k fresh],
        fun k inside busy => ?_⟩, fun k chosen => ?_⟩
      · have fresh : k ≠ pos := by
          rintro rfl
          rw [(cortar_pos m₀ i k espacio (diferencia c espacio)).2] at busy
          cases busy
        rw [cortar_other m₀ espacio _ fresh] at busy
        rw [other k fresh]
        exact compact.llenas k inside busy
      · simp only [Option.some.injEq] at chosen
        subst chosen
        rw [other i (by rintro rfl; omega)]
        exact filled
    · rw [same] at sound ⊢
      obtain ⟨filled, before⟩ := Motor.todos_cons rfl sound
      obtain ⟨compact, -⟩ := holds.2 before
      refine ⟨⟨compact.huecos, compact.llenas⟩, fun k chosen => ?_⟩
      simp only [Option.some.injEq] at chosen
      rw [← chosen]
      exact filled
  | bloque m₀ lugares holds _ =>
    obtain ⟨filled, before⟩ := Motor.todos_cons rfl sound
    have compact := (holds.2 before).1
    have filled : 0 < (m₀.keyVector lugares).dataSize := filled
    refine ⟨Densa.pon (m := m₀.anota _) ⟨compact.huecos, compact.llenas⟩ Iff.rfl fun _ => filled,
      fun k chosen => ?_⟩
    simp only [Option.some.injEq] at chosen
    rw [← chosen]
    simpa [cerrar] using filled

theorem Densa.ocupar (compact : Densa c m) {i nbytes : Nat} {p : Int} {key : List UInt8}
    {ahora : Tiempo} (filled : 0 < (m.keyVector i).dataSize) (positive : 0 < nbytes) :
    Densa c (ocupar m i p key nbytes ahora) := by
  have taken : Densa c (m.pon i
      { m.keyVector i with
        nkey := key.length
        dataSize := nbytes
        stored := false
        libre := false
        tp := ahora }) := by
    refine compact.pon ?_ fun _ => positive
    simp [filled, positive]
  exact ⟨taken.huecos, taken.llenas⟩

theorem DensaSiSana.pon (holds : DensaSiSana c m) {i : Nat} {e : KeyElement}
    (bound : i < c.cantRegistros) (key : e.key = (m.keyVector i).key)
    (size : e.dataSize = (m.keyVector i).dataSize)
    (unuse : e.dataUnuse = (m.keyVector i).dataUnuse)
    (busy : e.libre = false → (m.keyVector i).libre = false) : DensaSiSana c (m.pon i e) := by
  refine ⟨holds.1.pon bound (by rw [key]; exact holds.1.claves i bound), fun sound => ?_⟩
  obtain ⟨compact, sums⟩ := holds.2 sound
  refine ⟨compact.pon (by rw [size]) fun taken => ?_,
    sums.pon fun taken => ⟨busy taken, size, unuse⟩⟩
  rw [size]
  exact compact.llenas i bound (busy taken)

theorem dummyNgAllocate_compacta (registros : 0 < c.cantRegistros) (minima : 0 < c.partMinima)
    {fuel nbytes : Nat} {key : List UInt8} {ahora : Tiempo} {r : Respuesta}
    (holds : DensaSiSana c m) (positive : 0 < nbytes)
    (runs : dummyNgAllocate c fuel m key nbytes ahora = some (m', r))
    (sound : m'.Todos Hecho.Llena) : Densa c m' := by
  have stable := compacta_estable registros
  have free : ∀ i, i < c.cantRegistros → DensaSiSana c (liberarClave m i) :=
    fun i bound => holds.pon bound rfl rfl rfl nofun
  have freed : DensaSiSana c (desalojar c m key) := by
    unfold desalojar
    split
    · rename_i j found
      exact free _ (vectorGet_some found).1
    · exact holds
  rcases dummyNgAllocate_cases stable minima freed runs with ⟨-, same, -⟩ |
    ⟨j, found, fits, ends⟩ | ⟨m₁, it, search, ends⟩
  · rw [same] at sound ⊢
    exact (holds.2 sound).1
  · obtain ⟨bound, mine⟩ := vectorGet_some found
    have table := (free _ bound).1.anota (.reusa (m.keyVector (j + 1)).dataSize nbytes)
    rcases asignar_cases table ends with ⟨none, -, -⟩ | ⟨i, same, outside, -⟩ |
      ⟨i, p, same, -, -, last, -⟩
    · cases none
    · simp only [Option.some.injEq] at same
      omega
    · simp only [Option.some.injEq] at same
      rw [last] at sound ⊢
      obtain ⟨-, before⟩ := Motor.todos_cons (m := ocupar _ i p key nbytes ahora) rfl sound
      obtain ⟨compact, -⟩ := (free _ bound).2 before
      have filled : 0 < (m.keyVector (j + 1)).dataSize := by omega
      refine Densa.ocupar (m := Motor.anota _ _) ⟨compact.huecos, compact.llenas⟩ ?_ positive
      rw [← same]
      simpa [liberarClave] using filled
  · rcases asignar_cases (search.tabla stable) ends with ⟨-, same, -⟩ | ⟨i, -, -, same, -⟩ |
      ⟨i, p, chosen, -, -, last, -⟩
    · rw [same] at sound ⊢
      exact (search.compacta sound).1
    · rw [same] at sound ⊢
      exact (search.compacta sound).1
    · rw [last] at sound ⊢
      obtain ⟨compact, taken⟩ := search.compacta sound
      exact compact.ocupar (taken i chosen) positive

/-- The call asks for no value of length 0, and either takes no branch that empties a partition or
leaves no empty entry before one that is not. -/
def LlamadaDensa (c : Config) (fuel : Nat) (m : Motor) (l : Llamada) : Prop :=
  l.Pide (0 < ·) ∧ HuellaCabe c m ∧
    ((∀ h ∈ hechosDe c fuel m l, h.Llena) ∨
      ∀ m', atender c fuel m l = some m' → Densa c m')

theorem atender_compacta (registros : 0 < c.cantRegistros) (minima : 0 < c.partMinima)
    {fuel : Nat} {l : Llamada} (table : Tabla c m) (compact : Densa c m)
    (meets : LlamadaDensa c fuel m l) (runs : atender c fuel m l = some m') : Densa c m' := by
  obtain ⟨asks, sums, sound | left⟩ := meets
  · have start : DensaSiSana c { m with hechos := [] } :=
      ⟨⟨table.claves, table.fin⟩, fun _ => ⟨⟨compact.huecos, compact.llenas⟩, sums⟩⟩
    have clean : m'.Todos Hecho.Llena := by simpa [Motor.Todos, hechosDe, runs] using sound
    by_cases allocates : ∃ key nbytes ahora, l = .allocate key nbytes ahora
    · obtain ⟨key, nbytes, ahora, rfl⟩ := allocates
      simp only [atender, Option.map_eq_some_iff] at runs
      obtain ⟨⟨m₁, r⟩, search, ends⟩ := runs
      dsimp only at ends
      subst ends
      exact dummyNgAllocate_compacta registros minima start asks search clean
    · have kept : DensaSiSana c m' :=
        atender_conserva (compacta_estable registros)
          (fun m i holds bound => holds.pon bound rfl rfl rfl id)
          (fun m i holds bound => holds.pon bound rfl rfl rfl fun busy => by cases busy)
          (fun m i ahora holds bound => holds.pon bound rfl rfl rfl id) start
          (fun key nbytes ahora _ same _ => absurd ⟨key, nbytes, ahora, same⟩ allocates) runs
      exact (kept.2 clean).1
  · exact left m' runs

theorem alcanzable_compacta (reached : Alcanzable c (LlamadaDensa c) m) :
    0 < c.cantRegistros ∧ 0 < c.partMinima ∧ Tabla c m ∧ Densa c m := by
  induction reached with
  | inicio keysSpace cache m starts =>
    obtain ⟨registros, minima, same⟩ := dummyNgInitialize_some starts
    refine ⟨registros, minima, inicio_tabla starts, ?_⟩
    rw [same]
    exact ⟨(compacta_inicializa _).1.huecos, (compacta_inicializa _).1.llenas⟩
  | llamada fuel m m' l _ meets runs ih =>
    obtain ⟨registros, minima, table, compact⟩ := ih
    have valid : l.Pide fun _ => True := by cases l <;> trivial
    exact ⟨registros, minima,
      atender_estable (tabla_atendible registros minima) ⟨table.claves, table.fin⟩ valid runs,
      atender_compacta registros minima table compact meets runs⟩

end Llamadas

/-- `vector_get` answers with an occupied entry that holds the key it reads, and with `-1` only if
there is none. -/
structure BuscaCompleta (c : Config) (m : Motor) : Prop where
  halla : ∀ key i, vectorGet c m key = some i →
    i < c.cantRegistros ∧ tieneClave m (key.take (strlen key)) i
  agota : ∀ key, vectorGet c m key = none →
    ∀ j, j < c.cantRegistros → tieneClave m (key.take (strlen key)) j = false

theorem vectorGetLoop_none {c : Config} {m : Motor} {key : List UInt8} (compact : Densa c m)
    (k : Nat) : ∀ {i : Nat}, c.cantRegistros ≤ i + k → vectorGetLoop c m key k i = none →
      ∀ j, i ≤ j → j < c.cantRegistros → tieneClave m key j = false := by
  induction k with
  | zero =>
    intro i fuel _ j low inside
    omega
  | succ k ih =>
    intro i fuel absent j low inside
    simp only [vectorGetLoop] at absent
    rw [if_pos (by omega)] at absent
    split at absent
    · rename_i empty
      -- from the first empty entry on every entry is empty, hence free
      have nothing : (m.keyVector j).dataSize = 0 := by
        by_contra filled
        rcases Nat.eq_or_lt_of_le low with rfl | later
        · exact filled empty
        · have := compact.huecos i j later inside (by omega)
          omega
      have free : (m.keyVector j).libre = true := by
        by_contra busy
        have := compact.llenas j inside (by simpa using busy)
        omega
      simp [tieneClave, free]
    · split at absent
      · cases absent
      · rename_i other
        rcases Nat.eq_or_lt_of_le low with rfl | later
        · simpa using other
        · exact ih (by omega) absent j later inside

end LosAltos.Rc
