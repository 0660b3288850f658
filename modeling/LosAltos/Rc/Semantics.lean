import LosAltos.Rc.Disjoint
import Mathlib.Data.List.TakeWhile

/-!
# Cache semantics

Complete sets, gets, deletes and flushes, one at a time, against the map of the
values last set. Every occupied entry holds the current value of its key as long
as no request duplicates a key or takes a branch that mixes partitions.
-/
namespace LosAltos.Rc

open Lib

/-- The value of the last complete set of each key, unless deleted or flushed since. -/
abbrev Valores := List UInt8 → Option (List UInt8)

inductive Pedido where
  | set (key value : List UInt8) (ahora : Tiempo)
  | get (key : List UInt8) (ahora : Tiempo)
  | delete (key : List UInt8)
  | flush
  deriving DecidableEq, Repr

/-- memcached copies the value to the item before it stores it. -/
def copiar (m : Motor) (i : Nat) (value : List UInt8) : Motor :=
  { m with cache := escribir m.cache (m.keyVector i).data value }

/-- Allocate, copy, store and release; the flag says whether there was an item. -/
def completarSet (c : Config) (fuel : Nat) (m : Motor) (key value : List UInt8) (ahora : Tiempo) :
    Option (Motor × Bool) := do
  let (m, r) ← dummyNgAllocate c fuel m key value.length ahora
  match r with
  | .item i => some (dummyNgItemRelease (dummyNgStore (copiar m i value) i) i, true)
  | _ => some (m, false)

/-- One request, with the ghost record cleared and the map brought up to date. -/
def servir (c : Config) (fuel : Nat) (m : Motor) (vals : Valores) :
    Pedido → Option (Motor × Valores)
  | .set key value ahora =>
    (completarSet c fuel { m with hechos := [] } key value ahora).map fun r =>
      (r.1, if r.2 then Function.update vals key (some value) else vals)
  | .get key ahora => some ((dummyNgGet c { m with hechos := [] } key ahora).1, vals)
  | .delete key =>
    (dummyNgItemDelete c fuel { m with hechos := [] } key).map fun m =>
      (m, Function.update vals key none)
  | .flush => some (dummyNgFlush c { m with hechos := [] }, fun _ => none)

/-- Keys of at most `MAX_KEY` bytes, non-empty values that fit the cache. -/
def Pedido.Valido (c : Config) : Pedido → Prop
  | .set key value _ => (key.length : Int) ≤ c.maxKey ∧ 0 < value.length ∧ value.length ≤ c.cacheSize
  | .get key _ => (key.length : Int) ≤ c.maxKey
  | .delete key => (key.length : Int) ≤ c.maxKey
  | .flush => True

/-- The states reached by valid requests that meet `Cond`, with the values set. -/
inductive Historia (c : Config) (Cond : Nat → Motor → Pedido → Prop) : Motor → Valores → Prop where
  | inicio (keysSpace cache : Memoria) (m : Motor) :
      dummyNgInitialize c keysSpace cache = some m → Historia c Cond m (fun _ => none)
  | pedido (fuel : Nat) (m m' : Motor) (vals vals' : Valores) (p : Pedido) :
      Historia c Cond m vals → p.Valido c → Cond fuel m p →
      servir c fuel m vals p = some (m', vals') → Historia c Cond m' vals'

/-- What a get that succeeds hands back is the value last set. -/
def GetFiel (c : Config) (m : Motor) (vals : Valores) (key : List UInt8) (ahora : Tiempo) : Prop :=
  ∀ m' i, dummyNgGet c m key ahora = (m', some i) →
    vals key = some (leer m'.cache (m'.keyVector i).data (m'.keyVector i).dataSize)

/-- The branches that keep the occupied entries as they are. -/
def Hecho.Fiel : Hecho → Prop
  | .junta _ _ _ libre => libre
  | .mueve => False
  | _ => True

instance : DecidablePred Hecho.Fiel
  | .junta _ _ _ libre => inferInstanceAs (Decidable (libre = true))
  | .mueve => inferInstanceAs (Decidable False)
  | .reusa .. | .parte .. | .entera .. | .divide .. | .cierra .. | .reinicia .. =>
    inferInstanceAs (Decidable True)

/-- The branches the request takes from this state. -/
def hechosDePedido (c : Config) (fuel : Nat) (m : Motor) (p : Pedido) : List Hecho :=
  ((servir c fuel m (fun _ => none) p).map (·.1.hechos)).getD []

/-- No occupied entry of the key is hidden from `vector_get`. -/
def Visible (c : Config) (m : Motor) (key : List UInt8) : Prop :=
  ∀ i < c.cantRegistros, tieneClave m key i → vectorGet c m key = some i

/-- The condition on a request and the state before it. -/
def PedidoFiel (c : Config) (fuel : Nat) (m : Motor) (p : Pedido) : Prop :=
  c.maxKey < 128 ∧
  (match p with
    | .set key value _ => 0 ∉ key ∧ Visible c m key ∧ vectorGet c m key ≠ some 0 ∧ value.length < 2 ^ 32
    | .get key _ => 0 ∉ key
    | .delete key => 0 ∉ key ∧ Visible c m key
    | .flush => True) ∧
  ∀ h ∈ hechosDePedido c fuel m p, h.Separa ∧ h.Fiel

/-- The key bytes of an entry. -/
def clave (m : Motor) (i : Nat) : List UInt8 :=
  match (m.keyVector i).key with
  | some p => leer m.keysSpace p (m.keyVector i).nkey
  | none => []

def valor (m : Motor) (i : Nat) : List UInt8 :=
  leer m.cache (m.keyVector i).data (m.keyVector i).dataSize

/-- The areas of the keys do not overlap. -/
def Areas (c : Config) (m : Motor) : Prop :=
  ∀ i < c.cantRegistros, ∀ j < c.cantRegistros, i ≠ j →
    ∀ p q, (m.keyVector i).key = some p → (m.keyVector j).key = some q →
      p + c.maxKey ≤ q ∨ q + c.maxKey ≤ p

/-- Every occupied entry has the current value of its key. -/
def Contenido (c : Config) (vals : Valores) (m : Motor) : Prop :=
  ∀ i < c.cantRegistros, (m.keyVector i).libre = false →
    ((m.keyVector i).nkey : Int) ≤ c.maxKey ∧ vals (clave m i) = some (valor m i)

def ContenidoSiSano (c : Config) (vals : Valores) (m : Motor) : Prop :=
  Tabla c m ∧ (m.Todos Hecho.Fiel → Areas c m ∧ Contenido c vals m)

/-- Entries that are occupied now were occupied before with the same key and data. -/
theorem Contenido.congr {c : Config} {vals : Valores} {m m' : Motor} (content : Contenido c vals m)
    (keys : m'.keysSpace = m.keysSpace) (bytes : m'.cache = m.cache)
    (before : ∀ i < c.cantRegistros, (m'.keyVector i).libre = false →
      ∃ j < c.cantRegistros, (m.keyVector j).libre = false ∧
        (m'.keyVector i).key = (m.keyVector j).key ∧ (m'.keyVector i).nkey = (m.keyVector j).nkey ∧
        (m'.keyVector i).data = (m.keyVector j).data ∧
        (m'.keyVector i).dataSize = (m.keyVector j).dataSize) : Contenido c vals m' := by
  intro i bound busy
  obtain ⟨j, inside, occupied, key, nkey, data, size⟩ := before i bound busy
  have sameKey : clave m' i = clave m j := by simp only [clave, key, nkey, keys]
  have sameValue : valor m' i = valor m j := by simp only [valor, data, size, bytes]
  rw [sameKey, sameValue, nkey]
  exact content j inside occupied

theorem Areas.congr {c : Config} {m m' : Motor} (areas : Areas c m)
    (same : ∀ i < c.cantRegistros, (m'.keyVector i).key = (m.keyVector i).key) : Areas c m' := by
  intro i left j right different p q first second
  rw [same i left] at first
  rw [same j right] at second
  exact areas i left j right different p q first second

/-- A step that leaves each entry's key and can only free entries. -/
theorem contenido_libera {c : Config} {vals : Valores} {m m' : Motor}
    (holds : Areas c m ∧ Contenido c vals m) (keys : m'.keysSpace = m.keysSpace)
    (bytes : m'.cache = m.cache)
    (same : ∀ i < c.cantRegistros, (m'.keyVector i).key = (m.keyVector i).key)
    (before : ∀ i < c.cantRegistros, (m'.keyVector i).libre = false →
      (m.keyVector i).libre = false ∧ (m'.keyVector i).nkey = (m.keyVector i).nkey ∧
      (m'.keyVector i).data = (m.keyVector i).data ∧
      (m'.keyVector i).dataSize = (m.keyVector i).dataSize) :
    Areas c m' ∧ Contenido c vals m' := by
  refine ⟨holds.1.congr same, holds.2.congr keys bytes fun i bound busy => ?_⟩
  obtain ⟨occupied, nkey, data, size⟩ := before i bound busy
  exact ⟨i, bound, occupied, same i bound, nkey, data, size⟩

theorem areas_apart {a b : Nat} {k : Int} (nonneg : 0 ≤ k) (different : a ≠ b) :
    a * k + k ≤ b * k ∨ b * k + k ≤ a * k := by
  rcases Nat.lt_or_gt_of_ne different with before | after
  · left
    have := Int.mul_le_mul_of_nonneg_right (by omega : (a : Int) + 1 ≤ b) nonneg
    linarith
  · right
    have := Int.mul_le_mul_of_nonneg_right (by omega : (b : Int) + 1 ≤ a) nonneg
    linarith

/-- `int8_t MAX_KEY` is the stride up to 127 bytes. -/
theorem areas_iniciales {c : Config} (narrow : c.maxKey < 128) {i j : Nat} (different : i ≠ j) :
    i * aInt8 c.maxKey + c.maxKey ≤ j * aInt8 c.maxKey ∨
      j * aInt8 c.maxKey + c.maxKey ≤ i * aInt8 c.maxKey := by
  by_cases positive : 0 < c.maxKey
  · have stride : aInt8 c.maxKey = c.maxKey := by
      unfold aInt8
      omega
    rw [stride]
    exact areas_apart (by omega) different
  · omega

theorem areas_inicializa {c : Config} (narrow : c.maxKey < 128) (m : Motor) :
    Areas c (vectorInicializar c m) := by
  have area : ∀ i, i < c.cantRegistros →
      ((vectorInicializar c m).keyVector i).key = some (i * aInt8 c.maxKey) := by
    intro i bound
    by_cases zero : i = 0
    · simp [vectorInicializar, zero]
    · simp [vectorInicializar, zero, bound]
  intro i left j right different p q first second
  rw [area i left, Option.some.injEq] at first
  rw [area j right, Option.some.injEq] at second
  rw [← first, ← second]
  exact areas_iniciales narrow different

theorem contenido_inicializa {c : Config} {vals : Valores} (m : Motor) :
    Contenido c vals (vectorInicializar c m) := by
  intro i bound busy
  have free : ((vectorInicializar c m).keyVector i).libre = true := by
    by_cases zero : i = 0
    · simp [vectorInicializar, zero]
    · simp [vectorInicializar, zero, bound]
  simp [free] at busy

theorem contenido_permuta {c : Config} {vals : Valores} {m : Motor} {j : Nat}
    (holds : Areas c m ∧ Contenido c vals m) (bound : j + 1 < c.cantRegistros) :
    Areas c (m.permuta j (j + 1)) ∧ Contenido c vals (m.permuta j (j + 1)) := by
  have range : ∀ i, i < c.cantRegistros → Equiv.swap j (j + 1) i < c.cantRegistros := by
    intro i below
    rw [Equiv.swap_apply_def]
    split
    · exact bound
    · split <;> omega
  constructor
  · intro i left k right different p q first second
    rw [Motor.permuta_keyVector] at first second
    exact holds.1 _ (range i left) _ (range k right) (by simpa using different) p q first second
  · refine holds.2.congr rfl rfl fun i below busy => ?_
    rw [Motor.permuta_keyVector] at busy ⊢
    exact ⟨_, range i below, busy, rfl, rfl, rfl, rfl⟩

theorem contenido_une {c : Config} {vals : Valores} {m : Motor} {queda hueco data : Nat}
    {primera segunda : KeyElement} (holds : Areas c m ∧ Contenido c vals m)
    (different : queda ≠ hueco) (first : (m.keyVector queda).libre)
    (second : (m.keyVector hueco).libre) :
    Areas c (unir m queda hueco data primera segunda) ∧
      Contenido c vals (unir m queda hueco data primera segunda) := by
  have kept := unir_queda m data primera segunda different
  have gone := unir_hueco m data primera segunda different
  refine contenido_libera holds rfl rfl (fun j _ => ?_) fun j _ occupied => ?_
  · by_cases left : j = queda
    · rw [left, kept]
    · by_cases right : j = hueco
      · rw [right, gone]
      · rw [unir_other m data primera segunda left right]
  · by_cases left : j = queda
    · rw [left, kept] at occupied
      simp [first] at occupied
    · by_cases right : j = hueco
      · rw [right, gone] at occupied
        simp [second] at occupied
      · rw [unir_other m data primera segunda left right] at occupied ⊢
        exact ⟨occupied, rfl, rfl, rfl⟩

theorem contenido_estable {c : Config} {vals : Valores} (registros : 0 < c.cantRegistros)
    (narrow : c.maxKey < 128) : Estable c (ContenidoSiSano c vals) where
  tabla _ holds := holds.1
  posicion m i holds := ⟨(tabla_estable registros).posicion m i holds.1, holds.2⟩
  elimina m i holds bound busy := by
    refine ⟨(tabla_estable registros).elimina m i holds.1 bound busy, ?_⟩
    simp only [eliminarParticion, Option.getD_some]
    rw [if_pos (by omega)]
    intro sound
    refine contenido_libera (holds.2 sound) rfl rfl (fun j _ => ?_) fun j _ occupied => ?_
    · rw [Motor.pon_keyVector]
      split
      · rename_i same
        rw [same]
      · rfl
    · by_cases same : j = i
      · simp [same] at occupied
      · simpa [same] using occupied
  permuta m j holds bound filled :=
    ⟨(tabla_estable registros).permuta m j holds.1 bound filled,
      fun sound => contenido_permuta (holds.2 sound) bound⟩
  junta m actual vecino holds first second different free size := by
    refine ⟨(tabla_estable registros).junta m actual vecino holds.1 first second different free size,
      fun sound => ?_⟩
    obtain ⟨available, before⟩ := Motor.todos_cons rfl sound
    have kept := juntarlos_actual m different
    have gone := juntarlos_posicion m different
    simp only [Hecho.Fiel] at available
    refine contenido_libera (holds.2 before) rfl rfl (fun j _ => ?_) fun j _ occupied => ?_
    · by_cases left : j = actual
      · rw [left, kept]
      · by_cases right : j = vecino
        · rw [right, gone]
        · rw [juntarlos_other m left right]
    · by_cases left : j = actual
      · rw [left, kept] at occupied
        simp [available] at occupied
      · by_cases right : j = vecino
        · rw [right, gone] at occupied
          simp [free] at occupied
        · rw [juntarlos_other m left right] at occupied ⊢
          exact ⟨occupied, rfl, rfl, rfl⟩
  uneAdelante m i holds bound first second size := by
    refine ⟨(tabla_estable registros).uneAdelante m i holds.1 bound first second size,
      fun sound => ?_⟩
    exact contenido_une (holds.2 (Motor.todos_cons rfl sound).2) (by omega) second first
  uneAtras m i holds bound first second size := by
    refine ⟨(tabla_estable registros).uneAtras m i holds.1 bound first second size,
      fun sound => ?_⟩
    exact contenido_une (holds.2 (Motor.todos_cons rfl sound).2) (by omega) first second
  anula m i holds bound free empty := by
    refine ⟨(tabla_estable registros).anula m i holds.1 bound free empty, fun sound => ?_⟩
    refine contenido_libera (holds.2 sound) rfl rfl (fun j _ => ?_) fun j _ occupied => ?_
    · rw [Motor.pon_keyVector]
      split
      · rename_i same
        rw [same]
      · rfl
    · by_cases same : j = i
      · simp [same, free] at occupied
      · simpa [same] using occupied
  mueve m i holds bound pair := by
    refine ⟨(tabla_estable registros).mueve m i holds.1 bound pair, fun sound => ?_⟩
    exact absurd (Motor.todos_cons rfl sound).1 id
  inicializa m holds :=
    ⟨(tabla_estable registros).inicializa m holds.1,
      fun _ => ⟨areas_inicializa narrow m, contenido_inicializa m⟩⟩
  divide m lugares pos prox holds first second different free empty nonempty half slot := by
    refine ⟨(tabla_estable registros).divide m lugares pos prox holds.1 first second different free
      empty nonempty half slot, fun sound => ?_⟩
    obtain ⟨record, keys, bytes⟩ := dividir_resto m lugares pos prox
    have lower := dividir_lugares m prox different
    have upper := dividir_posicionn m prox different
    refine contenido_libera (holds.2 (Motor.todos_cons record sound).2) keys bytes
      (fun j _ => ?_) fun j _ occupied => ?_
    · by_cases left : j = lugares
      · rw [left]
        exact congrArg (·.key) lower
      · by_cases right : j = pos
        · rw [right]
          exact congrArg (·.key) upper
        · exact congrArg (·.key) (dividir_other m prox left right)
    · by_cases left : j = lugares
      · rw [left] at occupied
        have := congrArg (·.libre) lower
        simp_all [KeyElement.sinRotulo]
      · by_cases right : j = pos
        · rw [right] at occupied
          have := congrArg (·.libre) upper
          simp_all [KeyElement.sinRotulo]
        · have same := dividir_other m prox left right
          exact ⟨(congrArg (·.libre) same).symm.trans occupied, congrArg (·.nkey) same,
            congrArg (·.data) same, congrArg (·.dataSize) same⟩

/-- A search changes no occupied entry. -/
theorem hallazgo_contenido {c : Config} {vals : Valores} {m : Motor} {espacio i : Nat}
    (sound : m.Todos Hecho.Fiel)
    (found : Hallazgo c (ContenidoSiSano c vals) espacio m (some i)) :
    Areas c m ∧ Contenido c vals m := by
  generalize here : some i = it at found
  cases found with
  | nulo => cases here
  | particion m₀ prueba j holds =>
    rcases crearParticion_cases c m₀ prueba j espacio with same | ⟨pos, free, same⟩ | same
    · simp [same] at here
    · rw [same] at sound ⊢
      have before := holds.2 (Motor.todos_cons rfl sound).2
      obtain ⟨key, available⟩ := cortar_pos m₀ j pos espacio (diferencia c espacio)
      refine contenido_libera before rfl rfl (fun k _ => ?_) fun k _ occupied => ?_
      · by_cases fresh : k = pos
        · rw [fresh, key]
        · rw [cortar_other m₀ espacio _ fresh]
      · by_cases fresh : k = pos
        · rw [fresh, available] at occupied
          cases occupied
        · rw [cortar_other m₀ espacio _ fresh] at occupied ⊢
          exact ⟨occupied, rfl, rfl, rfl⟩
    · rw [same] at sound ⊢
      exact holds.2 (Motor.todos_cons rfl sound).2
  | bloque m₀ lugares holds block =>
    have before := holds.2 (Motor.todos_cons rfl sound).2
    refine contenido_libera before rfl rfl (fun k _ => ?_) fun k _ occupied => ?_
    · by_cases same : k = lugares
      · simp [cerrar, same]
      · simp [cerrar, same]
    · by_cases same : k = lugares
      · subst same
        simpa [cerrar] using occupied
      · simpa [cerrar, same] using occupied

theorem clave_length {c : Config} {m : Motor} {i : Nat} (table : Tabla c m)
    (bound : i < c.cantRegistros) : (clave m i).length = (m.keyVector i).nkey := by
  obtain ⟨p, area⟩ := Option.isSome_iff_exists.mp (table.claves i bound)
  simp [clave, area]

/-- An occupied entry has the key exactly when its key bytes are the key. -/
theorem tieneClave_iff {c : Config} {m : Motor} {i : Nat} {key : List UInt8} (table : Tabla c m)
    (bound : i < c.cantRegistros) :
    tieneClave m key i ↔ (m.keyVector i).libre = false ∧ clave m i = key := by
  obtain ⟨p, area⟩ := Option.isSome_iff_exists.mp (table.claves i bound)
  have length := clave_length table bound
  simp only [tieneClave, area, Bool.and_eq_true, Bool.not_eq_true', beq_iff_eq]
  simp only [clave, area] at length ⊢
  constructor
  · rintro ⟨⟨busy, size⟩, bytes⟩
    rw [size]
    exact ⟨busy, bytes⟩
  · rintro ⟨busy, bytes⟩
    have size : (m.keyVector i).nkey = key.length := by rw [← length, bytes]
    rw [size] at bytes
    exact ⟨⟨busy, size⟩, bytes⟩

theorem take_strlen {key : List UInt8} (clean : 0 ∉ key) : key.take (strlen key) = key := by
  have whole : key.takeWhile (· ≠ 0) = key := by
    apply List.takeWhile_eq_self_iff.mpr
    intro b member
    simp only [decide_eq_true_eq]
    rintro rfl
    exact clean member
  unfold strlen
  rw [whole, List.take_length]

/-- The item is filled: the other occupied entries keep their keys and values. -/
theorem contenido_set {c : Config} {vals : Valores} {m : Motor} {i : Nat} {p : Int}
    {key value : List UInt8} {ahora : Tiempo} (areas : Areas c m) (content : Contenido c vals m)
    (fresh : vals key = none) (bound : i < c.cantRegistros) (area : (m.keyVector i).key = some p)
    (short : (key.length : Int) ≤ c.maxKey) (nonempty : 0 < value.length)
    (apart : Separadas c (ocupar m i p key value.length ahora)) :
    Contenido c (Function.update vals key (some value))
      (dummyNgStore (copiar (ocupar m i p key value.length ahora) i value) i) := by
  intro j below busy
  by_cases same : j = i
  · subst same
    have mine : clave (dummyNgStore (copiar (ocupar m j p key value.length ahora) j value) j) j =
        key := by
      simp [clave, dummyNgStore, copiar, ocupar, area, leer_escribir_self]
    have stored : valor (dummyNgStore (copiar (ocupar m j p key value.length ahora) j value) j) j =
        value := by
      simp [valor, dummyNgStore, copiar, ocupar, leer_escribir_self]
    rw [mine, stored]
    exact ⟨by simpa [dummyNgStore, copiar, ocupar] using short, by simp⟩
  · have entry : (dummyNgStore (copiar (ocupar m i p key value.length ahora) i value) i).keyVector j =
        m.keyVector j := by
      simp [dummyNgStore, copiar, ocupar, same]
    have occupied : (m.keyVector j).libre = false := by rwa [entry] at busy
    obtain ⟨nkey, current⟩ := content j below occupied
    have keyKept : clave (dummyNgStore (copiar (ocupar m i p key value.length ahora) i value) i) j =
        clave m j := by
      simp only [clave, entry]
      split
      · rename_i q other
        apply leer_escribir_disjoint
        have := areas i bound j below (Ne.symm same) p q area other
        omega
      · rfl
    have valueKept : valor (dummyNgStore (copiar (ocupar m i p key value.length ahora) i value) i) j =
        valor m j := by
      simp only [valor, entry]
      by_cases size : (m.keyVector j).dataSize = 0
      · simp [size, leer]
      · apply leer_escribir_disjoint
        have grows := extension_ge ((ocupar m i p key value.length ahora).keyVector i)
        have grows' := extension_ge ((ocupar m i p key value.length ahora).keyVector j)
        have entry' : (ocupar m i p key value.length ahora).keyVector j = m.keyVector j := by
          simp [ocupar, same]
        have item : ((ocupar m i p key value.length ahora).keyVector i).dataSize = value.length := by
          simp [ocupar]
        rw [entry'] at grows'
        have := apart.apart bound below (Ne.symm same) (by omega) (by rw [entry']; omega)
        rw [entry'] at this
        omega
    rw [keyKept, valueKept, entry]
    have other : clave m j ≠ key := by
      rintro rfl
      simp [fresh] at current
    exact ⟨nkey, by rw [Function.update_of_ne other]; exact current⟩

/-- What holds between two requests. -/
structure Fiel (c : Config) (vals : Valores) (m : Motor) : Prop where
  tabla : Tabla c m
  separadas : Separadas c m
  areas : Areas c m
  contenido : Contenido c vals m

theorem vectorGetLoop_congr {c : Config} {m m' : Motor} {key : List UInt8}
    (entries : m'.keyVector = m.keyVector) (keys : m'.keysSpace = m.keysSpace) (k i : Nat) :
    vectorGetLoop c m' key k i = vectorGetLoop c m key k i := by
  induction k generalizing i with
  | zero => rfl
  | succ k ih =>
    have found : tieneClave m' key i = tieneClave m key i := by
      simp only [tieneClave, entries, keys]
    simp only [vectorGetLoop, found, entries, ih]

/-- The request leaves a faithful state, if every branch it took was sound. -/
def FielSiSano (c : Config) (vals : Valores) (m : Motor) : Prop :=
  SeparadasSiSano c m ∧ ContenidoSiSano c vals m

theorem Fiel.start {c : Config} {vals : Valores} {m : Motor} (good : Fiel c vals m) :
    FielSiSano c vals { m with hechos := [] } :=
  ⟨⟨⟨good.tabla.claves, good.tabla.fin⟩, fun _ => good.separadas⟩,
    ⟨good.tabla.claves, good.tabla.fin⟩, fun _ => ⟨good.areas, good.contenido⟩⟩

theorem FielSiSano.fiel {c : Config} {vals : Valores} {m : Motor} (good : FielSiSano c vals m)
    (sound : ∀ h ∈ m.hechos, h.Separa ∧ h.Fiel) : Fiel c vals m where
  tabla := good.1.1
  separadas := good.1.2 fun h member => (sound h member).1
  areas := (good.2.2 fun h member => (sound h member).2).1
  contenido := (good.2.2 fun h member => (sound h member).2).2

theorem Contenido.mono {c : Config} {vals vals' : Valores} {m : Motor}
    (content : Contenido c vals m) (agrees : ∀ k v, vals k = some v → vals' k = some v) :
    Contenido c vals' m := fun i bound busy =>
  ⟨(content i bound busy).1, agrees _ _ (content i bound busy).2⟩

theorem update_none_le {vals : Valores} {key k v : List UInt8}
    (found : Function.update vals key none k = some v) : vals k = some v := by
  by_cases same : k = key
  · simp [same] at found
  · rwa [Function.update_of_ne same] at found

/-- With the entry that `vector_get` found freed, no entry has the key. -/
theorem contenido_sin_clave {c : Config} {vals : Valores} {m m' : Motor} {key : List UInt8}
    (table : Tabla c m) (content : Contenido c vals m) (visible : Visible c m key)
    (keys : m'.keysSpace = m.keysSpace) (bytes : m'.cache = m.cache)
    (before : ∀ i < c.cantRegistros, (m'.keyVector i).libre = false →
      vectorGet c m key ≠ some i ∧ m'.keyVector i = m.keyVector i) :
    Contenido c (Function.update vals key none) m' := by
  intro i bound busy
  obtain ⟨other, same⟩ := before i bound busy
  rw [same] at busy
  obtain ⟨nkey, current⟩ := content i bound busy
  have sameKey : clave m' i = clave m i := by simp only [clave, same, keys]
  have sameValue : valor m' i = valor m i := by simp only [valor, same, bytes]
  have different : clave m i ≠ key := by
    intro mine
    exact other (visible i bound ((tieneClave_iff table bound).mpr ⟨busy, mine⟩))
  rw [sameKey, sameValue, same, Function.update_of_ne different]
  exact ⟨nkey, current⟩

theorem desalojar_fiel {c : Config} {vals : Valores} {m : Motor} {key : List UInt8}
    (registros : 0 < c.cantRegistros) (minima : 0 < c.partMinima) (good : Fiel c vals m)
    (visible : Visible c m key) (notFirst : vectorGet c m key ≠ some 0) :
    FielSiSano c (Function.update vals key none) (desalojar c { m with hechos := [] } key) := by
  have start := good.start
  have same : vectorGet c { m with hechos := [] } key = vectorGet c m key := by
    refine vectorGetLoop_congr ?_ ?_ _ _ <;> rfl
  unfold desalojar
  rw [same]
  split
  · rename_i j found
    obtain ⟨bound, mine⟩ := vectorGet_some found
    have busy := tieneClave_libre mine
    refine ⟨(separadas_atendible registros minima).libera _ _ start.1 bound busy,
      start.2.1.liberarClave bound, fun _ => ⟨?_, ?_⟩⟩
    · refine good.areas.congr fun i _ => ?_
      by_cases here : i = j + 1
      · simp [liberarClave, here]
      · simp [liberarClave, here]
    · refine contenido_sin_clave good.tabla good.contenido visible rfl rfl fun i _ occupied => ?_
      by_cases here : i = j + 1
      · simp [liberarClave, here] at occupied
      · rw [found]
        exact ⟨by simpa using Ne.symm here, by simp [liberarClave, here]⟩
  · rename_i missing
    refine ⟨start.1, start.2.1, fun _ => ⟨good.areas, ?_⟩⟩
    refine contenido_sin_clave good.tabla good.contenido visible rfl rfl fun i _ _ => ⟨?_, rfl⟩
    intro found
    cases i with
    | zero => exact notFirst found
    | succ j => exact missing j found

/-- The item of a set is occupied, filled and stored. -/
theorem fiel_set {c : Config} {vals : Valores} {m : Motor} {i : Nat} {p : Int}
    {key value : List UInt8} {ahora : Tiempo} (table : Tabla c m) (areas : Areas c m)
    (content : Contenido c (Function.update vals key none) m) (bound : i < c.cantRegistros)
    (area : (m.keyVector i).key = some p) (short : (key.length : Int) ≤ c.maxKey)
    (nonempty : 0 < value.length) (apart : Separadas c (ocupar m i p key value.length ahora)) :
    Fiel c (Function.update vals key (some value))
      (dummyNgItemRelease
        (dummyNgStore (copiar (ocupar m i p key value.length ahora) i value) i) i) := by
  have release : dummyNgItemRelease
      (dummyNgStore (copiar (ocupar m i p key value.length ahora) i value) i) i =
      dummyNgStore (copiar (ocupar m i p key value.length ahora) i value) i := by
    simp [dummyNgItemRelease, dummyNgStore]
  rw [release]
  have taken : Tabla c (ocupar m i p key value.length ahora) := table.ocupar bound
  constructor
  · have copied : Tabla c (copiar (ocupar m i p key value.length ahora) i value) :=
      ⟨taken.claves, taken.fin⟩
    exact copied.pon bound (copied.claves i bound)
  · refine apart.shrink fun j _ => Or.inr ?_
    by_cases same : j = i
    · subst same
      simp [dummyNgStore, copiar, extension]
    · simp [dummyNgStore, copiar, same]
  · refine areas.congr fun j _ => ?_
    by_cases same : j = i
    · simp [dummyNgStore, copiar, ocupar, same]
    · simp [dummyNgStore, copiar, ocupar, same]
  · have filled := contenido_set areas content (by simp) bound area short nonempty apart
    rwa [Function.update_idem] at filled

/-- One complete set. -/
theorem completarSet_fiel {c : Config} {vals : Valores} {m m' : Motor} {fuel : Nat}
    {key value : List UInt8} {ahora : Tiempo} {stored : Bool} (registros : 0 < c.cantRegistros)
    (minima : 0 < c.partMinima) (narrow : c.maxKey < 128) (good : Fiel c vals m)
    (visible : Visible c m key) (notFirst : vectorGet c m key ≠ some 0)
    (short : (key.length : Int) ≤ c.maxKey) (nonempty : 0 < value.length)
    (fits : value.length ≤ c.cacheSize) (small : value.length < 2 ^ 32)
    (sound : ∀ h ∈ m'.hechos, h.Separa ∧ h.Fiel)
    (runs : completarSet c fuel { m with hechos := [] } key value ahora = some (m', stored)) :
    Fiel c (if stored then Function.update vals key (some value) else vals) m' := by
  have freed := desalojar_fiel registros minima good visible notFirst
  have serves := separadas_atendible registros minima
  have stable : Estable c (FielSiSano c (Function.update vals key none)) :=
    (separadas_estable registros).and (contenido_estable registros narrow)
  simp only [completarSet, Option.bind_eq_bind, Option.bind_eq_some_iff] at runs
  obtain ⟨⟨m₁, r⟩, allocates, ends⟩ := runs
  rcases dummyNgAllocate_cases stable minima freed allocates with
    ⟨large, -, -⟩ | ⟨j, found, enough, assigns⟩ | ⟨m₂, it, search, assigns⟩
  · omega
  · obtain ⟨bound, mine⟩ := vectorGet_some found
    have busy := tieneClave_libre mine
    have start := good.start
    have base := (start.1.1.liberarClave bound).anota
      (.reusa (m.keyVector (j + 1)).dataSize value.length)
    simp only [desalojar, found] at freed
    rcases asignar_cases base assigns with ⟨absent, -⟩ | ⟨i, same, outside, -⟩ | chosen
    · cases absent
    · simp only [Option.some.injEq] at same
      omega
    · obtain ⟨i, p, same, -, area, last, item⟩ := chosen
      simp only [Option.some.injEq] at same
      subst same item last
      simp only [Option.some.injEq, Prod.mk.injEq] at ends
      obtain ⟨rfl, rfl⟩ := ends
      obtain ⟨areas, content⟩ := freed.2.2 (by simp [Motor.Todos, liberarClave])
      have apart := (serves.reusa { m with hechos := [] } (j + 1) p key value.length ahora start.1
        bound busy enough).2 (by simp [Motor.Todos, ocupar, liberarClave, Hecho.Separa])
      exact fiel_set base areas content bound area short nonempty apart
  · have separate : Hallazgo c (SeparadasSiSano c) _ m₂ it := search.mono fun _ both => both.1
    have contents : Hallazgo c (ContenidoSiSano c _) _ m₂ it := search.mono fun _ both => both.2
    rcases asignar_cases (search.tabla stable) assigns with
      ⟨absent, same, failed⟩ | ⟨i, present, outside, same, failed⟩ |
      ⟨i, p, present, bound, area, last, item⟩
    · subst absent same failed
      simp only [Option.some.injEq, Prod.mk.injEq] at ends
      obtain ⟨rfl, rfl⟩ := ends
      have kept : Fiel c _ m₁ := FielSiSano.fiel search.of_none sound
      exact ⟨kept.tabla, kept.separadas, kept.areas, kept.contenido.mono fun _ _ => update_none_le⟩
    · subst present same failed
      simp only [Option.some.injEq, Prod.mk.injEq] at ends
      obtain ⟨rfl, rfl⟩ := ends
      obtain ⟨areas, content⟩ := hallazgo_contenido (fun h member => (sound h member).2) contents
      exact ⟨search.tabla stable,
        hallazgo_separadas_fin outside (fun h member => (sound h member).1) separate, areas,
        content.mono fun _ _ => update_none_le⟩
    · subst present item last
      simp only [Option.some.injEq, Prod.mk.injEq] at ends
      obtain ⟨rfl, rfl⟩ := ends
      have record : (dummyNgItemRelease (dummyNgStore
          (copiar (ocupar m₂ i p key value.length ahora) i value) i) i).hechos = m₂.hechos := by
        simp [dummyNgItemRelease, dummyNgStore, copiar, ocupar]
      rw [record] at sound
      obtain ⟨areas, content⟩ := hallazgo_contenido (fun h member => (sound h member).2) contents
      have apart : Separadas c (ocupar m₂ i p key value.length ahora) :=
        hallazgo_separadas small bound (fun h member => (sound h member).1) separate
      exact fiel_set (search.tabla stable) areas content bound area short nonempty apart

theorem suelta_fiel {c : Config} {vals : Valores} (registros : 0 < c.cantRegistros)
    (minima : 0 < c.partMinima) (m : Motor) (i : Nat) (holds : FielSiSano c vals m)
    (bound : i < c.cantRegistros) :
    FielSiSano c vals (m.pon i { m.keyVector i with libre := true }) := by
  refine ⟨(separadas_atendible registros minima).suelta m i holds.1 bound,
    holds.2.1.pon bound (holds.2.1.claves i bound), fun sound => ?_⟩
  refine contenido_libera (holds.2.2 sound) rfl rfl (fun j _ => ?_) fun j _ occupied => ?_
  · by_cases same : j = i
    · simp [same]
    · simp [same]
  · by_cases same : j = i
    · simp [same] at occupied
    · simpa [same] using occupied

theorem dummyNgItemDelete_fiel {c : Config} {vals : Valores} {m m' : Motor} {fuel : Nat}
    {key : List UInt8} (registros : 0 < c.cantRegistros) (minima : 0 < c.partMinima)
    (narrow : c.maxKey < 128) (good : Fiel c vals m) (visible : Visible c m key)
    (sound : ∀ h ∈ m'.hechos, h.Separa ∧ h.Fiel)
    (runs : dummyNgItemDelete c fuel { m with hechos := [] } key = some m') :
    Fiel c (Function.update vals key none) m' := by
  have start := good.start
  have same : vectorGet c { m with hechos := [] } key = vectorGet c m key := by
    refine vectorGetLoop_congr ?_ ?_ _ _ <;> rfl
  have stable : Estable c (FielSiSano c (Function.update vals key none)) :=
    (separadas_estable registros).and (contenido_estable registros narrow)
  refine FielSiSano.fiel (dummyNgItemDelete_estable stable (suelta_fiel registros minima) ?_ ?_ runs)
    sound
  · intro missing
    rw [same] at missing
    refine ⟨start.1, start.2.1, fun _ => ⟨good.areas, ?_⟩⟩
    refine contenido_sin_clave good.tabla good.contenido visible rfl rfl fun i _ _ => ⟨?_, rfl⟩
    simp [missing]
  · intro res found
    rw [same] at found
    obtain ⟨bound, mine⟩ := vectorGet_some found
    have busy := tieneClave_libre mine
    refine ⟨(separadas_estable registros).elimina _ res start.1 bound busy,
      (tabla_estable registros).elimina _ res start.2.1 bound busy, fun _ => ?_⟩
    simp only [eliminarParticion, Option.getD_some]
    rw [if_pos (by omega)]
    constructor
    · refine good.areas.congr fun i _ => ?_
      by_cases here : i = res
      · simp [here]
      · simp [here]
    · refine contenido_sin_clave good.tabla good.contenido visible rfl rfl fun i _ occupied => ?_
      by_cases here : i = res
      · simp [here] at occupied
      · rw [found]
        exact ⟨by simpa using Ne.symm here, by simp [here]⟩

theorem dummyNgGet_fiel {c : Config} {vals : Valores} {m : Motor} {key : List UInt8}
    {ahora : Tiempo} (good : Fiel c vals m) : Fiel c vals (dummyNgGet c m key ahora).1 := by
  unfold dummyNgGet
  split
  · exact good
  · rename_i res found
    obtain ⟨bound, -⟩ := vectorGet_some found
    simp only [actualizarKey]
    split
    · have kept : Areas c (m.pon res { m.keyVector res with tp := ahora }) ∧
          Contenido c vals (m.pon res { m.keyVector res with tp := ahora }) := by
        refine contenido_libera ⟨good.areas, good.contenido⟩ rfl rfl (fun j _ => ?_)
          fun j _ occupied => ?_
        · by_cases same : j = res
          · simp [same]
          · simp [same]
        · by_cases same : j = res
          · subst same
            simpa using occupied
          · simpa [same] using occupied
      refine ⟨good.tabla.pon bound (good.tabla.claves res bound), ?_, kept.1, kept.2⟩
      refine good.separadas.shrink fun j _ => Or.inr ?_
      by_cases same : j = res
      · simp [same, extension]
      · simp [same]
    · exact good

theorem hechosDePedido_eq {c : Config} {fuel : Nat} {m m' : Motor} {vals vals' : Valores}
    {p : Pedido} (runs : servir c fuel m vals p = some (m', vals')) :
    hechosDePedido c fuel m p = m'.hechos := by
  cases p with
  | set key value ahora =>
    simp only [servir, Option.map_eq_some_iff, Prod.mk.injEq] at runs
    obtain ⟨r, sets, rfl, -⟩ := runs
    simp [hechosDePedido, servir, sets]
  | get key ahora =>
    simp only [servir, Option.some.injEq, Prod.mk.injEq] at runs
    simp [hechosDePedido, servir, runs.1]
  | delete key =>
    simp only [servir, Option.map_eq_some_iff, Prod.mk.injEq] at runs
    obtain ⟨r, deletes, rfl, -⟩ := runs
    simp [hechosDePedido, servir, deletes]
  | flush =>
    simp only [servir, Option.some.injEq, Prod.mk.injEq] at runs
    simp [hechosDePedido, servir, runs.1]

/-- One request keeps every occupied entry current. -/
theorem servir_fiel {c : Config} {fuel : Nat} {m m' : Motor} {vals vals' : Valores} {p : Pedido}
    (registros : 0 < c.cantRegistros) (minima : 0 < c.partMinima) (good : Fiel c vals m)
    (valid : p.Valido c) (meets : PedidoFiel c fuel m p)
    (runs : servir c fuel m vals p = some (m', vals')) : Fiel c vals' m' := by
  obtain ⟨narrow, request, sound⟩ := meets
  rw [hechosDePedido_eq runs] at sound
  cases p with
  | set key value ahora =>
    simp only [servir, Option.map_eq_some_iff, Prod.mk.injEq] at runs
    obtain ⟨⟨m₁, stored⟩, sets, rfl, rfl⟩ := runs
    obtain ⟨short, nonempty, fits⟩ := valid
    obtain ⟨-, visible, notFirst, small⟩ := request
    exact completarSet_fiel registros minima narrow good visible notFirst short nonempty fits small
      sound sets
  | get key ahora =>
    simp only [servir, Option.some.injEq, Prod.mk.injEq] at runs
    obtain ⟨rfl, rfl⟩ := runs
    refine dummyNgGet_fiel ?_
    exact ⟨⟨good.tabla.claves, good.tabla.fin⟩, good.separadas, good.areas, good.contenido⟩
  | delete key =>
    simp only [servir, Option.map_eq_some_iff, Prod.mk.injEq] at runs
    obtain ⟨m₁, deletes, rfl, rfl⟩ := runs
    exact dummyNgItemDelete_fiel registros minima narrow good request.2 sound deletes
  | flush =>
    simp only [servir, Option.some.injEq, Prod.mk.injEq] at runs
    obtain ⟨rfl, rfl⟩ := runs
    have table : Tabla c { m with hechos := [] } := ⟨good.tabla.claves, good.tabla.fin⟩
    exact ⟨(tabla_estable registros).inicializa _ table, separadas_inicializa _,
      areas_inicializa narrow _, contenido_inicializa _⟩

theorem historia_fiel {c : Config} {m : Motor} {vals : Valores}
    (reached : Historia c (PedidoFiel c) m vals) :
    0 < c.cantRegistros ∧ 0 < c.partMinima ∧ Tabla c m ∧ Contenido c vals m ∧
      (c.maxKey < 128 → Fiel c vals m) := by
  induction reached with
  | inicio keysSpace cache m starts =>
    obtain ⟨registros, minima, same⟩ := dummyNgInitialize_some starts
    have table := inicio_tabla starts
    have content : Contenido c (fun _ => none) m := by
      rw [same]
      have fresh : Contenido c (fun _ => none) (vectorInicializar c
          { keyVector := fun _ => .nulo, ultimaPosicion := 0, keysSpace, cache, hechos := [] }) :=
        contenido_inicializa _
      exact fresh.congr rfl rfl fun i bound busy => ⟨i, bound, busy, rfl, rfl, rfl, rfl⟩
    refine ⟨registros, minima, table, content, fun narrow => ⟨table, ?_, ?_, content⟩⟩
    · rw [same]
      exact separadas_inicializa _
    · rw [same]
      exact areas_inicializa narrow _
  | pedido fuel m m' vals vals' p _ valid meets runs ih =>
    obtain ⟨registros, minima, -, -, good⟩ := ih
    have kept := servir_fiel registros minima (good meets.1) valid meets runs
    exact ⟨registros, minima, kept.tabla, kept.contenido, fun _ => kept⟩

def worstDe48 : Config where
  esquema := .partDinam
  particion := .worst
  victim := .fifo
  freq := 1
  maxKey := 40
  cacheSize := 48
  partMinima := 8
  cacheSize_lt := cabe_48

end LosAltos.Rc
