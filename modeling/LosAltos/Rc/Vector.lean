import LosAltos.Lib.Memory
import Mathlib.Logic.Equiv.Basic

/-!
# The partition table of the remote cache

`rc/src/vector.c` and `rc/src/manage.c`. `key_vector` is a total map from
positions to entries: positions from `cantRegistros` on are the memory past the
table, which several loops read; it is taken to be zeroed, as the table is by
`alocate_vector`. `data` is the offset from `cache` and `key` the offset from
`keys_space`; offsets and sizes are `size_t` and wrap at `2 ^ 64`. Locks and the
log are left out, `exptime` is never read. A function that loops until it finds
something takes a number of iterations and returns `none` when they run out, or
when the code dereferences a null or foreign pointer.

`hechos` is ghost state: the branches an operation took, with the values it took
them on. No function reads it.
-/
namespace LosAltos.Rc

open Lib

inductive Esquema where
  | buddy
  | partDinam
  deriving DecidableEq, Repr

inductive Eleccion where
  | next
  | worst
  deriving DecidableEq, Repr

inductive Victima where
  | lru
  | fifo
  deriving DecidableEq, Repr

/-- `rc.conf` and the two sizes memcached passes; `part_maxima` is `cache_size`. -/
structure Config where
  esquema : Esquema
  particion : Eleccion
  victim : Victima
  freq : Int
  maxKey : Int
  cacheSize : Nat
  partMinima : Nat
  cacheSize_lt : cacheSize < 2 ^ 64 := by decide
  deriving DecidableEq, Repr

theorem cabe_16 : 16 < 2 ^ 64 := by decide

theorem cabe_32 : 32 < 2 ^ 64 := by decide

theorem cabe_48 : 48 < 2 ^ 64 := by decide

theorem cabe_64 : 64 < 2 ^ 64 := by decide

structure Tiempo where
  sec : Nat
  nsec : Nat
  deriving DecidableEq, Repr

structure KeyElement where
  key : Option Int
  nkey : Nat
  stored : Bool
  dataSize : Nat
  dataUnuse : Nat
  data : Nat
  actual : Int
  padre : Int
  libre : Bool
  tp : Tiempo
  deriving DecidableEq, Repr

/-- What a step of an operation did to the partitions. -/
inductive Hecho where
  /-- The value goes to the slot its key already has. -/
  | reusa (dataSize nbytes : Nat)
  /-- A partition is cut after `espacio + diferencia` bytes. -/
  | parte (dataSize espacio : Nat) (diferencia : Int) (dataUnuse : Nat)
  /-- A partition is taken whole. -/
  | entera (dataSize espacio dataUnuse : Nat) (libre : Bool)
  /-- A block is cut in two blocks of `prox` bytes. -/
  | divide (dataSize prox : Nat)
  /-- A block whose half has `prox` bytes is taken. -/
  | cierra (dataSize prox espacio dataUnuse : Nat)
  /-- The kept partition, which ends at `fin`, takes in the one at `inicio`. -/
  | junta (fin inicio dataUnuse : Nat) (libre : Bool)
  /-- `compactarDinam` moves an occupied partition. -/
  | mueve
  /-- `vector_inicializar` over an entry 0 with `dataUnuse`. -/
  | reinicia (dataUnuse : Nat)
  deriving DecidableEq, Repr

structure Motor where
  keyVector : Nat → KeyElement
  ultimaPosicion : Nat
  keysSpace : Memoria
  cache : Memoria
  hechos : List Hecho

def a64 (x : Int) : Nat := (x % 2 ^ 64).toNat

theorem a64_of_lt {x : Int} (low : 0 ≤ x) (high : x < 2 ^ 64) : (a64 x : Int) = x := by
  unfold a64
  omega

def aInt32 (x : Int) : Int := (x + 2 ^ 31) % 2 ^ 32 - 2 ^ 31

def aInt16 (x : Int) : Int := (x + 2 ^ 15) % 2 ^ 16 - 2 ^ 15

def aInt8 (x : Int) : Int := (x + 2 ^ 7) % 2 ^ 8 - 2 ^ 7

/-- The number of entries `alocate_vector` reserves. -/
def Config.cantRegistros (c : Config) : Nat :=
  let resto := c.cacheSize % c.partMinima % 2 ^ 32
  let cociente := c.cacheSize / c.partMinima % 2 ^ 32
  if resto ≠ 0 then (cociente + 1) % 2 ^ 32 else cociente

namespace Motor

def pon (m : Motor) (i : Nat) (e : KeyElement) : Motor :=
  { m with keyVector := Function.update m.keyVector i e }

def anota (m : Motor) (h : Hecho) : Motor := { m with hechos := h :: m.hechos }

def permuta (m : Motor) (i j : Nat) : Motor :=
  (m.pon i (m.keyVector j)).pon j (m.keyVector i)

@[simp]
theorem pon_keyVector (m : Motor) (i j : Nat) (e : KeyElement) :
    (m.pon i e).keyVector j = if j = i then e else m.keyVector j := by
  simp [pon, Function.update_apply]

@[simp]
theorem pon_hechos (m : Motor) (i : Nat) (e : KeyElement) : (m.pon i e).hechos = m.hechos := rfl

@[simp]
theorem pon_keysSpace (m : Motor) (i : Nat) (e : KeyElement) :
    (m.pon i e).keysSpace = m.keysSpace := rfl

@[simp]
theorem pon_cache (m : Motor) (i : Nat) (e : KeyElement) : (m.pon i e).cache = m.cache := rfl

@[simp]
theorem anota_keyVector (m : Motor) (h : Hecho) : (m.anota h).keyVector = m.keyVector := rfl

@[simp]
theorem anota_hechos (m : Motor) (h : Hecho) : (m.anota h).hechos = h :: m.hechos := rfl

@[simp]
theorem anota_keysSpace (m : Motor) (h : Hecho) : (m.anota h).keysSpace = m.keysSpace := rfl

@[simp]
theorem anota_cache (m : Motor) (h : Hecho) : (m.anota h).cache = m.cache := rfl

theorem permuta_keyVector (m : Motor) (i j k : Nat) :
    (m.permuta i j).keyVector k = m.keyVector (Equiv.swap i j k) := by
  simp only [permuta, pon_keyVector, Equiv.swap_apply_def]
  split <;> split <;> simp_all

end Motor

/-- Every branch recorded satisfies `Q`. -/
def Motor.Todos (m : Motor) (Q : Hecho → Prop) : Prop := ∀ h ∈ m.hechos, Q h

theorem Motor.todos_cons {m : Motor} {Q : Hecho → Prop} {h : Hecho} {l : List Hecho}
    (record : m.hechos = h :: l) (all : m.Todos Q) : Q h ∧ ∀ h' ∈ l, Q h' := by
  unfold Motor.Todos at all
  rw [record] at all
  exact ⟨all h List.mem_cons_self, fun h' member => all h' (List.mem_cons_of_mem h member)⟩

/-- `while (p[i] && i < n) i++`. -/
def avanza (p : Nat → Bool) (n : Nat) : Nat → Nat → Nat
  | 0, i => i
  | k + 1, i => if p i && decide (i < n) then avanza p n k (i + 1) else i

def buscarPosLibre (c : Config) (m : Motor) : Option Nat :=
  let i := avanza (fun i => (m.keyVector i).dataSize != 0) c.cantRegistros c.cantRegistros 0
  if i = c.cantRegistros then none else some i

def cargarEnVector (m : Motor) (key : Option Int) (data ndata : Nat) (libre : Bool) (pos : Nat) :
    Motor :=
  m.pon pos { m.keyVector pos with key, data, libre, dataSize := ndata }

/-- The inner loop of `borrar`: position, oldest time and its position. -/
def borrarOcupadas (c : Config) (m : Motor) : Nat → Nat → Tiempo → Nat → Nat × Tiempo × Nat
  | 0, i, tp, resultado => (i, tp, resultado)
  | k + 1, i, tp, resultado =>
    let e := m.keyVector i
    if i < c.cantRegistros ∧ e.tp.sec ≠ 0 ∧ e.libre = false then
      if e.tp.sec < tp.sec ∨ (e.tp.sec = tp.sec ∧ e.tp.nsec < tp.nsec) then
        borrarOcupadas c m k (i + 1) e.tp i
      else borrarOcupadas c m k (i + 1) tp resultado
    else (i, tp, resultado)

def borrarLoop (c : Config) (m : Motor) : Nat → Nat → Tiempo → Nat → Nat
  | 0, _, _, resultado => resultado
  | k + 1, i, tp, resultado =>
    let e := m.keyVector i
    if e.dataSize > 0 ∧ i < c.cantRegistros ∧ e.tp.sec ≠ 0 then
      let (j, tp, resultado) :=
        borrarOcupadas c m c.cantRegistros (if e.libre then i + 1 else i) tp resultado
      borrarLoop c m k j tp resultado
    else resultado

def borrar (c : Config) (m : Motor) : Nat :=
  let i := avanza (fun i => (m.keyVector i).libre) c.cantRegistros c.cantRegistros 0
  borrarLoop c m (c.cantRegistros + 1) i (m.keyVector i).tp i

def actualizarKey (c : Config) (m : Motor) (i : Nat) (ahora : Tiempo) : Motor :=
  if c.victim = .lru then m.pon i { m.keyVector i with tp := ahora } else m

/-- `valor = none` is `-1`: the victim is chosen by `borrar`. -/
def eliminarParticion (c : Config) (m : Motor) (valor : Option Nat) : Motor × Nat :=
  let resultado := valor.getD (borrar c m)
  if resultado ≠ c.cantRegistros then
    let e := m.keyVector resultado
    (m.pon resultado
      { e with
        dataSize := a64 (e.dataSize + e.dataUnuse)
        libre := true
        stored := false
        dataUnuse := 0 }, resultado)
  else (m, resultado)

/-- `strcmp(p, q) == 0`, reading at most `n` bytes. -/
def strcmpIgual (mem : Memoria) : Nat → Int → Int → Bool
  | 0, _, _ => true
  | n + 1, p, q => mem p == mem q && (mem p == 0 || strcmpIgual mem n (p + 1) (q + 1))

/-- One comparison of the bubble sort; the flag says whether it swapped. -/
def ordenarPaso (c : Config) (clave : Option (Option Int)) (m : Motor) (posicion2 : Nat)
    (flag : Bool) (j : Nat) : Option (Motor × Nat × Bool) :=
  let e := m.keyVector j
  let f := m.keyVector (j + 1)
  if e.data > f.data ∧ e.dataSize > 0 ∧ f.dataSize > 0 then
    match clave with
    | none => some (m.permuta j (j + 1), posicion2, true)
    | some original =>
      match e.key, original with
      | some p, some q =>
        let igual := strcmpIgual m.keysSpace (c.maxKey * c.cantRegistros).toNat p q
        some (m.permuta j (j + 1), if igual then j + 1 else posicion2, true)
      | _, _ => none
  else some (m, posicion2, flag)

def ordenarPasada (c : Config) (clave : Option (Option Int)) (m : Motor) (posicion2 : Nat) :
    Option (Motor × Nat × Bool) :=
  (List.range c.cantRegistros).foldlM (fun r j => ordenarPaso c clave r.1 r.2.1 r.2.2 j)
    (m, posicion2, false)

def ordenarPasadas (c : Config) (clave : Option (Option Int)) :
    Nat → Motor → Nat → Option (Motor × Nat)
  | 0, m, posicion2 => some (m, posicion2)
  | k + 1, m, posicion2 => do
    let (m, posicion2, flag) ← ordenarPasada c clave m posicion2
    if flag then ordenarPasadas c clave k m posicion2 else some (m, posicion2)

/-- `posicion = none` is `-1`. -/
def ordenarVector (c : Config) (m : Motor) (posicion : Option Nat) : Option (Motor × Nat) :=
  ordenarPasadas c (posicion.map fun i => (m.keyVector i).key) (c.cantRegistros - 2) m
    (posicion.getD 0)

def juntarlos (m : Motor) (actual posicion : Nat) : Motor :=
  let e := m.keyVector actual
  let f := m.keyVector posicion
  let m := m.anota (.junta (e.data + e.dataSize) f.data f.dataUnuse e.libre)
  let cuenta : Int := if e.padre % 2 ≠ 0 then 2 else 1
  let m := m.pon actual
    { e with
      actual := e.padre
      padre := if e.padre > 0 then e.padre - cuenta else e.padre + cuenta
      dataSize := a64 (e.dataSize + f.dataSize) }
  m.pon posicion { m.keyVector posicion with dataSize := 0 }

theorem juntarlos_actual (m : Motor) {actual posicion : Nat} (different : actual ≠ posicion) :
    (juntarlos m actual posicion).keyVector actual =
      { m.keyVector actual with
        actual := (m.keyVector actual).padre
        padre := ((juntarlos m actual posicion).keyVector actual).padre
        dataSize := a64 ((m.keyVector actual).dataSize + (m.keyVector posicion).dataSize) } := by
  simp [juntarlos, different]

theorem juntarlos_posicion (m : Motor) {actual posicion : Nat} (different : actual ≠ posicion) :
    (juntarlos m actual posicion).keyVector posicion =
      { m.keyVector posicion with dataSize := 0 } := by
  simp [juntarlos, Ne.symm different]

theorem juntarlos_other (m : Motor) {actual posicion i : Nat} (first : i ≠ actual)
    (second : i ≠ posicion) : (juntarlos m actual posicion).keyVector i = m.keyVector i := by
  simp [juntarlos, first, second]

def cumple (c : Config) (m : Motor) (actual : Nat) (posicionn : Int) : Bool :=
  if 0 ≤ posicionn ∧ posicionn < c.cantRegistros then
    let f := m.keyVector posicionn.toNat
    let e := m.keyVector actual
    decide (f.dataSize > 0) && (f.dataSize == e.dataSize) && (f.padre == e.padre) && f.libre
  else false

/-- A join of `elimina_buddy` with one of the two neighbours. -/
def juntarSiCumple (c : Config) (m : Motor) (posicion : Nat) (vecino : Int) (cuenta : Nat) :
    Motor × Nat :=
  if cumple c m posicion vecino then (juntarlos m posicion vecino.toNat, cuenta + 1)
  else (m, cuenta)

def eliminaBuddyLoop (c : Config) (posicion : Nat) :
    Nat → Motor → Int → Int → Nat → Nat → Option Motor
  | 0, _, _, _, _, _ => none
  | k + 1, m, siguiente, anterior, s, a =>
    if posicion < c.cantRegistros then
      let (m, s) := juntarSiCumple c m posicion siguiente s
      let (m, a) := juntarSiCumple c m posicion anterior a
      if cumple c m posicion (siguiente + s) || cumple c m posicion (anterior - a) then
        eliminaBuddyLoop c posicion k m (siguiente + s) (anterior - a) s a
      else some m
    else some m

def eliminaBuddy (c : Config) (fuel : Nat) (m : Motor) (posicionOrg : Nat) :
    Option (Motor × Nat) := do
  let (m, posicion) ← ordenarVector c m (some posicionOrg)
  let m ← eliminaBuddyLoop c posicion fuel m (posicion + 1) (posicion - 1) 0 0
  some (m, posicion)

/-- Two free partitions become one, kept at `queda`, which starts at `data`. -/
def unir (m : Motor) (queda hueco data : Nat) (primera segunda : KeyElement) : Motor :=
  let e := m.keyVector queda
  let f := m.keyVector hueco
  let m := m.anota (.junta (primera.data + primera.dataSize) segunda.data f.dataUnuse e.libre)
  let m := m.pon queda { e with data, dataSize := a64 (e.dataSize + f.dataSize) }
  m.pon hueco { m.keyVector hueco with dataSize := 0 }

theorem unir_queda (m : Motor) {queda hueco : Nat} (data : Nat) (primera segunda : KeyElement)
    (different : queda ≠ hueco) :
    (unir m queda hueco data primera segunda).keyVector queda =
      { m.keyVector queda with
        data
        dataSize := a64 ((m.keyVector queda).dataSize + (m.keyVector hueco).dataSize) } := by
  simp [unir, different]

theorem unir_hueco (m : Motor) {queda hueco : Nat} (data : Nat) (primera segunda : KeyElement)
    (different : queda ≠ hueco) :
    (unir m queda hueco data primera segunda).keyVector hueco =
      { m.keyVector hueco with dataSize := 0 } := by
  simp [unir, Ne.symm different]

theorem unir_other (m : Motor) {queda hueco i : Nat} (data : Nat) (primera segunda : KeyElement)
    (first : i ≠ queda) (second : i ≠ hueco) :
    (unir m queda hueco data primera segunda).keyVector i = m.keyVector i := by
  simp [unir, first, second]

/-- The free partition at `i` and the occupied one after it change places; the
data moves down, the entry keeps its old `data`. -/
def mover (m : Motor) (i : Nat) : Motor :=
  let e := m.keyVector i
  let f := m.keyVector (i + 1)
  let m := m.anota .mueve
  let m := { m with cache := escribir m.cache e.data (leer m.cache f.data f.dataSize) }
  let m := m.pon i f
  m.pon (i + 1)
    { f with
      dataSize := e.dataSize
      data := a64 (e.data + f.dataSize)
      dataUnuse := e.dataUnuse
      key := e.key
      stored := false
      libre := true }

structure Compactacion where
  motor : Motor
  ultimoLibre : Nat
  compacte : Bool
  termine : Bool

def compactarPaso (c : Config) (r : Compactacion) (i : Nat) : Option Compactacion :=
  if r.termine then some r
  else
    let m := r.motor
    let libreI := (m.keyVector i).libre && decide ((m.keyVector i).dataSize > 0)
    if i + 1 < c.cantRegistros then
      if (m.keyVector (i + 1)).libre then
        if libreI && decide ((m.keyVector (i + 1)).dataSize > 0) then
          let m := unir m (i + 1) i (m.keyVector i).data (m.keyVector i) (m.keyVector (i + 1))
          some { r with
            -- the emptied entry gets a null `data`
            motor := m.pon i { m.keyVector i with data := 0 }
            ultimoLibre := i + 1
            compacte := true }
        else some r
      else if libreI then
        some { r with motor := mover m i, ultimoLibre := i + 1, compacte := true }
      else some r
    else if (m.keyVector i).dataSize > 0 then
      if libreI then
        match i with
        | 0 => none
        | j + 1 =>
          if (m.keyVector j).libre then
            some { r with
              motor := unir m j i (m.keyVector j).data (m.keyVector j) (m.keyVector i)
              ultimoLibre := j
              compacte := true }
          else some r
      else some r
    else some { r with termine := true }

/-- The position of the last free partition it made, `none` for `-1`. -/
def compactarDinam (c : Config) (m : Motor) : Option (Motor × Option Nat) := do
  let (m, _) ← ordenarVector c m none
  let entera := (m.keyVector 0).libre && ((m.keyVector 0).dataSize == c.cacheSize)
  let r ← (List.range c.cantRegistros).foldlM (compactarPaso c)
    { motor := m, ultimoLibre := 0, compacte := false, termine := entera }
  some (r.motor, if r.compacte then some r.ultimoLibre else none)

/-- Entry 0 keeps its `data_unuse`. -/
def vectorInicializar (c : Config) (m : Motor) : Motor :=
  let m := m.anota (.reinicia (m.keyVector 0).dataUnuse)
  { m with
    ultimaPosicion := 0
    keyVector := fun i =>
      if i = 0 then
        { m.keyVector 0 with
          key := some 0, data := 0, libre := true, dataSize := c.cacheSize
          actual := 0, padre := 0 }
      else if i < c.cantRegistros then
        { m.keyVector i with
          key := some (i * aInt8 c.maxKey), libre := true, stored := false
          dataSize := 0, dataUnuse := 0, actual := 0, padre := 0 }
      else m.keyVector i }

/-- The padding that completes `espacio` to a multiple of `part_minima`. -/
def diferencia (c : Config) (espacio : Nat) : Int :=
  let resto := aInt32 (espacio % c.partMinima)
  if resto ≠ 0 then aInt32 (c.partMinima - resto) else 0

/-- A failed search evicts a partition or compacts the cache, and goes on at the
position returned. -/
def hacerLugar (c : Config) (m : Motor) (i : Nat) (elimina : Bool) : Option (Motor × Nat) :=
  if elimina then
    let (m, particion) := eliminarParticion c m none
    if particion = c.cantRegistros then some (vectorInicializar c m, i) else some (m, particion)
  else do
    let (m, compac) ← compactarDinam c m
    match compac with
    | none => some (eliminarParticion c m none)
    | some ultimo => some (m, ultimo)

/-- The partition `i` keeps `espacio` bytes and their padding; the rest becomes
the partition `pos`. -/
def cortar (m : Motor) (i pos espacio : Nat) (dif : Int) : Motor :=
  let e := m.keyVector i
  let m := m.anota (.parte e.dataSize espacio dif e.dataUnuse)
  let m := cargarEnVector m (m.keyVector pos).key (a64 (e.data + espacio + dif))
    (a64 (e.dataSize - espacio - dif)) true pos
  m.pon i { m.keyVector i with dataUnuse := a64 dif }

theorem cortar_pos (m : Motor) (i pos espacio : Nat) (dif : Int) :
    ((cortar m i pos espacio dif).keyVector pos).key = (m.keyVector pos).key ∧
      ((cortar m i pos espacio dif).keyVector pos).libre = true := by
  by_cases same : pos = i
  · simp [cortar, cargarEnVector, same]
  · simp [cortar, cargarEnVector, same]

theorem cortar_other (m : Motor) {i pos k : Nat} (espacio : Nat) (dif : Int) (other : k ≠ pos) :
    (cortar m i pos espacio dif).keyVector k =
      { m.keyVector k with dataUnuse := if k = i then a64 dif else (m.keyVector k).dataUnuse } := by
  by_cases same : k = i
  · subst same
    simp [cortar, cargarEnVector, other]
  · simp [cortar, cargarEnVector, other, same]

/-- The end of both dynamic searches: the chosen partition `i` is cut when
`prueba` leaves something after the value and its padding. -/
def crearParticion (c : Config) (m : Motor) (prueba i espacio : Nat) : Motor × Option Nat :=
  let e := m.keyVector i
  let dif := diferencia c espacio
  if a64 (prueba - espacio - dif) > 0 then
    match buscarPosLibre c m with
    | some pos => (cortar m i pos espacio dif, some i)
    | none => (m, none)
  else (m.anota (.entera e.dataSize espacio e.dataUnuse e.libre), some i)

theorem crearParticion_cases (c : Config) (m : Motor) (prueba i espacio : Nat) :
    crearParticion c m prueba i espacio = (m, none) ∨
    (∃ pos, buscarPosLibre c m = some pos ∧
      crearParticion c m prueba i espacio = (cortar m i pos espacio (diferencia c espacio), some i)) ∨
    crearParticion c m prueba i espacio =
      (m.anota (.entera (m.keyVector i).dataSize espacio (m.keyVector i).dataUnuse
        (m.keyVector i).libre), some i) := by
  simp only [crearParticion]
  split
  · split
    · rename_i pos found
      exact Or.inr (Or.inl ⟨pos, found, rfl⟩)
    · exact Or.inl rfl
  · exact Or.inr (Or.inr rfl)

/-- The scan of one round of `buscarLibreNext`: where it stands and whether it fits. -/
def recorrerNext (c : Config) (m : Motor) (espacio i : Nat) : Nat × Bool :=
  let n := c.cantRegistros
  let i := avanza (fun i => !(m.keyVector i).libre) n n i
  let i := avanza (fun i => (m.keyVector i).libre && (m.keyVector i).dataSize == 0) n n i
  let (i, encontrado) := if i = n then (0, false) else (i, decide ((m.keyVector i).dataSize ≥ espacio))
  (if encontrado then i else max i m.ultimaPosicion, encontrado)

def buscarNextLoop (c : Config) (espacio : Nat) : Nat → Motor → Nat → Int → Option (Motor × Nat)
  | 0, _, _, _ => none
  | k + 1, m, i, fallidas =>
    let (i, encontrado) := recorrerNext c m espacio i
    if i = m.ultimaPosicion ∧ encontrado = false then
      let fallidas := aInt16 (fallidas + 1)
      let elimina := decide (fallidas < c.freq) || c.freq == -1
      match hacerLugar c m i elimina with
      | none => none
      | some (m, i) =>
        if (m.keyVector i).dataSize ≥ espacio then some (m, i)
        else buscarNextLoop c espacio k m i (if elimina then fallidas else 0)
    else if (m.keyVector i).dataSize ≥ espacio then some (m, i)
    else buscarNextLoop c espacio k m 0 fallidas

def buscarLibreNext (c : Config) (fuel : Nat) (m : Motor) (espacio : Nat) :
    Option (Motor × Option Nat) := do
  let (m, i) ← buscarNextLoop c espacio fuel m m.ultimaPosicion 0
  let m := { m with ultimaPosicion := if i + 1 < c.cantRegistros then i + 1 else 0 }
  some (crearParticion c m (m.keyVector i).dataSize i espacio)

/-- The condition `busquedas_fallidas = frecuencia` is an assignment. -/
def buscarWorstLoop (c : Config) (espacio : Nat) :
    Nat → Motor → Nat → Nat → Nat → Bool → Option (Motor × Nat × Nat)
  | 0, _, _, _, _, _ => none
  | k + 1, m, i, posMayorTamano, mayorTamano, encontrado =>
    let e := m.keyVector i
    if (encontrado = false ∨ e.dataSize > 0) ∧ i < c.cantRegistros then
      if e.dataSize = 0 then
        if mayorTamano = 0 then
          match hacerLugar c m i (aInt16 c.freq != 0 || c.freq == -1) with
          | none => none
          | some (m, i) =>
            if (m.keyVector i).dataSize ≥ espacio then
              buscarWorstLoop c espacio k m (i + 1) i ((m.keyVector i).dataSize % 2 ^ 32) true
            else buscarWorstLoop c espacio k m 1 posMayorTamano mayorTamano encontrado
        else buscarWorstLoop c espacio k m (i + 1) posMayorTamano mayorTamano true
      else if e.dataSize ≥ espacio ∧ e.dataSize > mayorTamano ∧ e.libre then
        buscarWorstLoop c espacio k m (i + 1) i (e.dataSize % 2 ^ 32) encontrado
      else buscarWorstLoop c espacio k m (i + 1) posMayorTamano mayorTamano encontrado
    else some (m, i, posMayorTamano)

def buscarLibreWorst (c : Config) (fuel : Nat) (m : Motor) (espacio : Nat) :
    Option (Motor × Option Nat) := do
  let (m, i, posMayorTamano) ← buscarWorstLoop c espacio fuel m 0 0 0 false
  some (crearParticion c m (m.keyVector i).dataSize posMayorTamano espacio)

def insertPadreActual (m : Motor) (posicion1 : Nat) (actual1 padre1 : Int) (posicion2 : Nat)
    (actual2 padre2 : Int) : Motor :=
  let m := m.pon posicion1 { m.keyVector posicion1 with padre := padre1, actual := actual1 }
  m.pon posicion2 { m.keyVector posicion2 with padre := padre2, actual := actual2 }

def actualizarFlags (m : Motor) (lugares posicionn : Nat) : Motor :=
  let padre := (m.keyVector lugares).padre
  let actual := (m.keyVector lugares).actual
  if actual = 0 then insertPadreActual m posicionn (padre - 1) 0 lugares (padre + 1) 0
  else if actual < 0 then
    insertPadreActual m posicionn (actual - 1) actual lugares (actual - 2) actual
  else insertPadreActual m posicionn (actual + 1) actual lugares (actual + 2) actual

/-- The block at `lugares` is halved; its upper half goes to `posicionn`. -/
def dividir (m : Motor) (lugares posicionn prox : Nat) : Motor :=
  let m := m.anota (.divide (m.keyVector lugares).dataSize prox)
  let m := actualizarFlags m lugares posicionn
  let m := cargarEnVector m (m.keyVector posicionn).key (a64 ((m.keyVector lugares).data + prox))
    prox true posicionn
  m.pon lugares { m.keyVector lugares with dataSize := prox }

/-- Up to the labels of the tree, which only the joins read. -/
def KeyElement.sinRotulo (e : KeyElement) : KeyElement := { e with actual := 0, padre := 0 }

theorem actualizarFlags_sinRotulo (m : Motor) (lugares posicionn i : Nat) :
    ((actualizarFlags m lugares posicionn).keyVector i).sinRotulo = (m.keyVector i).sinRotulo := by
  have insert : ∀ (a b p q : Int),
      ((insertPadreActual m posicionn a p lugares b q).keyVector i).sinRotulo =
        (m.keyVector i).sinRotulo := by
    intro a b p q
    simp only [insertPadreActual, Motor.pon_keyVector]
    split
    · rename_i first
      subst first
      split <;> simp_all [KeyElement.sinRotulo]
    · split <;> simp_all [KeyElement.sinRotulo]
  simp only [actualizarFlags]
  split
  · exact insert _ _ _ _
  · split <;> exact insert _ _ _ _

theorem dividir_resto (m : Motor) (lugares posicionn prox : Nat) :
    (dividir m lugares posicionn prox).hechos =
        .divide (m.keyVector lugares).dataSize prox :: m.hechos ∧
      (dividir m lugares posicionn prox).keysSpace = m.keysSpace ∧
      (dividir m lugares posicionn prox).cache = m.cache := by
  simp only [dividir, cargarEnVector, actualizarFlags]
  split
  · exact ⟨rfl, rfl, rfl⟩
  · split <;> exact ⟨rfl, rfl, rfl⟩

theorem dividir_lugares (m : Motor) {lugares posicionn : Nat} (prox : Nat)
    (different : lugares ≠ posicionn) :
    ((dividir m lugares posicionn prox).keyVector lugares).sinRotulo =
      { (m.keyVector lugares).sinRotulo with dataSize := prox } := by
  have flags := actualizarFlags_sinRotulo
    (m.anota (.divide (m.keyVector lugares).dataSize prox)) lugares posicionn lugares
  simp only [KeyElement.sinRotulo, Motor.anota_keyVector, KeyElement.mk.injEq] at flags
  simp [dividir, cargarEnVector, different, KeyElement.sinRotulo, flags]

theorem dividir_posicionn (m : Motor) {lugares posicionn : Nat} (prox : Nat)
    (different : lugares ≠ posicionn) :
    ((dividir m lugares posicionn prox).keyVector posicionn).sinRotulo =
      { (m.keyVector posicionn).sinRotulo with
        data := a64 ((m.keyVector lugares).data + prox)
        libre := true
        dataSize := prox } := by
  have flags := actualizarFlags_sinRotulo
    (m.anota (.divide (m.keyVector lugares).dataSize prox)) lugares posicionn posicionn
  have whole := actualizarFlags_sinRotulo
    (m.anota (.divide (m.keyVector lugares).dataSize prox)) lugares posicionn lugares
  simp only [KeyElement.sinRotulo, Motor.anota_keyVector, KeyElement.mk.injEq] at flags whole
  simp [dividir, cargarEnVector, Ne.symm different, KeyElement.sinRotulo, flags, whole]

theorem dividir_other (m : Motor) {lugares posicionn i : Nat} (prox : Nat) (first : i ≠ lugares)
    (second : i ≠ posicionn) :
    ((dividir m lugares posicionn prox).keyVector i).sinRotulo = (m.keyVector i).sinRotulo := by
  have flags := actualizarFlags_sinRotulo
    (m.anota (.divide (m.keyVector lugares).dataSize prox)) lugares posicionn i
  simpa [dividir, cargarEnVector, first, second] using flags

/-- The block at `lugares` is taken for `espacio` bytes. -/
def cerrar (m : Motor) (lugares prox espacio : Nat) : Motor :=
  let e := m.keyVector lugares
  let m := m.anota (.cierra e.dataSize prox espacio e.dataUnuse)
  m.pon lugares
    { e with dataUnuse := if espacio > prox then a64 (e.dataSize - espacio) else a64 (prox - espacio) }

/-- `none` inside is the null result of a full table. -/
def crearArbol (c : Config) (lugares espacio : Nat) : Nat → Motor → Option (Motor × Option Nat)
  | 0, _ => none
  | k + 1, m =>
    let prox := (m.keyVector lugares).dataSize / 2 % 2 ^ 32
    if espacio ≤ prox ∧ prox ≥ c.partMinima then
      match buscarPosLibre c m with
      | some posicionn => crearArbol c lugares espacio k (dividir m lugares posicionn prox)
      | none => some (m, none)
    else some (cerrar m lugares prox espacio, some lugares)

def buscarBuddyLoop (c : Config) (fuel espacio : Nat) :
    Nat → Motor → Nat → Nat → Bool → Option (Motor × Nat)
  | 0, _, _, _, _ => none
  | k + 1, m, i, lugares, encontrado =>
    if encontrado = false ∧ i < c.cantRegistros then
      let e := m.keyVector i
      let l := m.keyVector lugares
      if e.dataSize = 0 then
        if (lugares = 0 ∧ l.dataSize < espacio) ∨ l.libre = false then
          let (m, i) := eliminarParticion c m none
          match eliminaBuddy c fuel m i with
          | none => none
          | some (m, i) =>
            if (m.keyVector i).dataSize > espacio ∧ (m.keyVector i).libre then
              buscarBuddyLoop c fuel espacio k m (i + 1) i true
            else buscarBuddyLoop c fuel espacio k m (i + 1) lugares false
        else buscarBuddyLoop c fuel espacio k m (i + 1) lugares true
      else if e.dataSize ≥ espacio ∧ e.libre then
        let lugares :=
          if lugares = c.cantRegistros then i
          else if e.dataSize ≤ l.dataSize then i else lugares
        buscarBuddyLoop c fuel espacio k m (i + 1) lugares false
      else buscarBuddyLoop c fuel espacio k m (i + 1) lugares false
    else some (m, lugares)

def buscarLibreBuddy (c : Config) (fuel : Nat) (m : Motor) (espacio : Nat) :
    Option (Motor × Option Nat) := do
  let (m, lugares) ← buscarBuddyLoop c fuel espacio fuel m 0 c.cantRegistros false
  crearArbol c lugares espacio fuel m

def strlen (key : List UInt8) : Nat := (key.takeWhile (· ≠ 0)).length

/-- Whether the entry is an occupied one with these key bytes. -/
def tieneClave (m : Motor) (key : List UInt8) (i : Nat) : Bool :=
  let e := m.keyVector i
  !e.libre && e.nkey == key.length &&
    (match e.key with
    | some p => leer m.keysSpace p key.length == key
    | none => false)

/-- The position of the key, `none` for `-1`; the search stops at an empty entry. -/
def vectorGetLoop (c : Config) (m : Motor) (key : List UInt8) : Nat → Nat → Option Nat
  | 0, _ => none
  | k + 1, i =>
    if i < c.cantRegistros then
      if (m.keyVector i).dataSize = 0 then none
      else if tieneClave m key i then some i
      else vectorGetLoop c m key k (i + 1)
    else none

/-- The key is read as a C string: `strlen` ends it at the first zero byte. -/
def vectorGet (c : Config) (m : Motor) (key : List UInt8) : Option Nat :=
  vectorGetLoop c m (key.take (strlen key)) c.cantRegistros 0

end LosAltos.Rc
