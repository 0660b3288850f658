import LosAltos.Rc.Vector

/-!
# The engine operations of the remote cache

`rc/src/our_engine.c:143-475`. memcached holds an item as a pointer into
`key_vector`, here its position. The time `clock_gettime` answers is an argument.
-/
namespace LosAltos.Rc

open Lib

/-- `esPotenciaDe`, on the real logarithm; `log(0)` is an integer to `modf`. -/
def esPotenciaDe (valor : Nat) : Bool :=
  valor == 0 || (List.range 32).any fun k => valor == 2 ^ k

/-- The table as `alocate_vector` leaves it. -/
def KeyElement.nulo : KeyElement where
  key := none
  nkey := 0
  stored := false
  dataSize := 0
  dataUnuse := 0
  data := 0
  actual := 0
  padre := 0
  libre := false
  tp := ⟨0, 0⟩

/-- The two areas come from `malloc` with any contents. `none` when the engine is
refused, when `part_minima` is zero, or when entry 0 lies outside the table. -/
def dummyNgInitialize (c : Config) (keysSpace cache : Memoria) : Option Motor :=
  if c.esquema = .buddy ∧
      (!esPotenciaDe (c.cacheSize % 2 ^ 32) || !esPotenciaDe (c.partMinima % 2 ^ 32)) then none
  else if c.partMinima = 0 ∨ c.cantRegistros = 0 then none
  else
    let m : Motor :=
      { keyVector := fun _ => .nulo, ultimaPosicion := 0, keysSpace, cache, hechos := [] }
    some { vectorInicializar c m with hechos := [] }

inductive Respuesta where
  | item (i : Nat)
  /-- `ENGINE_SUCCESS` without an item: the value exceeds `part_maxima`. -/
  | sinItem
  | enomem
  deriving DecidableEq, Repr

def vectorSearch (c : Config) (fuel : Nat) (m : Motor) (espacio : Nat) :
    Option (Motor × Option Nat) :=
  match c.esquema with
  | .buddy => buscarLibreBuddy c fuel m espacio
  | .partDinam =>
    match c.particion with
    | .next => buscarLibreNext c fuel m espacio
    | .worst => buscarLibreWorst c fuel m espacio

/-- The end of `dummy_ng_allocate`, on the entry found. -/
def ocupar (m : Motor) (i : Nat) (p : Int) (key : List UInt8) (nbytes : Nat) (ahora : Tiempo) :
    Motor :=
  let m := m.pon i
    { m.keyVector i with
      nkey := key.length
      dataSize := nbytes
      stored := false
      libre := false
      tp := ahora }
  { m with keysSpace := escribir m.keysSpace p key }

def asignar (c : Config) (m : Motor) (it : Option Nat) (key : List UInt8) (nbytes : Nat)
    (ahora : Tiempo) : Option (Motor × Respuesta) :=
  match it with
  | none => some (m, .enomem)
  | some i =>
    match (m.keyVector i).key with
    | none => some (m, .enomem)
    | some p =>
      -- `memcpy(it->key, key, nkey)` has to stay inside `keys_space`
      if 0 ≤ p ∧ p + key.length ≤ c.maxKey * c.cantRegistros then
        some (ocupar m i p key nbytes ahora, .item i)
      else none

/-- The entry a key already has is freed, `almacenada > 0`. -/
def liberarClave (m : Motor) (almacenada : Nat) : Motor :=
  m.pon almacenada { m.keyVector almacenada with libre := true, stored := false }

/-- The entry for the value. `vector_search` is called through a pointer that
takes a `uint32_t`. -/
def lugarPara (c : Config) (fuel : Nat) (m : Motor) (key : List UInt8) (nbytes : Nat) :
    Option (Motor × Option Nat) :=
  match vectorGet c m key with
  | some (j + 1) =>
    let m := liberarClave m (j + 1)
    if (m.keyVector (j + 1)).dataSize ≥ nbytes then
      some (m.anota (.reusa (m.keyVector (j + 1)).dataSize nbytes), some (j + 1))
    else vectorSearch c fuel m (nbytes % 2 ^ 32)
  | _ => vectorSearch c fuel m (nbytes % 2 ^ 32)

def dummyNgAllocate (c : Config) (fuel : Nat) (m : Motor) (key : List UInt8) (nbytes : Nat)
    (ahora : Tiempo) : Option (Motor × Respuesta) :=
  if nbytes > c.cacheSize then some (m, .sinItem)
  else do
    let (m, it) ← lugarPara c fuel m key nbytes
    asignar c m it key nbytes ahora

def dummyNgStore (m : Motor) (i : Nat) : Motor :=
  m.pon i { m.keyVector i with stored := true }

def dummyNgItemRelease (m : Motor) (i : Nat) : Motor :=
  if (m.keyVector i).stored then m else m.pon i { m.keyVector i with libre := true }

/-- The position of the item, `none` for `ENGINE_KEY_ENOENT`. -/
def dummyNgGet (c : Config) (m : Motor) (key : List UInt8) (ahora : Tiempo) :
    Motor × Option Nat :=
  match vectorGet c m key with
  | none => (m, none)
  | some res => (actualizarKey c m res ahora, some res)

def dummyNgFlush (c : Config) (m : Motor) : Motor := vectorInicializar c m

def dummyNgItemDelete (c : Config) (fuel : Nat) (m : Motor) (key : List UInt8) : Option Motor :=
  match vectorGet c m key with
  | none => some m
  | some res => do
    let (m, valor) := eliminarParticion c m (some res)
    let (m, valor) ←
      if c.esquema = .buddy then eliminaBuddy c fuel m valor else some (m, valor)
    some (dummyNgItemRelease m valor)

/-- The calls memcached makes, one at a time; an item is a position of the table. -/
inductive Llamada where
  | allocate (key : List UInt8) (nbytes : Nat) (ahora : Tiempo)
  | store (item : Nat)
  | release (item : Nat)
  | get (key : List UInt8) (ahora : Tiempo)
  | delete (key : List UInt8)
  | flush
  deriving DecidableEq, Repr

/-- One call from a motor whose ghost record is cleared first. -/
def atender (c : Config) (fuel : Nat) (m : Motor) : Llamada → Option Motor
  | .allocate key nbytes ahora =>
    (dummyNgAllocate c fuel { m with hechos := [] } key nbytes ahora).map (·.1)
  | .store i =>
    if i < c.cantRegistros then some (dummyNgStore { m with hechos := [] } i) else none
  | .release i =>
    if i < c.cantRegistros then some (dummyNgItemRelease { m with hechos := [] } i) else none
  | .get key ahora => some (dummyNgGet c { m with hechos := [] } key ahora).1
  | .delete key => dummyNgItemDelete c fuel { m with hechos := [] } key
  | .flush => some (dummyNgFlush c { m with hechos := [] })

/-- The branches the call takes from this state. -/
def hechosDe (c : Config) (fuel : Nat) (m : Motor) (l : Llamada) : List Hecho :=
  ((atender c fuel m l).map (·.hechos)).getD []

/-- A run of calls from a fresh engine. -/
def corrida (c : Config) (fuel : Nat) (calls : List Llamada) : Option Motor := do
  let m ← dummyNgInitialize c (fun _ => 0) (fun _ => 0)
  calls.foldlM (atender c fuel) m

/-- The states reached from a fresh engine by calls that meet `Cond`. -/
inductive Alcanzable (c : Config) (Cond : Nat → Motor → Llamada → Prop) : Motor → Prop where
  | inicio (keysSpace cache : Memoria) (m : Motor) :
      dummyNgInitialize c keysSpace cache = some m → Alcanzable c Cond m
  | llamada (fuel : Nat) (m m' : Motor) (l : Llamada) :
      Alcanzable c Cond m → Cond fuel m l → atender c fuel m l = some m' → Alcanzable c Cond m'

end LosAltos.Rc
