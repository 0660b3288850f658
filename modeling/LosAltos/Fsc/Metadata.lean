import LosAltos.Fsc.RemoteWrite
import LosAltos.Rfs.Server

/-!
# The metadata operations of the client

`fsc/src/fileSystemClient.c:40-94, 198-245, 271-302, 338-485`, `memcached_utils.c:13-81`,
`sockets.c:154-167`. Attributes and listings are kept in a remote cache that never
evicts, overwrites on `memcached_add` and takes two keys for one up to a trailing NUL. The
server is the RFS of `serveRequest`; a client reads the first packet of its answer. There
is no result where the server has none.
-/
namespace LosAltos.Fsc.Metadata

open Nipc Rfs

abbrev Cache := List UInt8 → Option Respuesta

/-! ### `memcached_utils.c` -/

/-- A key as the cache compares it. -/
def sinNul (key : List UInt8) : List UInt8 := if key.getLast? = some 0 then key.dropLast else key

/-- The two `nipc_type`s a key is made for. -/
inductive TipoDeClave where
  | getattrResponse
  | readdirResponse
  deriving DecidableEq

def keyForMemcached (path : List UInt8) : TipoDeClave → List UInt8
  | .getattrResponse => 65 :: path
  | .readdirResponse => 68 :: path

/-- The key is looked up with its NUL. -/
def queryMemcached (cache : Cache) (path : List UInt8) (tipo : TipoDeClave) : Option Respuesta :=
  cache (sinNul (keyForMemcached path tipo ++ [0]))

def ponEnCache (cache : Cache) (key : List UInt8) (valor : Option Respuesta) : Cache :=
  fun k => if k = sinNul key then valor else cache k

def storeMemcached (cache : Cache) (path : List UInt8) (tipo : TipoDeClave)
    (packet : Respuesta) : Cache :=
  ponEnCache cache (keyForMemcached path tipo) (some packet)

def deleteMemcached (cache : Cache) (path : List UInt8) (tipo : TipoDeClave) : Cache :=
  ponEnCache cache (keyForMemcached path tipo) none

/-! ### The operations -/

/-- `dirname` of the C library: the path without its last component. -/
def dirname (path : List UInt8) : List UInt8 :=
  let reves := path.reverse
  let reves := if reves.all (· = 47) then reves else reves.dropWhile (· = 47)
  let padre := reves.dropWhile (· ≠ 47)
  if padre = [] then [46]
  else
    let ruta := padre.dropWhile (· = 47)
    if ruta = [] then (if padre.length = 2 then [47, 47] else [47]) else ruta.reverse

/-- What `remote_readdir` hands to the filler for one entry. -/
structure EntradaVista where
  path : List UInt8
  nLink : UInt16
  mode : UInt16
  size : UInt32
  deriving DecidableEq

/-- What a caller sees: a return value, a 0 with the `struct stat` filled, or a 0 with the
entries handed to the filler. -/
inductive Resultado where
  | codigo (valor : Int)
  | atributos (mode nLink : UInt16) (size blocks : UInt32)
  | entradas (lista : List EntradaVista)
  deriving DecidableEq

/-- The answer of a type, as the operation that asks for it shows it. -/
def mostrar : TipoDeClave → Respuesta → Option Resultado
  | .getattrResponse, .getattrResponse mode nLink size blocks =>
    some (.atributos mode nLink size blocks)
  | .readdirResponse, .readdirResponse entries =>
    some (.entradas (entries.map fun e => ⟨e.path, e.nLink, e.mode, e.size⟩))
  | _, _ => none

/-- `check_error`. -/
def checkError : Respuesta → Int
  | .error codigo => if codigo = 0 then -1 else codigo
  | _ => -1

/-- `check_ok_error`. -/
def checkOkError (response : Respuesta) : Int :=
  if response = .ok then 0 else checkError response

structure Estado where
  servidor : Servidor
  cache : Cache

section
variable (sb : Superblock) (bloquesEnCache : Bool)

/-- `nipc_query`: the server answers and the first packet is read. -/
def nipcQuery (s : Servidor) (pedido : Pedido) : Option (Servidor × Respuesta) := do
  let (s, enviadas) ← serveRequest sb bloquesEnCache s pedido
  let response ← enviadas.head?
  some (s, response)

variable (cacheActive : Bool) (c : Cliente)

/-- The body of `remote_getattr` and of `remote_readdir`. -/
def remoteConsulta (e : Estado) (path : CString) (tipo : TipoDeClave) (pedido : Pedido) :
    Option (Estado × Resultado) :=
  match if cacheActive then queryMemcached e.cache path.bytes tipo else none with
  | some response => do
    let visto ← mostrar tipo response
    some (e, visto)
  | none => do
    let (servidor, response) ← nipcQuery sb bloquesEnCache e.servidor pedido
    match mostrar tipo response with
    | none => some ({ e with servidor }, .codigo (checkError response))
    | some visto =>
      let cache := if cacheActive then storeMemcached e.cache path.bytes tipo response else e.cache
      some (⟨servidor, cache⟩, visto)

def remoteGetattr (e : Estado) (path : CString) : Option (Estado × Resultado) :=
  remoteConsulta sb bloquesEnCache cacheActive e path .getattrResponse
    (.nipcGetattr c.clientId path)

def remoteReaddir (e : Estado) (path : CString) (offset : Nat) : Option (Estado × Resultado) :=
  remoteConsulta sb bloquesEnCache cacheActive e path .readdirResponse
    (.nipcReaddir c.clientId path (.ofNat offset))

/-- The keys forgotten after an answer, where the cache is on. -/
def olvidar (cache : Cache) : List (List UInt8 × TipoDeClave) → Cache
  | [] => cache
  | (path, tipo) :: resto => olvidar (deleteMemcached cache path tipo) resto

/-- A request, and the keys forgotten on a given answer. -/
def remoteCambio (e : Estado) (pedido : Pedido)
    (olvidadas : Respuesta → List (List UInt8 × TipoDeClave)) : Option (Estado × Int) := do
  let (servidor, response) ← nipcQuery sb bloquesEnCache e.servidor pedido
  let cache := if cacheActive then olvidar e.cache (olvidadas response) else e.cache
  some (⟨servidor, cache⟩, checkOkError response)

/-- The listing of the parent, where the server has answered `nipc_ok`. -/
def olvidarPadre (path : CString) (response : Respuesta) : List (List UInt8 × TipoDeClave) :=
  if response = .ok then [(dirname path.bytes, .readdirResponse)] else []

/-- The attributes and the listing of the parent, where the server has answered `nipc_ok`. -/
def olvidarPropiosYPadre (path : CString) (response : Respuesta) :
    List (List UInt8 × TipoDeClave) :=
  if response = .ok then
    [(path.bytes, .getattrResponse), (dirname path.bytes, .readdirResponse)]
  else []

def remoteCreate (e : Estado) (path : CString) (mode : UInt32) : Option (Estado × Int) :=
  remoteCambio sb bloquesEnCache cacheActive e (.nipcCreate c.clientId path mode)
    (olvidarPadre path)

def remoteMkdir (e : Estado) (path : CString) (mode : UInt32) : Option (Estado × Int) :=
  remoteCambio sb bloquesEnCache cacheActive e (.nipcMkdir c.clientId path mode)
    (olvidarPadre path)

def remoteUnlink (e : Estado) (path : CString) : Option (Estado × Int) :=
  remoteCambio sb bloquesEnCache cacheActive e (.nipcUnlink c.clientId path)
    (olvidarPropiosYPadre path)

def remoteRmdir (e : Estado) (path : CString) : Option (Estado × Int) :=
  remoteCambio sb bloquesEnCache cacheActive e (.nipcRmdir c.clientId path)
    (olvidarPropiosYPadre path)

/-- The attributes are forgotten whatever the server answers. -/
def remoteTruncate (e : Estado) (path : CString) (offset : Nat) : Option (Estado × Int) :=
  remoteCambio sb bloquesEnCache cacheActive e (.nipcTruncate c.clientId path (.ofNat offset))
    fun _ => [(path.bytes, .getattrResponse)]

/-- A write request; there is none where the input is shorter than asked for. -/
def pedidoDeEscritura (path : CString) (request : NipcWrite) : Option Pedido :=
  if sized : request.data.length = (UInt32.ofNat request.size).toNat then
    some (.nipcWrite request.clientId path request.data (.ofNat request.size)
      (.ofNat request.offset) sized)
  else none

/-- The `while` of `remote_write`, with whether it ran to its end. -/
def writeLoop (path : CString) (input : List UInt8) (offset : Nat) :
    Nat → Servidor → Int → Option (Servidor × Bool × Int)
  | 0, _, _ => none
  | fuel + 1, s, bytesWrote =>
    if bytesWrote % 2 ^ 64 < input.length then do
      let whole := Int.bmod (input.length - bytesWrote) (2 ^ 32)
      let requestSize := if whole > c.maximumReadWriteSize then (c.maximumReadWriteSize : Int)
        else whole
      let writeData ← pedidoDeEscritura path (newNipcWrite c.clientId path.bytes input
        (requestSize % 2 ^ 32).toNat ((offset + bytesWrote) % 2 ^ 32).toNat)
      let (s, response) ← nipcQuery sb bloquesEnCache s writeData
      if response = .ok then writeLoop path input offset fuel s (bytesWrote + requestSize)
      else some (s, false, checkError response)
    else some (s, true, bytesWrote)

/-- `stats->st_size < offset + size`. -/
def faltaLugar (stSize : UInt32) (input : List UInt8) (offset : Nat) : Bool :=
  stSize.toNat < (offset + input.length) % 2 ^ 64

/-- The requests behind the `getattr`. A loop left early forgets nothing. -/
def escribirConTamanio (e : Estado) (path : CString) (input : List UInt8) (offset : Nat)
    (stSize : UInt32) : Option (Estado × Int) := do
  let (e, errorCode) ← if faltaLugar stSize input offset then
      remoteTruncate sb bloquesEnCache cacheActive c e path (offset + input.length)
    else some (e, 0)
  if errorCode ≠ 0 then some (e, errorCode)
  else do
    let (servidor, termino, valor) ← writeLoop sb bloquesEnCache c path input offset
      (input.length + 1) e.servidor 0
    let cache := if cacheActive && termino then
        deleteMemcached e.cache path.bytes .getattrResponse
      else e.cache
    some (⟨servidor, cache⟩, valor)

def remoteWrite (e : Estado) (path : CString) (input : List UInt8) (offset : Nat) :
    Option (Estado × Int) := do
  let (e, stats) ← remoteGetattr sb bloquesEnCache cacheActive c e path
  match stats with
  | .codigo errorCode => some (e, errorCode)
  | .atributos _ _ stSize _ =>
    escribirConTamanio sb bloquesEnCache cacheActive c e path input offset stSize
  | .entradas _ => none

/-! ### A client's calls, one after another -/

inductive Operacion where
  | create (path : CString) (mode : UInt32)
  | mkdir (path : CString) (mode : UInt32)
  | unlink (path : CString)
  | rmdir (path : CString)
  | write (path : CString) (input : List UInt8) (offset : Nat)
  | truncate (path : CString) (offset : Nat)
  | getattr (path : CString)
  | readdir (path : CString) (offset : Nat)

/-- A call that returns a number. -/
def conCodigo (r : Option (Estado × Int)) : Option (Estado × Resultado) :=
  r.map fun (e, valor) => (e, .codigo valor)

def ejecutar (e : Estado) : Operacion → Option (Estado × Resultado)
  | .create p mode => conCodigo (remoteCreate sb bloquesEnCache cacheActive c e p mode)
  | .mkdir p mode => conCodigo (remoteMkdir sb bloquesEnCache cacheActive c e p mode)
  | .unlink p => conCodigo (remoteUnlink sb bloquesEnCache cacheActive c e p)
  | .rmdir p => conCodigo (remoteRmdir sb bloquesEnCache cacheActive c e p)
  | .write p input offset =>
    conCodigo (remoteWrite sb bloquesEnCache cacheActive c e p input offset)
  | .truncate p offset => conCodigo (remoteTruncate sb bloquesEnCache cacheActive c e p offset)
  | .getattr p => remoteGetattr sb bloquesEnCache cacheActive c e p
  | .readdir p offset => remoteReaddir sb bloquesEnCache cacheActive c e p offset

/-- What a sequence of calls shows. -/
def correr (e : Estado) : List Operacion → Option (List Resultado)
  | [] => some []
  | op :: ops => do
    let (e, visto) ← ejecutar sb bloquesEnCache cacheActive c e op
    let resto ← correr e ops
    some (visto :: resto)

end

end LosAltos.Fsc.Metadata
