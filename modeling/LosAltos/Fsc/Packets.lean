import LosAltos.Fsc.Metadata
import LosAltos.Rfs.Packets

/-!
# The client on packets

`fsc/src/fileSystemClient.c:40-94, 198-245, 271-302, 338-523`, `memcached_utils.c:13-81`. The same
operations one level down: every request is encoded, goes over a connection of its own and is
answered with a packet, and the remote cache holds the data of packets. `remote_getattr` and
`remote_readdir`, and the operations that change something, share a body each.
-/
namespace LosAltos.Fsc.Cable
open Lib Nipc Rfs Rfs.Cable
open Metadata (TipoDeClave sinNul keyForMemcached dirname pedidoDeEscritura faltaLugar Operacion)

abbrev Cache := List UInt8 → Option (List UInt8)

/-- What the filler gets for one entry. -/
structure EntradaStat where
  path : List UInt8
  nLink : UInt32
  mode : UInt32
  size : UInt32
  deriving DecidableEq

inductive Resultado where
  | codigo (valor : Int)
  | atributos (mode nLink size blocks : UInt32)
  | entradas (lista : List EntradaStat)
  deriving DecidableEq

structure Estado where
  servidor : ServidorCable
  cache : Cache
  /-- Connections opened so far. -/
  conexiones : Nat

/-! ### `memcached_utils.c` -/

def nipcTypeDe : TipoDeClave → TipoNipc
  | .getattrResponse => .nipcGetattrResponse
  | .readdirResponse => .nipcReaddirResponse

def queryMemcached (cache : Cache) (path : List UInt8) (tipo : TipoDeClave) (clientId : UInt32) :
    Option NipcPacket :=
  (cache (sinNul (keyForMemcached path tipo ++ [0]))).map fun cachedData =>
    ⟨(nipcTypeDe tipo).code, clientId, .ofNat cachedData.length,
      cachedData.take (cachedData.length % 2 ^ 32), datos_cortados cachedData⟩

def ponEnCache (cache : Cache) (key : List UInt8) (valor : Option (List UInt8)) : Cache :=
  fun k => if k = sinNul key then valor else cache k

/-- The key is that of the type of the packet. -/
def storeMemcached (cache : Cache) (path : List UInt8) (packet : NipcPacket) : Cache :=
  let tipo := if packet.type = TipoNipc.nipcGetattrResponse.code then .getattrResponse
    else .readdirResponse
  ponEnCache cache (keyForMemcached path tipo) (some packet.data)

def deleteMemcached (cache : Cache) (path : List UInt8) (tipo : TipoDeClave) : Cache :=
  ponEnCache cache (keyForMemcached path tipo) none

def olvidar (cache : Cache) : List (List UInt8 × TipoDeClave) → Cache
  | [] => cache
  | (path, tipo) :: resto => olvidar (deleteMemcached cache path tipo) resto

/-! ### Answers -/

/-- `check_error`: the code is read back as an `int32_t`. -/
def checkError (packet : NipcPacket) : Option Int :=
  if packet.type ≠ TipoNipc.nipcError.code then some (-1)
  else do
    let response ← deserializeError packet
    let returnValue := response.errorCode.toInt32.toInt
    some (if returnValue = 0 then -1 else returnValue)

def checkOkError (response : NipcPacket) : Option Int :=
  if response.type = TipoNipc.nipcOk.code then some 0 else checkError response

/-- What is shown of an answer of the expected type; the paths are C strings. -/
def mostrar : TipoDeClave → NipcPacket → Option Resultado
  | .getattrResponse, response => do
    let entry ← deserializeGetattrResponse response
    some (.atributos entry.mode entry.nLink entry.size entry.blocks)
  | .readdirResponse, response => do
    let (entries, _) ← deserializeReaddirResponse response
    some (.entradas (entries.map fun e => ⟨(CString.deBytes e.path).bytes, e.nLink, e.mode, e.size⟩))

section
variable (sb : Superblock) (bloquesEnCache : Bool) (red : Nat → Conexion) (llamadas : Nat)

/-- `nipc_query`, over the next connection. -/
def consultar (w : Estado) (request : NipcPacket) : Option (Estado × NipcPacket) := do
  let (servidor, response) ← nipcQuery (Rfs.Cable.serveRequest sb bloquesEnCache)
    (red w.conexiones) llamadas w.servidor request
  some ({ w with servidor, conexiones := w.conexiones + 1 }, response)

/-- The client id is the one of the answer to the greeting. -/
def remoteHandshake (w : Estado) : Option (Estado × Int × Option UInt32) := do
  let hello ← newNipcHandshakeHello
  let (w, response) ← consultar sb bloquesEnCache red llamadas w hello
  if response.type = TipoNipc.nipcHandshake.code then do
    if ← igualA response.data handshakeOk then some (w, 0, some response.clientId)
    else some (w, -1, none)
  else do
    let valor ← checkError response
    some (w, valor, none)

variable (cacheActive : Bool) (c : Cliente)

def remoteConsulta (w : Estado) (path : CString) (tipo : TipoDeClave) (pedido : Pedido) :
    Option (Estado × Resultado) :=
  match if cacheActive then queryMemcached w.cache path.bytes tipo c.clientId else none with
  | some response => do
    let visto ← mostrar tipo response
    some (w, visto)
  | none => do
    let packet ← pedido.serialize
    let (w, response) ← consultar sb bloquesEnCache red llamadas w packet
    if response.type ≠ (nipcTypeDe tipo).code then do
      let valor ← checkError response
      some (w, .codigo valor)
    else do
      let cache := if cacheActive then storeMemcached w.cache path.bytes response else w.cache
      let visto ← mostrar tipo response
      some ({ w with cache }, visto)

def remoteGetattr (w : Estado) (path : CString) : Option (Estado × Resultado) :=
  remoteConsulta sb bloquesEnCache red llamadas cacheActive c w path .getattrResponse
    (.nipcGetattr c.clientId path)

def remoteReaddir (w : Estado) (path : CString) (offset : Nat) : Option (Estado × Resultado) :=
  remoteConsulta sb bloquesEnCache red llamadas cacheActive c w path .readdirResponse
    (.nipcReaddir c.clientId path (.ofNat offset))

/-- A request, and the keys forgotten on the type of the answer. -/
def remoteCambio (w : Estado) (pedido : Pedido)
    (olvidadas : UInt32 → List (List UInt8 × TipoDeClave)) : Option (Estado × Int) := do
  let packet ← pedido.serialize
  let (w, response) ← consultar sb bloquesEnCache red llamadas w packet
  let cache := if cacheActive then olvidar w.cache (olvidadas response.type) else w.cache
  let valor ← checkOkError response
  some ({ w with cache }, valor)

def olvidarPadre (path : CString) (type : UInt32) : List (List UInt8 × TipoDeClave) :=
  if type = TipoNipc.nipcOk.code then [(dirname path.bytes, .readdirResponse)] else []

def olvidarPropiosYPadre (path : CString) (type : UInt32) : List (List UInt8 × TipoDeClave) :=
  if type = TipoNipc.nipcOk.code then
    [(path.bytes, .getattrResponse), (dirname path.bytes, .readdirResponse)]
  else []

def remoteCreate (w : Estado) (path : CString) (mode : UInt32) : Option (Estado × Int) :=
  remoteCambio sb bloquesEnCache red llamadas cacheActive w (.nipcCreate c.clientId path mode)
    (olvidarPadre path)

def remoteMkdir (w : Estado) (path : CString) (mode : UInt32) : Option (Estado × Int) :=
  remoteCambio sb bloquesEnCache red llamadas cacheActive w (.nipcMkdir c.clientId path mode)
    (olvidarPadre path)

def remoteUnlink (w : Estado) (path : CString) : Option (Estado × Int) :=
  remoteCambio sb bloquesEnCache red llamadas cacheActive w (.nipcUnlink c.clientId path)
    (olvidarPropiosYPadre path)

def remoteRmdir (w : Estado) (path : CString) : Option (Estado × Int) :=
  remoteCambio sb bloquesEnCache red llamadas cacheActive w (.nipcRmdir c.clientId path)
    (olvidarPropiosYPadre path)

def remoteTruncate (w : Estado) (path : CString) (offset : Nat) : Option (Estado × Int) :=
  remoteCambio sb bloquesEnCache red llamadas cacheActive w
    (.nipcTruncate c.clientId path (.ofNat offset)) fun _ => [(path.bytes, .getattrResponse)]

def writeLoop (path : CString) (input : List UInt8) (offset : Nat) :
    Nat → Estado → Int → Option (Estado × Bool × Int)
  | 0, _, _ => none
  | fuel + 1, w, bytesWrote =>
    if bytesWrote % 2 ^ 64 < input.length then do
      let whole := Int.bmod (input.length - bytesWrote) (2 ^ 32)
      let requestSize := if whole > c.maximumReadWriteSize then (c.maximumReadWriteSize : Int)
        else whole
      let writeData ← pedidoDeEscritura path (newNipcWrite c.clientId path.bytes input
        (requestSize % 2 ^ 32).toNat ((offset + bytesWrote) % 2 ^ 32).toNat)
      let packet ← writeData.serialize
      let (w, response) ← consultar sb bloquesEnCache red llamadas w packet
      if response.type = TipoNipc.nipcOk.code then
        writeLoop path input offset fuel w (bytesWrote + requestSize)
      else do
        let valor ← checkError response
        some (w, false, valor)
    else some (w, true, bytesWrote)

def escribirConTamanio (w : Estado) (path : CString) (input : List UInt8) (offset : Nat)
    (stSize : UInt32) : Option (Estado × Int) := do
  let (w, errorCode) ← if faltaLugar stSize input offset then
      remoteTruncate sb bloquesEnCache red llamadas cacheActive c w path (offset + input.length)
    else some (w, 0)
  if errorCode ≠ 0 then some (w, errorCode)
  else do
    let (w, termino, valor) ← writeLoop sb bloquesEnCache red llamadas c path input offset
      (input.length + 1) w 0
    let cache := if cacheActive && termino then deleteMemcached w.cache path.bytes .getattrResponse
      else w.cache
    some ({ w with cache }, valor)

def remoteWrite (w : Estado) (path : CString) (input : List UInt8) (offset : Nat) :
    Option (Estado × Int) := do
  let (w, stats) ← remoteGetattr sb bloquesEnCache red llamadas cacheActive c w path
  match stats with
  | .codigo errorCode => some (w, errorCode)
  | .atributos _ _ stSize _ =>
    escribirConTamanio sb bloquesEnCache red llamadas cacheActive c w path input offset stSize
  | .entradas _ => none

def conCodigo (r : Option (Estado × Int)) : Option (Estado × Resultado) :=
  r.map fun (w, valor) => (w, .codigo valor)

def ejecutar (w : Estado) : Operacion → Option (Estado × Resultado)
  | .create p mode =>
    conCodigo (remoteCreate sb bloquesEnCache red llamadas cacheActive c w p mode)
  | .mkdir p mode => conCodigo (remoteMkdir sb bloquesEnCache red llamadas cacheActive c w p mode)
  | .unlink p => conCodigo (remoteUnlink sb bloquesEnCache red llamadas cacheActive c w p)
  | .rmdir p => conCodigo (remoteRmdir sb bloquesEnCache red llamadas cacheActive c w p)
  | .write p input offset =>
    conCodigo (remoteWrite sb bloquesEnCache red llamadas cacheActive c w p input offset)
  | .truncate p offset =>
    conCodigo (remoteTruncate sb bloquesEnCache red llamadas cacheActive c w p offset)
  | .getattr p => remoteGetattr sb bloquesEnCache red llamadas cacheActive c w p
  | .readdir p offset => remoteReaddir sb bloquesEnCache red llamadas cacheActive c w p offset

/-- What a sequence of calls shows. -/
def correr (w : Estado) : List Operacion → Option (List Resultado)
  | [] => some []
  | op :: ops => do
    let (w, visto) ← ejecutar sb bloquesEnCache red llamadas cacheActive c w op
    let resto ← correr w ops
    some (visto :: resto)

end

end LosAltos.Fsc.Cable
