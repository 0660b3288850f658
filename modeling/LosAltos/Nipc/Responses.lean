import LosAltos.Nipc.ReaddirResponse

/-!
# The answers of the server on the wire

`commons/src/nipc/nipc.c:612-619, 748-924`, `nipc.h:6-7, 244-317`. The attributes of
`nipc_getattr_response` are a `struct readdir_entry` without a path. The packet of an error is
its code, the length of the message and the message without its NUL; the decoder keeps neither
the client of an error nor that of the attributes. There is no result where a copy leaves its
buffer.
-/
namespace LosAltos.Nipc
open LosAltos.Lib

theorem takeWhile_sin_nul (bytes : List UInt8) : 0 ∉ bytes.takeWhile (· ≠ 0) := fun member => by
  simpa using List.mem_takeWhile_imp member

theorem sin_datos : ([] : List UInt8).length = (0 : UInt32).toNat := rfl

/-- Data cut at the length that the field of the packet holds. -/
theorem datos_cortados (data : List UInt8) :
    (data.take (data.length % 2 ^ 32)).length = (UInt32.ofNat data.length).toNat := by
  rw [List.length_take, Nat.min_eq_left (Nat.mod_le ..), UInt32.toNat_ofNat']

/-- The C string at the start of some bytes that are known to end in a NUL. -/
def CString.deBytes (bytes : List UInt8) : CString :=
  ⟨bytes.takeWhile (· ≠ 0), takeWhile_sin_nul bytes⟩

/-- The bytes of a string literal. -/
def CString.deString (s : String) : CString := .deBytes (s.toList.map fun c => .ofNat c.toNat)

def newNipcOk (clientId : UInt32) : NipcPacket :=
  ⟨TipoNipc.nipcOk.code, clientId, 0, [], sin_datos⟩

/-- `dataLength` is the number of bytes read, as a `uint32_t`. -/
def newNipcReadResponse (data : List UInt8) (clientId : UInt32) : NipcPacket :=
  ⟨TipoNipc.nipcReadResponse.code, clientId, .ofNat data.length, data.take (data.length % 2 ^ 32),
    datos_cortados data⟩

/-- The client of the payload is not looked at. -/
def serializeGetattrResponse (entry : NipcReaddirEntry Unit) : Option NipcPacket :=
  nuevoPaquete .nipcGetattrResponse 0 (4 + 4 + 4 + 4)
    (campo entry.mode ++ (campo entry.nLink ++ (campo entry.size ++ campo entry.blocks)))

def deserializeGetattrResponse (p : NipcPacket) : Option (NipcReaddirEntry Unit) := do
  let mode ← leerCampo p.data 0
  let nLink ← leerCampo p.data 4
  let size ← leerCampo p.data 8
  let blocks ← leerCampo p.data 12
  some ⟨(), mode, size, nLink, blocks⟩

/-! ### Handshake -/

def handshakeHello : CString := .deString "Estan listos, chicos?"

def handshakeOk : CString := .deString "Si, mi capitan, estamos listos!"

def newNipcHandshake (message : CString) (clientId : UInt32) : Option NipcPacket :=
  nuevoPaquete .nipcHandshake clientId (message.strlen + 1) message.conNul

def newNipcHandshakeHello : Option NipcPacket := newNipcHandshake handshakeHello 0

def newNipcHandshakeOk (newClientId : UInt32) : Option NipcPacket :=
  newNipcHandshake handshakeOk newClientId

/-! ### Errors -/

/-- `struct nipc_error`. -/
structure NipcError where
  clientId : UInt32
  errorCode : UInt32
  errorMessage : CString
  deriving DecidableEq

def emptyNipcError : NipcError := ⟨0, 0, .deBytes []⟩

def newNipcErrorMessage (errorMessage : CString) : NipcError := { emptyNipcError with errorMessage }

def newNipcErrorCode (clientId : UInt32) (errorNumber : Int) : NipcError :=
  { emptyNipcError with clientId, errorCode := .ofInt errorNumber }

def newNipcError (errorCode : Int) (errorMessage : CString) : NipcError :=
  { emptyNipcError with errorCode := .ofInt errorCode, errorMessage }

def serializeError (payload : NipcError) : Option NipcPacket :=
  let messageLength : UInt32 := .ofNat payload.errorMessage.strlen
  nuevoPaquete .nipcError payload.clientId (4 + 4 + messageLength.toNat)
    (campo payload.errorCode ++
      (campo messageLength ++ payload.errorMessage.bytes.take messageLength.toNat))

def deserializeError (p : NipcPacket) : Option NipcError := do
  let errorCode ← leerCampo p.data 0
  let messageLength ← leerCampo p.data 4
  let message ← leerTramo p.data 8 messageLength.toNat
  some { emptyNipcError with errorCode, errorMessage := .deBytes message }

/-! ### The round trips -/

theorem CString.deBytes_bytes (s : CString) : .deBytes s.bytes = s := by
  have whole : s.bytes.takeWhile (· ≠ 0) = s.bytes := by
    rw [List.takeWhile_eq_self_iff]
    intro b member
    have other : b ≠ 0 := fun nul => s.nulFree (nul ▸ member)
    simpa using other
  cases s
  simp only [deBytes, whole]

theorem serializeError_type {e : NipcError} {packet : NipcPacket}
    (built : serializeError e = some packet) : packet.type = TipoNipc.nipcError.code := by
  unfold serializeError at built
  exact nuevoPaquete_type built

theorem nuevoPaquete_wire (tipo : TipoNipc) (clientId : UInt32) {n : Int} (data : List UInt8)
    (size : n = data.length) (bound : data.length < 2 ^ 32) :
    ∃ packet, nuevoPaquete tipo clientId n data = some packet ∧ packet.type = tipo.code ∧
      packet.clientId = clientId ∧ packet.data = data ∧ packet.dataLength.toNat = data.length := by
  obtain ⟨packet, built, client, bytes⟩ := nuevoPaquete_some tipo clientId size bound
  exact ⟨packet, built, nuevoPaquete_type built, client, bytes, by
    rw [← packet.data_length, bytes]⟩

theorem getattr_ida_y_vuelta (entry : NipcReaddirEntry Unit) :
    ∃ packet, serializeGetattrResponse entry = some packet ∧
      packet.type = TipoNipc.nipcGetattrResponse.code ∧ packet.dataLength.toNat = 16 ∧
      ∀ q : NipcPacket, q.data = packet.data → deserializeGetattrResponse q = some entry := by
  have length : (campo entry.mode ++ (campo entry.nLink ++ (campo entry.size ++
      campo entry.blocks))).length = 16 := by simp
  obtain ⟨packet, built, type, -, data, size⟩ := nuevoPaquete_wire
    .nipcGetattrResponse 0 (n := 16) _ (by rw [length]; rfl) (by rw [length]; decide)
  refine ⟨packet, built, type, size.trans length, fun q same => ?_⟩
  have first := leerCampo_append []
    (campo entry.nLink ++ (campo entry.size ++ campo entry.blocks)) entry.mode
  have second := leerCampo_append (campo entry.mode) (campo entry.size ++ campo entry.blocks)
    entry.nLink
  have third := leerCampo_append (campo entry.mode ++ campo entry.nLink) (campo entry.blocks)
    entry.size
  have fourth := leerCampo_append (campo entry.mode ++ (campo entry.nLink ++ campo entry.size)) []
    entry.blocks
  simp only [List.nil_append, List.append_nil, List.append_assoc, List.length_append,
    List.length_nil, campo_length] at first second third fourth
  simp only [deserializeGetattrResponse, same, data, Option.bind_eq_bind, first, second, third,
    fourth, Option.bind_some]

/-- A code that fits an `int32_t` is read back as it was. -/
theorem toInt32_ofInt {x : Int} (low : -2 ^ 31 ≤ x) (high : x < 2 ^ 31) :
    (UInt32.ofInt x).toInt32.toInt = x := by
  have word : (UInt32.ofInt x).toNat = (x % 2 ^ 32).toNat := by
    rw [UInt32.ofInt, UInt32.toNat_ofNat_of_lt' (by rw [UInt32.size]; omega)]
  have bits : (UInt32.ofInt x).toInt32.toInt = Int.bmod (UInt32.ofInt x).toNat (2 ^ 32) :=
    BitVec.toInt_eq_toNat_bmod _
  rw [bits, word, Int.bmod_def]
  omega

theorem error_ida_y_vuelta (e : NipcError) (short : e.errorMessage.strlen + 8 < 2 ^ 32) :
    ∃ packet, serializeError e = some packet ∧ packet.type = TipoNipc.nipcError.code ∧
      packet.dataLength.toNat = 8 + e.errorMessage.strlen ∧
      deserializeError packet = some { e with clientId := 0 } := by
  have count : (UInt32.ofNat e.errorMessage.strlen).toNat = e.errorMessage.strlen :=
    UInt32.toNat_ofNat_of_lt' (by rw [UInt32.size]; omega)
  have whole : e.errorMessage.bytes.take e.errorMessage.strlen = e.errorMessage.bytes :=
    List.take_length
  have length : (campo e.errorCode ++ (campo (.ofNat e.errorMessage.strlen) ++
      e.errorMessage.bytes)).length = 8 + e.errorMessage.strlen := by
    simp only [List.length_append, campo_length, CString.strlen]
    omega
  obtain ⟨packet, built, type, -, data, size⟩ := nuevoPaquete_wire .nipcError
    e.clientId (n := 4 + 4 + (e.errorMessage.strlen : Int)) _ (by rw [length]; omega) (by rw [length]; omega)
  refine ⟨packet, ?_, type, size.trans length, ?_⟩
  · rw [serializeError]
    simp only [count, whole]
    exact built
  · have first := leerCampo_append []
      (campo (.ofNat e.errorMessage.strlen) ++ e.errorMessage.bytes) e.errorCode
    have second := leerCampo_append (campo e.errorCode) e.errorMessage.bytes
      (.ofNat e.errorMessage.strlen)
    have third := leerTramo_append (campo e.errorCode ++ campo (.ofNat e.errorMessage.strlen))
      e.errorMessage.bytes []
    simp only [List.nil_append, List.append_nil, List.append_assoc, List.length_append,
      List.length_nil, campo_length] at first second third
    rw [← CString.strlen] at third
    simp only [deserializeError, data, Option.bind_eq_bind, first, second, Option.bind_some, count,
      third, CString.deBytes_bytes, emptyNipcError]

/-- The data of a listing is its count and its records, whoever it is for. -/
theorem serializeReaddirResponse_some (entries : List (NipcReaddirEntry CString))
    (clientId : UInt32) (bound : tamanioDeListado entries < 2 ^ 32) :
    ∃ packet, serializeReaddirResponse clientId entries = some packet ∧
      packet.type = TipoNipc.nipcReaddirResponse.code ∧
      packet.dataLength.toNat = tamanioDeListado entries ∧
      packet.data = campo (.ofNat entries.length) ++ (entries.map camposDeEntrada).flatten := by
  rw [tamanioDeListado] at bound ⊢
  have zero : (0 : UInt32).toNat = 0 := rfl
  have small : (0 : UInt32).toNat + (entries.map tamanioDeEntrada).sum < 2 ^ 32 := by omega
  obtain ⟨total, first, sum⟩ := serializarEntradas_some small
  have second : copiarEntradas (entries.map camposDeEntrada) = _ :=
    copiarEntradas_some (by omega)
  have size : (total + 4).toNat = 4 + (entries.map tamanioDeEntrada).sum := by
    rw [UInt32.toNat_add, sum, show (4 : UInt32).toNat = 4 from rfl, Nat.mod_eq_of_lt] <;> omega
  have length : (campo (.ofNat entries.length) ++ (entries.map camposDeEntrada).flatten).length =
      4 + (entries.map tamanioDeEntrada).sum := by
    rw [List.length_append, campo_length, List.length_flatten, List.map_map]
    exact congrArg (4 + List.sum ·) (List.map_congr_left fun e _ => camposDeEntrada_length)
  obtain ⟨packet, built, type, -, data, bytes⟩ := nuevoPaquete_wire
    .nipcReaddirResponse clientId (n := (total + 4).toNat) _ (by rw [size, length]) (by rw [length]; exact bound)
  refine ⟨packet, ?_, type, bytes.trans length, data⟩
  simp only [serializeReaddirResponse, first, second, Option.bind_eq_bind, Option.bind_some, built]

theorem deserializeReaddirResponse_some (entries : List (NipcReaddirEntry CString)) {q : NipcPacket}
    (bound : tamanioDeListado entries < 2 ^ 32)
    (data : q.data = campo (.ofNat entries.length) ++ (entries.map camposDeEntrada).flatten) :
    ∃ fin, deserializeReaddirResponse q =
      some (entries.map NipcReaddirEntry.enMemoria, fin) := by
  rw [tamanioDeListado] at bound
  have few := length_le_tamanio entries
  have count : (UInt32.ofNat entries.length).toNat = entries.length :=
    UInt32.toNat_ofNat_of_lt' (by rw [UInt32.size]; omega)
  have head := leerCampo_append [] (entries.map camposDeEntrada).flatten (.ofNat entries.length)
  have found := leerEntradas_some entries (campo (.ofNat entries.length)) [] (by omega)
  rw [List.append_nil, campo_length] at found
  rw [List.nil_append, List.length_nil] at head
  rw [deserializeReaddirResponse, data, head, Option.bind_eq_bind, Option.bind_some, count, found]
  exact ⟨_, rfl⟩

end LosAltos.Nipc
