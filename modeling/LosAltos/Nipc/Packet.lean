import LosAltos.Lib.LittleEndian

/-!
# NIPC packets and their wire form

`commons/src/nipc/nipc.h`, `nipc.c:573-604`. A packet on the wire is its type,
client id and data length, four little-endian bytes each, followed by the data.
`nipcSerialize` computes the buffer size in `uint32_t`; when that sum wraps, the
`memcpy` of the data runs past the allocated buffer and there is no result.
-/
namespace LosAltos.Nipc
open LosAltos.Lib

/-- `enum tipo_nipc`, in the order of the header. -/
inductive TipoNipc where
  | nipcCreate | nipcOpen | nipcRead | nipcWrite | nipcUnlink | nipcRelease
  | nipcMkdir | nipcRmdir | nipcReaddir | nipcGetattr | nipcTruncate | nipcError
  | nipcOk | nipcReadResponse | nipcReaddirResponse | nipcGetattrResponse | nipcHandshake
  deriving DecidableEq, Repr

/-- The value an enumerator has in C, which is what travels in the header. -/
def TipoNipc.code (t : TipoNipc) : UInt32 := UInt32.ofNat t.ctorIdx

/-- `struct nipc_packet`. A received type may be any 32-bit value. -/
structure NipcPacket where
  type : UInt32
  clientId : UInt32
  dataLength : UInt32
  data : List UInt8
  data_length : data.length = dataLength.toNat
  deriving DecidableEq

/-- `sizeof(type) + sizeof(client_id) + sizeof(data_length)`. -/
def headerSize : Nat := 12

def header (p : NipcPacket) : List UInt8 :=
  toLe 4 p.type.toNat ++ toLe 4 p.clientId.toNat ++ toLe 4 p.dataLength.toNat

/-- The bytes the four `memcpy` calls of `nipc_serialize` lay out. -/
def wire (p : NipcPacket) : List UInt8 := header p ++ p.data

def nipcSerialize (p : NipcPacket) : Option (List UInt8) :=
  let packetSize := (4 + 4 + 4 + p.dataLength.toNat) % 2 ^ 32
  if (wire p).length ≤ packetSize then some (wire p) else none

/-- The four bytes at `offset`, read as a `uint32_t`. -/
def word32At (raw : List UInt8) (offset : Nat) : UInt32 :=
  UInt32.ofNat (fromLe ((raw.drop offset).take 4))

/-- No result stands for a read past the end of the received buffer. -/
def nipcDeserialize (raw : List UInt8) : Option NipcPacket :=
  let length := word32At raw 8
  let data := (raw.drop headerSize).take length.toNat
  if h : data.length = length.toNat ∧ headerSize ≤ raw.length then
    some ⟨word32At raw 0, word32At raw 4, length, data, h.1⟩
  else none

@[simp] theorem header_length (p : NipcPacket) : (header p).length = headerSize := by
  simp [header, headerSize]

@[simp] theorem wire_length (p : NipcPacket) :
    (wire p).length = headerSize + p.dataLength.toNat := by
  simp [wire, p.data_length]

theorem nipcSerialize_eq_some (p : NipcPacket) (raw : List UInt8) :
    nipcSerialize p = some raw ↔ p.dataLength.toNat < 2 ^ 32 - 12 ∧ raw = wire p := by
  have length : (wire p).length = 12 + p.dataLength.toNat := wire_length p
  have bound : p.dataLength.toNat < 2 ^ 32 := p.dataLength.toNat_lt
  simp only [nipcSerialize, length]
  by_cases fits : p.dataLength.toNat < 2 ^ 32 - 12
  · rw [if_pos (by omega)]
    simp only [fits, true_and, Option.some.injEq]
    exact eq_comm
  · rw [if_neg (by omega)]
    simp only [fits, false_and, reduceCtorEq]

theorem ofNat_fromLe_toLe (x : UInt32) : UInt32.ofNat (fromLe (toLe 4 x.toNat)) = x := by
  rw [fromLe_toLe_of_lt (by exact x.toNat_lt)]
  exact UInt32.ofNat_toNat

theorem word32At_append (pre tail : List UInt8) (x : UInt32) :
    word32At (pre ++ (toLe 4 x.toNat ++ tail)) pre.length = x := by
  unfold word32At
  rw [List.drop_left, List.take_append_of_le_length (by simp), List.take_of_length_le (by simp)]
  exact ofNat_fromLe_toLe x

theorem word32At_wire (p : NipcPacket) :
    word32At (wire p) 0 = p.type ∧ word32At (wire p) 4 = p.clientId ∧
      word32At (wire p) 8 = p.dataLength := by
  have first := word32At_append [] (toLe 4 p.clientId.toNat ++ toLe 4 p.dataLength.toNat ++ p.data)
    p.type
  have second := word32At_append (toLe 4 p.type.toNat) (toLe 4 p.dataLength.toNat ++ p.data)
    p.clientId
  have third := word32At_append (toLe 4 p.type.toNat ++ toLe 4 p.clientId.toNat) p.data
    p.dataLength
  simp only [List.length_append, toLe_length, List.length_nil, List.nil_append,
    List.append_assoc] at first second third
  simp only [wire, header, List.append_assoc]
  exact ⟨first, second, third⟩

/-- The decoder inverts the encoder on every packet. -/
theorem nipcDeserialize_wire (p : NipcPacket) : nipcDeserialize (wire p) = some p := by
  obtain ⟨type, client, length⟩ := word32At_wire p
  have body : (wire p).drop headerSize = p.data := by
    rw [wire, ← header_length p, List.drop_left]
  have data : ((wire p).drop headerSize).take p.dataLength.toNat = p.data := by
    rw [body, ← p.data_length, List.take_length]
  cases p with
  | mk t c n bytes eq => simp [nipcDeserialize, type, client, length, data, eq]

/-- A buffer shorter than its own header announces is never decoded. -/
theorem nipcDeserialize_short (raw : List UInt8)
    (short : raw.length < headerSize + (word32At raw 8).toNat) : nipcDeserialize raw = none := by
  unfold nipcDeserialize
  apply dif_neg
  rintro ⟨data, head⟩
  simp only [List.length_take, List.length_drop] at data
  omega

end LosAltos.Nipc
