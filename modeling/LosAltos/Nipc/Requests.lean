import LosAltos.Nipc.Packet
import Mathlib.Data.List.TakeWhile

/-!
# The eleven requests

`commons/src/nipc/nipc.c:16-571`, `nipc.h`. A request travels as its path with the final
NUL, then its fields in a fixed order. Eight serialize functions keep the length of the
path in an `int`; `unlink`, `rmdir` and `getattr` keep it in `data_length`. A `memcpy` of
a negative `int` asks for almost `2 ^ 64` bytes and there is no result; nor is there one
where a deserialize function reads past the data received.
-/
namespace LosAltos.Nipc
open LosAltos.Lib

/-- The bytes of a C string before its NUL. -/
structure CString where
  bytes : List UInt8
  nulFree : 0 ∉ bytes
  deriving DecidableEq

namespace CString

def strlen (s : CString) : Nat := s.bytes.length

def conNul (s : CString) : List UInt8 := s.bytes ++ [0]

@[simp] theorem conNul_length (s : CString) : s.conNul.length = s.strlen + 1 := by
  simp [conNul, strlen]

end CString

inductive Pedido where
  | nipcCreate (clientId : UInt32) (path : CString) (fileMode : UInt32)
  | nipcOpen (clientId : UInt32) (path : CString) (flags : Int32)
  | nipcRead (clientId : UInt32) (path : CString) (size offset : UInt32)
  | nipcWrite (clientId : UInt32) (path : CString) (data : List UInt8) (size offset : UInt32)
      (sized : data.length = size.toNat)
  | nipcUnlink (clientId : UInt32) (path : CString)
  | nipcRelease (clientId : UInt32) (path : CString) (flags : Int32)
  | nipcMkdir (clientId : UInt32) (path : CString) (fileMode : UInt32)
  | nipcRmdir (clientId : UInt32) (path : CString)
  | nipcReaddir (clientId : UInt32) (path : CString) (offset : UInt32)
  | nipcGetattr (clientId : UInt32) (path : CString)
  | nipcTruncate (clientId : UInt32) (path : CString) (offset : UInt32)
  deriving DecidableEq

/-- `nipcType`, as the `empty_nipc_*` functions set it. -/
def Pedido.nipcType : Pedido → TipoNipc
  | .nipcCreate .. => .nipcCreate
  | .nipcOpen .. => .nipcOpen
  | .nipcRead .. => .nipcRead
  | .nipcWrite .. => .nipcWrite
  | .nipcUnlink .. => .nipcUnlink
  | .nipcRelease .. => .nipcRelease
  | .nipcMkdir .. => .nipcMkdir
  | .nipcRmdir .. => .nipcRmdir
  | .nipcReaddir .. => .nipcReaddir
  | .nipcGetattr .. => .nipcGetattr
  | .nipcTruncate .. => .nipcTruncate

/-! ### Encoders -/

/-- The bytes of a `uint32_t` field. -/
def campo (x : UInt32) : List UInt8 := toLe 4 x.toNat

/-- A packet whose data is allocated with `data_length` bytes and filled by the copies. -/
def nuevoPaquete (tipo : TipoNipc) (clientId : UInt32) (dataLength : Int) (data : List UInt8) :
    Option NipcPacket :=
  if h : data.length = (UInt32.ofInt dataLength).toNat then
    some ⟨tipo.code, clientId, .ofInt dataLength, data, h⟩
  else none

/-- `int path_lenght = strlen(payload->path) + 1`. -/
def pathLenght (path : CString) : Int := Int.bmod (path.strlen + 1) (2 ^ 32)

/-- The path, copied with an `int` length, and the fields behind it. -/
def serializarConInt (tipo : TipoNipc) (clientId : UInt32) (path : CString)
    (campos : List UInt8) : Option NipcPacket :=
  if 0 ≤ pathLenght path then
    nuevoPaquete tipo clientId (pathLenght path + campos.length)
      (path.conNul.take (pathLenght path).toNat ++ campos)
  else none

/-- The path alone, copied with the length kept in `data_length`. -/
def serializarSoloPath (tipo : TipoNipc) (clientId : UInt32) (path : CString) :
    Option NipcPacket :=
  nuevoPaquete tipo clientId (path.strlen + 1)
    (path.conNul.take (UInt32.ofInt (path.strlen + 1)).toNat)

def serializeCreate (clientId : UInt32) (path : CString) (fileMode : UInt32) : Option NipcPacket :=
  serializarConInt .nipcCreate clientId path (campo fileMode)

def serializeOpen (clientId : UInt32) (path : CString) (flags : Int32) : Option NipcPacket :=
  serializarConInt .nipcOpen clientId path (campo flags.toUInt32)

def serializeRead (clientId : UInt32) (path : CString) (size offset : UInt32) :
    Option NipcPacket :=
  serializarConInt .nipcRead clientId path (campo size ++ campo offset)

def serializeWrite (clientId : UInt32) (path : CString) (data : List UInt8)
    (size offset : UInt32) : Option NipcPacket :=
  serializarConInt .nipcWrite clientId path (campo size ++ (data.take size.toNat ++ campo offset))

def serializeUnlink (clientId : UInt32) (path : CString) : Option NipcPacket :=
  serializarSoloPath .nipcUnlink clientId path

def serializeRelease (clientId : UInt32) (path : CString) (flags : Int32) : Option NipcPacket :=
  serializarConInt .nipcRelease clientId path (campo flags.toUInt32)

def serializeMkdir (clientId : UInt32) (path : CString) (fileMode : UInt32) : Option NipcPacket :=
  serializarConInt .nipcMkdir clientId path (campo fileMode)

def serializeRmdir (clientId : UInt32) (path : CString) : Option NipcPacket :=
  serializarSoloPath .nipcRmdir clientId path

def serializeReaddir (clientId : UInt32) (path : CString) (offset : UInt32) : Option NipcPacket :=
  serializarConInt .nipcReaddir clientId path (campo offset)

def serializeGetattr (clientId : UInt32) (path : CString) : Option NipcPacket :=
  serializarSoloPath .nipcGetattr clientId path

def serializeTruncate (clientId : UInt32) (path : CString) (offset : UInt32) : Option NipcPacket :=
  serializarConInt .nipcTruncate clientId path (campo offset)

/-- The `serialize` member of the request. -/
def Pedido.serialize : Pedido → Option NipcPacket
  | .nipcCreate c p mode => serializeCreate c p mode
  | .nipcOpen c p flags => serializeOpen c p flags
  | .nipcRead c p size offset => serializeRead c p size offset
  | .nipcWrite c p data size offset _ => serializeWrite c p data size offset
  | .nipcUnlink c p => serializeUnlink c p
  | .nipcRelease c p flags => serializeRelease c p flags
  | .nipcMkdir c p mode => serializeMkdir c p mode
  | .nipcRmdir c p => serializeRmdir c p
  | .nipcReaddir c p offset => serializeReaddir c p offset
  | .nipcGetattr c p => serializeGetattr c p
  | .nipcTruncate c p offset => serializeTruncate c p offset

/-! ### Decoders -/

/-- `strcpy` out of the data, and `path_length`, a `uint32_t`. -/
def leerPath (data : List UInt8) : Option (CString × Nat) :=
  if 0 ∈ data then
    let path : CString := ⟨data.takeWhile (· ≠ 0), fun member => by
      simpa using List.mem_takeWhile_imp member⟩
    some (path, (path.strlen + 1) % 2 ^ 32)
  else none

/-- The `n` bytes at `pos`. -/
def leerTramo (data : List UInt8) (pos n : Nat) : Option (List UInt8) :=
  if pos + n ≤ data.length then some ((data.drop pos).take n) else none

def leerCampo (data : List UInt8) (pos : Nat) : Option UInt32 :=
  (leerTramo data pos 4).map fun bytes => .ofNat (fromLe bytes)

/-- The path and the one field behind it. -/
def leerPathYCampo (p : NipcPacket) : Option (CString × UInt32) := do
  let (path, pathLength) ← leerPath p.data
  let x ← leerCampo p.data pathLength
  some (path, x)

def deserializeCreate (p : NipcPacket) : Option Pedido := do
  let (path, fileMode) ← leerPathYCampo p
  some (.nipcCreate p.clientId path fileMode)

def deserializeOpen (p : NipcPacket) : Option Pedido := do
  let (path, flags) ← leerPathYCampo p
  some (.nipcOpen p.clientId path flags.toInt32)

def deserializeRead (p : NipcPacket) : Option Pedido := do
  let (path, pathLength) ← leerPath p.data
  let size ← leerCampo p.data pathLength
  let offset ← leerCampo p.data (pathLength + 4)
  some (.nipcRead p.clientId path size offset)

def deserializeWrite (p : NipcPacket) : Option Pedido := do
  let (path, pathLength) ← leerPath p.data
  let size ← leerCampo p.data pathLength
  let data ← leerTramo p.data (pathLength + 4) size.toNat
  let offset ← leerCampo p.data (pathLength + 4 + size.toNat)
  if h : data.length = size.toNat then some (.nipcWrite p.clientId path data size offset h)
  else none

def deserializeUnlink (p : NipcPacket) : Option Pedido := do
  let (path, _) ← leerPath p.data
  some (.nipcUnlink p.clientId path)

def deserializeRelease (p : NipcPacket) : Option Pedido := do
  let (path, flags) ← leerPathYCampo p
  some (.nipcRelease p.clientId path flags.toInt32)

def deserializeMkdir (p : NipcPacket) : Option Pedido := do
  let (path, fileMode) ← leerPathYCampo p
  some (.nipcMkdir p.clientId path fileMode)

def deserializeRmdir (p : NipcPacket) : Option Pedido := do
  let (path, _) ← leerPath p.data
  some (.nipcRmdir p.clientId path)

def deserializeReaddir (p : NipcPacket) : Option Pedido := do
  let (path, offset) ← leerPathYCampo p
  some (.nipcReaddir p.clientId path offset)

def deserializeGetattr (p : NipcPacket) : Option Pedido := do
  let (path, _) ← leerPath p.data
  some (.nipcGetattr p.clientId path)

def deserializeTruncate (p : NipcPacket) : Option Pedido := do
  let (path, offset) ← leerPathYCampo p
  some (.nipcTruncate p.clientId path offset)

/-- The `deserialize_*` that `serveRequest` picks for a type. -/
def deserialize (tipo : TipoNipc) (p : NipcPacket) : Option Pedido :=
  match tipo with
  | .nipcCreate => deserializeCreate p
  | .nipcOpen => deserializeOpen p
  | .nipcRead => deserializeRead p
  | .nipcWrite => deserializeWrite p
  | .nipcUnlink => deserializeUnlink p
  | .nipcRelease => deserializeRelease p
  | .nipcMkdir => deserializeMkdir p
  | .nipcRmdir => deserializeRmdir p
  | .nipcReaddir => deserializeReaddir p
  | .nipcGetattr => deserializeGetattr p
  | .nipcTruncate => deserializeTruncate p
  | _ => none

/-- A request put on the wire and read back by the other end. -/
def idaYVuelta (r : Pedido) : Option Pedido := do
  let packet ← r.serialize
  let raw ← nipcSerialize packet
  let received ← nipcDeserialize raw
  deserialize r.nipcType received

/-! ### The round trip -/

namespace Pedido

def clientId : Pedido → UInt32
  | .nipcCreate c .. | .nipcOpen c .. | .nipcRead c .. | .nipcWrite c .. | .nipcUnlink c ..
  | .nipcRelease c .. | .nipcMkdir c .. | .nipcRmdir c .. | .nipcReaddir c .. | .nipcGetattr c ..
  | .nipcTruncate c .. => c

def path : Pedido → CString
  | .nipcCreate _ p .. | .nipcOpen _ p .. | .nipcRead _ p .. | .nipcWrite _ p .. | .nipcUnlink _ p
  | .nipcRelease _ p .. | .nipcMkdir _ p .. | .nipcRmdir _ p | .nipcReaddir _ p .. | .nipcGetattr _ p
  | .nipcTruncate _ p .. => p

/-- What follows the path on the wire. -/
def campos : Pedido → List UInt8
  | .nipcCreate _ _ mode | .nipcMkdir _ _ mode => campo mode
  | .nipcOpen _ _ flags | .nipcRelease _ _ flags => campo flags.toUInt32
  | .nipcRead _ _ size offset => campo size ++ campo offset
  | .nipcWrite _ _ data size offset _ => campo size ++ (data ++ campo offset)
  | .nipcReaddir _ _ offset | .nipcTruncate _ _ offset => campo offset
  | .nipcUnlink _ _ | .nipcRmdir _ _ | .nipcGetattr _ _ => []

def soloPath : Pedido → Bool
  | .nipcUnlink .. | .nipcRmdir .. | .nipcGetattr .. => true
  | _ => false

def payload (r : Pedido) : Nat := r.path.strlen + 1 + r.campos.length

theorem serialize_eq (r : Pedido) : r.serialize =
    if r.soloPath then serializarSoloPath r.nipcType r.clientId r.path
    else serializarConInt r.nipcType r.clientId r.path r.campos := by
  cases r with
  | nipcWrite c p data size offset sized =>
    have whole : data.take size.toNat = data := by rw [← sized, List.take_length]
    simp [serialize, serializeWrite, whole, soloPath, nipcType, clientId, path, campos]
  | _ =>
    simp [serialize, serializeCreate, serializeOpen, serializeRead, serializeUnlink,
      serializeRelease, serializeMkdir, serializeRmdir, serializeReaddir, serializeGetattr,
      serializeTruncate, soloPath, nipcType, clientId, path, campos]

end Pedido

theorem ofInt_toNat {n : Nat} (bound : n < 2 ^ 32) : (UInt32.ofInt (n : Int)).toNat = n := by
  have same : ((n : Int) % 2 ^ 32).toNat = n := by omega
  rw [UInt32.ofInt, same, UInt32.toNat_ofNat_of_lt' bound]

theorem nuevoPaquete_some (tipo : TipoNipc) (clientId : UInt32) {n : Int} {data : List UInt8}
    (size : n = data.length) (bound : data.length < 2 ^ 32) :
    ∃ packet, nuevoPaquete tipo clientId n data = some packet ∧
      packet.clientId = clientId ∧ packet.data = data := by
  subst size
  rw [nuevoPaquete, dif_pos (ofInt_toNat bound).symm]
  exact ⟨_, rfl, rfl, rfl⟩

theorem bmod_of_small {n : Nat} (small : n + 1 < 2 ^ 31) :
    Int.bmod ((n : Int) + 1) (2 ^ 32) = (n + 1 : Nat) := by
  rw [Int.bmod_def]
  omega

theorem bmod_of_large {n : Nat} (large : 2 ^ 31 ≤ n + 1) (bound : n + 1 < 2 ^ 32) :
    Int.bmod ((n : Int) + 1) (2 ^ 32) < 0 := by
  rw [Int.bmod_def]
  omega

theorem pathLenght_eq {path : CString} (small : path.strlen + 1 < 2 ^ 31) :
    pathLenght path = (path.strlen + 1 : Nat) := bmod_of_small small

theorem pathLenght_neg {path : CString} (large : 2 ^ 31 ≤ path.strlen + 1)
    (bound : path.strlen + 1 < 2 ^ 32) : pathLenght path < 0 := bmod_of_large large bound

/-- What the serialize functions make of a request, when the `int` holds its length. -/
theorem serialize_some (r : Pedido) (bound : r.payload < 2 ^ 32)
    (short : r.soloPath = true ∨ r.path.strlen + 1 < 2 ^ 31) :
    ∃ packet, r.serialize = some packet ∧ packet.clientId = r.clientId ∧
      packet.data = r.path.conNul ++ r.campos := by
  rw [Pedido.payload] at bound
  rw [Pedido.serialize_eq]
  split
  · rename_i alone
    have nothing : r.campos = [] := by cases r <;> first | rfl | simp [Pedido.soloPath] at alone
    have size : (UInt32.ofInt ((r.path.strlen : Int) + 1)).toNat = r.path.strlen + 1 :=
      ofInt_toNat (n := r.path.strlen + 1) (by omega)
    have whole : r.path.conNul.take (r.path.strlen + 1) = r.path.conNul :=
      List.take_of_length_le (by simp)
    rw [serializarSoloPath, size, whole, nothing, List.append_nil]
    exact nuevoPaquete_some _ _ (by simp) (by simp; omega)
  · rename_i fields
    have small : r.path.strlen + 1 < 2 ^ 31 := by simpa [fields] using short
    have whole : r.path.conNul.take (r.path.strlen + 1) = r.path.conNul :=
      List.take_of_length_le (by simp)
    rw [serializarConInt, pathLenght_eq small, if_pos (by omega), Int.toNat_natCast, whole]
    exact nuevoPaquete_some _ _ (by simp) (by simp; omega)

/-- Past `2 ^ 31` bytes the `int` is negative. -/
theorem serialize_none (r : Pedido) (bound : r.payload < 2 ^ 32) (fields : r.soloPath = false)
    (large : 2 ^ 31 ≤ r.path.strlen + 1) : r.serialize = none := by
  rw [Pedido.payload] at bound
  have negative := pathLenght_neg large (by omega)
  rw [Pedido.serialize_eq, fields, if_neg (by simp), serializarConInt, if_neg (by omega)]

/-! What the decoders find in the data. -/

theorem leerPath_conNul (path : CString) (tail : List UInt8) :
    leerPath (path.conNul ++ tail) = some (path, (path.strlen + 1) % 2 ^ 32) := by
  have prefixed : (path.conNul ++ tail).takeWhile (· ≠ 0) = path.bytes := by
    have present : ∀ b ∈ path.bytes, (b ≠ 0) = true := by
      intro b member
      simp only [ne_eq, eq_iff_iff, iff_true]
      rintro rfl
      exact path.nulFree member
    rw [CString.conNul, List.append_assoc, List.takeWhile_append_of_pos (by simpa using present)]
    simp
  rw [leerPath, if_pos (by simp [CString.conNul])]
  simp only [prefixed]

theorem leerTramo_append (pre middle tail : List UInt8) :
    leerTramo (pre ++ (middle ++ tail)) pre.length middle.length = some middle := by
  rw [leerTramo, if_pos (by simp), List.drop_left, List.take_left]

theorem leerCampo_append (pre tail : List UInt8) (x : UInt32) :
    leerCampo (pre ++ (campo x ++ tail)) pre.length = some x := by
  have width : (campo x).length = 4 := toLe_length 4 _
  have found := leerTramo_append pre (campo x) tail
  rw [width] at found
  rw [leerCampo, found, Option.map_some, campo, ofNat_fromLe_toLe]

theorem leerPathYCampo_some {path : CString} {x : UInt32} {packet : NipcPacket}
    (bound : path.strlen + 1 < 2 ^ 32) (data : packet.data = path.conNul ++ campo x) :
    leerPathYCampo packet = some (path, x) := by
  have value := leerCampo_append path.conNul [] x
  rw [List.append_nil, CString.conNul_length] at value
  simp only [leerPathYCampo, data, leerPath_conNul, Nat.mod_eq_of_lt bound, Option.bind_eq_bind,
    Option.bind_some, value]

/-- A packet with the bytes of a request is decoded to the request. -/
theorem deserialize_some (r : Pedido) (bound : r.payload < 2 ^ 32) {packet : NipcPacket}
    (client : packet.clientId = r.clientId) (data : packet.data = r.path.conNul ++ r.campos) :
    deserialize r.nipcType packet = some r := by
  have short : r.path.strlen + 1 < 2 ^ 32 := by
    rw [Pedido.payload] at bound
    omega
  have found : leerPath packet.data = some (r.path, r.path.strlen + 1) := by
    rw [data, leerPath_conNul, Nat.mod_eq_of_lt short]
  cases r with
  | nipcRead c p size offset =>
    have first := leerCampo_append p.conNul (campo offset) size
    have second := leerCampo_append (p.conNul ++ campo size) [] offset
    rw [CString.conNul_length] at first
    rw [List.append_nil, List.append_assoc, List.length_append, CString.conNul_length,
      show (campo size).length = 4 from toLe_length 4 _] at second
    simp only [deserialize, Pedido.nipcType, deserializeRead, found, Option.bind_eq_bind,
      Option.bind_some]
    rw [data]
    simp only [Pedido.path, Pedido.campos, first, second, Option.bind_some, client,
      Pedido.clientId]
  | nipcWrite c p bytes size offset sized =>
    have first := leerCampo_append p.conNul (bytes ++ campo offset) size
    have second := leerTramo_append (p.conNul ++ campo size) bytes (campo offset)
    have third := leerCampo_append (p.conNul ++ campo size ++ bytes) [] offset
    rw [CString.conNul_length] at first
    rw [List.append_assoc, List.length_append, CString.conNul_length,
      show (campo size).length = 4 from toLe_length 4 _, sized] at second
    rw [List.append_nil, List.append_assoc, List.append_assoc, List.length_append,
      List.length_append, CString.conNul_length,
      show (campo size).length = 4 from toLe_length 4 _, sized] at third
    simp only [deserialize, Pedido.nipcType, deserializeWrite, found, Option.bind_eq_bind,
      Option.bind_some]
    rw [data]
    simp only [Pedido.path, Pedido.campos, first, second, third, Option.bind_some, client,
      Pedido.clientId, sized, ↓reduceDIte]
  | nipcUnlink c p | nipcRmdir c p | nipcGetattr c p =>
    simp only [deserialize, Pedido.nipcType, deserializeUnlink, deserializeRmdir,
      deserializeGetattr, found, Option.bind_eq_bind, Option.bind_some, client, Pedido.clientId,
      Pedido.path]
  | nipcOpen c p flags | nipcRelease c p flags =>
    simp only [deserialize, Pedido.nipcType, deserializeOpen, deserializeRelease,
      leerPathYCampo_some short data, Option.bind_eq_bind, Option.bind_some, client,
      Pedido.clientId, Pedido.path, Int32.toInt32_toUInt32]
  | nipcCreate c p x | nipcMkdir c p x | nipcReaddir c p x | nipcTruncate c p x =>
    simp only [deserialize, Pedido.nipcType, deserializeCreate, deserializeMkdir,
      deserializeReaddir, deserializeTruncate, leerPathYCampo_some short data,
      Option.bind_eq_bind, Option.bind_some, client, Pedido.clientId, Pedido.path]

/-- A request that fits a packet comes back as it was exactly when the length of its path
needs no `int` or fits one. -/
theorem ida_y_vuelta (r : Pedido) (bound : r.payload < 2 ^ 32 - 12) :
    idaYVuelta r = some r ↔ r.soloPath = true ∨ r.path.strlen + 1 < 2 ^ 31 := by
  constructor
  · intro back
    by_contra failing
    rw [not_or, Bool.not_eq_true, not_lt] at failing
    have nothing := serialize_none r (by omega) failing.1 failing.2
    simp [idaYVuelta, nothing] at back
  · intro short
    obtain ⟨packet, encoded, client, data⟩ := serialize_some r (by omega) short
    have length : packet.dataLength.toNat < 2 ^ 32 - 12 := by
      rw [← packet.data_length, data, List.length_append, CString.conNul_length]
      exact bound
    have sent := (nipcSerialize_eq_some packet (wire packet)).mpr ⟨length, rfl⟩
    simp only [idaYVuelta, encoded, sent, nipcDeserialize_wire, Option.bind_eq_bind,
      Option.bind_some]
    exact deserialize_some r (by omega) client data

/-- A write of three bytes, one of them NUL, at the end of the longest offset. -/
theorem ida_y_vuelta_write :
    idaYVuelta (.nipcWrite 7 ⟨[47, 97], by decide⟩ [1, 0, 2] 3 4294967295 rfl) =
      some (.nipcWrite 7 ⟨[47, 97], by decide⟩ [1, 0, 2] 3 4294967295 rfl) :=
  (ida_y_vuelta _ (by decide)).mpr (.inr (by decide))

/-- A path of `2 ^ 31 - 1` bytes. -/
theorem ida_y_vuelta_path_largo :
    ¬∀ r : Pedido, r.payload < 2 ^ 32 - 12 → idaYVuelta r = some r := by
  intro all
  have nulFree : (0 : UInt8) ∉ List.replicate (2 ^ 31 - 1) 97 := fun member =>
    absurd (List.eq_of_mem_replicate member) (by decide)
  have length : CString.strlen ⟨List.replicate (2 ^ 31 - 1) 97, nulFree⟩ = 2 ^ 31 - 1 :=
    List.length_replicate
  generalize (⟨List.replicate (2 ^ 31 - 1) 97, nulFree⟩ : CString) = path at length
  have payload : (Pedido.nipcCreate 0 path 0).payload = 2 ^ 31 + 4 := by
    rw [Pedido.payload, Pedido.path, length, Pedido.campos, campo, toLe_length]
    omega
  have back := all (.nipcCreate 0 path 0) (by omega)
  have nothing := serialize_none (.nipcCreate 0 path 0) (by omega) rfl (by
    rw [Pedido.path, length]
    omega)
  simp [idaYVuelta, nothing] at back

end LosAltos.Nipc
