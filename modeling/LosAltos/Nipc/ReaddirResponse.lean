import LosAltos.Nipc.Requests

/-!
# The listing of a directory on the wire

`commons/src/nipc/nipc.c:630-727`, `nipc.h:253-269`. Each entry is a record that starts with its
own size; the encoder builds the records first and then copies as many bytes of each as it says.
The decoder goes by the sizes alone. There is no result where a copy leaves its buffer.
-/
namespace LosAltos.Nipc
open LosAltos.Lib

/-- `struct readdir_entry`. The path is a C string on one side and, on the other, the bytes
allocated for it. -/
structure NipcReaddirEntry (Path : Type) where
  path : Path
  mode : UInt32
  size : UInt32
  nLink : UInt32
  blocks : UInt32
  deriving DecidableEq

/-- `nonPathEntrySize`. -/
def nonPathEntrySize : UInt32 := 4 + 4 + 4 + 4 + 4

/-! ### The encoder -/

def entrySize (e : NipcReaddirEntry CString) : UInt32 :=
  .ofNat (4 + 4 + 4 + 4 + 4 + e.path.strlen + 1)

/-- What the six copies of the first loop lay out. -/
def camposDeEntrada (e : NipcReaddirEntry CString) : List UInt8 :=
  campo (entrySize e) ++ (campo e.mode ++ (campo e.nLink ++ (campo e.size ++
    (campo e.blocks ++ e.path.conNul))))

/-- One record of `serializedEntries`, allocated with `entrySize` bytes. -/
def serializarEntrada (e : NipcReaddirEntry CString) : Option (List UInt8) :=
  if (camposDeEntrada e).length ≤ (entrySize e).toNat then some (camposDeEntrada e) else none

/-- The first loop: the records, and `entriesSize`. -/
def serializarEntradas (entriesSize : UInt32) :
    List (NipcReaddirEntry CString) → Option (List (List UInt8) × UInt32)
  | [] => some ([], entriesSize)
  | e :: es => do
    let serializedEntry ← serializarEntrada e
    let (resto, total) ← serializarEntradas (entriesSize + entrySize e) es
    some (serializedEntry :: resto, total)

/-- The second loop: of each record, as many bytes as its first word says. -/
def copiarEntradas : List (List UInt8) → Option (List UInt8)
  | [] => some []
  | serializedEntry :: resto => do
    let entrySize ← leerCampo serializedEntry 0
    let copia ← leerTramo serializedEntry 0 entrySize.toNat
    let siguen ← copiarEntradas resto
    some (copia ++ siguen)

def serializeReaddirResponse (clientId : UInt32) (entries : List (NipcReaddirEntry CString)) :
    Option NipcPacket := do
  let entriesLength : UInt32 := .ofNat entries.length
  let (serializedEntries, entriesSize) ← serializarEntradas 0 entries
  let stream ← copiarEntradas serializedEntries
  nuevoPaquete .nipcReaddirResponse clientId (entriesSize + 4).toNat (campo entriesLength ++ stream)

/-! ### The decoder -/

/-- The loop over the entries: what it reads from `stream` on, and where it stops. -/
def leerEntradas (data : List UInt8) :
    Nat → Nat → Option (List (NipcReaddirEntry (List UInt8)) × Nat)
  | 0, stream => some ([], stream)
  | n + 1, stream => do
    let entrySize ← leerCampo data stream
    let mode ← leerCampo data (stream + 4)
    let nLink ← leerCampo data (stream + 8)
    let size ← leerCampo data (stream + 12)
    let blocks ← leerCampo data (stream + 16)
    let pathLength := entrySize - nonPathEntrySize
    let path ← leerTramo data (stream + 20) pathLength.toNat
    let (resto, fin) ← leerEntradas data n (stream + 20 + pathLength.toNat)
    some (⟨path, mode, size, nLink, blocks⟩ :: resto, fin)

/-- The entries and the bytes consumed. -/
def deserializeReaddirResponse (p : NipcPacket) :
    Option (List (NipcReaddirEntry (List UInt8)) × Nat) := do
  let entriesLength ← leerCampo p.data 0
  leerEntradas p.data entriesLength.toNat 4

/-! ### The round trip -/

/-- The entry with the bytes of its string. -/
def NipcReaddirEntry.enMemoria (e : NipcReaddirEntry CString) : NipcReaddirEntry (List UInt8) :=
  { e with path := e.path.conNul }

def tamanioDeEntrada (e : NipcReaddirEntry CString) : Nat := 20 + (e.path.strlen + 1)

/-- The bytes of a listing. -/
def tamanioDeListado (entries : List (NipcReaddirEntry CString)) : Nat :=
  4 + (entries.map tamanioDeEntrada).sum

variable {e : NipcReaddirEntry CString} {entries : List (NipcReaddirEntry CString)} {n : UInt32}

@[simp] theorem campo_length (x : UInt32) : (campo x).length = 4 := toLe_length 4 _

theorem camposDeEntrada_length : (camposDeEntrada e).length = tamanioDeEntrada e := by
  simp only [camposDeEntrada, List.length_append, campo_length, CString.conNul_length,
    tamanioDeEntrada]
  omega

theorem entrySize_toNat (small : tamanioDeEntrada e < 2 ^ 32) :
    (entrySize e).toNat = tamanioDeEntrada e := by
  rw [tamanioDeEntrada] at small
  rw [entrySize, UInt32.toNat_ofNat_of_lt' (by rw [UInt32.size]; omega), tamanioDeEntrada]
  omega

theorem pathLength_toNat (small : tamanioDeEntrada e < 2 ^ 32) :
    (entrySize e - nonPathEntrySize).toNat = e.path.strlen + 1 := by
  have size := entrySize_toNat small
  have constant : nonPathEntrySize.toNat = 20 := by decide
  have fits : nonPathEntrySize ≤ entrySize e := by
    rw [UInt32.le_iff_toNat_le, size, constant, tamanioDeEntrada]
    omega
  rw [UInt32.toNat_sub_of_le _ _ fits, size, constant, tamanioDeEntrada]
  omega

theorem serializarEntrada_some (small : tamanioDeEntrada e < 2 ^ 32) :
    serializarEntrada e = some (camposDeEntrada e) := by
  rw [serializarEntrada, if_pos]
  rw [camposDeEntrada_length, entrySize_toNat small]

/-- The first loop on entries that fit. -/
theorem serializarEntradas_some
    (small : n.toNat + (entries.map tamanioDeEntrada).sum < 2 ^ 32) :
    ∃ total, serializarEntradas n entries = some (entries.map camposDeEntrada, total) ∧
      total.toNat = n.toNat + (entries.map tamanioDeEntrada).sum := by
  induction entries generalizing n with
  | nil => exact ⟨n, rfl, by simp⟩
  | cons e es ih =>
    rw [List.map_cons, List.sum_cons] at small
    have size := entrySize_toNat (e := e) (by omega)
    have more : (n + entrySize e).toNat = n.toNat + tamanioDeEntrada e := by
      rw [UInt32.toNat_add, size, Nat.mod_eq_of_lt (by omega)]
    obtain ⟨total, run, sum⟩ := ih (n := n + entrySize e) (by omega)
    refine ⟨total, ?_, ?_⟩
    · exact Option.bind_eq_some_iff.mpr ⟨_, serializarEntrada_some (by omega),
        Option.bind_eq_some_iff.mpr ⟨_, run, rfl⟩⟩
    · rw [sum, more, List.map_cons, List.sum_cons, Nat.add_assoc]

/-- The second loop copies the records whole. -/
theorem copiarEntradas_some (small : (entries.map tamanioDeEntrada).sum < 2 ^ 32) :
    copiarEntradas (entries.map camposDeEntrada) =
      some (entries.map camposDeEntrada).flatten := by
  induction entries with
  | nil => rfl
  | cons e es ih =>
    rw [List.map_cons, List.sum_cons] at small
    have word : leerCampo (camposDeEntrada e) 0 = some (entrySize e) := leerCampo_append [] _ _
    have whole : leerTramo (camposDeEntrada e) 0 (entrySize e).toNat =
        some (camposDeEntrada e) := by
      have found := leerTramo_append [] (camposDeEntrada e) []
      rw [List.nil_append, List.append_nil, camposDeEntrada_length] at found
      rw [entrySize_toNat (by omega)]
      exact found
    rw [List.map_cons, copiarEntradas, word, ih (by omega), List.flatten_cons]
    simp only [Option.bind_eq_bind, Option.bind_some, whole]

/-- The fields of the record that starts where `pre` ends. -/
theorem campos_leidos (pre tail : List UInt8) (small : tamanioDeEntrada e < 2 ^ 32) :
    leerCampo (pre ++ (camposDeEntrada e ++ tail)) pre.length = some (entrySize e) ∧
      leerCampo (pre ++ (camposDeEntrada e ++ tail)) (pre.length + 4) = some e.mode ∧
      leerCampo (pre ++ (camposDeEntrada e ++ tail)) (pre.length + 8) = some e.nLink ∧
      leerCampo (pre ++ (camposDeEntrada e ++ tail)) (pre.length + 12) = some e.size ∧
      leerCampo (pre ++ (camposDeEntrada e ++ tail)) (pre.length + 16) = some e.blocks ∧
      leerTramo (pre ++ (camposDeEntrada e ++ tail)) (pre.length + 20)
        (entrySize e - nonPathEntrySize).toNat = some e.path.conNul := by
  have first := leerCampo_append pre (campo e.mode ++ (campo e.nLink ++ (campo e.size ++
    (campo e.blocks ++ (e.path.conNul ++ tail))))) (entrySize e)
  have second := leerCampo_append (pre ++ campo (entrySize e))
    (campo e.nLink ++ (campo e.size ++ (campo e.blocks ++ (e.path.conNul ++ tail)))) e.mode
  have third := leerCampo_append (pre ++ (campo (entrySize e) ++ campo e.mode))
    (campo e.size ++ (campo e.blocks ++ (e.path.conNul ++ tail))) e.nLink
  have fourth := leerCampo_append (pre ++ (campo (entrySize e) ++ (campo e.mode ++ campo e.nLink)))
    (campo e.blocks ++ (e.path.conNul ++ tail)) e.size
  have fifth := leerCampo_append
    (pre ++ (campo (entrySize e) ++ (campo e.mode ++ (campo e.nLink ++ campo e.size))))
    (e.path.conNul ++ tail) e.blocks
  have sixth := leerTramo_append (pre ++ (campo (entrySize e) ++ (campo e.mode ++
    (campo e.nLink ++ (campo e.size ++ campo e.blocks))))) e.path.conNul tail
  rw [CString.conNul_length] at sixth
  rw [pathLength_toNat small]
  simp only [List.append_assoc, List.length_append, campo_length] at first second third fourth
  simp only [List.append_assoc, List.length_append, campo_length] at fifth sixth
  simp only [camposDeEntrada, List.append_assoc]
  exact ⟨first, second, third, fourth, fifth, sixth⟩

/-- The decoder reads the records back, whatever is around them. -/
theorem leerEntradas_some (entries : List (NipcReaddirEntry CString)) (pre tail : List UInt8)
    (small : (entries.map tamanioDeEntrada).sum < 2 ^ 32) :
    leerEntradas (pre ++ ((entries.map camposDeEntrada).flatten ++ tail)) entries.length
        pre.length =
      some (entries.map NipcReaddirEntry.enMemoria,
        pre.length + (entries.map tamanioDeEntrada).sum) := by
  induction entries generalizing pre with
  | nil => simp [leerEntradas]
  | cons e es ih =>
    rw [List.map_cons, List.sum_cons] at small
    obtain ⟨size, mode, nLink, bytes, blocks, path⟩ := campos_leidos (e := e) pre
      ((es.map camposDeEntrada).flatten ++ tail) (by omega)
    have rest := ih (pre ++ camposDeEntrada e) (by omega)
    rw [List.length_append, camposDeEntrada_length, List.append_assoc] at rest
    rw [List.map_cons, List.flatten_cons, List.append_assoc, List.length_cons, leerEntradas, size,
      mode, nLink, bytes, blocks]
    simp only [Option.bind_eq_bind, Option.bind_some, path]
    rw [pathLength_toNat (by omega), show pre.length + 20 + (e.path.strlen + 1) =
      pre.length + tamanioDeEntrada e from Nat.add_assoc .., rest]
    simp [NipcReaddirEntry.enMemoria, Nat.add_assoc]

theorem length_le_tamanio (entries : List (NipcReaddirEntry CString)) :
    entries.length ≤ (entries.map tamanioDeEntrada).sum := by
  induction entries with
  | nil => exact Nat.zero_le _
  | cons e es ih =>
    rw [List.length_cons, List.map_cons, List.sum_cons, tamanioDeEntrada]
    omega

theorem nuevoPaquete_type {tipo : TipoNipc} {clientId : UInt32} {n : Int} {data : List UInt8}
    {packet : NipcPacket} (built : nuevoPaquete tipo clientId n data = some packet) :
    packet.type = tipo.code := by
  rw [nuevoPaquete] at built
  split at built
  · cases built
    rfl
  · cases built

/-- A listing of less than 4 GiB comes back as it was, and the decoder consumes all of it. -/
theorem listado_ida_y_vuelta (clientId : UInt32) (bound : tamanioDeListado entries < 2 ^ 32) :
    ∃ packet, serializeReaddirResponse clientId entries = some packet ∧
      packet.type = TipoNipc.nipcReaddirResponse.code ∧
      packet.dataLength.toNat = tamanioDeListado entries ∧
      deserializeReaddirResponse packet =
        some (entries.map NipcReaddirEntry.enMemoria, packet.dataLength.toNat) := by
  rw [tamanioDeListado] at bound ⊢
  have zero : (0 : UInt32).toNat = 0 := rfl
  have small : (0 : UInt32).toNat + (entries.map tamanioDeEntrada).sum < 2 ^ 32 := by omega
  obtain ⟨total, first, sum⟩ := serializarEntradas_some small
  have second : copiarEntradas (entries.map camposDeEntrada) = _ :=
    copiarEntradas_some (by omega)
  have stream : (entries.map camposDeEntrada).flatten.length =
      (entries.map tamanioDeEntrada).sum := by
    rw [List.length_flatten, List.map_map]
    exact congrArg List.sum (List.map_congr_left fun e _ => camposDeEntrada_length)
  have size : (total + 4).toNat = 4 + (entries.map tamanioDeEntrada).sum := by
    rw [UInt32.toNat_add, sum, show (4 : UInt32).toNat = 4 from rfl, Nat.mod_eq_of_lt] <;> omega
  have length : (campo (.ofNat entries.length) ++ (entries.map camposDeEntrada).flatten).length =
      4 + (entries.map tamanioDeEntrada).sum := by
    rw [List.length_append, campo_length, stream]
  obtain ⟨packet, built, -, data⟩ := nuevoPaquete_some .nipcReaddirResponse clientId
    (n := (total + 4).toNat) (by rw [size, length]) (by rw [length]; exact bound)
  have bytes : packet.dataLength.toNat = 4 + (entries.map tamanioDeEntrada).sum := by
    rw [← packet.data_length, data, length]
  refine ⟨packet, ?_, ?_, bytes, ?_⟩
  · simp only [serializeReaddirResponse, first, second, Option.bind_eq_bind, Option.bind_some,
      built]
  · exact nuevoPaquete_type built
  · have count : (UInt32.ofNat entries.length).toNat = entries.length := by
      have few := length_le_tamanio entries
      exact UInt32.toNat_ofNat_of_lt' (by rw [UInt32.size]; omega)
    have head := leerCampo_append [] (entries.map camposDeEntrada).flatten (.ofNat entries.length)
    have found := leerEntradas_some entries (campo (.ofNat entries.length)) [] (by omega)
    rw [List.append_nil, campo_length] at found
    rw [deserializeReaddirResponse, data]
    rw [List.nil_append, List.length_nil] at head
    rw [head, Option.bind_eq_bind, Option.bind_some, count, found, bytes]

/-- The two entries every directory starts with. -/
def listadoVacio : List (NipcReaddirEntry CString) :=
  [⟨⟨[46], by decide⟩, 0o40755, 1024, 2, 2⟩, ⟨⟨[46, 46], by decide⟩, 0o40755, 1024, 3, 2⟩]

theorem listado_ida_y_vuelta_vacio : ∃ packet, serializeReaddirResponse 7 listadoVacio =
      some packet ∧ packet.type = TipoNipc.nipcReaddirResponse.code ∧
      packet.dataLength.toNat = 49 ∧ deserializeReaddirResponse packet =
        some (listadoVacio.map NipcReaddirEntry.enMemoria, packet.dataLength.toNat) :=
  listado_ida_y_vuelta 7 (by decide)

end LosAltos.Nipc
