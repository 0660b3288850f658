import LosAltos.Fsc.RemoteWrite
import LosAltos.Lib.Memory

/-!
# `remote_read`: a read split into requests

`fsc/src/fileSystemClient.c:154-186`, `nipc.c:174-182`. The answers of the server are an input.
`requestSize` and `bytesRead` are `int`, `size` is a 64-bit `size_t`; the request takes its size
and offset as `uint32_t`. An empty answer ends the loop.
-/
namespace LosAltos.Fsc
open LosAltos.Lib

/-- `struct nipc_read`. -/
structure NipcRead where
  clientId : UInt32
  path : List UInt8
  size : Nat
  offset : Nat
  deriving DecidableEq

/-- What a read request gets: the data of an `nipc_read_response`, or what `check_error`
returns for anything else. -/
inductive RespuestaRead where
  | readResponse (data : List UInt8)
  | error (codigo : Int)

/-- The `while` loop, on the memory from `output` on; `none` only when the fuel runs out. -/
def readLoop (c : Cliente) (query : NipcRead → RespuestaRead) (path : List UInt8)
    (size offset : Nat) : Nat → Int → Memoria → Option (Int × Memoria)
  | 0, _, _ => none
  | fuel + 1, bytesRead, output =>
    if bytesRead % 2 ^ 64 < size then
      let whole := Int.bmod (size - bytesRead) (2 ^ 32)
      let requestSize := if whole > c.maximumReadWriteSize then (c.maximumReadWriteSize : Int)
        else whole
      match query ⟨c.clientId, path, (requestSize % 2 ^ 32).toNat,
        ((offset + bytesRead) % 2 ^ 32).toNat⟩ with
      | .readResponse data =>
        if data.length = 0 then some (bytesRead, output)
        else readLoop c query path size offset fuel (Int.bmod (bytesRead + data.length) (2 ^ 32))
          (escribir output bytesRead data)
      | .error codigo => some (codigo, output)
    else some (bytesRead, output)

/-- Return value and memory, `output` at address 0. -/
def remoteRead (c : Cliente) (query : NipcRead → RespuestaRead) (path : List UInt8)
    (output : Memoria) (size offset : Nat) : Option (Int × Memoria) :=
  readLoop c query path size offset (size + 1) 0 output

/-- The server answers with the bytes of the file, up to the end of the request or of the file. -/
def Sirve (query : NipcRead → RespuestaRead) (path file : List UInt8) : Prop :=
  ∀ request, request.path = path →
    query request = .readResponse ((file.drop request.offset).take request.size)

variable {c : Cliente} {query : NipcRead → RespuestaRead} {path file : List UInt8}
  {size offset b fuel : Nat} {output : Memoria}

theorem bmod_int {n : Nat} (small : n < 2 ^ 31) : Int.bmod (n : Int) (2 ^ 32) = n := by
  rw [Int.bmod_def]
  omega

/-- One turn below `size`, all conversions carried out. -/
theorem readLoop_step (serves : Sirve query path file) (range : offset + size < 2 ^ 31)
    (chunk : c.maximumReadWriteSize < 2 ^ 31) (below : b < size) (output : Memoria) :
    readLoop c query path size offset (fuel + 1) b output =
      let data := (file.drop (offset + b)).take (min c.maximumReadWriteSize (size - b))
      if data.length = 0 then some ((b : Int), output)
      else readLoop c query path size offset fuel (b + data.length : Nat)
        (escribir output b data) := by
  have whole : Int.bmod ((size : Int) - b) (2 ^ 32) = (size - b : Nat) := by
    rw [Int.bmod_def]
    omega
  have request : (if ((size - b : Nat) : Int) > c.maximumReadWriteSize then
      (c.maximumReadWriteSize : Int) else (size - b : Nat)) =
      (min c.maximumReadWriteSize (size - b) : Nat) := by
    split <;> omega
  have width : (((min c.maximumReadWriteSize (size - b) : Nat) : Int) % 2 ^ 32).toNat =
      min c.maximumReadWriteSize (size - b) := by omega
  have position : (((offset : Int) + b) % 2 ^ 32).toNat = offset + b := by omega
  rw [readLoop, if_pos (by omega)]
  simp only [whole, request, width, position]
  rw [serves _ rfl]
  have short : ((file.drop (offset + b)).take (min c.maximumReadWriteSize (size - b))).length ≤
      size - b := by
    rw [List.length_take]
    omega
  generalize (file.drop (offset + b)).take (min c.maximumReadWriteSize (size - b)) = data at *
  have advance : Int.bmod ((b : Int) + data.length) (2 ^ 32) = (b + data.length : Nat) := by
    rw [← Nat.cast_add]
    exact bmod_int (by omega)
  simp only [advance]

/-- The loop when the first `b` bytes of the answer are in place. -/
theorem readLoop_spec (serves : Sirve query path file) (range : offset + size < 2 ^ 31)
    (positive : 0 < c.maximumReadWriteSize) (chunk : c.maximumReadWriteSize < 2 ^ 31)
    (le : b ≤ size) (there : b ≤ (file.drop offset).length) (turns : size < b + fuel) :
    readLoop c query path size offset fuel b (escribir output 0 ((file.drop offset).take b)) =
      some ((((file.drop offset).take size).length : Int),
        escribir output 0 ((file.drop offset).take size)) := by
  induction fuel generalizing b with
  | zero => omega
  | succ fuel ih =>
    rcases Nat.lt_or_eq_of_le le with below | rfl
    · have again : file.drop (offset + b) = (file.drop offset).drop b := by
        rw [List.drop_drop]
      rw [readLoop_step serves range chunk below, again]
      generalize file.drop offset = rest at *
      have length : ((rest.drop b).take (min c.maximumReadWriteSize (size - b))).length =
          min (min c.maximumReadWriteSize (size - b)) (rest.length - b) := by
        rw [List.length_take, List.length_drop]
      simp only
      split
      · -- an empty answer: the file ends here
        have ended : rest.length = b := by omega
        rw [List.take_of_length_le (by omega), List.take_of_length_le (by omega), ended]
      · rename_i some_bytes
        have joined : escribir (escribir output 0 (rest.take b)) b
            ((rest.drop b).take (min c.maximumReadWriteSize (size - b))) =
              escribir output 0 (rest.take (b + ((rest.drop b).take
                (min c.maximumReadWriteSize (size - b))).length)) := by
          have start : (b : Int) = 0 + (rest.take b).length := by
            rw [List.length_take, Nat.min_eq_left there, Int.zero_add]
          have taken : (rest.drop b).take (min c.maximumReadWriteSize (size - b)) =
              (rest.drop b).take ((rest.drop b).take
                (min c.maximumReadWriteSize (size - b))).length := by
            rw [List.length_take, ← List.take_eq_take_min]
          rw [List.take_add, ← taken, start, escribir_append]
        rw [joined]
        exact ih (by omega) (by omega) (by omega)
    · rw [readLoop, if_neg (by omega), List.length_take, Nat.min_eq_left there]

/-- A read fills the buffer with the bytes of the file and nothing else. -/
theorem lectura_por_partes (serves : Sirve query path file)
    (range : offset + size < 2 ^ 31) (positive : 0 < c.maximumReadWriteSize)
    (chunk : c.maximumReadWriteSize < 2 ^ 31) (output : Memoria) :
    remoteRead c query path output size offset =
      some (((min (offset + size) file.length - offset : Nat) : Int),
        escribir output 0 ((file.drop offset).take size)) := by
  have start : escribir output 0 ((file.drop offset).take 0) = output := by
    funext j
    simp [escribir]
  have length : (((file.drop offset).take size).length : Int) =
      (min (offset + size) file.length - offset : Nat) := by
    rw [List.length_take, List.length_drop]
    omega
  rw [remoteRead, ← length]
  nth_rewrite 1 [← start]
  exact readLoop_spec serves range positive chunk (Nat.zero_le size) (Nat.zero_le _) (by omega)

/-- Five bytes in requests of two, of a file that ends after three. -/
theorem lectura_por_partes_corta :
    remoteRead ⟨7, 2⟩ (fun r => .readResponse (([1, 2, 3, 4] : List UInt8).drop r.offset |>.take
      r.size)) [47, 97] (fun _ => 9) 5 1 = some (3, escribir (fun _ => 9) 0 [2, 3, 4]) :=
  lectura_por_partes (fun _ _ => rfl) (by decide) (by decide) (by decide) fun _ => 9

end LosAltos.Fsc
