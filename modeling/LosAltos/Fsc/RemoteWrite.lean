import LosAltos.Nipc.Packet

/-!
# `remote_write`: a write split into requests

`fsc/src/fileSystemClient.c:198-245`, `nipc.c:235-246`. The answers of the server
are an input. `requestSize` and `bytesWrote` are `int`, `size` is a 64-bit
`size_t`; the request takes its size and offset as `uint32_t`.
-/
namespace LosAltos.Fsc

/-- `struct nipc_write`. -/
structure NipcWrite where
  clientId : UInt32
  path : List UInt8
  data : List UInt8
  size : Nat
  offset : Nat
  deriving DecidableEq, Repr

/-- `new_nipc_write`: the request owns a copy of `size` bytes from `data`. -/
def newNipcWrite (clientId : UInt32) (path data : List UInt8) (size offset : Nat) : NipcWrite :=
  ⟨clientId, path, data.take size, size, offset⟩

/-- What the server side of one `remote_write` call answers: `remote_getattr`'s
return value with `st_size`, `remote_truncate`'s return value, and for the n-th
write request `none` for an `nipc_ok` or what `check_error` returns. -/
structure Respuestas where
  getattr : Int × Nat
  truncate : Nat → Int
  write : Nat → NipcWrite → Option Int

structure Cliente where
  clientId : UInt32
  maximumReadWriteSize : Nat

/-- The `while` loop; `none` only when the fuel runs out. -/
def writeLoop (c : Cliente) (r : Respuestas) (path input : List UInt8) (size offset : Nat) :
    Nat → Int → List NipcWrite → Option (Int × List NipcWrite)
  | 0, _, _ => none
  | fuel + 1, bytesWrote, emitted =>
    if bytesWrote % 2 ^ 64 < size then
      let whole := Int.bmod (size - bytesWrote) (2 ^ 32)
      let requestSize := if whole > c.maximumReadWriteSize then (c.maximumReadWriteSize : Int) else whole
      let writeData := newNipcWrite c.clientId path input (requestSize % 2 ^ 32).toNat
        ((offset + bytesWrote) % 2 ^ 32).toNat
      match r.write emitted.length writeData with
      | none => writeLoop c r path input size offset fuel (bytesWrote + requestSize)
          (emitted ++ [writeData])
      | some error => some (error, emitted ++ [writeData])
    else some (bytesWrote, emitted)

/-- Return value and the write requests emitted. -/
def remoteWrite (c : Cliente) (r : Respuestas) (path input : List UInt8) (size offset : Nat) :
    Option (Int × List NipcWrite) :=
  if r.getattr.1 ≠ 0 then some (r.getattr.1, [])
  else
    let errorCode := if r.getattr.2 < offset + size then r.truncate (offset + size) else 0
    if errorCode ≠ 0 then some (errorCode, [])
    else writeLoop c r path input size offset (size + 1) 0 []

/-- Every request of the call succeeds. -/
structure Respuestas.Exito (r : Respuestas) : Prop where
  getattr : r.getattr.1 = 0
  truncate : ∀ n, r.truncate n = 0
  write : ∀ n request, r.write n request = none

/-- Non-empty requests for consecutive byte ranges from `start` up to `stop`. -/
def Consecutivos : Nat → List NipcWrite → Nat → Prop
  | start, [], stop => start = stop
  | start, request :: rest, stop =>
    request.offset = start ∧ 0 < request.size ∧ Consecutivos (start + request.size) rest stop

/-- Each byte a request carries is the input byte for its file position. -/
def LlevaEntrada (input : List UInt8) (offset : Nat) (requests : List NipcWrite) : Prop :=
  ∀ request ∈ requests, ∀ j, j < request.size →
    request.data[j]? = input[request.offset - offset + j]?

/-- The write the caller asked for: the ranges cover `[offset, offset + size)`,
carry the input, and all of it is reported written. -/
structure EscribeTodo (input : List UInt8) (size offset : Nat) (result : Int × List NipcWrite) :
    Prop where
  ranges : Consecutivos offset result.2 (offset + size)
  bytes : LlevaEntrada input offset result.2
  returned : result.1 = size

section
variable (c : Cliente) (r : Respuestas) (path input : List UInt8) (size offset : Nat)

/-- One turn of the loop below `size`, all conversions carried out. -/
theorem writeLoop_step (ok : r.Exito) (small : size < 2 ^ 31) (range : offset + size < 2 ^ 32)
    (chunk : c.maximumReadWriteSize < 2 ^ 31) (fuel b : Nat) (emitted : List NipcWrite)
    (below : b < size) :
    writeLoop c r path input size offset (fuel + 1) b emitted =
      writeLoop c r path input size offset fuel
        (b + min c.maximumReadWriteSize (size - b) : Nat)
        (emitted ++ [newNipcWrite c.clientId path input (min c.maximumReadWriteSize (size - b))
          (offset + b)]) := by
  have whole : Int.bmod ((size : Int) - b) (2 ^ 32) = (size - b : Nat) := by
    rw [Int.bmod_def]
    omega
  have request : (if ((size - b : Nat) : Int) > c.maximumReadWriteSize then
      (c.maximumReadWriteSize : Int) else (size - b : Nat)) =
      (min c.maximumReadWriteSize (size - b) : Nat) := by
    split <;> omega
  have width : (((min c.maximumReadWriteSize (size - b) : Nat) : Int) % 2 ^ 32).toNat =
      min c.maximumReadWriteSize (size - b) := by omega
  have position : (((offset : Int) + b) % 2 ^ 32).toNat = offset + b := by omega
  rw [writeLoop, if_pos (by omega)]
  simp only [whole, request, width, position, ok.write, Nat.cast_add]

theorem writeLoop_done (small : size < 2 ^ 31) (fuel : Nat) (emitted : List NipcWrite) :
    writeLoop c r path input size offset (fuel + 1) size emitted = some ((size : Int), emitted) := by
  rw [writeLoop, if_neg (by omega)]

theorem llevaEntrada_cons (request : NipcWrite) (rest : List NipcWrite) :
    LlevaEntrada input offset (request :: rest) ↔
      (∀ j, j < request.size → request.data[j]? = input[request.offset - offset + j]?) ∧
        LlevaEntrada input offset rest := by
  simp [LlevaEntrada]

/-- A request at chunk boundary `q` carries the input when the input repeats its
first chunk there. -/
theorem lleva_chunk_iff (q width : Nat) (within : width ≤ c.maximumReadWriteSize) :
    (∀ j, j < width → (input.take width)[j]? =
        input[offset + q * c.maximumReadWriteSize - offset + j]?) ↔
      ∀ i, q * c.maximumReadWriteSize ≤ i → i < q * c.maximumReadWriteSize + width →
        input[i]? = input[i % c.maximumReadWriteSize]? := by
  have shift : offset + q * c.maximumReadWriteSize - offset = q * c.maximumReadWriteSize := by omega
  have residue : ∀ j, j < width →
      (q * c.maximumReadWriteSize + j) % c.maximumReadWriteSize = j := fun j inside => by
    rw [Nat.mul_comm, Nat.mul_add_mod, Nat.mod_eq_of_lt (by omega)]
  rw [shift]
  constructor
  · intro carried i low high
    obtain ⟨j, rfl⟩ := Nat.exists_eq_add_of_le low
    have inside : j < width := by omega
    rw [residue j inside, ← carried j inside, List.getElem?_take_of_lt inside]
  · intro periodic j inside
    rw [List.getElem?_take_of_lt inside,
      periodic (q * c.maximumReadWriteSize + j) (by omega) (by omega), residue j inside]

/-- From a chunk boundary on, the requests cover the rest of the range, and they
carry the input exactly when the input repeats its first chunk there. -/
theorem writeLoop_spec (ok : r.Exito) (small : size < 2 ^ 31) (range : offset + size < 2 ^ 32)
    (positive : 0 < c.maximumReadWriteSize) (chunk : c.maximumReadWriteSize < 2 ^ 31)
    (fuel : Nat) : ∀ (q : Nat) (emitted : List NipcWrite),
      q * c.maximumReadWriteSize ≤ size → size - q * c.maximumReadWriteSize < fuel →
      ∃ requests,
        writeLoop c r path input size offset fuel (q * c.maximumReadWriteSize : Nat) emitted =
          some ((size : Int), emitted ++ requests) ∧
        Consecutivos (offset + q * c.maximumReadWriteSize) requests (offset + size) ∧
        (LlevaEntrada input offset requests ↔
          ∀ i, q * c.maximumReadWriteSize ≤ i → i < size →
            input[i]? = input[i % c.maximumReadWriteSize]?) := by
  induction fuel with
  | zero => intro q emitted _ enough; omega
  | succ fuel ih =>
    intro q emitted start enough
    have next : (q + 1) * c.maximumReadWriteSize =
        q * c.maximumReadWriteSize + c.maximumReadWriteSize := Nat.succ_mul _ _
    by_cases below : q * c.maximumReadWriteSize < size
    · rw [writeLoop_step c r path input size offset ok small range chunk fuel _ emitted below]
      have piece := lleva_chunk_iff c input offset q
        (min c.maximumReadWriteSize (size - q * c.maximumReadWriteSize)) (by omega)
      by_cases full : c.maximumReadWriteSize ≤ size - q * c.maximumReadWriteSize
      · rw [Nat.min_eq_left full] at piece ⊢
        obtain ⟨requests, runs, covers, carries⟩ := ih (q + 1) (emitted ++
          [newNipcWrite c.clientId path input c.maximumReadWriteSize
            (offset + q * c.maximumReadWriteSize)]) (by omega) (by omega)
        rw [next] at runs covers carries
        refine ⟨newNipcWrite c.clientId path input c.maximumReadWriteSize
          (offset + q * c.maximumReadWriteSize) :: requests, ?_, ⟨rfl, positive, ?_⟩, ?_⟩
        · rw [runs, List.append_assoc]
          rfl
        · simpa [newNipcWrite, Nat.add_assoc] using covers
        · rw [llevaEntrada_cons, carries]
          simp only [newNipcWrite]
          rw [piece]
          constructor
          · rintro ⟨here, later⟩ i low high
            by_cases first : i < q * c.maximumReadWriteSize + c.maximumReadWriteSize
            · exact here i low first
            · exact later i (by omega) high
          · intro all
            exact ⟨fun i low high => all i low (by omega), fun i low high => all i (by omega) high⟩
      · -- the last, short chunk
        rw [Nat.min_eq_right (by omega)] at piece ⊢
        obtain ⟨fuel, rfl⟩ : ∃ k, fuel = k + 1 := ⟨fuel - 1, by omega⟩
        have stop : q * c.maximumReadWriteSize + (size - q * c.maximumReadWriteSize) = size := by omega
        rw [stop] at piece ⊢
        refine ⟨[_], writeLoop_done c r path input size offset small fuel _, ⟨rfl, ?_, ?_⟩, ?_⟩
        · simp only [newNipcWrite]
          omega
        · simp only [Consecutivos, newNipcWrite]
          omega
        · rw [llevaEntrada_cons]
          simp only [newNipcWrite]
          rw [piece]
          simp [LlevaEntrada]
    · obtain rfl : size = q * c.maximumReadWriteSize := by omega
      refine ⟨[], ?_, rfl, ?_⟩
      · rw [writeLoop_done c r path input _ offset small, List.append_nil]
      · simp only [LlevaEntrada, List.not_mem_nil, false_implies, implies_true, true_iff]
        intro i low high
        omega

/-- From 2^31 bytes on the `int` chunk size is negative: one request carries
everything and the negative count ends the loop. -/
theorem writeLoop_large (ok : r.Exito) (large : 2 ^ 31 ≤ size) (range : offset + size < 2 ^ 32) :
    ∃ requests, writeLoop c r path input size offset (size + 1) 0 [] =
      some ((size : Int) - 2 ^ 32, requests) := by
  have whole : Int.bmod ((size : Int) - 0) (2 ^ 32) = (size : Int) - 2 ^ 32 := by
    rw [Int.bmod_def]
    omega
  have request : ¬ (size : Int) - 2 ^ 32 > c.maximumReadWriteSize := by omega
  have stops : ∀ emitted, writeLoop c r path input size offset size ((size : Int) - 2 ^ 32) emitted =
      some ((size : Int) - 2 ^ 32, emitted) := by
    intro emitted
    obtain ⟨fuel, eq⟩ : ∃ k, size = k + 1 := ⟨size - 1, by omega⟩
    conv => lhs; arg 7; rw [eq]
    rw [writeLoop, if_neg (by omega)]
  rw [writeLoop, if_pos (by omega)]
  simp only [whole, ok.write, if_neg request, Int.zero_add]
  exact ⟨_, stops _⟩

end

/-- When every request succeeds, `remote_write` writes the input at its place and
returns `size` exactly when `size` fits an `int` and the input repeats its first
chunk throughout; in particular whenever it fits one chunk. -/
theorem remoteWrite_exact_iff (c : Cliente) (r : Respuestas) (path input : List UInt8)
    (size offset : Nat) (ok : r.Exito) (range : offset + size < 2 ^ 32)
    (positive : 0 < c.maximumReadWriteSize) (chunk : c.maximumReadWriteSize < 2 ^ 31) :
    ∃ result, remoteWrite c r path input size offset = some result ∧
      (EscribeTodo input size offset result ↔
        size < 2 ^ 31 ∧ ∀ i, i < size → input[i]? = input[i % c.maximumReadWriteSize]?) := by
  have loop : remoteWrite c r path input size offset =
      writeLoop c r path input size offset (size + 1) 0 [] := by
    simp [remoteWrite, ok.getattr, ok.truncate]
  rw [loop]
  by_cases small : size < 2 ^ 31
  · obtain ⟨requests, runs, covers, carries⟩ := writeLoop_spec c r path input size offset ok small
      range positive chunk (size + 1) 0 [] (by omega) (by omega)
    simp only [Nat.zero_mul, Nat.add_zero, List.nil_append, Nat.cast_zero, Nat.zero_le,
      forall_const] at runs covers carries
    refine ⟨_, runs, ?_⟩
    simp only [small, true_and]
    rw [← carries]
    exact ⟨fun whole => whole.bytes, fun bytes => ⟨covers, bytes, rfl⟩⟩
  · obtain ⟨requests, runs⟩ := writeLoop_large c r path input size offset ok (by omega) range
    refine ⟨_, runs, ?_⟩
    simp only [small, false_and, iff_false]
    intro whole
    have := whole.returned
    simp only at this
    omega

def clienteDeUnByte : Cliente := ⟨3, 1⟩

def todoBien : Respuestas := ⟨(0, 0), fun _ => 0, fun _ _ => none⟩

theorem todoBien_exito : todoBien.Exito := ⟨rfl, fun _ => rfl, fun _ _ => rfl⟩

theorem remoteWrite_exact_repeated :
    ∃ result, remoteWrite clienteDeUnByte todoBien [47] [9, 9] 2 5 = some result ∧
      (EscribeTodo [9, 9] 2 5 result ↔
        2 < 2 ^ 31 ∧ ∀ i, i < 2 → [9, 9][i]? = ([9, 9] : List UInt8)[i % 1]?) :=
  remoteWrite_exact_iff clienteDeUnByte todoBien [47] [9, 9] 2 5 todoBien_exito (by decide)
    (by decide) (by decide)

/-- The second chunk of the bytes 1, 2 is sent as 1 again. -/
theorem remoteWrite_repeats_first_chunk :
    ∃ result, remoteWrite clienteDeUnByte todoBien [47] [1, 2] 2 5 = some result ∧
      ¬ EscribeTodo [1, 2] 2 5 result := by
  refine ⟨(2, [⟨3, [47], [1], 1, 5⟩, ⟨3, [47], [1], 1, 6⟩]), by decide, fun whole => ?_⟩
  have second := whole.bytes ⟨3, [47], [1], 1, 6⟩ (by simp) 0 (by decide)
  simp at second

end LosAltos.Fsc
