import LosAltos.Nipc.Send

/-!
# `nipc_receive`: reading one packet off a stream

`commons/src/sockets/sockets.c:84-152`. The header loop reads with `MSG_PEEK`, so
every call sees the stream from its first byte again, and adds up the counts; the
body loop consumes. The outcomes of the successive `recv` calls are an input. The
twelve header bytes start with whatever `malloc` left there (`basura`).

The bytes of one packet are all the stream carries, so a call made when nothing is
left can only fail with `EAGAIN`. Any arrival schedule is covered: what a call
returns is some non-empty prefix of the bytes not yet consumed.
-/
namespace LosAltos.Nipc
open LosAltos.Lib

/-- One `recv` call: up to `tope + 1` bytes, or a failure, or end of stream. -/
inductive ResultadoRecv where
  | recibe (tope : Nat)
  | eagain
  | error (errno : Nat)
  | desconectado
  deriving DecidableEq, Repr

inductive FinRecv where
  /-- The outcomes ran out inside one of the loops. -/
  | espera
  /-- A serialised `nipc_error` with this code and message is returned. -/
  | error (errorCode : Int) (errorMessage : String)
  /-- A read past the received buffer, or a byte count that does not fit an `int`. -/
  | indefinido
  | paquete (p : NipcPacket)
  deriving DecidableEq

def ebadf : Int := 9

/-- The second loop, with `receivedBytes = message.length`. -/
def bodyLoop (raw : List UInt8) (messageSize : Nat) (message : List UInt8)
    (outs : List ResultadoRecv) : FinRecv :=
  if message.length < messageSize then
    match outs with
    | [] => .espera
    | .eagain :: rest => bodyLoop raw messageSize message rest
    | .error errno :: _ => .error (-errno) "Error recibiendo paquete"
    | .desconectado :: _ => .error (-ebadf) "Desconectado del servidor"
    | .recibe tope :: rest =>
      let chunk := (raw.drop message.length).take (min (tope + 1) (messageSize - message.length))
      if message.length + chunk.length < 2 ^ 31 then
        bodyLoop raw messageSize (message ++ chunk) rest
      else .indefinido
  else
    match nipcDeserialize message with
    | some p => .paquete p
    | none => .indefinido

/-- `headerSize + *(uint32_t *)(header + 8)`, stored in a `uint32_t`. -/
def messageSizeOf (header : List UInt8) : Nat := (headerSize + (word32At header 8).toNat) % 2 ^ 32

/-- The peeking loop, then the body loop on the outcomes that are left. -/
def headerLoop (raw header : List UInt8) (received : Nat) (outs : List ResultadoRecv) : FinRecv :=
  if received < headerSize then
    match outs with
    | [] => .espera
    | .eagain :: rest => headerLoop raw header received rest
    | .error errno :: _ => .error (-errno) "Error recibiendo cabecera"
    | .desconectado :: _ => .error (-ebadf) "Desconectado del servidor"
    | .recibe tope :: rest =>
      let peeked := raw.take (min (tope + 1) headerSize)
      headerLoop raw (peeked ++ header.drop peeked.length) (received + peeked.length) rest
  else bodyLoop raw (messageSizeOf header) [] outs

def nipcReceive (raw basura : List UInt8) (outs : List ResultadoRecv) : FinRecv :=
  headerLoop raw basura 0 outs

/-- The outcomes `script a, ..., script (a + n - 1)`. -/
def tramo (script : Nat → ResultadoRecv) (a n : Nat) : List ResultadoRecv :=
  (List.range n).map fun i => script (a + i)

theorem tramo_succ (script : Nat → ResultadoRecv) (a n : Nat) :
    tramo script a (n + 1) = script a :: tramo script (a + 1) n := by
  simp only [tramo, List.range_succ_eq_map, List.map_cons, List.map_map, Nat.add_zero]
  congr 1
  apply List.map_congr_left
  intro i _
  simp only [Function.comp_apply]
  congr 1
  omega

theorem tramo_add (script : Nat → ResultadoRecv) (a m n : Nat) :
    tramo script a (m + n) = tramo script a m ++ tramo script (a + m) n := by
  induction m generalizing a with
  | zero => simp [tramo]
  | succ m ih =>
    rw [show m + 1 + n = (m + n) + 1 by omega, tramo_succ, ih, tramo_succ]
    simp [Nat.add_assoc, Nat.add_comm 1 m]

/-- Bytes the header loop counts for these outcomes. -/
def vistos : List ResultadoRecv → Nat
  | [] => 0
  | .recibe tope :: rest => min (tope + 1) headerSize + vistos rest
  | _ :: rest => vistos rest

/-- Some peek sees the whole header while the partial peeks before it add up to
less than one header. -/
def CabeceraCompleta (script : Nat → ResultadoRecv) : Prop :=
  ∃ n tope, script n = .recibe tope ∧ headerSize ≤ tope + 1 ∧ vistos (tramo script 0 n) < headerSize

/-- Neither failures other than `EAGAIN` nor disconnections, and data keeps coming. -/
structure Llega (script : Nat → ResultadoRecv) : Prop where
  outcome : ∀ n, script n = .eagain ∨ ∃ tope, script n = .recibe tope
  progress : ∀ n, ∃ m, n ≤ m ∧ script m ≠ .eagain

/-- The next call that returns data, after only `EAGAIN`s. -/
theorem Llega.next {script : Nat → ResultadoRecv} (arrives : Llega script) (a : Nat) :
    ∃ k tope, tramo script a (k + 1) = List.replicate k .eagain ++ [.recibe tope] := by
  obtain ⟨m, later, data⟩ := arrives.progress a
  obtain ⟨gap, rfl⟩ := Nat.exists_eq_add_of_le later
  induction gap generalizing a with
  | zero =>
    obtain waits | ⟨tope, reads⟩ := arrives.outcome a
    · exact absurd waits data
    · exact ⟨0, tope, by simp [tramo, reads]⟩
  | succ gap ih =>
    obtain waits | ⟨tope, reads⟩ := arrives.outcome a
    · obtain ⟨k, tope, found⟩ := ih (a + 1) (by omega) (by
        rw [show a + 1 + gap = a + (gap + 1) by omega]
        exact data)
      refine ⟨k + 1, tope, ?_⟩
      rw [tramo_succ, found, waits]
      rfl
    · exact ⟨0, tope, by simp [tramo, reads]⟩

theorem bodyLoop_eagains (raw : List UInt8) (messageSize : Nat) (message : List UInt8) (k : Nat)
    (rest : List ResultadoRecv) :
    bodyLoop raw messageSize message (List.replicate k .eagain ++ rest) =
      bodyLoop raw messageSize message rest := by
  induction k with
  | zero => rfl
  | succ k ih =>
    rw [List.replicate_succ, List.cons_append]
    by_cases more : message.length < messageSize
    · rw [bodyLoop, if_pos more]
      exact ih
    · rw [bodyLoop.eq_def, if_neg more, bodyLoop.eq_def, if_neg more]

theorem take_append_chunk (raw : List UInt8) (t n : Nat) :
    raw.take t ++ (raw.drop t).take n = raw.take (t + n) := List.take_add.symm

/-- With the right message size the body loop ends with the packet, however the
bytes are split. -/
theorem bodyLoop_completes (p : NipcPacket) (script : Nat → ResultadoRecv)
    (arrives : Llega script) (bound : (wire p).length < 2 ^ 31) (left t a : Nat)
    (remaining : t + left = (wire p).length) :
    ∃ n, bodyLoop (wire p) (wire p).length ((wire p).take t) (tramo script a n) = .paquete p := by
  induction left using Nat.strongRecOn generalizing t a with
  | ind left ih =>
    have taken : ((wire p).take t).length = t := by
      rw [List.length_take]
      omega
    by_cases done : left = 0
    · refine ⟨0, ?_⟩
      rw [bodyLoop.eq_def, taken, if_neg (by omega), List.take_of_length_le (by omega),
        nipcDeserialize_wire]
    · obtain ⟨k, tope, segment⟩ := arrives.next a
      obtain ⟨n, ends⟩ := ih (left - min (tope + 1) left) (by omega) (t + min (tope + 1) left)
        (a + (k + 1)) (by omega)
      refine ⟨k + 1 + n, ?_⟩
      have chunk : (((wire p).drop t).take (min (tope + 1) left)).length = min (tope + 1) left := by
        rw [List.length_take, List.length_drop]
        omega
      have size : (wire p).length - t = left := by omega
      rw [tramo_add, segment, List.append_assoc, bodyLoop_eagains, List.singleton_append, bodyLoop,
        taken, if_pos (by omega)]
      simp only [size, chunk]
      rw [if_pos (by omega), take_append_chunk]
      exact ends

/-- A packet out of the body loop was decoded from exactly the first
`messageSize` bytes of the stream, and that size fits an `int`. -/
theorem bodyLoop_result (raw : List UInt8) (messageSize : Nat) (q : NipcPacket)
    (outs : List ResultadoRecv) : ∀ t, t ≤ raw.length → t ≤ messageSize → t < 2 ^ 31 →
      bodyLoop raw messageSize (raw.take t) outs = .paquete q →
      messageSize ≤ raw.length ∧ messageSize < 2 ^ 31 ∧
        nipcDeserialize (raw.take messageSize) = some q := by
  induction outs with
  | nil =>
    intro t inside below small ends
    rw [bodyLoop.eq_def, List.length_take, Nat.min_eq_left inside] at ends
    split at ends
    · cases ends
    · obtain rfl : t = messageSize := by omega
      cases decoded : nipcDeserialize (raw.take t) with
      | none => simp [decoded] at ends
      | some r =>
        simp only [decoded, FinRecv.paquete.injEq] at ends
        exact ⟨inside, small, by rw [ends]⟩
  | cons out rest ih =>
    intro t inside below small ends
    rw [bodyLoop.eq_def, List.length_take, Nat.min_eq_left inside] at ends
    split at ends
    · cases out with
      | eagain => exact ih t inside below small ends
      | error errno => cases ends
      | desconectado => cases ends
      | recibe tope =>
        dsimp only at ends
        split at ends
        · rename_i fits
          rw [take_append_chunk] at ends
          have chunk : ((raw.drop t).take (min (tope + 1) (messageSize - t))).length =
              min (min (tope + 1) (messageSize - t)) (raw.length - t) := by simp
          -- past the end of the stream the same prefix is taken again
          have same : raw.take (t + min (tope + 1) (messageSize - t)) =
              raw.take (t + min (min (tope + 1) (messageSize - t)) (raw.length - t)) := by
            rw [List.take_eq_take_iff]
            omega
          rw [same] at ends
          exact ih _ (by omega) (by omega) (by omega) ends
        · cases ends
    · obtain rfl : t = messageSize := by omega
      cases decoded : nipcDeserialize (raw.take t) with
      | none => simp [decoded] at ends
      | some r =>
        simp only [decoded, FinRecv.paquete.injEq] at ends
        exact ⟨inside, small, by rw [ends]⟩

theorem word32At_take (raw : List UInt8) {offset n : Nat} (inside : offset + 4 ≤ n) :
    word32At (raw.take n) offset = word32At raw offset := by
  unfold word32At
  rw [List.drop_take, List.take_take, Nat.min_eq_left (by omega)]

/-- A proper prefix of the wire form announces more data than it has. -/
theorem nipcDeserialize_take_wire (p : NipcPacket) {n : Nat} (short : n < (wire p).length) :
    nipcDeserialize ((wire p).take n) = none := by
  have length : ((wire p).take n).length = n := by
    rw [List.length_take]
    omega
  apply nipcDeserialize_short
  rw [length]
  by_cases head : n < headerSize
  · omega
  · rw [word32At_take _ (by unfold headerSize at head; omega), (word32At_wire p).2.2, ← wire_length]
    exact short

/-- The body loop yields a packet of this stream only for the right message size. -/
theorem bodyLoop_wire_size (p q : NipcPacket) (messageSize : Nat) (outs : List ResultadoRecv)
    (ends : bodyLoop (wire p) messageSize [] outs = .paquete q) :
    messageSize = (wire p).length ∧ (wire p).length < 2 ^ 31 := by
  obtain ⟨inside, small, decoded⟩ :=
    bodyLoop_result (wire p) messageSize q outs 0 (by omega) (by omega) (by omega) (by simpa using ends)
  have size : messageSize = (wire p).length := by
    by_contra differs
    rw [nipcDeserialize_take_wire p (by omega)] at decoded
    cases decoded
  exact ⟨size, size ▸ small⟩

/-- Partial peeks that do not reach a whole header leave the loop waiting. -/
theorem headerLoop_skip (raw : List UInt8) (long : headerSize ≤ raw.length)
    (outs : List ResultadoRecv) (benign : ∀ out ∈ outs, out = .eagain ∨ ∃ tope, out = .recibe tope) :
    ∀ (header : List UInt8) (received : Nat), received + vistos outs < headerSize →
      ∃ header', ∀ rest, headerLoop raw header received (outs ++ rest) =
        headerLoop raw header' (received + vistos outs) rest := by
  induction outs with
  | nil =>
    intro header received _
    exact ⟨header, fun _ => rfl⟩
  | cons out outs ih =>
    intro header received short
    have tail := ih (fun o member => benign o (List.mem_cons_of_mem _ member))
    obtain rfl | ⟨tope, rfl⟩ := benign out (by simp)
    · obtain ⟨header', skipped⟩ := tail header received short
      refine ⟨header', fun rest => ?_⟩
      rw [List.cons_append, headerLoop, if_pos (by omega)]
      exact skipped rest
    · have peeked : (raw.take (min (tope + 1) headerSize)).length = min (tope + 1) headerSize := by
        rw [List.length_take]
        omega
      simp only [vistos] at short ⊢
      obtain ⟨header', skipped⟩ := tail (raw.take (min (tope + 1) headerSize) ++
        header.drop (min (tope + 1) headerSize)) (received + min (tope + 1) headerSize) (by omega)
      refine ⟨header', fun rest => ?_⟩
      rw [List.cons_append, headerLoop, if_pos (by omega)]
      simp only [peeked]
      rw [skipped, Nat.add_assoc]

/-- Every packet returned comes out of the body loop. -/
theorem headerLoop_body (raw : List UInt8) (q : NipcPacket) (outs : List ResultadoRecv) :
    ∀ header received, headerLoop raw header received outs = .paquete q →
      ∃ messageSize rest, bodyLoop raw messageSize [] rest = .paquete q := by
  induction outs with
  | nil =>
    intro header received ends
    rw [headerLoop.eq_def] at ends
    split at ends
    · cases ends
    · exact ⟨_, _, ends⟩
  | cons out outs ih =>
    intro header received ends
    rw [headerLoop.eq_def] at ends
    split at ends
    · cases out with
      | error errno => cases ends
      | desconectado => cases ends
      | eagain => exact ih _ _ ends
      | recibe tope => exact ih _ _ ends
    · exact ⟨_, _, ends⟩

/-- When no peek sees the last header byte in time, that byte stays what `malloc`
left there. The first eleven bytes of `header` are taken to be the stream's own,
so no peek changes `header` at all. -/
theorem headerLoop_stale (raw header : List UInt8) (q : NipcPacket) (long : headerSize ≤ raw.length)
    (agree : header.take 11 = raw.take 11) (outs : List ResultadoRecv) :
    ∀ received, (∀ n tope, outs[n]? = some (.recibe tope) → headerSize ≤ tope + 1 →
        headerSize ≤ received + vistos (outs.take n)) →
      headerLoop raw header received outs = .paquete q →
      ∃ rest, bodyLoop raw (messageSizeOf header) [] rest = .paquete q := by
  induction outs with
  | nil =>
    intro received _ ends
    rw [headerLoop.eq_def] at ends
    split at ends
    · cases ends
    · exact ⟨_, ends⟩
  | cons out outs ih =>
    intro received partials ends
    rw [headerLoop.eq_def] at ends
    split at ends
    · rename_i waiting
      cases out with
      | error errno => cases ends
      | desconectado => cases ends
      | eagain =>
        apply ih received _ ends
        intro n tope reads whole
        simpa [vistos] using partials (n + 1) tope (by simpa using reads) whole
      | recibe tope =>
        have short : tope + 1 ≤ 11 := by
          by_contra whole
          have := partials 0 tope rfl (by unfold headerSize; omega)
          simp only [List.take_zero, vistos] at this
          omega
        have size : min (tope + 1) headerSize = tope + 1 := by
          unfold headerSize
          omega
        have prefixes : raw.take (tope + 1) = header.take (tope + 1) := by
          have cut := congrArg (List.take (tope + 1)) agree
          rw [List.take_take, List.take_take, Nat.min_eq_left short] at cut
          exact cut.symm
        have unchanged : raw.take (tope + 1) ++ header.drop (raw.take (tope + 1)).length = header := by
          by_cases covered : tope + 1 ≤ header.length
          · rw [prefixes, List.length_take, Nat.min_eq_left covered, List.take_append_drop]
          · rw [prefixes, List.take_of_length_le (by omega), List.drop_length, List.append_nil]
        simp only [size, unchanged] at ends
        apply ih _ _ ends
        intro n tope' reads whole
        have := partials (n + 1) tope' (by simpa using reads) whole
        simp only [List.take_succ_cons, vistos, size] at this
        have counted : (raw.take (tope + 1)).length = tope + 1 := by
          rw [List.length_take]
          omega
        omega
    · exact ⟨_, ends⟩

theorem tramo_getElem? (script : Nat → ResultadoRecv) (a n i : Nat) (out : ResultadoRecv)
    (found : (tramo script a n)[i]? = some out) :
    script (a + i) = out ∧ (tramo script a n).take i = tramo script a i := by
  have below : i < n := by
    by_contra beyond
    rw [List.getElem?_eq_none (by simp [tramo]; omega)] at found
    cases found
  obtain ⟨rest, rfl⟩ := Nat.exists_eq_add_of_lt below
  have split := tramo_add script a i (rest + 1)
  rw [show i + (rest + 1) = i + rest + 1 by omega] at split
  have length : (tramo script a i).length = i := by simp [tramo]
  rw [split, List.getElem?_append_right (by omega), length, Nat.sub_self, tramo_succ] at found
  refine ⟨by simpa using found, ?_⟩
  rw [split, List.take_append_of_le_length (by omega), List.take_of_length_le (by omega)]

theorem messageSizeOf_header (p : NipcPacket) (tail : List UInt8)
    (fits : p.dataLength.toNat < 2 ^ 32 - 12) :
    messageSizeOf (header p ++ tail) = (wire p).length := by
  have third := word32At_append (toLe 4 p.type.toNat ++ toLe 4 p.clientId.toNat) tail p.dataLength
  simp only [List.length_append, toLe_length, List.append_assoc] at third
  have length : (wire p).length = 12 + p.dataLength.toNat := wire_length p
  simp only [messageSizeOf, header, List.append_assoc, third, headerSize]
  omega

/-- Header memory that differs from the packet's header in the last byte only. -/
def cabeceraAjena (p : NipcPacket) : List UInt8 :=
  toLe 4 p.type.toNat ++ (toLe 4 p.clientId.toNat ++ toLe 4 (p.dataLength.toNat + 2 ^ 24))

theorem cabeceraAjena_take (p : NipcPacket) : (cabeceraAjena p).take 11 = (wire p).take 11 := by
  have digits : ∀ n : Nat, (toLe 4 (n + 2 ^ 24)).take 3 = (toLe 4 n).take 3 := by
    intro n
    apply fromLe_injective (by simp)
    have zero : (UInt8.ofNat (n + 2 ^ 24)).toNat = (UInt8.ofNat n).toNat := by
      simp
    have one : (UInt8.ofNat ((n + 2 ^ 24) / 256)).toNat = (UInt8.ofNat (n / 256)).toNat := by
      simp only [UInt8.toNat_ofNat']
      omega
    have two : (UInt8.ofNat ((n + 2 ^ 24) / 256 / 256)).toNat =
        (UInt8.ofNat (n / 256 / 256)).toNat := by
      simp only [UInt8.toNat_ofNat']
      omega
    simp only [toLe, List.take_succ_cons, List.take_zero, fromLe, zero, one, two]
  have cut : ∀ tail : List UInt8, (toLe 4 p.type.toNat ++ (toLe 4 p.clientId.toNat ++ tail)).take 11 =
      toLe 4 p.type.toNat ++ (toLe 4 p.clientId.toNat ++ tail.take 3) := by
    intro tail
    rw [List.take_append, List.take_append, List.take_of_length_le (by simp),
      List.take_of_length_le (by simp)]
    simp only [toLe_length]
  have body : (toLe 4 p.dataLength.toNat ++ p.data).take 3 = (toLe 4 p.dataLength.toNat).take 3 :=
    List.take_append_of_le_length (by simp)
  rw [cabeceraAjena, cut, digits, wire, header]
  simp only [List.append_assoc]
  rw [cut, body]

theorem messageSizeOf_cabeceraAjena (p : NipcPacket) :
    messageSizeOf (cabeceraAjena p) ≠ (wire p).length := by
  have length : (wire p).length = 12 + p.dataLength.toNat := wire_length p
  have split : cabeceraAjena p = (toLe 4 p.type.toNat ++ toLe 4 p.clientId.toNat) ++
      toLe 4 (p.dataLength.toNat + 2 ^ 24) := by simp [cabeceraAjena]
  have word : (word32At (cabeceraAjena p) 8).toNat = (p.dataLength.toNat + 2 ^ 24) % 2 ^ 32 := by
    rw [split, word32At, List.drop_append_of_le_length (by simp), List.drop_of_length_le (by simp),
      List.nil_append, List.take_of_length_le (by simp), fromLe_toLe, UInt32.toNat_ofNat']
    omega
  simp only [messageSizeOf, word, headerSize]
  omega

/-- A packet is received intact under every fragmentation and whatever `malloc`
left in the header buffer, exactly when it is below 2^31 bytes and some peek sees
the whole header before the partial peeks add up to one. -/
theorem nipcReceive_framing_iff (p : NipcPacket) (script : Nat → ResultadoRecv)
    (fits : p.dataLength.toNat < 2 ^ 32 - 12) (arrives : Llega script) :
    (∀ basura : List UInt8, basura.length = headerSize →
        ∃ n, nipcReceive (wire p) basura (tramo script 0 n) = .paquete p) ↔
      (wire p).length < 2 ^ 31 ∧ CabeceraCompleta script := by
  have long : headerSize ≤ (wire p).length := by simp
  constructor
  · intro always
    constructor
    · obtain ⟨n, ends⟩ := always (header p) (header_length p)
      obtain ⟨messageSize, rest, body⟩ := headerLoop_body _ _ _ _ _ ends
      exact (bodyLoop_wire_size p p messageSize rest body).2
    · by_contra incomplete
      obtain ⟨n, ends⟩ := always (cabeceraAjena p) (by simp [cabeceraAjena, headerSize])
      obtain ⟨rest, body⟩ := headerLoop_stale (wire p) (cabeceraAjena p) p long (cabeceraAjena_take p)
        (tramo script 0 n) 0 (by
          intro i tope reads whole
          obtain ⟨at_i, taken⟩ := tramo_getElem? script 0 n i _ reads
          rw [taken]
          by_contra few
          exact incomplete ⟨i, tope, by simpa using at_i, whole, by omega⟩) ends
      exact messageSizeOf_cabeceraAjena p (bodyLoop_wire_size p p _ rest body).1
  · rintro ⟨bound, at_n, tope, reads, whole, few⟩ basura -
    obtain ⟨header', skipped⟩ := headerLoop_skip (wire p) long (tramo script 0 at_n) (by
      intro out member
      simp only [tramo, List.mem_map] at member
      obtain ⟨i, -, rfl⟩ := member
      exact arrives.outcome _) basura 0 (by omega)
    obtain ⟨m, ends⟩ := bodyLoop_completes p script arrives bound (wire p).length 0 (at_n + 1) (by omega)
    refine ⟨at_n + (m + 1), ?_⟩
    have head : (wire p).take headerSize = header p := by
      rw [wire, ← header_length p, List.take_left]
    rw [nipcReceive, tramo_add, skipped, Nat.zero_add, Nat.zero_add, tramo_succ, reads, headerLoop,
      if_pos few]
    simp only [Nat.min_eq_right whole, head, header_length]
    rw [headerLoop.eq_def, if_neg (by omega), messageSizeOf_header p _ fits]
    simpa using ends

/-- A peek at half the header, then whole ones. -/
def mediaCabecera : Nat → ResultadoRecv
  | 0 => .recibe 5
  | _ => .recibe 11

theorem mediaCabecera_llega : Llega mediaCabecera where
  outcome n := by
    cases n with
    | zero => exact .inr ⟨5, rfl⟩
    | succ n => exact .inr ⟨11, rfl⟩
  progress n := ⟨n + 1, by omega, by simp [mediaCabecera]⟩

theorem nipcReceive_framing_mediaCabecera :
    CabeceraCompleta mediaCabecera ∧ ∀ basura : List UInt8, basura.length = headerSize →
      ∃ n, nipcReceive (wire paqueteOk) basura (tramo mediaCabecera 0 n) = .paquete paqueteOk := by
  have complete : CabeceraCompleta mediaCabecera := ⟨1, 11, rfl, by decide, by decide⟩
  exact ⟨complete, (nipcReceive_framing_iff paqueteOk mediaCabecera (by decide)
    mediaCabecera_llega).mpr ⟨by decide, complete⟩⟩

/-- Two peeks at the same half of the header, then whole reads. -/
def dosMitades : Nat → ResultadoRecv
  | 0 => .recibe 5
  | 1 => .recibe 5
  | _ => .recibe 11

/-- The two halves count as one header, of which six bytes were never read. -/
theorem nipcReceive_dosMitades_fails :
    Llega dosMitades ∧ (cabeceraAjena paqueteOk).length = headerSize ∧
      ∀ n, nipcReceive (wire paqueteOk) (cabeceraAjena paqueteOk) (tramo dosMitades 0 n) ≠
        .paquete paqueteOk := by
  refine ⟨⟨fun n => ?_, fun n => ⟨n + 2, by omega, by simp [dosMitades]⟩⟩, rfl, fun n ends => ?_⟩
  · match n with
    | 0 | 1 => exact .inr ⟨5, rfl⟩
    | n + 2 => exact .inr ⟨11, rfl⟩
  · obtain ⟨rest, body⟩ := headerLoop_stale (wire paqueteOk) (cabeceraAjena paqueteOk) paqueteOk
      (by decide) (by decide) (tramo dosMitades 0 n) 0 (by
        intro i tope reads whole
        obtain ⟨at_i, taken⟩ := tramo_getElem? dosMitades 0 n i _ reads
        rw [taken]
        match i with
        | 0 | 1 =>
          simp only [Nat.zero_add, dosMitades, ResultadoRecv.recibe.injEq] at at_i
          subst at_i
          exact absurd whole (by decide)
        | i + 2 =>
          rw [tramo_succ, tramo_succ]
          simp only [dosMitades, vistos, headerSize]
          omega) ends
    exact messageSizeOf_cabeceraAjena paqueteOk (bodyLoop_wire_size _ _ _ rest body).1

end LosAltos.Nipc
