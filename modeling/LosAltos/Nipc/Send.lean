import LosAltos.Nipc.Packet

/-!
# `nipc_send`: the partial-send loop

`commons/src/sockets/sockets.c:58-82`. The outcomes of the successive `send`
calls are an input. A failed call returns `-1`; with `errno = EAGAIN` the loop
goes on and adds that `-1` to `sentBytes`. The loop condition compares the `int`
with a 64-bit `size_t`, so a negative `sentBytes` ends the loop.
-/
namespace LosAltos.Nipc

/-- One `send` call: it takes up to `tope + 1` of the bytes offered, or fails. -/
inductive ResultadoSend where
  | acepta (tope : Nat)
  | eagain
  | error
  deriving DecidableEq, Repr

inductive FinSend where
  /-- The outcomes ran out inside the loop. -/
  | espera
  /-- `return -1`. -/
  | error
  /-- A byte count that does not fit an `int`. -/
  | indefinido
  | termina (sentBytes : Int) (aceptados : List UInt8) (resto : List ResultadoSend)
  deriving DecidableEq, Repr

def sendLoop (raw : List UInt8) (sentBytes : Int) (aceptados : List UInt8)
    (outs : List ResultadoSend) : FinSend :=
  if sentBytes % 2 ^ 64 < raw.length then
    match outs with
    | [] => .espera
    | .error :: _ => .error
    | .eagain :: rest => sendLoop raw (sentBytes + -1) aceptados rest
    | .acepta tope :: rest =>
      -- the condition only lets a non-negative `sentBytes` through
      let chunk := (raw.drop sentBytes.toNat).take (tope + 1)
      if sentBytes + chunk.length < 2 ^ 31 then
        sendLoop raw (sentBytes + chunk.length) (aceptados ++ chunk) rest
      else .indefinido
  else .termina sentBytes aceptados outs

def nipcSend (p : NipcPacket) (outs : List ResultadoSend) : Option FinSend :=
  (nipcSerialize p).map fun raw => sendLoop raw 0 [] outs

/-- The loop is over and saw exactly the outcomes given. -/
def FinSend.Ended : FinSend → Prop
  | .espera => False
  | .error => False
  | .indefinido => True
  | .termina _ _ resto => resto = []

theorem loop_condition (sentBytes : Int) (length : Nat) (low : -1 ≤ sentBytes)
    (high : sentBytes ≤ length) (bound : length < 2 ^ 31) :
    sentBytes % 2 ^ 64 < length ↔ 0 ≤ sentBytes ∧ sentBytes < length := by
  constructor <;> intro h <;> omega

/-- Whatever the order of the outcomes, every `EAGAIN` of a finished loop is one
byte by which the bytes accepted exceed the count returned. -/
theorem sendLoop_excess (raw : List UInt8) (bound : raw.length < 2 ^ 31)
    (outs : List ResultadoSend) : ∀ (sentBytes : Int) (aceptados : List UInt8),
      -1 ≤ sentBytes → sentBytes ≤ raw.length →
      sendLoop raw sentBytes aceptados outs ≠ .indefinido ∧
      ∀ ret final, sendLoop raw sentBytes aceptados outs = .termina ret final [] →
        (final.length : Int) + sentBytes = ret + aceptados.length + outs.count .eagain := by
  induction outs with
  | nil =>
    intro sentBytes aceptados low high
    unfold sendLoop
    split
    · exact ⟨by simp, by simp⟩
    · refine ⟨by simp, fun ret final ends => ?_⟩
      simp only [FinSend.termina.injEq] at ends
      obtain ⟨rfl, rfl, -⟩ := ends
      simp
      omega
  | cons out rest ih =>
    intro sentBytes aceptados low high
    unfold sendLoop
    split
    · rename_i running
      obtain ⟨nonneg, below⟩ := (loop_condition sentBytes raw.length low high bound).mp running
      cases out with
      | error => exact ⟨by simp, by simp⟩
      | eagain =>
        obtain ⟨defined, excess⟩ := ih (sentBytes + -1) aceptados (by omega) (by omega)
        refine ⟨defined, fun ret final ends => ?_⟩
        have := excess ret final ends
        simp only [List.count_cons_self]
        omega
      | acepta tope =>
        have taken : ((raw.drop sentBytes.toNat).take (tope + 1)).length ≤
            raw.length - sentBytes.toNat := by simp
        dsimp only
        rw [if_pos (by omega)]
        obtain ⟨defined, excess⟩ := ih
          (sentBytes + ((raw.drop sentBytes.toNat).take (tope + 1)).length)
          (aceptados ++ (raw.drop sentBytes.toNat).take (tope + 1)) (by omega) (by omega)
        refine ⟨defined, fun ret final ends => ?_⟩
        have := excess ret final ends
        rw [List.length_append] at this
        rw [List.count_cons_of_ne (by simp)]
        omega
    · exact ⟨by simp, by simp⟩

/-- Without `EAGAIN` the accepted bytes are always the prefix the counter says,
so a finished loop has sent the whole buffer once. -/
theorem sendLoop_prefix (raw : List UInt8) (bound : raw.length < 2 ^ 31)
    (outs : List ResultadoSend) : ∀ (sent : Nat), sent ≤ raw.length → .eagain ∉ outs →
      ∀ ret final, sendLoop raw sent (raw.take sent) outs = .termina ret final [] →
        final = raw ∧ ret = raw.length := by
  induction outs with
  | nil =>
    intro sent high _ ret final ends
    unfold sendLoop at ends
    split at ends
    · cases ends
    · rename_i stopped
      have full : sent = raw.length := by
        rw [loop_condition _ _ (by omega) (by omega) bound] at stopped
        omega
      simp only [FinSend.termina.injEq] at ends
      obtain ⟨rfl, rfl, -⟩ := ends
      exact ⟨by rw [full, List.take_length], by rw [full]⟩
  | cons out rest ih =>
    intro sent high clean ret final ends
    simp only [List.mem_cons, not_or] at clean
    unfold sendLoop at ends
    split at ends
    · cases out with
      | error => cases ends
      | eagain => exact absurd rfl clean.1
      | acepta tope =>
        have chunk : ((raw.drop sent).take (tope + 1)).length = min (tope + 1) (raw.length - sent) := by
          simp
        simp only [Int.toNat_natCast] at ends
        rw [if_pos (by omega)] at ends
        have joined : raw.take sent ++ (raw.drop sent).take (tope + 1) =
            raw.take (sent + min (tope + 1) (raw.length - sent)) := by
          rw [List.take_eq_take_min (l := raw.drop sent), List.length_drop, ← List.take_add]
        rw [joined, chunk, ← Nat.cast_add] at ends
        exact ih _ (by omega) clean.2 ret final ends
    · simp at ends

/-- The count returned is an `int`. -/
theorem sendLoop_count_fits (raw : List UInt8) (outs : List ResultadoSend) :
    ∀ (sentBytes : Int) (aceptados : List UInt8), sentBytes < 2 ^ 31 →
      ∀ ret final resto, sendLoop raw sentBytes aceptados outs = .termina ret final resto →
        ret < 2 ^ 31 := by
  induction outs with
  | nil =>
    intro sentBytes aceptados small ret final resto ends
    unfold sendLoop at ends
    split at ends
    · cases ends
    · cases ends
      exact small
  | cons out rest ih =>
    intro sentBytes aceptados small ret final resto ends
    unfold sendLoop at ends
    split at ends
    · cases out with
      | error => cases ends
      | eagain => exact ih _ _ (by omega) _ _ _ ends
      | acepta tope =>
        dsimp only at ends
        split at ends
        · rename_i fits
          exact ih _ _ fits _ _ _ ends
        · cases ends
    · cases ends
      exact small

/-- Once the loop of `nipc_send` is over, the socket has taken exactly the
serialised packet, each byte once and in order, and that length is returned, if
and only if the packet is below 2^31 bytes and no `send` failed with `EAGAIN`. -/
theorem nipcSend_framing_iff (p : NipcPacket) (raw : List UInt8) (outs : List ResultadoSend)
    (fin : FinSend) (serialized : nipcSerialize p = some raw) (run : nipcSend p outs = some fin)
    (ended : fin.Ended) :
    fin = .termina raw.length raw [] ↔ raw.length < 2 ^ 31 ∧ .eagain ∉ outs := by
  have loop : sendLoop raw 0 [] outs = fin := by
    simpa [nipcSend, serialized] using run
  constructor
  · rintro rfl
    have bound : raw.length < 2 ^ 31 := by
      by_contra long
      have := sendLoop_count_fits raw outs 0 [] (by decide) raw.length raw [] loop
      omega
    refine ⟨bound, fun failed => ?_⟩
    have excess := (sendLoop_excess raw bound outs 0 [] (by omega) (by omega)).2 _ _ loop
    have positive := List.count_pos_iff.mpr failed
    simp only [List.length_nil] at excess
    omega
  · rintro ⟨bound, clean⟩
    have defined := (sendLoop_excess raw bound outs 0 [] (by omega) (by omega)).1
    cases fin with
    | espera => exact ended.elim
    | error => exact ended.elim
    | indefinido => exact absurd loop defined
    | termina ret final resto =>
      cases ended
      obtain ⟨rfl, rfl⟩ := sendLoop_prefix raw bound outs 0 (by omega) clean ret final
        (by simpa using loop)
      rfl

/-- An `nipc_ok` for client 7: twelve bytes on the wire. -/
def paqueteOk : NipcPacket := ⟨TipoNipc.nipcOk.code, 7, 0, [], rfl⟩

theorem nipcSend_framing_paqueteOk :
    FinSend.termina 12 (wire paqueteOk) [] = .termina (wire paqueteOk).length (wire paqueteOk) [] ↔
      (wire paqueteOk).length < 2 ^ 31 ∧
        ResultadoSend.eagain ∉ [ResultadoSend.acepta 4, .acepta 20] :=
  nipcSend_framing_iff paqueteOk (wire paqueteOk) [.acepta 4, .acepta 20]
    (.termina 12 (wire paqueteOk) []) (by decide) (by decide) rfl

/-- One `EAGAIN` after five accepted bytes: the fifth byte is sent twice, and
twelve is returned for the thirteen bytes on the wire. -/
theorem nipcSend_eagain_repeats_byte :
    nipcSend paqueteOk [.acepta 4, .eagain, .acepta 20] =
        some (.termina 12 ((wire paqueteOk).take 5 ++ (wire paqueteOk).drop 4) []) ∧
      (wire paqueteOk).take 5 ++ (wire paqueteOk).drop 4 ≠ wire paqueteOk := by
  decide

end LosAltos.Nipc
