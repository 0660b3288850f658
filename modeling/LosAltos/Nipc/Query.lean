import LosAltos.Nipc.Receive
import LosAltos.Nipc.Responses

/-!
# `nipc_query`: one request and its answer over a connection

`commons/src/sockets/sockets.c:58-167`, `rfs/src/main_rfs.c:622-675`. The client opens a
connection, sends its request and reads one packet; a worker of the server reads the request,
serves it and sends its packets one behind the other. What the successive calls of either side
return is an input, and so is how many calls a loop may make before its result is looked at.
Where the client cannot send, the server is not asked. There is no result where a loop has not
ended, nor where the server cannot send.
-/
namespace LosAltos.Nipc

/-- What the calls on one connection return, and what `malloc` leaves in the header buffers. -/
structure Conexion where
  envio : Nat → ResultadoSend
  pedido : Nat → ResultadoRecv
  /-- The calls that send the `k`-th packet of the server. -/
  respuestas : Nat → Nat → ResultadoSend
  respuesta : Nat → ResultadoRecv
  basuraServidor : List UInt8
  basuraCliente : List UInt8

def enviar (script : Nat → ResultadoSend) (llamadas : Nat) (p : NipcPacket) : Option FinSend :=
  nipcSend p ((List.range llamadas).map script)

/-- The packet `nipc_receive` returns; on a failure it is that of an error. -/
def recibir (script : Nat → ResultadoRecv) (llamadas : Nat) (basura raw : List UInt8) :
    Option NipcPacket :=
  match nipcReceive raw basura (tramo script 0 llamadas) with
  | .paquete p => some p
  | .error errorCode message => serializeError (newNipcError errorCode (.deString message))
  | .espera | .indefinido => none

/-- The bytes of the packets of the server, from the `k`-th on. -/
def enviarTodos (script : Nat → Nat → ResultadoSend) (llamadas : Nat) :
    Nat → List NipcPacket → Option (List UInt8)
  | _, [] => some []
  | k, p :: ps => do
    match ← enviar (script k) llamadas p with
    | .termina _ bytes _ => do
      let siguen ← enviarTodos script llamadas (k + 1) ps
      some (bytes ++ siguen)
    | _ => none

/-- `nipc_query`, with the worker of the server at the other end. -/
def nipcQuery {σ : Type} (servir : σ → NipcPacket → Option (σ × List NipcPacket)) (con : Conexion)
    (llamadas : Nat) (s : σ) (request : NipcPacket) : Option (σ × NipcPacket) := do
  match ← enviar con.envio llamadas request with
  | .error => do
    let error ← serializeError (newNipcErrorMessage (.deString "Error enviando paquete"))
    some (s, error)
  | .termina _ bytes _ => do
    let recibido ← recibir con.pedido llamadas con.basuraServidor bytes
    let (s, enviados) ← servir s recibido
    let flujo ← enviarTodos con.respuestas llamadas 0 enviados
    let response ← recibir con.respuesta llamadas con.basuraCliente flujo
    some (s, response)
  | _ => none

/-- No call fails, sending never waits, data keeps coming and headers are read whole. -/
structure Conexion.Sana (con : Conexion) : Prop where
  envio : ∀ n, ∃ tope, con.envio n = .acepta tope
  respuestas : ∀ k n, ∃ tope, con.respuestas k n = .acepta tope
  llegaPedido : Llega con.pedido
  llegaRespuesta : Llega con.respuesta
  cabeceraPedido : CabeceraCompleta con.pedido
  cabeceraRespuesta : CabeceraCompleta con.respuesta

/-- The packet has less than 2 GiB on the wire. -/
def NipcPacket.Cabe (p : NipcPacket) : Prop := headerSize + p.dataLength.toNat < 2 ^ 31

variable {p : NipcPacket} {raw : List UInt8} {n : Nat}

theorem NipcPacket.Cabe.wire (fits : p.Cabe) : (wire p).length < 2 ^ 31 := by
  rw [wire_length]
  exact fits

theorem NipcPacket.Cabe.serialize (fits : p.Cabe) : nipcSerialize p = some (Nipc.wire p) := by
  rw [NipcPacket.Cabe, headerSize] at fits
  exact (nipcSerialize_eq_some p _).mpr ⟨by omega, rfl⟩

/-! ### Sending -/

/-- Every call takes at least a byte. -/
theorem sendLoop_entera (bound : raw.length < 2 ^ 31) (outs : List ResultadoSend) :
    ∀ sent : Nat, sent ≤ raw.length → (∀ out ∈ outs, ∃ tope, out = .acepta tope) →
      raw.length ≤ sent + outs.length →
      ∃ resto, sendLoop raw sent (raw.take sent) outs = .termina raw.length raw resto := by
  induction outs with
  | nil =>
    intro sent inside _ enough
    obtain rfl : sent = raw.length := Nat.le_antisymm inside enough
    rw [sendLoop.eq_def, if_neg (by omega), List.take_length]
    exact ⟨[], rfl⟩
  | cons out outs ih =>
    intro sent inside takes enough
    obtain ⟨tope, rfl⟩ := takes out List.mem_cons_self
    rw [sendLoop.eq_def]
    split
    · have size : ((raw.drop sent).take (tope + 1)).length = min (tope + 1) (raw.length - sent) := by
        simp
      have joined : raw.take sent ++ (raw.drop sent).take (tope + 1) =
          raw.take (sent + min (tope + 1) (raw.length - sent)) := by
        rw [List.take_eq_take_min (l := raw.drop sent), List.length_drop, ← List.take_add]
      rw [List.length_cons] at enough
      simp only [Int.toNat_natCast]
      rw [if_pos (by omega), joined, size, ← Nat.cast_add]
      exact ih _ (by omega) (fun o member => takes o (List.mem_cons_of_mem _ member)) (by omega)
    · obtain rfl : sent = raw.length := by omega
      rw [List.take_length]
      exact ⟨_, rfl⟩

theorem enviar_entero {script : Nat → ResultadoSend} (takes : ∀ k, ∃ tope, script k = .acepta tope)
    (fits : p.Cabe) (enough : (wire p).length ≤ n) :
    ∃ resto, enviar script n p = some (.termina (wire p).length (wire p) resto) := by
  obtain ⟨resto, ends⟩ := sendLoop_entera fits.wire ((List.range n).map script) 0 (Nat.zero_le _)
    (fun out member => by
      obtain ⟨k, -, rfl⟩ := List.mem_map.mp member
      exact takes k) (by simpa using enough)
  exact ⟨resto, by simpa [enviar, nipcSend, fits.serialize] using ends⟩

/-- The server puts its packets on the stream one behind the other. -/
theorem enviarTodos_enteros {script : Nat → Nat → ResultadoSend}
    (takes : ∀ k i, ∃ tope, script k i = .acepta tope) {ps : List NipcPacket}
    (fit : ∀ p ∈ ps, p.Cabe) (enough : ∀ p ∈ ps, (wire p).length ≤ n) (k : Nat) :
    enviarTodos script n k ps = some (ps.map wire).flatten := by
  induction ps generalizing k with
  | nil => rfl
  | cons p ps ih =>
    obtain ⟨resto, sent⟩ := enviar_entero (takes k) (fit p List.mem_cons_self)
      (enough p List.mem_cons_self)
    have siguen := ih (fun q member => fit q (List.mem_cons_of_mem _ member))
      (fun q member => enough q (List.mem_cons_of_mem _ member)) (k + 1)
    rw [enviarTodos, sent]
    simp only [Option.bind_eq_bind, Option.bind_some, siguen, List.map_cons, List.flatten_cons]

/-! ### Receiving -/

/-- What stands behind the packet on the stream is not read. -/
theorem bodyLoop_flujo (p : NipcPacket) (resto : List UInt8) (outs : List ResultadoRecv) :
    ∀ message : List UInt8, bodyLoop (wire p ++ resto) (wire p).length message outs =
      bodyLoop (wire p) (wire p).length message outs := by
  induction outs with
  | nil =>
    intro message
    rw [bodyLoop.eq_def, bodyLoop.eq_def (wire p)]
  | cons out outs ih =>
    intro message
    rw [bodyLoop.eq_def, bodyLoop.eq_def (wire p)]
    split
    · cases out with
      | recibe tope =>
        have chunk : ((wire p ++ resto).drop message.length).take
            (min (tope + 1) ((wire p).length - message.length)) =
            ((wire p).drop message.length).take
              (min (tope + 1) ((wire p).length - message.length)) := by
          rw [List.drop_append_of_le_length (by omega),
            List.take_append_of_le_length (by rw [List.length_drop]; exact Nat.min_le_right ..)]
        simp only [chunk, ih]
      | eagain => exact ih message
      | error errno | desconectado => rfl
    · rfl

theorem bodyLoop_append {messageSize : Nat} {q : NipcPacket} {outs : List ResultadoRecv}
    (more : List ResultadoRecv) : ∀ message : List UInt8,
      bodyLoop raw messageSize message outs = .paquete q →
      bodyLoop raw messageSize message (outs ++ more) = .paquete q := by
  induction outs with
  | nil =>
    intro message ends
    rw [bodyLoop.eq_def] at ends ⊢
    split at ends
    · cases ends
    · rename_i finished
      rw [if_neg finished]
      exact ends
  | cons out outs ih =>
    intro message ends
    rw [bodyLoop.eq_def] at ends
    rw [List.cons_append, bodyLoop.eq_def]
    split at ends
    · rename_i waits
      rw [if_pos waits]
      cases out with
      | recibe tope =>
        dsimp only at ends ⊢
        split at ends
        · rename_i fits
          rw [if_pos fits]
          exact ih _ ends
        · cases ends
      | eagain => exact ih _ ends
      | error errno | desconectado => cases ends
    · rename_i finished
      rw [if_neg finished]
      exact ends

theorem headerLoop_append {q : NipcPacket} {outs : List ResultadoRecv}
    (more : List ResultadoRecv) : ∀ (header : List UInt8) (received : Nat),
      headerLoop raw header received outs = .paquete q →
      headerLoop raw header received (outs ++ more) = .paquete q := by
  induction outs with
  | nil =>
    intro header received ends
    rw [headerLoop.eq_def] at ends ⊢
    split at ends
    · cases ends
    · rename_i finished
      rw [if_neg finished]
      exact bodyLoop_append more _ ends
  | cons out outs ih =>
    intro header received ends
    rw [headerLoop.eq_def] at ends
    rw [List.cons_append, headerLoop.eq_def]
    split at ends
    · rename_i waits
      rw [if_pos waits]
      cases out with
      | recibe tope => exact ih _ _ ends
      | eagain => exact ih _ _ ends
      | error errno | desconectado => cases ends
    · rename_i finished
      rw [if_neg finished]
      exact bodyLoop_append more _ ends

/-- The first packet of a stream comes out whole, with enough calls. -/
theorem recibir_primero {script : Nat → ResultadoRecv} (arrives : Llega script)
    (complete : CabeceraCompleta script) (fits : p.Cabe) (basura resto : List UInt8) :
    ∃ N, ∀ n, N ≤ n → recibir script n basura (wire p ++ resto) = some p := by
  obtain ⟨at_n, tope, reads, whole, few⟩ := complete
  have length : (wire p).length = 12 + p.dataLength.toNat := wire_length p
  have long : headerSize ≤ (wire p ++ resto).length := by
    rw [List.length_append, length, headerSize]
    omega
  obtain ⟨header', skipped⟩ := headerLoop_skip (wire p ++ resto) long (tramo script 0 at_n) (by
    intro out member
    simp only [tramo, List.mem_map] at member
    obtain ⟨i, -, rfl⟩ := member
    exact arrives.outcome _) basura 0 (by omega)
  obtain ⟨m, ends⟩ := bodyLoop_completes p script arrives fits.wire (wire p).length 0 (at_n + 1)
    (by omega)
  have head : (wire p ++ resto).take headerSize = header p := by
    rw [wire, List.append_assoc, ← header_length p, List.take_left]
  have size : messageSizeOf (header p ++ header'.drop headerSize) = (wire p).length := by
    rw [messageSizeOf_header p _ (by rw [NipcPacket.Cabe, headerSize] at fits; omega)]
  have received : nipcReceive (wire p ++ resto) basura (tramo script 0 (at_n + (m + 1))) =
      .paquete p := by
    rw [nipcReceive, tramo_add, skipped, Nat.zero_add, Nat.zero_add, tramo_succ, reads, headerLoop,
      if_pos few]
    simp only [Nat.min_eq_right whole, head, header_length]
    rw [headerLoop.eq_def, if_neg (by omega), size, bodyLoop_flujo]
    simpa using ends
  refine ⟨at_n + (m + 1), fun n enough => ?_⟩
  obtain ⟨more, rfl⟩ := Nat.exists_eq_add_of_le enough
  rw [recibir, tramo_add, nipcReceive, headerLoop_append _ _ _ received]

/-! ### The query -/

/-- Over a sound connection the server is asked what the client asks, and the client reads the
first packet of the answer. -/
theorem nipcQuery_sana {σ : Type} {servir : σ → NipcPacket → Option (σ × List NipcPacket)}
    {con : Conexion} (sound : con.Sana) {s s' : σ} {request response : NipcPacket}
    {siguen : List NipcPacket} (fits : request.Cabe)
    (serves : servir s request = some (s', response :: siguen))
    (fit : ∀ p ∈ response :: siguen, p.Cabe) :
    ∃ N, ∀ n, N ≤ n → nipcQuery servir con n s request = some (s', response) := by
  obtain ⟨a, asked⟩ := recibir_primero sound.llegaPedido sound.cabeceraPedido fits
    con.basuraServidor []
  obtain ⟨b, answered⟩ := recibir_primero sound.llegaRespuesta sound.cabeceraRespuesta
    (fit response List.mem_cons_self) con.basuraCliente (siguen.map wire).flatten
  -- a packet below 2 GiB is sent in as many calls at most
  refine ⟨a + b + 2 ^ 31, fun n enough => ?_⟩
  obtain ⟨resto, sent⟩ := enviar_entero sound.envio fits
    (n := n) (Nat.le_trans fits.wire.le (by omega))
  have replied := enviarTodos_enteros sound.respuestas fit (n := n)
    (fun p member => Nat.le_trans (fit p member).wire.le (by omega)) 0
  have received := asked n (by omega)
  rw [List.append_nil] at received
  rw [nipcQuery, sent]
  simp only [Option.bind_eq_bind, Option.bind_some, received, serves, replied, List.map_cons,
    List.flatten_cons, answered n (by omega)]

end LosAltos.Nipc
