import LosAltos.Fsc.Packets
import LosAltos.Fsc.Transparency

/-!
# A client over connections shows what it shows without them

The operations on packets of `Fsc.Packets` beside those of `Fsc.Metadata`, where the server is
asked directly and the remote cache holds answers. Over sound connections, with paths, writes and
listings below 2 GiB, every run on packets shows what the other one shows, with the 16-bit fields
widened. What the cache holds decodes to what the other cache holds.
-/
namespace LosAltos.Fsc.Cable
open Lib Nipc Rfs Rfs.Cable
open Metadata (TipoDeClave sinNul keyForMemcached dirname pedidoDeEscritura faltaLugar Operacion)

/-- The same result with the fields of `struct stat`. -/
def enCable : Metadata.Resultado → Resultado
  | .codigo valor => .codigo valor
  | .atributos mode nLink size blocks => .atributos mode.toUInt32 nLink.toUInt32 size blocks
  | .entradas lista =>
    .entradas (lista.map fun e => ⟨e.path, e.nLink.toUInt32, e.mode.toUInt32, e.size⟩)

/-- The packet of the answer has less than 2 GiB on the wire. -/
def RespuestaCabe : Respuesta → Prop
  | .readResponse data => headerSize + data.length < 2 ^ 31
  | .readdirResponse entries =>
    headerSize + tamanioDeListado (entries.map entradaEnCable) < 2 ^ 31
  | _ => True

/-- So has the listing that was shown. -/
def ResultadoCabe : Metadata.Resultado → Prop
  | .entradas lista => headerSize + (4 + (lista.map fun e => 20 + (e.path.length + 1)).sum) < 2 ^ 31
  | _ => True

/-- So have the requests of the operation; the input of a write is as long as an `int` says. -/
def OperacionCabe (c : Cliente) : Operacion → Prop
  | .write path input _ =>
    headerSize + (path.strlen + 1 + (8 + c.maximumReadWriteSize)) < 2 ^ 31 ∧ input.length < 2 ^ 31
  | .create path _ | .mkdir path _ | .unlink path | .rmdir path | .truncate path _ | .getattr path
  | .readdir path _ => headerSize + (path.strlen + 1 + 4) < 2 ^ 31

instance (visto : Metadata.Resultado) : Decidable (ResultadoCabe visto) := by
  cases visto <;> unfold ResultadoCabe <;> infer_instance

instance (c : Cliente) (op : Operacion) : Decidable (OperacionCabe c op) := by
  cases op <;> unfold OperacionCabe <;> infer_instance

/-- The type of the packet of an answer. -/
def tipoDeRespuesta : Respuesta → TipoNipc
  | .ok => .nipcOk
  | .error _ => .nipcError
  | .readResponse _ => .nipcReadResponse
  | .readdirResponse _ => .nipcReaddirResponse
  | .getattrResponse .. => .nipcGetattrResponse

variable {sb : Superblock} {bloquesEnCache cacheActive : Bool} {red : Nat → Conexion} {c : Cliente}
  {clientId : UInt32} {r : Respuesta} {p : NipcPacket} {tipo : TipoDeClave} {tipoN : TipoNipc}

/-! ### The packet of an answer -/

theorem code_injective {a b : TipoNipc} : a.code = b.code ↔ a = b := by
  constructor
  · intro same
    have types := congrArg tipoDe same
    rw [tipoDe_code, tipoDe_code] at types
    exact Option.some.inj types
  · rintro rfl
    rfl

/-- The error of a code alone has an empty message. -/
theorem newNipcErrorCode_strlen (clientId : UInt32) (codigo : Int) :
    (newNipcErrorCode clientId codigo).errorMessage.strlen = 0 := rfl

/-- An answer that fits has a packet, which says what it is. -/
theorem paqueteDe_some (clientId : UInt32) (fits : RespuestaCabe r) :
    ∃ p, paqueteDe clientId r = some p ∧ p.Cabe ∧ p.type = (tipoDeRespuesta r).code := by
  cases r with
  | ok => exact ⟨newNipcOk clientId, rfl, (by decide : headerSize + 0 < 2 ^ 31), rfl⟩
  | error codigo =>
    obtain ⟨p, built, type, size, -⟩ := error_ida_y_vuelta (newNipcErrorCode clientId codigo)
      (by rw [newNipcErrorCode_strlen]; decide)
    exact ⟨p, built, by rw [NipcPacket.Cabe, size, newNipcErrorCode_strlen]; decide, type⟩
  | readResponse data =>
    unfold RespuestaCabe at fits
    refine ⟨newNipcReadResponse data clientId, rfl, ?_, rfl⟩
    have size : (newNipcReadResponse data clientId).dataLength.toNat = data.length % 2 ^ 32 :=
      UInt32.toNat_ofNat'
    rw [NipcPacket.Cabe, size]
    omega
  | readdirResponse entries =>
    unfold RespuestaCabe at fits
    obtain ⟨p, built, type, size, -⟩ := serializeReaddirResponse_some
      (entries.map entradaEnCable) clientId (by omega)
    exact ⟨p, built, by rw [NipcPacket.Cabe, size]; exact fits, type⟩
  | getattrResponse mode nLink size blocks =>
    obtain ⟨p, built, type, bytes, -⟩ := getattr_ida_y_vuelta
      ⟨(), mode.toUInt32, size, nLink.toUInt32, blocks⟩
    exact ⟨p, built, by rw [NipcPacket.Cabe, bytes]; decide, type⟩

/-- An answer is shown by the operation that asks for its type. -/
theorem mostrar_tipo : (Metadata.mostrar tipo r).isSome ↔ tipoDeRespuesta r = nipcTypeDe tipo := by
  cases tipo <;> cases r <;> simp [Metadata.mostrar, tipoDeRespuesta, nipcTypeDe]

theorem checkError_paquete (good : Buena tipoN r) (built : paqueteDe clientId r = some p)
    (type : p.type = (tipoDeRespuesta r).code) : checkError p = some (Metadata.checkError r) := by
  cases r with
  | error codigo =>
    obtain ⟨q, made, -, -, decoded⟩ := error_ida_y_vuelta (newNipcErrorCode clientId codigo)
      (by rw [newNipcErrorCode_strlen]; decide)
    obtain rfl : p = q := Option.some.inj (built.symm.trans made)
    obtain ⟨low, high⟩ := good
    have code : (UInt32.ofInt codigo).toInt32.toInt = codigo :=
      toInt32_ofInt (by omega) (by omega)
    have error : p.type = TipoNipc.nipcError.code := type
    rw [checkError, if_neg (not_not.mpr error), decoded]
    simp only [Option.bind_eq_bind, Option.bind_some, newNipcErrorCode, emptyNipcError, code,
      Metadata.checkError]
  | ok | readResponse data | readdirResponse entries | getattrResponse mode nLink size blocks =>
    rw [checkError, if_pos (by rw [type, ne_eq, code_injective]; simp [tipoDeRespuesta])]
    rfl

theorem checkOkError_paquete (good : Buena tipoN r) (built : paqueteDe clientId r = some p)
    (type : p.type = (tipoDeRespuesta r).code) :
    checkOkError p = some (Metadata.checkOkError r) := by
  have ok_iff : p.type = TipoNipc.nipcOk.code ↔ r = .ok := by
    rw [type, code_injective]
    cases r <;> simp [tipoDeRespuesta]
  rw [checkOkError, Metadata.checkOkError, checkError_paquete good built type]
  by_cases fine : r = .ok
  · rw [if_pos (ok_iff.mpr fine), if_pos fine]
  · rw [if_neg (fine ∘ ok_iff.mp), if_neg fine]

/-- The names of a good listing are the C strings they are sent as. -/
theorem deBytes_path {path : List UInt8} (nulFree : 0 ∉ path) : (CString.deBytes path).bytes = path :=
  congrArg CString.bytes (CString.deBytes_bytes ⟨path, nulFree⟩)

theorem tamanioDeListado_entradas {entries : List ReaddirEntry}
    (names : ∀ e ∈ entries, 0 ∉ e.path) : tamanioDeListado (entries.map entradaEnCable) =
      4 + (entries.map fun e => 20 + (e.path.length + 1)).sum := by
  rw [tamanioDeListado, List.map_map]
  refine congrArg (4 + List.sum ·) (List.map_congr_left fun e member => ?_)
  simp only [Function.comp_apply, tamanioDeEntrada, entradaEnCable, CString.strlen,
    deBytes_path (names e member)]

/-- An answer shown within the bound fits. -/
theorem respuestaCabe {visto : Metadata.Resultado} (good : Buena tipoN r)
    (shown : Metadata.mostrar tipo r = some visto) (small : ResultadoCabe visto) :
    RespuestaCabe r := by
  cases tipo with
  | getattrResponse =>
    cases r with
    | getattrResponse mode nLink size blocks => trivial
    | _ => cases shown
  | readdirResponse =>
    cases r with
    | readdirResponse entries =>
      cases shown
      simp only [ResultadoCabe, List.map_map] at small
      simp only [RespuestaCabe, tamanioDeListado_entradas good.2]
      exact small
    | _ => cases shown

/-- Any packet with the data of an answer shows the answer. -/
theorem mostrar_paquete {visto : Metadata.Resultado} (good : Buena tipoN r) (fits : RespuestaCabe r)
    (shown : Metadata.mostrar tipo r = some visto) (built : paqueteDe clientId r = some p)
    {q : NipcPacket} (data : q.data = p.data) : mostrar tipo q = some (enCable visto) := by
  cases tipo with
  | getattrResponse =>
    cases r with
    | getattrResponse mode nLink size blocks =>
      cases shown
      obtain ⟨p', made, -, -, decodes⟩ := getattr_ida_y_vuelta
        ⟨(), mode.toUInt32, size, nLink.toUInt32, blocks⟩
      obtain rfl : p' = p := Option.some.inj (made.symm.trans built)
      simp only [mostrar, decodes q data, Option.bind_eq_bind, Option.bind_some, enCable]
    | _ => cases shown
  | readdirResponse =>
    cases r with
    | readdirResponse entries =>
      cases shown
      unfold RespuestaCabe at fits
      obtain ⟨p', made, -, -, bytes⟩ := serializeReaddirResponse_some
        (entries.map entradaEnCable) clientId (by omega)
      obtain rfl : p' = p := Option.some.inj (made.symm.trans built)
      obtain ⟨fin, decoded⟩ := deserializeReaddirResponse_some
        (entries.map entradaEnCable) (by omega) (data.trans bytes)
      simp only [mostrar, decoded, Option.bind_eq_bind, Option.bind_some, enCable, List.map_map]
      refine congrArg (some <| Resultado.entradas ·) (List.map_congr_left fun e member => ?_)
      have name := deBytes_path (good.2 e member)
      have nulEnds : (CString.deBytes (CString.deBytes e.path).conNul) = .deBytes e.path := by
        have cut := leerPath_conNul (CString.deBytes e.path) []
        rw [List.append_nil, leerPath] at cut
        split at cut
        · exact congrArg Prod.fst (Option.some.inj cut)
        · cases cut
      simp only [Function.comp_apply, NipcReaddirEntry.enMemoria, entradaEnCable, nulEnds, name]
    | _ => cases shown

/-! ### One query -/

/-- What stands under a key of this type: nothing on both sides, or the data of an answer. -/
inductive Guarda (tipo : TipoDeClave) : Option (List UInt8) → Option Respuesta → Prop where
  | nada : Guarda tipo none none
  | dato (data : List UInt8) (r : Respuesta) (visto : Metadata.Resultado) :
      data.length < 2 ^ 32 → Metadata.mostrar tipo r = some visto →
      (∀ q : NipcPacket, q.data = data → mostrar tipo q = some (enCable visto)) →
      Guarda tipo (some data) (some r)

/-- The same server, and a cache that holds the same answers. -/
structure Refleja (w : Estado) (e : Metadata.Estado) : Prop where
  servidor : w.servidor.servidor = e.servidor
  cache : ∀ (path : CString) (tipo : TipoDeClave),
    Guarda tipo (w.cache (keyForMemcached path.bytes tipo))
      (e.cache (keyForMemcached path.bytes tipo))

/-- With enough calls on its connections, the operation shows this and leaves a state that
reflects `e`. -/
def Acaba {β : Type} (ejecuta : Nat → Option (Estado × β)) (e : Metadata.Estado) (visto : β) :
    Prop :=
  ∃ w, Refleja w e ∧ ∃ N, ∀ n, N ≤ n → ejecuta n = some (w, visto)

theorem Acaba.bind {β γ : Type} {ejecuta : Nat → Option (Estado × β)} {e e' : Metadata.Estado}
    {visto : β} {visto' : γ} {sigue : Nat → Estado × β → Option (Estado × γ)}
    (first : Acaba ejecuta e visto)
    (rest : ∀ w, Refleja w e → Acaba (fun n => sigue n (w, visto)) e' visto') :
    Acaba (fun n => ejecuta n >>= sigue n) e' visto' := by
  obtain ⟨w, mirrors, N, runs⟩ := first
  obtain ⟨w', mirrors', M, follows⟩ := rest w mirrors
  exact ⟨w', mirrors', N + M, fun n enough =>
    Option.bind_eq_some_iff.mpr ⟨_, runs n (by omega), follows n (by omega)⟩⟩

theorem Acaba.fin {β : Type} {w : Estado} {e : Metadata.Estado} {visto : β}
    (mirrors : Refleja w e) : Acaba (fun _ => some (w, visto)) e visto :=
  ⟨w, mirrors, 0, fun _ _ => rfl⟩

theorem mapM_oks {rs : List Respuesta} (oks : ∀ q ∈ rs, q = .ok) (clientId : UInt32) :
    rs.mapM (paqueteDe clientId) = some (List.replicate rs.length (newNipcOk clientId)) := by
  induction rs with
  | nil => rfl
  | cons r rs ih =>
    obtain rfl := oks r List.mem_cons_self
    rw [List.mapM_cons, ih fun q member => oks q (List.mem_cons_of_mem _ member)]
    rfl

theorem nipcQuery_buena {s s' : Servidor} {pedido : Pedido}
    (asked : Metadata.nipcQuery sb bloquesEnCache s pedido = some (s', r)) :
    ∃ resto, Rfs.serveRequest sb bloquesEnCache s pedido = some (s', r :: resto) ∧
      Buena pedido.nipcType r ∧ ∀ q ∈ resto, q = .ok := by
  obtain ⟨⟨t, rs⟩, served, asked⟩ := Option.bind_eq_some_iff.mp asked
  obtain ⟨first, head, asked⟩ := Option.bind_eq_some_iff.mp asked
  cases asked
  obtain ⟨primera, resto, rfl, good, oks⟩ := serveRequest_contesta s pedido s' rs served
  cases head
  exact ⟨resto, served, good, oks⟩

/-- The packet of a request goes to the server and that of its first answer comes back. -/
theorem consultar_paquete {w : Estado} {s' : Servidor} {pedido : Pedido}
    (sound : ∀ k, (red k).Sana) (short : headerSize + pedido.payload < 2 ^ 31)
    (asked : Metadata.nipcQuery sb bloquesEnCache w.servidor.servidor pedido = some (s', r))
    (fits : RespuestaCabe r) :
    ∃ packet p, pedido.serialize = some packet ∧ paqueteDe pedido.clientId r = some p ∧
      p.type = (tipoDeRespuesta r).code ∧ p.Cabe ∧ ∃ N, ∀ n, N ≤ n →
        consultar sb bloquesEnCache red n w packet =
          some (⟨⟨s', w.servidor.generatedClientId⟩, w.cache, w.conexiones + 1⟩, p) := by
  obtain ⟨resto, served, -, oks⟩ := nipcQuery_buena asked
  obtain ⟨p, built, small, type⟩ := paqueteDe_some pedido.clientId fits
  unfold headerSize at short
  obtain ⟨packet, encoded, client, data⟩ := serialize_some pedido (by omega)
    (.inr (by rw [Pedido.payload] at short; omega))
  have request : packet.Cabe := by
    rw [NipcPacket.Cabe, ← packet.data_length, data, List.length_append, CString.conNul_length,
      headerSize]
    exact short
  have decoded := deserialize_some pedido (by omega) client data
  have answered : Rfs.Cable.serveRequest sb bloquesEnCache w.servidor packet =
      some (⟨s', w.servidor.generatedClientId⟩,
        p :: List.replicate resto.length (newNipcOk pedido.clientId)) := by
    rw [serveRequest_pedido _ pedido (serialize_type pedido encoded) decoded, servePedido, served]
    simp only [Option.bind_eq_bind, Option.bind_some, List.mapM_cons, built, mapM_oks oks,
      Option.pure_def]
  obtain ⟨N, runs⟩ := nipcQuery_sana (sound w.conexiones) request answered (by
    intro q member
    rcases List.mem_cons.mp member with rfl | later
    · exact small
    · rw [List.eq_of_mem_replicate later]
      exact (by decide : headerSize + 0 < 2 ^ 31))
  refine ⟨packet, p, encoded, built, type, small, N, fun n enough => ?_⟩
  rw [consultar, runs n enough, Option.bind_eq_bind, Option.bind_some]

/-! ### The cache -/

theorem Guarda.olvida {tipo : TipoDeClave} {k : List UInt8} {cache : Cache}
    {cache' : Metadata.Cache} (held : Guarda tipo (cache k) (cache' k)) (path : List UInt8)
    (otro : TipoDeClave) : Guarda tipo (deleteMemcached cache path otro k)
      (Metadata.deleteMemcached cache' path otro k) := by
  unfold deleteMemcached ponEnCache Metadata.deleteMemcached Metadata.ponEnCache
  split
  · exact .nada
  · exact held

theorem Guarda.olvidar {tipo : TipoDeClave} {k : List UInt8}
    (ks : List (List UInt8 × TipoDeClave)) {cache : Cache} {cache' : Metadata.Cache}
    (held : Guarda tipo (cache k) (cache' k)) :
    Guarda tipo (olvidar cache ks k) (Metadata.olvidar cache' ks k) := by
  induction ks generalizing cache cache' with
  | nil => exact held
  | cons key ks ih => exact ih (held.olvida key.1 key.2)

/-- A look-up that hits shows what was kept. -/
theorem queryMemcached_guarda {w : Estado} {e : Metadata.Estado} (mirrors : Refleja w e)
    (path : CString) (tipo : TipoDeClave) (clientId : UInt32) :
    (Metadata.queryMemcached e.cache path.bytes tipo = none ∧
      queryMemcached w.cache path.bytes tipo clientId = none) ∨
    ∃ r visto q, Metadata.queryMemcached e.cache path.bytes tipo = some r ∧
      Metadata.mostrar tipo r = some visto ∧
      queryMemcached w.cache path.bytes tipo clientId = some q ∧
      mostrar tipo q = some (enCable visto) := by
  have nul : sinNul (keyForMemcached path.bytes tipo ++ [0]) = keyForMemcached path.bytes tipo := by
    simp [sinNul]
  rw [Metadata.queryMemcached_eq, queryMemcached, nul]
  have held := mirrors.cache path tipo
  generalize w.cache (keyForMemcached path.bytes tipo) = x at held ⊢
  generalize e.cache (keyForMemcached path.bytes tipo) = y at held ⊢
  cases held with
  | nada => exact .inl ⟨rfl, rfl⟩
  | dato data r visto short shown decodes =>
    refine .inr ⟨r, visto, _, rfl, shown, rfl, decodes _ ?_⟩
    simp only [Nat.mod_eq_of_lt short, List.take_length]

/-- The data of an answer is kept under the key of its type. -/
theorem Refleja.guarda {w : Estado} {e : Metadata.Estado} (mirrors : Refleja w e) (path : CString)
    {visto : Metadata.Resultado} (good : Buena tipoN r) (fits : RespuestaCabe r)
    (shown : Metadata.mostrar tipo r = some visto) (built : paqueteDe clientId r = some p)
    (type : p.type = (nipcTypeDe tipo).code) :
    Refleja { w with cache := storeMemcached w.cache path.bytes p }
      { e with cache := Metadata.storeMemcached e.cache path.bytes tipo r } := by
  have key : (if p.type = TipoNipc.nipcGetattrResponse.code then TipoDeClave.getattrResponse
      else .readdirResponse) = tipo := by
    rw [type]
    cases tipo <;> rfl
  refine ⟨mirrors.servidor, fun path' tipo' => ?_⟩
  simp only [storeMemcached, key, ponEnCache, Metadata.storeMemcached, Metadata.ponEnCache]
  split
  · rename_i same
    rw [Metadata.sinNul_key] at same
    obtain ⟨-, rfl⟩ := Metadata.key_injective same
    refine .dato _ _ _ ?_ shown fun q data => mostrar_paquete good fits shown built data
    rw [p.data_length]
    exact p.dataLength.toNat_lt
  · exact mirrors.cache path' tipo'

/-! ### The operations -/

section
variable {w : Estado} {e e' : Metadata.Estado} {path : CString}

/-- What is not shown of a question about a path is no listing and no data. -/
theorem respuestaCabe_pregunta {offset : UInt32}
    (good : Buena (Metadata.preguntar clientId path offset tipo).nipcType r)
    (hidden : Metadata.mostrar tipo r = none) : RespuestaCabe r := by
  cases r with
  | ok | error codigo | getattrResponse mode nLink size blocks => trivial
  | readResponse data =>
    unfold Buena at good
    cases tipo <;> cases good
  | readdirResponse entries =>
    cases tipo with
    | getattrResponse => cases good.1
    | readdirResponse => cases hidden

theorem payload_pregunta {offset : UInt32} (short : headerSize + (path.strlen + 1 + 4) < 2 ^ 31) :
    headerSize + (Metadata.preguntar clientId path offset tipo).payload < 2 ^ 31 := by
  cases tipo <;> simp only [Metadata.preguntar, Pedido.payload, Pedido.path, Pedido.campos,
    campo_length, List.length_nil] <;> omega

/-- The server is asked, and its answer is shown and kept. -/
theorem consulta_preguntada (cacheActive : Bool) {s' : Servidor} {offset : UInt32} {visto : Metadata.Resultado}
    (sound : ∀ k, (red k).Sana) (mirrors : Refleja w e)
    (short : headerSize + (path.strlen + 1 + 4) < 2 ^ 31)
    (asked : Metadata.nipcQuery sb bloquesEnCache e.servidor
      (Metadata.preguntar clientId path offset tipo) = some (s', r))
    (ends : (match Metadata.mostrar tipo r with
      | none => some ({ e with servidor := s' }, .codigo (Metadata.checkError r))
      | some visto => some (⟨s', if cacheActive then
          Metadata.storeMemcached e.cache path.bytes tipo r else e.cache⟩, visto)) =
        some (e', visto))
    (small : ResultadoCabe visto) :
    Acaba (fun n => do
      let packet ← (Metadata.preguntar clientId path offset tipo).serialize
      let (w, response) ← consultar sb bloquesEnCache red n w packet
      if response.type ≠ (nipcTypeDe tipo).code then do
        let valor ← checkError response
        some (w, .codigo valor)
      else do
        let cache := if cacheActive then storeMemcached w.cache path.bytes response else w.cache
        let visto ← mostrar tipo response
        some ({ w with cache }, visto)) e' (enCable visto) := by
  obtain ⟨-, -, good, -⟩ := nipcQuery_buena asked
  have fits : RespuestaCabe r := by
    cases shown : Metadata.mostrar tipo r with
    | none => exact respuestaCabe_pregunta good shown
    | some visto' =>
      rw [shown] at ends
      cases ends
      exact respuestaCabe good shown small
  rw [← mirrors.servidor] at asked
  obtain ⟨packet, p, encoded, built, type, -, N, runs⟩ :=
    consultar_paquete sound (payload_pregunta short) asked fits
  have moved : Refleja ⟨⟨s', w.servidor.generatedClientId⟩, w.cache, w.conexiones + 1⟩
      { e with servidor := s' } := ⟨rfl, mirrors.cache⟩
  cases shown : Metadata.mostrar tipo r with
  | none =>
    rw [shown] at ends
    cases ends
    have other : p.type ≠ (nipcTypeDe tipo).code := by
      intro same
      rw [type, code_injective, ← mostrar_tipo, shown] at same
      cases same
    refine ⟨_, moved, N, fun n enough => ?_⟩
    simp only [encoded, runs n enough, Option.bind_eq_bind, Option.bind_some, if_pos other,
      checkError_paquete good built type, enCable]
  | some visto' =>
    rw [shown] at ends
    cases ends
    have same : p.type = (nipcTypeDe tipo).code := by
      rw [type, code_injective, ← mostrar_tipo, shown]
      rfl
    have decoded := mostrar_paquete good fits shown built (q := p) rfl
    cases cacheActive with
    | true =>
      refine ⟨_, moved.guarda path good fits shown built same, N, fun n enough => ?_⟩
      simp only [encoded, runs n enough, Option.bind_eq_bind, Option.bind_some,
        if_neg (not_not.mpr same), if_true, decoded]
    | false =>
      refine ⟨_, moved, N, fun n enough => ?_⟩
      simp only [encoded, runs n enough, Option.bind_eq_bind, Option.bind_some,
        if_neg (not_not.mpr same), Bool.false_eq_true, if_false, decoded]

theorem remoteConsulta_acaba (tipo : TipoDeClave) (offset : UInt32) (path : CString)
    (sound : ∀ k, (red k).Sana) (mirrors : Refleja w e)
    (short : headerSize + (path.strlen + 1 + 4) < 2 ^ 31) {visto : Metadata.Resultado}
    (run : Metadata.remoteConsulta sb bloquesEnCache cacheActive e path tipo
      (Metadata.preguntar c.clientId path offset tipo) = some (e', visto))
    (small : ResultadoCabe visto) :
    Acaba (fun n => remoteConsulta sb bloquesEnCache red n cacheActive c w path tipo
      (Metadata.preguntar c.clientId path offset tipo)) e' (enCable visto) := by
  unfold Metadata.remoteConsulta at run
  unfold remoteConsulta
  cases cacheActive with
  | false =>
    obtain ⟨⟨s', r⟩, asked, run⟩ := Option.bind_eq_some_iff.mp run
    exact consulta_preguntada false sound mirrors short asked run small
  | true =>
    rcases queryMemcached_guarda mirrors path tipo c.clientId with
      ⟨here, there⟩ | ⟨r, visto', q, here, shown, there, decoded⟩
    · simp only [here, there, if_true] at run ⊢
      obtain ⟨⟨s', r⟩, asked, run⟩ := Option.bind_eq_some_iff.mp run
      exact consulta_preguntada true sound mirrors short asked run small
    · simp only [here, there, if_true, shown, decoded, Option.bind_eq_bind, Option.bind_some] at run ⊢
      cases run
      exact .fin mirrors

/-- An answer to a request for neither a listing nor data is short. -/
theorem respuestaCabe_cambio (good : Buena tipoN r) (listing : tipoN ≠ .nipcReaddir)
    (data : tipoN ≠ .nipcRead) : RespuestaCabe r := by
  cases r with
  | ok | error codigo | getattrResponse mode nLink size blocks => trivial
  | readResponse bytes => exact absurd good data
  | readdirResponse entries => exact absurd good.1 listing

theorem remoteCambio_acaba (olvidadas' : UInt32 → List (List UInt8 × TipoDeClave))
    (sound : ∀ k, (red k).Sana) (mirrors : Refleja w e) {pedido : Pedido}
    (short : headerSize + pedido.payload < 2 ^ 31) (listing : pedido.nipcType ≠ .nipcReaddir)
    (data : pedido.nipcType ≠ .nipcRead) {olvidadas : Respuesta → List (List UInt8 × TipoDeClave)}
    (forgets : ∀ r, olvidadas' (tipoDeRespuesta r).code = olvidadas r) {valor : Int}
    (run : Metadata.remoteCambio sb bloquesEnCache cacheActive e pedido olvidadas =
      some (e', valor)) :
    Acaba (fun n => remoteCambio sb bloquesEnCache red n cacheActive w pedido olvidadas') e'
      valor := by
  obtain ⟨⟨s', r⟩, asked, run⟩ := Option.bind_eq_some_iff.mp run
  cases run
  obtain ⟨-, -, good, -⟩ := nipcQuery_buena asked
  rw [← mirrors.servidor] at asked
  obtain ⟨packet, p, encoded, built, type, -, N, runs⟩ :=
    consultar_paquete sound short asked (respuestaCabe_cambio good listing data)
  refine ⟨⟨⟨s', w.servidor.generatedClientId⟩, if cacheActive then
    olvidar w.cache (olvidadas r) else w.cache, w.conexiones + 1⟩, ⟨rfl, fun path tipo => ?_⟩, N,
      fun n enough => ?_⟩
  · cases cacheActive with
    | true => exact (mirrors.cache path tipo).olvidar (olvidadas r)
    | false => exact mirrors.cache path tipo
  · simp only [remoteCambio, encoded, runs n enough, Option.bind_eq_bind, Option.bind_some,
      checkOkError_paquete good built type, type, forgets]

theorem olvidarPadre_code (r : Respuesta) :
    olvidarPadre path (tipoDeRespuesta r).code = Metadata.olvidarPadre path r := by
  unfold olvidarPadre Metadata.olvidarPadre
  simp only [code_injective]
  cases r <;> simp [tipoDeRespuesta]

theorem olvidarPropiosYPadre_code (r : Respuesta) :
    olvidarPropiosYPadre path (tipoDeRespuesta r).code = Metadata.olvidarPropiosYPadre path r := by
  unfold olvidarPropiosYPadre Metadata.olvidarPropiosYPadre
  simp only [code_injective]
  cases r <;> simp [tipoDeRespuesta]

/-- A write request carries at most a whole piece. -/
theorem pedidoDeEscritura_corto {request : NipcWrite} {pedido : Pedido} {m : Nat}
    (built : pedidoDeEscritura path request = some pedido) (size : request.data.length ≤ m) :
    pedido.payload ≤ path.strlen + 1 + (8 + m) ∧ pedido.nipcType = .nipcWrite ∧
      pedido.clientId = request.clientId := by
  unfold pedidoDeEscritura at built
  split at built
  · cases built
    refine ⟨?_, rfl, rfl⟩
    simp only [Pedido.payload, Pedido.path, Pedido.campos, List.length_append, campo_length]
    omega
  · cases built

/-- The loop asks the same and stops at the same place. -/
theorem writeLoop_acaba (sound : ∀ k, (red k).Sana) {input : List UInt8} {offset : Nat}
    {cache : Metadata.Cache}
    (short : headerSize + (path.strlen + 1 + (8 + c.maximumReadWriteSize)) < 2 ^ 31)
    (long : input.length < 2 ^ 31) (fuel : Nat) : ∀ {w : Estado} {s s' : Servidor}
      {bytesWrote valor : Int} {termino : Bool}, Refleja w ⟨s, cache⟩ → 0 ≤ bytesWrote →
      bytesWrote ≤ input.length →
      Metadata.writeLoop sb bloquesEnCache c path input offset fuel s bytesWrote =
        some (s', termino, valor) →
      Acaba (fun n => writeLoop sb bloquesEnCache red n c path input offset fuel w bytesWrote)
        ⟨s', cache⟩ (termino, valor) := by
  induction fuel with
  | zero =>
    intro w s s' bytesWrote valor termino _ _ _ run
    cases run
  | succ fuel ih =>
    intro w s s' bytesWrote valor termino mirrors low high run
    unfold Metadata.writeLoop at run
    unfold writeLoop
    split at run
    · rename_i more
      simp only [if_pos more]
      have whole : Int.bmod (input.length - bytesWrote) (2 ^ 32) = input.length - bytesWrote := by
        rw [Int.bmod_def]
        omega
      simp only [whole] at run ⊢
      generalize piece : (if (input.length : Int) - bytesWrote > c.maximumReadWriteSize then
        (c.maximumReadWriteSize : Int) else input.length - bytesWrote) = requestSize at run ⊢
      have bounds : 0 ≤ requestSize ∧ requestSize ≤ c.maximumReadWriteSize ∧
          requestSize ≤ input.length - bytesWrote := by
        rw [← piece]
        split <;> omega
      obtain ⟨writeData, built, run⟩ := Option.bind_eq_some_iff.mp run
      obtain ⟨⟨t, r⟩, asked, run⟩ := Option.bind_eq_some_iff.mp run
      obtain ⟨payload, type, -⟩ := pedidoDeEscritura_corto built (m := c.maximumReadWriteSize) (by
        rw [newNipcWrite, List.length_take]
        omega)
      obtain ⟨-, -, good, -⟩ := nipcQuery_buena asked
      have fits := respuestaCabe_cambio good (by rw [type]; decide) (by rw [type]; decide)
      have here : w.servidor.servidor = s := mirrors.servidor
      rw [← here] at asked
      obtain ⟨packet, p, encoded, sent, packetType, -, N, runs⟩ :=
        consultar_paquete sound (by omega) asked fits
      have moved : Refleja ⟨⟨t, w.servidor.generatedClientId⟩, w.cache, w.conexiones + 1⟩
          ⟨t, cache⟩ := ⟨rfl, mirrors.cache⟩
      have ok_iff : p.type = TipoNipc.nipcOk.code ↔ r = .ok := by
        rw [packetType, code_injective]
        cases r <;> simp [tipoDeRespuesta]
      dsimp only at run
      split at run
      · rename_i fine
        obtain ⟨w', mirrors', M, follows⟩ := ih moved (by omega) (by omega) run
        refine ⟨w', mirrors', N + M, fun n enough => ?_⟩
        simp only [built, encoded, runs n (by omega), Option.bind_eq_bind, Option.bind_some,
          if_pos (ok_iff.mpr fine)]
        exact follows n (by omega)
      · rename_i failed
        cases run
        refine ⟨_, moved, N, fun n enough => ?_⟩
        simp only [built, encoded, runs n enough, Option.bind_eq_bind, Option.bind_some,
          if_neg (failed ∘ ok_iff.mp), checkError_paquete good sent packetType]
    · rename_i finished
      simp only [if_neg finished]
      cases run
      exact .fin mirrors

/-- What follows the truncation. -/
theorem trasTruncar_acaba (sound : ∀ k, (red k).Sana) (mirrors : Refleja w e)
    {input : List UInt8} {offset : Nat} {errorCode valor : Int}
    (small : OperacionCabe c (.write path input offset))
    (run : (if errorCode ≠ 0 then some (e, errorCode) else do
      let (servidor, termino, valor) ← Metadata.writeLoop sb bloquesEnCache c path input offset
        (input.length + 1) e.servidor 0
      let cache := if cacheActive && termino then
          Metadata.deleteMemcached e.cache path.bytes .getattrResponse
        else e.cache
      some (⟨servidor, cache⟩, valor)) = some (e', valor)) :
    Acaba (fun n => if errorCode ≠ 0 then some (w, errorCode) else do
      let (w, termino, valor) ← writeLoop sb bloquesEnCache red n c path input offset
        (input.length + 1) w 0
      let cache := if cacheActive && termino then deleteMemcached w.cache path.bytes .getattrResponse
        else w.cache
      some ({ w with cache }, valor)) e' valor := by
  obtain ⟨short, long⟩ := small
  split at run
  · rename_i failed
    simp only [if_pos failed]
    cases run
    exact .fin mirrors
  · rename_i fine
    simp only [if_neg fine]
    obtain ⟨⟨s', termino, valor'⟩, wrote, run⟩ := Option.bind_eq_some_iff.mp run
    cases run
    refine (writeLoop_acaba sound short long _ mirrors (by omega) (by omega) wrote).bind
      fun w2 mirrors2 => ?_
    refine ⟨⟨w2.servidor, if cacheActive && termino then
        deleteMemcached w2.cache path.bytes .getattrResponse else w2.cache, w2.conexiones⟩,
      ⟨mirrors2.servidor, fun path' tipo' => ?_⟩, 0, fun n _ => rfl⟩
    dsimp only
    split
    · exact (mirrors2.cache path' tipo').olvida path.bytes .getattrResponse
    · exact mirrors2.cache path' tipo'

theorem escribirConTamanio_acaba (sound : ∀ k, (red k).Sana) (mirrors : Refleja w e)
    {input : List UInt8} {offset : Nat} {stSize : UInt32} {valor : Int}
    (small : OperacionCabe c (.write path input offset))
    (run : Metadata.escribirConTamanio sb bloquesEnCache cacheActive c e path input offset stSize =
      some (e', valor)) :
    Acaba (fun n => escribirConTamanio sb bloquesEnCache red n cacheActive c w path input offset
      stSize) e' valor := by
  have short := small.1
  unfold Metadata.escribirConTamanio at run
  unfold escribirConTamanio
  by_cases lacks : faltaLugar stSize input offset = true
  · simp only [if_pos lacks] at run ⊢
    obtain ⟨⟨e1, errorCode⟩, truncated, run⟩ := Option.bind_eq_some_iff.mp run
    have first := remoteCambio_acaba (fun _ => [(path.bytes, .getattrResponse)]) sound mirrors (by
        simp only [Pedido.payload, Pedido.path, Pedido.campos, campo_length]
        omega) (by simp [Pedido.nipcType]) (by simp [Pedido.nipcType]) (fun _ => rfl) truncated
    exact first.bind fun w1 mirrors1 => trasTruncar_acaba sound mirrors1 small run
  · simp only [if_neg lacks] at run ⊢
    obtain ⟨⟨e1, errorCode⟩, same, run⟩ := Option.bind_eq_some_iff.mp run
    cases same
    exact (Acaba.fin mirrors).bind fun w1 mirrors1 => trasTruncar_acaba sound mirrors1 small run

theorem remoteWrite_acaba (sound : ∀ k, (red k).Sana) (mirrors : Refleja w e)
    {input : List UInt8} {offset : Nat} {valor : Int}
    (small : OperacionCabe c (.write path input offset))
    (run : Metadata.remoteWrite sb bloquesEnCache cacheActive c e path input offset =
      some (e', valor)) :
    Acaba (fun n => remoteWrite sb bloquesEnCache red n cacheActive c w path input offset) e'
      valor := by
  obtain ⟨⟨e1, stats⟩, asked, run⟩ := Option.bind_eq_some_iff.mp run
  have listless : ResultadoCabe stats := by
    cases stats with
    | entradas lista => cases run
    | codigo valor => trivial
    | atributos mode nLink size blocks => trivial
  have first := remoteConsulta_acaba (c := c) .getattrResponse 0 path sound mirrors
    (by have := small.1; omega) asked listless
  refine first.bind fun w1 mirrors1 => ?_
  cases stats with
  | codigo errorCode =>
    cases run
    exact .fin mirrors1
  | atributos mode nLink stSize blocks => exact escribirConTamanio_acaba sound mirrors1 small run
  | entradas lista => cases run

/-- One operation on packets. -/
theorem ejecutar_acaba (sound : ∀ k, (red k).Sana) (mirrors : Refleja w e) {op : Operacion}
    {visto : Metadata.Resultado} (small : OperacionCabe c op) (shown : ResultadoCabe visto)
    (run : Metadata.ejecutar sb bloquesEnCache cacheActive c e op = some (e', visto)) :
    Acaba (fun n => ejecutar sb bloquesEnCache red n cacheActive c w op) e' (enCable visto) := by
  have code : ∀ {o : Option (Metadata.Estado × Int)} {o' : Nat → Option (Estado × Int)},
      Metadata.conCodigo o = some (e', visto) →
      (∀ valor, o = some (e', valor) → Acaba o' e' valor) →
      Acaba (fun n => conCodigo (o' n)) e' (enCable visto) := by
    intro o o' ran each
    obtain ⟨⟨e1, valor⟩, here, same⟩ := Option.map_eq_some_iff.mp ran
    cases same
    obtain ⟨w', mirrors', N, runs⟩ := each valor here
    exact ⟨w', mirrors', N, fun n enough =>
      (congrArg conCodigo (runs n enough)).trans rfl⟩
  cases op with
  | create p mode =>
    refine code run fun valor ran => remoteCambio_acaba _ sound mirrors ?_ (by simp [Pedido.nipcType])
      (by simp [Pedido.nipcType]) olvidarPadre_code ran
    simp only [Pedido.payload, Pedido.path, Pedido.campos, campo_length]
    exact small
  | mkdir p mode =>
    refine code run fun valor ran => remoteCambio_acaba _ sound mirrors ?_ (by simp [Pedido.nipcType])
      (by simp [Pedido.nipcType]) olvidarPadre_code ran
    simp only [Pedido.payload, Pedido.path, Pedido.campos, campo_length]
    exact small
  | unlink p =>
    refine code run fun valor ran => remoteCambio_acaba _ sound mirrors ?_ (by simp [Pedido.nipcType])
      (by simp [Pedido.nipcType]) olvidarPropiosYPadre_code ran
    unfold OperacionCabe at small
    simp only [Pedido.payload, Pedido.path, Pedido.campos, List.length_nil]
    omega
  | rmdir p =>
    refine code run fun valor ran => remoteCambio_acaba _ sound mirrors ?_ (by simp [Pedido.nipcType])
      (by simp [Pedido.nipcType]) olvidarPropiosYPadre_code ran
    unfold OperacionCabe at small
    simp only [Pedido.payload, Pedido.path, Pedido.campos, List.length_nil]
    omega
  | write p input offset =>
    exact code run fun valor ran => remoteWrite_acaba sound mirrors small ran
  | truncate p offset =>
    refine code run fun valor ran => remoteCambio_acaba _ sound mirrors ?_ (by simp [Pedido.nipcType])
      (by simp [Pedido.nipcType]) (fun _ => rfl) ran
    simp only [Pedido.payload, Pedido.path, Pedido.campos, campo_length]
    exact small
  | getattr p =>
    exact remoteConsulta_acaba .getattrResponse 0 p sound mirrors small run shown
  | readdir p offset =>
    exact remoteConsulta_acaba .readdirResponse (.ofNat offset) p sound mirrors
      small run shown

end

/-- Over sound connections a run on packets shows what the run without them shows. -/
theorem correr_por_el_cable {w : Estado} {e : Metadata.Estado} {ops : List Operacion}
    {vistos : List Metadata.Resultado} (sound : ∀ k, (red k).Sana) (mirrors : Refleja w e)
    (small : ∀ op ∈ ops, OperacionCabe c op) (shown : ∀ visto ∈ vistos, ResultadoCabe visto)
    (run : Metadata.correr sb bloquesEnCache cacheActive c e ops = some vistos) :
    ∃ N, ∀ n, N ≤ n →
      correr sb bloquesEnCache red n cacheActive c w ops = some (vistos.map enCable) := by
  induction ops generalizing w e vistos with
  | nil =>
    cases run
    exact ⟨0, fun _ _ => rfl⟩
  | cons op ops ih =>
    obtain ⟨⟨e1, visto⟩, one, run⟩ := Option.bind_eq_some_iff.mp run
    obtain ⟨resto, later, run⟩ := Option.bind_eq_some_iff.mp run
    cases run
    obtain ⟨w1, mirrors1, N, runs⟩ := ejecutar_acaba sound mirrors (small op List.mem_cons_self)
      (shown visto List.mem_cons_self) one
    obtain ⟨M, follows⟩ := ih mirrors1 (fun o member => small o (List.mem_cons_of_mem _ member))
      (fun v member => shown v (List.mem_cons_of_mem _ member)) later
    exact ⟨N + M, fun n enough => Option.bind_eq_some_iff.mpr ⟨_, runs n (by omega),
      Option.bind_eq_some_iff.mpr ⟨_, follows n (by omega), rfl⟩⟩⟩

/-- Small sends, and a first peek at half of each header. -/
def conexionLenta : Conexion :=
  ⟨fun _ => .acepta 4, mediaCabecera, fun _ _ => .acepta 6, mediaCabecera, [], []⟩

theorem mediaCabecera_completa : CabeceraCompleta mediaCabecera := ⟨1, 11, rfl, by decide, by decide⟩

theorem conexionLenta_sana : conexionLenta.Sana :=
  ⟨fun _ => ⟨4, rfl⟩, fun _ _ => ⟨6, rfl⟩, mediaCabecera_llega, mediaCabecera_llega,
    mediaCabecera_completa, mediaCabecera_completa⟩

/-- The root is listed; `/a` is written, emptied and looked up. -/
theorem correr_por_el_cable_lento : ∃ N, ∀ n, N ≤ n →
    correr (volumen 0) false (fun _ => conexionLenta) n true Metadata.cliente32K
        ⟨⟨servidorDe (imagenConArchivo 0), 0⟩, fun _ => none, 0⟩
        [.readdir Metadata.pathRaiz 0, .write pathA [1, 2] 3, .truncate pathA 0,
          .getattr pathA] =
      some [.entradas [⟨[46], 2, 16384, 1024⟩, ⟨[46, 46], 2, 16384, 1024⟩, ⟨[97], 1, 32768, 5⟩],
        .codigo 2, .codigo 0, .atributos 32768 1 0 0] := by
  have run : Metadata.correr (volumen 0) false true Metadata.cliente32K
      ⟨servidorDe (imagenConArchivo 0), Metadata.vacia⟩
      [.readdir Metadata.pathRaiz 0, .write pathA [1, 2] 3, .truncate pathA 0, .getattr pathA] =
      some [.entradas [⟨[46], 2, 16384, 1024⟩, ⟨[46, 46], 2, 16384, 1024⟩, ⟨[97], 1, 32768, 5⟩],
        .codigo 2, .codigo 0, .atributos 32768 1 0 0] := by decide +kernel
  exact correr_por_el_cable (fun _ => conexionLenta_sana) ⟨rfl, fun _ _ => .nada⟩ (by decide)
    (by decide) run

end LosAltos.Fsc.Cable
