import LosAltos.Nipc.Query
import LosAltos.Rfs.Sessions

/-!
# The server on packets

`rfs/src/main_rfs.c:96-105, 568-675`, `nipc.c:7-14`. A worker decodes a packet by its type, serves
it and encodes what the handler answers; a type that is no request is answered with an error, and a
handshake with the next client number, counted under `mutex_client_id`. `enum_nipc_names` has
nineteen places and is read at any type up to 19.
-/
namespace LosAltos.Rfs.Cable
open Lib Nipc

structure ServidorCable where
  servidor : Servidor
  generatedClientId : UInt32

/-! ### Types -/

def enumNipcNames : List (Option String) :=
  ["CREATE", "OPEN", "READ", "WRITE", "UNLINK", "RELEASE", "MKDIR", "RMDIR", "READDIR", "GETATTR",
    "TRUNCATE", "ERROR", "OK", "READ_RESPONSE", "READDIR_RESPONSE", "GETATTR_RESPONSE",
    "HANDSHAKE"].map some ++ [none, none]

/-- `nombre_del_enum_nipc`; there is no result for a read behind the table. -/
def nombreDelEnumNipc (tipo : UInt32) : Option (Option String) :=
  if tipo > 19 then some (some "TIPO_INVALIDO") else enumNipcNames[tipo.toNat]?

/-- The enumerator of a received type. -/
def tipoDe (type : UInt32) : Option TipoNipc :=
  [.nipcCreate, .nipcOpen, .nipcRead, .nipcWrite, .nipcUnlink, .nipcRelease, .nipcMkdir,
    .nipcRmdir, .nipcReaddir, .nipcGetattr, .nipcTruncate, .nipcError, .nipcOk, .nipcReadResponse,
    .nipcReaddirResponse, .nipcGetattrResponse, .nipcHandshake][type.toNat]?

/-! ### Answers -/

def entradaEnCable (e : ReaddirEntry) : NipcReaddirEntry CString :=
  ⟨.deBytes e.path, e.mode.toUInt32, e.size, e.nLink.toUInt32, e.blocks⟩

/-- The packet a handler sends: `send_ok`, `send_no_ok` or that of a response. -/
def paqueteDe (clientId : UInt32) : Respuesta → Option NipcPacket
  | .ok => some (newNipcOk clientId)
  | .error codigo => serializeError (newNipcErrorCode clientId codigo)
  | .readResponse data => some (newNipcReadResponse data clientId)
  | .readdirResponse entries => serializeReaddirResponse clientId (entries.map entradaEnCable)
  | .getattrResponse mode nLink size blocks =>
    serializeGetattrResponse ⟨(), mode.toUInt32, size, nLink.toUInt32, blocks⟩

def serveUnknown : Option (List NipcPacket) := do
  let error ← serializeError (newNipcErrorMessage (.deString "Paquete desconocido"))
  some [error]

/-- An error is sent back, unless it says that the other end is gone. -/
def serveError (request : NipcError) : Option (List NipcPacket) :=
  if request.errorCode ≠ .ofInt (-ebadf) then do
    let error ← serializeError request
    some [error]
  else some []

/-- `strcmp` of the data with a constant; it may run behind the data. -/
def igualA (data : List UInt8) (s : CString) : Option Bool :=
  if s.conNul <+: data then some true
  else if data <+: s.conNul then none
  else some false

/-- `serve_handshake`; a greeting that is not the expected one is answered with nothing. -/
def serveHandshake (s : ServidorCable) (request : NipcPacket) :
    Option (ServidorCable × List NipcPacket) := do
  if ← igualA request.data handshakeHello then do
    let newClientId := s.generatedClientId + 1
    let response ← newNipcHandshakeOk newClientId
    some ({ s with generatedClientId := newClientId }, [response])
  else some (s, [])

section
variable (sb : Superblock) (cacheActive : Bool)

/-- A request of the file system, decoded, served and answered. -/
def servePedido (s : ServidorCable) (pedido : Pedido) :
    Option (ServidorCable × List NipcPacket) := do
  let (servidor, respuestas) ← Rfs.serveRequest sb cacheActive s.servidor pedido
  let enviados ← respuestas.mapM (paqueteDe pedido.clientId)
  some ({ s with servidor }, enviados)

/-- `serveRequest`, on the packet received. -/
def serveRequest (s : ServidorCable) (request : NipcPacket) :
    Option (ServidorCable × List NipcPacket) := do
  let _ ← nombreDelEnumNipc request.type
  match tipoDe request.type with
  | some .nipcHandshake => serveHandshake s request
  | some .nipcError => do
    let enviados ← serveError (← deserializeError request)
    some (s, enviados)
  | none | some .nipcOk | some .nipcReadResponse | some .nipcReaddirResponse
  | some .nipcGetattrResponse => do
    let enviados ← serveUnknown
    some (s, enviados)
  | some tipo => do
    let pedido ← deserialize tipo request
    servePedido sb cacheActive s pedido

end

/-! ### A request comes in as the client encoded it -/

variable {sb : Superblock} {cacheActive : Bool}

theorem tipoDe_code (tipo : TipoNipc) : tipoDe tipo.code = some tipo := by
  cases tipo <;> rfl

theorem nombreDelEnumNipc_code (tipo : TipoNipc) :
    ∃ nombre, nombreDelEnumNipc tipo.code = some (some nombre) := by
  cases tipo <;> exact ⟨_, rfl⟩

/-- The serialize functions keep the type and the client. -/
theorem serialize_type (r : Pedido) {packet : NipcPacket} (built : r.serialize = some packet) :
    packet.type = r.nipcType.code := by
  rw [Pedido.serialize_eq] at built
  split at built
  · exact nuevoPaquete_type built
  · rw [serializarConInt] at built
    split at built
    · exact nuevoPaquete_type built
    · cases built

theorem serveRequest_pedido (s : ServidorCable) (r : Pedido) {packet : NipcPacket}
    (type : packet.type = r.nipcType.code) (decoded : deserialize r.nipcType packet = some r) :
    serveRequest sb cacheActive s packet = servePedido sb cacheActive s r := by
  obtain ⟨nombre, named⟩ := nombreDelEnumNipc_code r.nipcType
  rw [serveRequest, type, named, tipoDe_code]
  cases r <;> simp only [Pedido.nipcType] at decoded <;>
    simp only [Pedido.nipcType, Option.bind_eq_bind, Option.bind_some, decoded]

/-! ### What the handlers answer -/

/-- The result is a code of `errno.h` up to `ENOTEMPTY`, or 0. -/
def Corto {α : Type} (r : Option (Nat × α)) : Prop := ∀ code x, r = some (code, x) → code ≤ 39

theorem Corto.bind {α β : Type} {o : Option β} {f : β → Option (Nat × α)}
    (each : ∀ b, o = some b → Corto (f b)) : Corto (o >>= f) := by
  intro code x run
  obtain ⟨b, first, rest⟩ := Option.bind_eq_some_iff.mp run
  exact each b first code x rest

theorem Corto.par {α β γ : Type} {o : Option (β × γ)} {f : β × γ → Option (Nat × α)}
    (each : ∀ b c, o = some (b, c) → Corto (f (b, c))) : Corto (o >>= f) :=
  .bind fun pair => each pair.1 pair.2

theorem Corto.dado {α : Type} {n : Nat} {x : α} (small : n ≤ 39) : Corto (some (n, x)) := by
  intro code y same
  cases same
  exact small

theorem Corto.nada {α : Type} : Corto (none : Option (Nat × α)) := by
  intro code x same
  cases same

variable {d : Disco} {path : Cadena} {x : Nat}

theorem agregarNuevaEntrada_corto (inicio : Int) (desp : Nat) (nombre : Cadena) (resto : Nat) :
    Corto (agregarNuevaEntrada sb d inicio desp nombre resto) := by
  unfold agregarNuevaEntrada
  refine .par fun free d1 _ => ?_
  dsimp only
  split
  · exact .bind fun _ _ => .bind fun _ _ => .dado (by decide)
  · exact .dado (by decide)

theorem agregarEntradaDirectorio_corto (nombre : Cadena) :
    Corto (agregarEntradaDirectorio sb d x nombre) := by
  unfold agregarEntradaDirectorio
  refine .bind fun place _ => ?_
  split
  · refine .bind fun inicio _ => .par fun error d1 ran => ?_
    dsimp only
    split
    · exact .dado (by decide)
    · exact .dado (agregarNuevaEntrada_corto _ _ _ _ _ _ ran)
  · refine .par fun free d1 _ => ?_
    dsimp only
    split
    · exact .dado (by decide)
    · refine .bind fun stored _ => .bind fun inicio _ => .par fun error d2 ran => ?_
      dsimp only
      split
      · exact .dado (by decide)
      · exact .dado (agregarNuevaEntrada_corto _ _ _ _ _ _ ran)

theorem setearInodo_corto (mode : UInt16) : Corto (setearInodo sb d x mode) := by
  unfold setearInodo
  split
  · refine .par fun free d1 _ => ?_
    dsimp only
    split
    · exact .dado (by decide)
    · exact .dado (by decide)
  · exact .dado (by decide)

theorem crearArchivo_corto (mode : UInt32) : Corto (crearArchivo sb d path mode) := by
  unfold crearArchivo
  refine .bind fun nro _ => ?_
  split
  · refine .bind fun node _ => .bind fun parent _ => .bind fun here _ => ?_
    split
    · refine .par fun error d1 ran => ?_
      dsimp only
      split
      · exact .bind fun _ _ => .bind fun _ _ => .bind fun _ _ => setearInodo_corto _
      · exact .dado (agregarEntradaDirectorio_corto _ _ _ ran)
    · exact .dado (by decide)
  · exact .dado (by decide)

theorem crearDirectorio_corto (mode : UInt32) : Corto (crearDirectorio sb d path mode) := by
  unfold crearDirectorio
  refine .bind fun nro _ => .bind fun parent _ => ?_
  split
  · refine .bind fun here _ => ?_
    split
    · refine .bind fun node _ => .par fun error d1 ran => ?_
      dsimp only
      split
      · unfold iniciarDirectorio
        refine .bind fun _ _ => .bind fun _ _ => .bind fun _ _ => .par fun error d2 ran => ?_
        dsimp only
        split
        · exact .bind fun _ _ => .bind fun _ _ => .bind fun _ _ => .bind fun _ _ =>
            .dado (by decide)
        · exact .dado (setearInodo_corto _ _ _ ran)
      · exact .dado (agregarEntradaDirectorio_corto _ _ _ ran)
    · exact .dado (by decide)
  · exact .dado (by decide)

theorem truncarInodo_corto (offset : Nat) : Corto (truncarInodo sb d x offset) := by
  unfold truncarInodo
  dsimp only
  split
  · split
    · exact .dado (by decide)
    · exact .par fun _ _ _ => .dado (by decide)
  · split
    · exact .par fun _ _ _ => .dado (by decide)
    · exact .dado (by decide)

theorem truncarArchivo_corto (offset : Nat) : Corto (truncarArchivo sb d path offset) := by
  unfold truncarArchivo
  refine .bind fun nro _ => ?_
  split
  · refine .bind fun node _ => ?_
    split
    · exact .bind fun _ _ => .bind fun _ _ => truncarInodo_corto offset
    · exact .dado (by decide)
  · exact .dado (by decide)

theorem eliminarArchivo_corto : Corto (eliminarArchivo sb d path) := by
  unfold eliminarArchivo
  refine .bind fun nro _ => .bind fun parent _ => ?_
  split
  · refine .bind fun node _ => ?_
    split
    · exact .par fun _ _ _ => .bind fun _ _ => .bind fun _ _ => .bind fun _ _ =>
        .dado (by decide)
    · exact .dado (by decide)
  · exact .dado (by decide)

theorem eliminarDirectorio_corto : Corto (eliminarDirectorio sb d path) := by
  unfold eliminarDirectorio
  refine .bind fun nro _ => .bind fun parent _ => ?_
  split
  · refine .bind fun node _ => ?_
    split
    · refine .bind fun empty _ => ?_
      split
      · exact .bind fun _ _ => .bind fun _ _ => .bind fun _ _ => .bind fun _ _ =>
          .dado (by decide)
      · exact .dado (by decide)
    · exact .dado (by decide)
  · exact .dado (by decide)

/-- What a handler of a request of this type may answer: the code of an error is a small negative
number, the names of a listing are C strings, and data only follows a request for it. -/
def Buena (tipo : TipoNipc) : Respuesta → Prop
  | .error codigo => -39 ≤ codigo ∧ codigo < 0
  | .readdirResponse entries => tipo = .nipcReaddir ∧ ∀ e ∈ entries, 0 ∉ e.path
  | .readResponse _ => tipo = .nipcRead
  | _ => True

/-- A handler answers once, but for further `nipc_ok`s. -/
def Contesta (tipo : TipoNipc) (r : Option (Servidor × List Respuesta)) : Prop :=
  ∀ s rs, r = some (s, rs) → ∃ primera resto, rs = primera :: resto ∧ Buena tipo primera ∧
    ∀ q ∈ resto, q = .ok

variable {tipo : TipoNipc}

theorem Contesta.bind {β : Type} {o : Option β} {f : β → Option (Servidor × List Respuesta)}
    (each : ∀ b, o = some b → Contesta tipo (f b)) : Contesta tipo (o >>= f) := by
  intro s rs run
  obtain ⟨b, first, rest⟩ := Option.bind_eq_some_iff.mp run
  exact each b first s rs rest

theorem Contesta.par {β γ : Type} {o : Option (β × γ)}
    {f : β × γ → Option (Servidor × List Respuesta)}
    (each : ∀ b c, o = some (b, c) → Contesta tipo (f (b, c))) : Contesta tipo (o >>= f) :=
  .bind fun pair => each pair.1 pair.2

theorem Contesta.dada {s : Servidor} {r : Respuesta} {rs : List Respuesta} (good : Buena tipo r)
    (oks : ∀ q ∈ rs, q = .ok) : Contesta tipo (some (s, r :: rs)) := by
  intro s' rs' same
  cases same
  exact ⟨r, rs, rfl, good, oks⟩

theorem Contesta.una {s : Servidor} {r : Respuesta} (good : Buena tipo r) :
    Contesta tipo (some (s, [r])) :=
  .dada good fun _ member => by cases member

theorem buena_error {code : Nat} (small : code ≤ 39) (nonzero : code ≠ 0) :
    Buena tipo (.error (-code)) := by
  unfold Buena
  omega

theorem buena_contestar {code : Nat} (small : code ≤ 39) : Buena tipo (contestar code) := by
  unfold contestar
  split
  · rename_i nonzero
    exact buena_error small nonzero
  · trivial

/-- The names of a listing end at a NUL. -/
theorem listarBloque_nombres {inicio : Int} {fuel desp : Nat} {es : List ReaddirEntry}
    (listed : listarBloque sb d inicio fuel desp = some es) : ∀ e ∈ es, 0 ∉ e.path := by
  induction fuel generalizing desp es with
  | zero => cases listed
  | succ fuel ih =>
    unfold listarBloque at listed
    split at listed
    · cases listed
      simp
    · obtain ⟨node, -, listed⟩ := Option.bind_eq_some_iff.mp listed
      split at listed
      · cases listed
        simp
      · obtain ⟨resto, siguen, listed⟩ := Option.bind_eq_some_iff.mp listed
        cases listed
        intro e member
        rcases List.mem_cons.mp member with rfl | later
        · unfold cadena
          intro nul
          simpa using List.mem_takeWhile_imp nul
        · exact ih siguen e later

theorem listarBloques_nombres {ks : List Nat} {es : List ReaddirEntry}
    (listed : listarBloques sb d x ks = some es) : ∀ e ∈ es, 0 ∉ e.path := by
  induction ks generalizing es with
  | nil =>
    cases listed
    simp
  | cons k ks ih =>
    obtain ⟨inicio, -, listed⟩ := Option.bind_eq_some_iff.mp listed
    obtain ⟨entradas, uno, listed⟩ := Option.bind_eq_some_iff.mp listed
    obtain ⟨resto, siguen, listed⟩ := Option.bind_eq_some_iff.mp listed
    cases listed
    intro e member
    rcases List.mem_append.mp member with here | later
    · exact listarBloque_nombres uno e here
    · exact ih siguen e later

theorem listarDirectorio_nombres {es : List ReaddirEntry}
    (listed : listarDirectorio sb d path = some es) : ∀ e ∈ es, 0 ∉ e.path := by
  obtain ⟨nro, -, listed⟩ := Option.bind_eq_some_iff.mp listed
  split at listed
  · obtain ⟨node, -, listed⟩ := Option.bind_eq_some_iff.mp listed
    split at listed
    · obtain ⟨found, -, listed⟩ := Option.bind_eq_some_iff.mp listed
      obtain ⟨x, -, listed⟩ := Option.bind_eq_some_iff.mp listed
      unfold cargarEntradasDirectorioALista at listed
      dsimp only at listed
      split at listed
      · exact listarBloques_nombres listed
      · cases listed
    · cases listed
      simp
  · cases listed
    simp

/-- Every handler answers. -/
theorem serveRequest_contesta (s : Servidor) (r : Pedido) :
    Contesta r.nipcType (Rfs.serveRequest sb cacheActive s r) := by
  have no_entry : ∀ {tipo}, Buena tipo (.error (-ENOENT)) := buena_error (by decide) (by decide)
  cases r with
  | nipcOpen c p flags =>
    refine .bind fun nro _ => ?_
    split
    · exact .bind fun _ _ => .una trivial
    · exact .una no_entry
  | nipcCreate c p mode =>
    refine .par fun code d1 ran => ?_
    dsimp only
    split
    · rename_i failed
      exact .una (buena_error (crearArchivo_corto mode _ _ ran) failed)
    · refine .bind fun nro _ => ?_
      split
      · exact .bind fun _ _ => .dada trivial (by simp)
      · exact .dada no_entry (by simp)
  | nipcRead c p size offset =>
    refine .bind fun nro _ => .bind fun node _ => .bind fun x _ => ?_
    dsimp only
    split
    · exact .una rfl
    · exact .bind fun _ _ => .bind fun _ _ => .una rfl
  | nipcWrite c p data size offset sized =>
    refine .bind fun nro _ => .bind fun node _ => .bind fun x _ => .bind fun d _ =>
      .bind fun numeros _ => .una ?_
    split
    · trivial
    · exact ⟨by decide, by decide⟩
  | nipcRelease c p flags =>
    refine .bind fun nro _ => ?_
    split
    · exact .bind fun _ _ => .una trivial
    · exact .una no_entry
  | nipcUnlink c p =>
    exact .bind fun s' _ => .par fun code d1 ran =>
      .una (buena_contestar (eliminarArchivo_corto _ _ ran))
  | nipcMkdir c p mode =>
    exact .par fun code d1 ran => .una (buena_contestar (crearDirectorio_corto mode _ _ ran))
  | nipcReaddir c p offset =>
    refine .bind fun entradas listed => .una ?_
    split
    · exact no_entry
    · exact ⟨rfl, listarDirectorio_nombres listed⟩
  | nipcRmdir c p =>
    exact .par fun code d1 ran => .una (buena_contestar (eliminarDirectorio_corto _ _ ran))
  | nipcGetattr c p =>
    refine .bind fun node _ => ?_
    split
    · exact .una no_entry
    · exact .una trivial
  | nipcTruncate c p offset =>
    exact .par fun code d1 ran => .una (buena_contestar (truncarArchivo_corto _ _ _ ran))

/-! ### Client numbers -/

/-- The packets served one after another, and what each is answered with. -/
def correr (sb : Superblock) (cacheActive : Bool) (s : ServidorCable) :
    List NipcPacket → Option (ServidorCable × List (List NipcPacket))
  | [] => some (s, [])
  | p :: ps => do
    let (s, enviados) ← serveRequest sb cacheActive s p
    let (s, resto) ← correr sb cacheActive s ps
    some (s, enviados :: resto)

/-- A handshake with the expected greeting. -/
def Saluda (p : NipcPacket) : Prop :=
  p.type = TipoNipc.nipcHandshake.code ∧ igualA p.data handshakeHello = some true

instance (p : NipcPacket) : Decidable (Saluda p) := inferInstanceAs (Decidable (_ ∧ _))

/-- The client numbers given by the handshakes among the answers. -/
def numerosDados (enviados : List (List NipcPacket)) : List UInt32 :=
  (enviados.flatten.filter (·.type = TipoNipc.nipcHandshake.code)).map (·.clientId)

/-- The `k` numbers behind `n`. -/
def siguientes (n : UInt32) (k : Nat) : List UInt32 := (List.range k).map fun i => n + .ofNat (i + 1)

theorem paqueteDe_type {clientId : UInt32} {r : Respuesta} {p : NipcPacket}
    (built : paqueteDe clientId r = some p) : p.type ≠ TipoNipc.nipcHandshake.code := by
  cases r with
  | ok =>
    cases built
    exact (by decide : TipoNipc.nipcOk.code ≠ TipoNipc.nipcHandshake.code)
  | error codigo =>
    rw [serializeError_type built]
    decide
  | readResponse data =>
    cases built
    exact (by decide : TipoNipc.nipcReadResponse.code ≠ TipoNipc.nipcHandshake.code)
  | readdirResponse entries =>
    obtain ⟨records, -, built⟩ := Option.bind_eq_some_iff.mp built
    obtain ⟨stream, -, built⟩ := Option.bind_eq_some_iff.mp built
    rw [nuevoPaquete_type built]
    decide
  | getattrResponse mode nLink size blocks =>
    unfold paqueteDe serializeGetattrResponse at built
    rw [nuevoPaquete_type built]
    decide

theorem mapM_mem {α β : Type} {f : α → Option β} {as : List α} {bs : List β}
    (run : as.mapM f = some bs) : ∀ b ∈ bs, ∃ a ∈ as, f a = some b := by
  induction as generalizing bs with
  | nil =>
    cases run
    simp
  | cons a as ih =>
    rw [List.mapM_cons] at run
    obtain ⟨b, first, run⟩ := Option.bind_eq_some_iff.mp run
    obtain ⟨cs, rest, run⟩ := Option.bind_eq_some_iff.mp run
    cases run
    intro c member
    rcases List.mem_cons.mp member with rfl | later
    · exact ⟨a, List.mem_cons_self, first⟩
    · obtain ⟨a', inside, found⟩ := ih rest c later
      exact ⟨a', List.mem_cons_of_mem a inside, found⟩

/-- Nothing but a greeting is answered with a handshake or moves the count. -/
theorem serveRequest_cuenta {s s' : ServidorCable} {p : NipcPacket} {enviados : List NipcPacket}
    (run : serveRequest sb cacheActive s p = some (s', enviados)) :
    if Saluda p then
      s'.generatedClientId = s.generatedClientId + 1 ∧
        numerosDados [enviados] = [s.generatedClientId + 1]
    else s'.generatedClientId = s.generatedClientId ∧ numerosDados [enviados] = [] := by
  have silent : ∀ ps : List NipcPacket, (∀ q ∈ ps, q.type ≠ TipoNipc.nipcHandshake.code) →
      numerosDados [ps] = [] := by
    intro ps others
    rw [numerosDados, List.flatten_singleton, List.map_eq_nil_iff, List.filter_eq_nil_iff]
    intro q member
    simpa using others q member
  have error_type : (TipoNipc.nipcError.code : UInt32) ≠ TipoNipc.nipcHandshake.code := by decide
  have unknown : ∀ {ps : List NipcPacket}, serveUnknown = some ps → numerosDados [ps] = [] := by
    intro ps sent
    unfold serveUnknown at sent
    obtain ⟨error, built, sent⟩ := Option.bind_eq_some_iff.mp sent
    cases sent
    refine silent _ fun q member => ?_
    rw [List.mem_singleton.mp member, serializeError_type built]
    exact error_type
  obtain ⟨nombre, -, run⟩ := Option.bind_eq_some_iff.mp run
  have type_of : ∀ tipo, tipoDe p.type = some tipo → tipo ≠ .nipcHandshake → ¬Saluda p := by
    rintro tipo found other ⟨same, -⟩
    rw [same, tipoDe_code] at found
    exact other (Option.some.inj found).symm
  cases kind : tipoDe p.type with
  | none =>
    rw [kind] at run
    have other : ¬Saluda p := fun greets => by
      rw [greets.1, tipoDe_code] at kind
      cases kind
    rw [if_neg other]
    obtain ⟨ps, sent, run⟩ := Option.bind_eq_some_iff.mp run
    cases run
    exact ⟨rfl, unknown sent⟩
  | some tipo =>
    rw [kind] at run
    by_cases shakes : tipo = .nipcHandshake
    · subst shakes
      have same : p.type = TipoNipc.nipcHandshake.code := by
        unfold tipoDe at kind
        have below := (List.getElem?_eq_some_iff.mp kind).choose
        have place : p.type.toNat = 16 := (List.getElem?_inj below (by decide)).mp kind
        exact UInt32.toNat_inj.mp place
      obtain ⟨greets, compared, run⟩ := Option.bind_eq_some_iff.mp run
      cases greets with
      | true =>
        rw [if_pos rfl] at run
        obtain ⟨response, built, run⟩ := Option.bind_eq_some_iff.mp run
        cases run
        obtain ⟨packet, made, type, client, -⟩ := nuevoPaquete_wire .nipcHandshake
          (s.generatedClientId + 1) (n := handshakeOk.strlen + 1) handshakeOk.conNul (by simp) (by decide)
        obtain rfl : packet = response := Option.some.inj (made.symm.trans built)
        rw [if_pos ⟨same, compared⟩]
        exact ⟨rfl, by simp [numerosDados, type, client]⟩
      | false =>
        cases run
        rw [if_neg fun greets => by simp [greets.2] at compared]
        exact ⟨rfl, silent _ fun q member => by cases member⟩
    · rw [if_neg (type_of tipo kind shakes)]
      have asks : ∀ {pedido : Pedido},
          servePedido sb cacheActive s pedido = some (s', enviados) →
          s'.generatedClientId = s.generatedClientId ∧ numerosDados [enviados] = [] := by
        intro pedido ran
        obtain ⟨⟨servidor, respuestas⟩, -, ran⟩ := Option.bind_eq_some_iff.mp ran
        obtain ⟨ps, sent, ran⟩ := Option.bind_eq_some_iff.mp ran
        cases ran
        refine ⟨rfl, silent _ fun q member => ?_⟩
        obtain ⟨r, -, built⟩ := mapM_mem sent q member
        exact paqueteDe_type built
      cases tipo with
      | nipcHandshake => exact absurd rfl shakes
      | nipcError =>
        obtain ⟨e, -, run⟩ := Option.bind_eq_some_iff.mp run
        obtain ⟨ps, sent, run⟩ := Option.bind_eq_some_iff.mp run
        cases run
        refine ⟨rfl, silent _ fun q member => ?_⟩
        unfold serveError at sent
        split at sent
        · obtain ⟨error, built, sent⟩ := Option.bind_eq_some_iff.mp sent
          cases sent
          rw [List.mem_singleton.mp member, serializeError_type built]
          exact error_type
        · cases sent
          cases member
      | nipcOk | nipcReadResponse | nipcReaddirResponse | nipcGetattrResponse =>
        obtain ⟨ps, sent, run⟩ := Option.bind_eq_some_iff.mp run
        cases run
        exact ⟨rfl, unknown sent⟩
      | _ =>
        obtain ⟨pedido, -, run⟩ := Option.bind_eq_some_iff.mp run
        exact asks run

theorem numerosDados_cons (enviados : List NipcPacket) (resto : List (List NipcPacket)) :
    numerosDados (enviados :: resto) = numerosDados [enviados] ++ numerosDados resto := by
  simp [numerosDados]

theorem siguientes_succ (n : UInt32) (k : Nat) :
    siguientes n (k + 1) = (n + 1) :: siguientes (n + 1) k := by
  simp only [siguientes, List.range_succ_eq_map, List.map_cons, List.map_map]
  refine congrArg₂ _ (by simp) (List.map_congr_left fun i _ => ?_)
  simp only [Function.comp_apply]
  rw [UInt32.add_assoc]
  exact congrArg _ (UInt32.toNat_inj.mp (by simp; omega))

/-- The greetings of a run are numbered in order. -/
theorem correr_numeros {s s' : ServidorCable} {ps : List NipcPacket}
    {enviados : List (List NipcPacket)}
    (run : correr sb cacheActive s ps = some (s', enviados)) :
    numerosDados enviados = siguientes s.generatedClientId (ps.countP fun p => Saluda p) := by
  induction ps generalizing s enviados with
  | nil =>
    cases run
    rfl
  | cons p ps ih =>
    obtain ⟨⟨t, ahora⟩, step, run⟩ := Option.bind_eq_some_iff.mp run
    obtain ⟨⟨u, resto⟩, later, run⟩ := Option.bind_eq_some_iff.mp run
    cases run
    have counted := serveRequest_cuenta step
    rw [numerosDados_cons, ih later, List.countP_cons]
    split at counted
    · rename_i greets
      rw [counted.2, counted.1, decide_eq_true greets, if_pos rfl, siguientes_succ]
      rfl
    · rename_i other
      rw [counted.2, counted.1, decide_eq_false other, if_neg (by simp)]
      rfl

/-- What `new_nipc_handshake_hello` makes. -/
def paqueteHola : NipcPacket :=
  ⟨TipoNipc.nipcHandshake.code, 0, 22, handshakeHello.conNul, by decide⟩

end LosAltos.Rfs.Cable
