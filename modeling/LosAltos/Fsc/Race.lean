import LosAltos.Fsc.Transparency

/-!
# A `getattr` and a `truncate` of two clients

`fsc/src/fileSystemClient.c:434-485`. Each cache access and each request is one step, and
the two clients share the cache and the server. A `getattr` that has asked the server may
store its answer after the other client has truncated the file and deleted the key.
-/
namespace LosAltos.Fsc.Metadata

open Nipc Rfs

/-- Where `remote_getattr` stands: before the lookup, before the request, before storing
the answer, returned. -/
inductive FaseGetattr where
  | porBuscar
  | porPedir
  | porGuardar (response : Respuesta)
  | listo (visto : Resultado)
  deriving DecidableEq

/-- Where `remote_truncate` stands. -/
inductive FaseTruncate where
  | porPedir
  | porBorrar (response : Respuesta)
  | listo (valor : Int)
  deriving DecidableEq

structure Carrera where
  servidor : Servidor
  cache : Cache
  getattr : FaseGetattr
  truncate : FaseTruncate

inductive Parte where
  | getattr
  | truncate
  deriving DecidableEq

section
variable (sb : Superblock) (bloquesEnCache : Bool) (lector escritor : UInt32) (path : CString)
  (offset : Nat)

/-- The next step of `remote_getattr`; none once it has returned. -/
def pasoGetattr (k : Carrera) : Option Carrera :=
  match k.getattr with
  | .porBuscar =>
    match queryMemcached k.cache path.bytes .getattrResponse with
    | some response => do
      let visto ← mostrar .getattrResponse response
      some { k with getattr := .listo visto }
    | none => some { k with getattr := .porPedir }
  | .porPedir => do
    let (servidor, response) ← nipcQuery sb bloquesEnCache k.servidor (.nipcGetattr lector path)
    if (mostrar .getattrResponse response).isSome then
      some { k with servidor, getattr := .porGuardar response }
    else some { k with servidor, getattr := .listo (.codigo (checkError response)) }
  | .porGuardar response => do
    let visto ← mostrar .getattrResponse response
    let cache := storeMemcached k.cache path.bytes .getattrResponse response
    some { k with cache, getattr := .listo visto }
  | .listo _ => none

/-- The next step of `remote_truncate`. -/
def pasoTruncate (k : Carrera) : Option Carrera :=
  match k.truncate with
  | .porPedir => do
    let (servidor, response) ←
      nipcQuery sb bloquesEnCache k.servidor (.nipcTruncate escritor path (.ofNat offset))
    some { k with servidor, truncate := .porBorrar response }
  | .porBorrar response =>
    let cache := deleteMemcached k.cache path.bytes .getattrResponse
    some { k with cache, truncate := .listo (checkOkError response) }
  | .listo _ => none

def paso (k : Carrera) : Parte → Option Carrera
  | .getattr => pasoGetattr sb bloquesEnCache lector path k
  | .truncate => pasoTruncate sb bloquesEnCache escritor path offset k

/-- The steps in the order given. -/
def intercalar (k : Carrera) : List Parte → Option Carrera
  | [] => some k
  | parte :: orden => do
    let k ← paso sb bloquesEnCache lector escritor path offset k parte
    intercalar k orden

/-- The size the server reports for the path. -/
def tamanioActual (s : Servidor) : Option UInt32 :=
  match actual sb bloquesEnCache s path .getattrResponse with
  | some (.atributos _ _ size _) => some size
  | _ => none

/-- What is cached for the path, if anything, has the size the server reports. -/
def AlDia (k : Carrera) : Prop :=
  ∀ response, queryMemcached k.cache path.bytes .getattrResponse = some response →
    ∃ mode nLink size blocks, response = .getattrResponse mode nLink size blocks ∧
      tamanioActual sb bloquesEnCache path k.servidor = some size

/-- The truncate changes the size the server reports. -/
def CambiaTamanio (s : Servidor) : Prop :=
  ∃ s' response, nipcQuery sb bloquesEnCache s (.nipcTruncate escritor path (.ofNat offset)) =
      some (s', response) ∧
    tamanioActual sb bloquesEnCache path s' ≠ tamanioActual sb bloquesEnCache path s

end

/-- The lookup and the request come before the truncate, the store behind it. -/
def ordenMalo : List Parte := [.getattr, .getattr, .truncate, .truncate, .getattr]

variable {sb : Superblock} {bloquesEnCache : Bool} {lector escritor : UInt32} {path : CString}
  {offset : Nat}

/-- The steps of a `getattr` alone are `remote_getattr`. -/
theorem getattr_solo (c : Cliente) (k : Carrera) (start : k.getattr = .porBuscar)
    {e : Estado} {visto : Resultado}
    (ran : remoteGetattr sb bloquesEnCache true c ⟨k.servidor, k.cache⟩ path =
      some (e, visto)) :
    ∃ n, intercalar sb bloquesEnCache c.clientId escritor path offset k
        (List.replicate n .getattr) = some ⟨e.servidor, e.cache, .listo visto, k.truncate⟩ := by
  obtain ⟨s, cache, g, t⟩ := k
  obtain rfl : g = .porBuscar := start
  unfold remoteGetattr remoteConsulta at ran
  simp only [if_true] at ran
  cases hit : queryMemcached cache path.bytes .getattrResponse with
  | some response =>
    simp only [hit, Option.bind_eq_bind, Option.bind_eq_some_iff, Option.some.injEq,
      Prod.mk.injEq] at ran
    obtain ⟨_, shown, rfl, rfl⟩ := ran
    refine ⟨1, ?_⟩
    simp [intercalar, paso, pasoGetattr, hit, shown]
  | none =>
    simp only [hit, Option.bind_eq_bind, Option.bind_eq_some_iff] at ran
    obtain ⟨⟨s', response⟩, answered, ran⟩ := ran
    cases shown : mostrar .getattrResponse response with
    | none =>
      simp only [shown, Option.some.injEq, Prod.mk.injEq] at ran
      obtain ⟨rfl, rfl⟩ := ran
      refine ⟨2, ?_⟩
      simp [intercalar, paso, pasoGetattr, hit, answered, shown, List.replicate]
    | some visto' =>
      simp only [shown, Option.some.injEq, Prod.mk.injEq] at ran
      obtain ⟨rfl, rfl⟩ := ran
      refine ⟨3, ?_⟩
      simp [intercalar, paso, pasoGetattr, hit, answered, shown, List.replicate]

@[simp] theorem query_store (cache : Cache) (path : CString) (tipo : TipoDeClave)
    (response : Respuesta) :
    queryMemcached (storeMemcached cache path.bytes tipo response) path.bytes tipo =
      some response := by
  simp [queryMemcached_eq, storeMemcached, ponEnCache, sinNul_key]

@[simp] theorem query_delete (cache : Cache) (path : CString) (tipo : TipoDeClave) :
    queryMemcached (deleteMemcached cache path.bytes tipo) path.bytes tipo = none := by
  simp [queryMemcached_eq, deleteMemcached, ponEnCache, sinNul_key]

/-- Everything a step of the `getattr` can do. -/
theorem pasoGetattr_cases {k k' : Carrera}
    (ran : pasoGetattr sb bloquesEnCache lector path k = some k') :
    (k.getattr = .porBuscar ∧ ((∃ response visto,
        queryMemcached k.cache path.bytes .getattrResponse = some response ∧
        k' = { k with getattr := .listo visto }) ∨ k' = { k with getattr := .porPedir })) ∨
    (k.getattr = .porPedir ∧ ∃ response,
      actual sb bloquesEnCache k.servidor path .getattrResponse =
        mostrar .getattrResponse response ∧
      (((mostrar .getattrResponse response).isSome ∧
          k' = { k with getattr := .porGuardar response }) ∨
        k' = { k with getattr := .listo (.codigo (checkError response)) })) ∨
    ∃ response visto, k.getattr = .porGuardar response ∧
      mostrar .getattrResponse response = some visto ∧
      k' = { k with
        cache := storeMemcached k.cache path.bytes .getattrResponse response
        getattr := .listo visto } := by
  unfold pasoGetattr at ran
  split at ran
  · rename_i phase
    refine .inl ⟨phase, ?_⟩
    split at ran
    · rename_i response hit
      simp only [Option.bind_eq_bind, Option.bind_eq_some_iff, Option.some.injEq] at ran
      obtain ⟨visto, -, rfl⟩ := ran
      exact .inl ⟨response, visto, hit, rfl⟩
    · cases ran
      exact .inr rfl
  · rename_i phase
    simp only [Option.bind_eq_bind, Option.bind_eq_some_iff] at ran
    obtain ⟨⟨s', response⟩, answered, ran⟩ := ran
    have asked : nipcQuery sb bloquesEnCache k.servidor
        (preguntar lector path 0 .getattrResponse) = some (s', response) := answered
    obtain ⟨rfl, shows⟩ := nipcQuery_preguntar asked
    refine .inr (.inl ⟨phase, response, shows, ?_⟩)
    split at ran
    · cases ran
      exact .inl ⟨‹_›, rfl⟩
    · cases ran
      exact .inr rfl
  · rename_i response phase
    simp only [Option.bind_eq_bind, Option.bind_eq_some_iff, Option.some.injEq] at ran
    obtain ⟨visto, shown, rfl⟩ := ran
    exact .inr (.inr ⟨response, visto, phase, shown, rfl⟩)
  · cases ran

/-- Everything a step of the `truncate` can do. -/
theorem pasoTruncate_cases {k k' : Carrera}
    (ran : pasoTruncate sb bloquesEnCache escritor path offset k = some k') :
    (k.truncate = .porPedir ∧ ∃ s' response,
      nipcQuery sb bloquesEnCache k.servidor (.nipcTruncate escritor path (.ofNat offset)) =
        some (s', response) ∧
      k' = { k with servidor := s', truncate := .porBorrar response }) ∨
    ∃ response, k.truncate = .porBorrar response ∧
      k' = { k with
        cache := deleteMemcached k.cache path.bytes .getattrResponse
        truncate := .listo (checkOkError response) } := by
  unfold pasoTruncate at ran
  split at ran
  · rename_i phase
    simp only [Option.bind_eq_bind, Option.bind_eq_some_iff, Option.some.injEq] at ran
    obtain ⟨⟨s', response⟩, answered, rfl⟩ := ran
    exact .inl ⟨phase, s', response, answered, rfl⟩
  · rename_i response phase
    cases ran
    exact .inr ⟨response, phase, rfl⟩
  · cases ran

/-! ### What is known after a prefix of the steps -/

/-- The prefix of the bad order that ends where the truncate stands. -/
def hastaTruncate : FaseTruncate → List Parte
  | .porPedir => [.getattr, .getattr]
  | .porBorrar _ => [.getattr, .getattr, .truncate]
  | .listo _ => [.getattr, .getattr, .truncate, .truncate]

/-- The answer is what the server shows now, or what it showed at the start. -/
def Muestra (sb : Superblock) (bloquesEnCache : Bool) (path : CString) (s : Servidor)
    (response : Respuesta) : Prop :=
  (mostrar .getattrResponse response).isSome ∧
    actual sb bloquesEnCache s path .getattrResponse = mostrar .getattrResponse response

structure Sabe (sb : Superblock) (bloquesEnCache : Bool) (escritor : UInt32) (path : CString)
    (offset : Nat) (s : Servidor) (orden : List Parte) (k : Carrera) : Prop where
  servidor : (k.truncate = .porPedir ∧ k.servidor = s) ∨ (k.truncate ≠ .porPedir ∧
    ∃ response, nipcQuery sb bloquesEnCache s (.nipcTruncate escritor path (.ofNat offset)) =
      some (k.servidor, response))
  porBuscar : k.truncate = .porPedir → k.getattr = .porBuscar → orden = []
  porPedir : k.truncate = .porPedir → k.getattr = .porPedir → orden = [.getattr]
  porGuardar : ∀ response, k.getattr = .porGuardar response →
    (k.truncate ≠ .porPedir ∧ Muestra sb bloquesEnCache path k.servidor response) ∨
    (orden = hastaTruncate k.truncate ∧ Muestra sb bloquesEnCache path s response)
  guardada : ∀ valor response, k.truncate = .listo valor →
    queryMemcached k.cache path.bytes .getattrResponse = some response →
    (∃ visto, k.getattr = .listo visto) ∧
    (Muestra sb bloquesEnCache path k.servidor response ∨
      (orden = ordenMalo ∧ Muestra sb bloquesEnCache path s response))

variable {s : Servidor} {orden : List Parte} {k k' : Carrera}

theorem Sabe.paso_getattr (known : Sabe sb bloquesEnCache escritor path offset s orden k)
    (ran : pasoGetattr sb bloquesEnCache lector path k = some k') :
    Sabe sb bloquesEnCache escritor path offset s (orden ++ [.getattr]) k' := by
  rcases pasoGetattr_cases ran with ⟨phase, ⟨response, visto, hit, rfl⟩ | rfl⟩ |
    ⟨phase, response, shows, ⟨some, rfl⟩ | rfl⟩ | ⟨response, visto, phase, shown, rfl⟩
  · -- a hit: the key has not been deleted yet
    refine ⟨known.servidor, nofun, nofun, nofun, fun valor held ended found => ?_⟩
    obtain ⟨⟨done, at'⟩, -⟩ := known.guardada valor held ended found
    rw [phase] at at'
    cases at'
  · refine ⟨known.servidor, nofun, fun early _ => ?_, nofun, fun valor held ended found => ?_⟩
    · rw [known.porBuscar early phase]
      rfl
    · obtain ⟨⟨done, at'⟩, -⟩ := known.guardada valor held ended found
      rw [phase] at at'
      cases at'
  · refine ⟨known.servidor, nofun, nofun, fun other same => ?_, fun valor held ended found => ?_⟩
    · obtain rfl : response = other := by simpa using same
      rcases known.servidor with ⟨early, start⟩ | ⟨late, -⟩
      · refine .inr ⟨?_, some, start ▸ shows⟩
        rw [known.porPedir early phase]
        simp [early, hastaTruncate]
      · exact .inl ⟨late, some, shows⟩
    · obtain ⟨⟨done, at'⟩, -⟩ := known.guardada valor held ended found
      rw [phase] at at'
      cases at'
  · refine ⟨known.servidor, nofun, nofun, nofun, fun valor held ended found => ?_⟩
    obtain ⟨⟨done, at'⟩, -⟩ := known.guardada valor held ended found
    rw [phase] at at'
    cases at'
  · refine ⟨known.servidor, nofun, nofun, nofun, fun valor held ended found => ⟨⟨visto, rfl⟩, ?_⟩⟩
    obtain rfl : response = held := by simpa using found
    rcases known.porGuardar response phase with ⟨-, fresh⟩ | ⟨order, old⟩
    · exact .inl fresh
    · refine .inr ⟨?_, old⟩
      rw [order, show k.truncate = .listo valor from ended]
      rfl

theorem Sabe.paso_truncate (known : Sabe sb bloquesEnCache escritor path offset s orden k)
    (ran : pasoTruncate sb bloquesEnCache escritor path offset k = some k') :
    Sabe sb bloquesEnCache escritor path offset s (orden ++ [.truncate]) k' := by
  rcases pasoTruncate_cases ran with ⟨phase, s', response, answered, rfl⟩ | ⟨response, phase, rfl⟩
  · have start : k.servidor = s := by
      rcases known.servidor with ⟨-, start⟩ | ⟨late, -⟩
      · exact start
      · exact absurd phase late
    refine ⟨.inr ⟨nofun, response, start ▸ answered⟩, nofun, nofun, fun held at' => ?_, nofun⟩
    rcases known.porGuardar held at' with ⟨late, -⟩ | ⟨order, old⟩
    · exact absurd phase late
    · refine .inr ⟨?_, old⟩
      rw [order, phase]
      rfl
  · have late : k.truncate ≠ .porPedir := by simp [phase]
    have moved : ∃ response, nipcQuery sb bloquesEnCache s
        (.nipcTruncate escritor path (.ofNat offset)) = some (k.servidor, response) := by
      rcases known.servidor with ⟨early, -⟩ | ⟨-, moved⟩
      · exact absurd early late
      · exact moved
    refine ⟨.inr ⟨nofun, moved⟩, nofun, nofun, fun held at' => ?_, fun valor held _ found => ?_⟩
    · rcases known.porGuardar held at' with ⟨-, fresh⟩ | ⟨order, old⟩
      · exact .inl ⟨nofun, fresh⟩
      · refine .inr ⟨?_, old⟩
        rw [order, phase]
        rfl
    · simp at found

theorem Sabe.intercalar (rest : List Parte)
    (known : Sabe sb bloquesEnCache escritor path offset s orden k)
    (ran : intercalar sb bloquesEnCache lector escritor path offset k rest = some k') :
    Sabe sb bloquesEnCache escritor path offset s (orden ++ rest) k' := by
  induction rest generalizing orden k with
  | nil =>
    cases ran
    simpa using known
  | cons parte rest ih =>
    simp only [Metadata.intercalar, Option.bind_eq_bind, Option.bind_eq_some_iff] at ran
    obtain ⟨mid, one, ran⟩ := ran
    have next : Sabe sb bloquesEnCache escritor path offset s (orden ++ [parte]) mid := by
      cases parte with
      | getattr => exact known.paso_getattr one
      | truncate => exact known.paso_truncate one
    simpa using ih next ran

/-- In the bad order the answer of before the truncate is what is cached. -/
theorem ordenMalo_guarda {cache : Cache}
    (ran : intercalar sb bloquesEnCache lector escritor path offset
      ⟨s, cache, .porBuscar, .porPedir⟩ ordenMalo = some k) :
    ∃ response, queryMemcached k.cache path.bytes .getattrResponse = some response ∧
      Muestra sb bloquesEnCache path s response := by
  simp only [intercalar, ordenMalo, paso, Option.bind_eq_bind, Option.bind_eq_some_iff,
    Option.some.injEq] at ran
  obtain ⟨k1, one, k2, two, k3, three, k4, four, k5, five, rfl⟩ := ran
  rcases pasoGetattr_cases one with ⟨-, ⟨_, _, -, rfl⟩ | rfl⟩ | ⟨phase, -⟩ | ⟨_, _, phase, -⟩
  · simp [pasoGetattr] at two
  · rcases pasoGetattr_cases two with ⟨phase, -⟩ | ⟨-, response, shows, ⟨some, rfl⟩ | rfl⟩ |
      ⟨_, _, phase, -⟩
    · cases phase
    · rcases pasoTruncate_cases three with ⟨-, s', reply, -, rfl⟩ | ⟨_, phase, -⟩
      · rcases pasoTruncate_cases four with ⟨phase, -⟩ | ⟨_, -, rfl⟩
        · cases phase
        · rcases pasoGetattr_cases five with ⟨phase, -⟩ | ⟨phase, -⟩ | ⟨_, _, phase, -, rfl⟩
          · cases phase
          · cases phase
          · cases phase
            exact ⟨response, by simp, some, shows⟩
      · cases phase
    · rcases pasoTruncate_cases three with ⟨-, s', reply, -, rfl⟩ | ⟨_, phase, -⟩
      · rcases pasoTruncate_cases four with ⟨phase, -⟩ | ⟨_, -, rfl⟩
        · cases phase
        · simp [pasoGetattr] at five
      · cases phase
    · cases phase
  · cases phase
  · cases phase

theorem Muestra.tamanio {response : Respuesta} (shows : Muestra sb bloquesEnCache path s response) :
    ∃ mode nLink size blocks, response = .getattrResponse mode nLink size blocks ∧
      tamanioActual sb bloquesEnCache path s = some size := by
  obtain ⟨some, now⟩ := shows
  cases response with
  | getattrResponse mode nLink size blocks =>
    refine ⟨mode, nLink, size, blocks, rfl, ?_⟩
    simp [tamanioActual, now, mostrar]
  | ok => simp [mostrar] at some
  | error codigo => simp [mostrar] at some
  | readResponse data => simp [mostrar] at some
  | readdirResponse entries => simp [mostrar] at some

/-- Once the truncate has finished, what is cached for the path has the current size, unless
the steps came in the bad order and the truncate changed the size. -/
theorem intercalado_al_dia (cache : Cache) (valor : Int)
    (ran : intercalar sb bloquesEnCache lector escritor path offset
      ⟨s, cache, .porBuscar, .porPedir⟩ orden = some k)
    (finished : k.truncate = .listo valor) :
    AlDia sb bloquesEnCache path k ↔
      ¬(orden = ordenMalo ∧ CambiaTamanio sb bloquesEnCache escritor path offset s) := by
  have start : Sabe sb bloquesEnCache escritor path offset s []
      ⟨s, cache, .porBuscar, .porPedir⟩ := ⟨.inl ⟨rfl, rfl⟩, fun _ _ => rfl, nofun, nofun, nofun⟩
  have known := start.intercalar orden ran
  rw [List.nil_append] at known
  obtain ⟨reply, moved⟩ : ∃ response, nipcQuery sb bloquesEnCache s
      (.nipcTruncate escritor path (.ofNat offset)) = some (k.servidor, response) := by
    rcases known.servidor with ⟨early, -⟩ | ⟨-, moved⟩
    · rw [finished] at early
      cases early
    · exact moved
  constructor
  · rintro upToDate ⟨rfl, s', response, answered, changed⟩
    obtain ⟨held, found, old⟩ := ordenMalo_guarda ran
    obtain ⟨_, _, size, _, shape, current⟩ := upToDate held found
    obtain ⟨_, _, size', _, shape', before⟩ := old.tamanio
    obtain rfl : s' = k.servidor := by
      rw [moved] at answered
      cases answered
      rfl
    cases shape.symm.trans shape'
    exact changed (current.trans before.symm)
  · intro harmless held found
    rcases (known.guardada valor held finished found).2 with fresh | ⟨order, old⟩
    · exact fresh.tamanio
    · obtain ⟨mode, nLink, size, blocks, shape, before⟩ := old.tamanio
      refine ⟨mode, nLink, size, blocks, shape, ?_⟩
      by_contra differs
      exact harmless ⟨order, k.servidor, reply, moved, by rwa [before]⟩

/-- The `getattr` looks up before the truncate and asks behind it. -/
theorem intercalado_al_dia_pide_despues : ∃ k, intercalar (volumen 0) false 1 2 pathA 0
    ⟨servidorDe (imagenConArchivo 0), vacia, .porBuscar, .porPedir⟩
    [.getattr, .truncate, .truncate, .getattr, .getattr] = some k ∧
    AlDia (volumen 0) false pathA k := by
  have ends : (intercalar (volumen 0) false 1 2 pathA 0
      ⟨servidorDe (imagenConArchivo 0), vacia, .porBuscar, .porPedir⟩
      [.getattr, .truncate, .truncate, .getattr, .getattr]).map (·.truncate) =
      some (.listo 0) := by
    decide +kernel
  obtain ⟨k, ran, finished⟩ := Option.map_eq_some_iff.mp ends
  refine ⟨k, ran, (intercalado_al_dia vacia 0 ran finished).mpr ?_⟩
  rintro ⟨order, -⟩
  cases order

/-- In the bad order, with `/a` emptied, the cached size is 5 and the file has 0 bytes. -/
theorem intercalado_viejo : ¬∀ (sb : Superblock) (bloquesEnCache : Bool)
    (lector escritor : UInt32) (path : CString) (offset : Nat) (s : Servidor) (cache : Cache)
    (orden : List Parte) (k : Carrera) (mode nLink : UInt16) (size blocks : UInt32),
    intercalar sb bloquesEnCache lector escritor path offset ⟨s, cache, .porBuscar, .porPedir⟩
      orden = some k →
    k.getattr = .listo (.atributos mode nLink size blocks) → k.truncate = .listo 0 →
    AlDia sb bloquesEnCache path k := by
  intro all
  have ends : (intercalar (volumen 0) false 1 2 pathA 0
      ⟨servidorDe (imagenConArchivo 0), vacia, .porBuscar, .porPedir⟩ ordenMalo).map
        (fun k => (k.getattr, k.truncate, queryMemcached k.cache pathA.bytes .getattrResponse,
          tamanioActual (volumen 0) false pathA k.servidor)) =
      some (.listo (.atributos 32768 1 5 2), .listo 0, some (.getattrResponse 32768 1 5 2),
        some 0) := by
    decide +kernel
  obtain ⟨k, ran, seen⟩ := Option.map_eq_some_iff.mp ends
  simp only [Prod.mk.injEq] at seen
  obtain ⟨got, finished, held, now⟩ := seen
  obtain ⟨_, _, size, _, shape, current⟩ := all _ _ _ _ _ _ _ _ _ k _ _ _ _ ran got finished _ held
  cases shape
  rw [now] at current
  exact absurd current (by decide)

end LosAltos.Fsc.Metadata
