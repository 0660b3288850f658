import LosAltos.Fsc.Metadata
import LosAltos.Rfs.Sessions

/-!
# A client with and without its metadata cache

`fsc/src/fileSystemClient.c:271-302, 338-485`. A cached answer is fresh when the server
would show the same now. Each operation forgets a fixed set of keys; when it changes no
other answer that is cached, every answer stays fresh and the cache cannot be seen.
-/
namespace LosAltos.Fsc.Metadata

open Nipc Rfs

variable {sb : Superblock} {bloquesEnCache : Bool} {c : Cliente}

theorem sinNul_key (path : CString) (tipo : TipoDeClave) :
    sinNul (keyForMemcached path.bytes tipo) = keyForMemcached path.bytes tipo := by
  have last : (keyForMemcached path.bytes tipo).getLast? ≠ some 0 := by
    intro ends
    have member : (0 : UInt8) ∈ keyForMemcached path.bytes tipo := List.mem_of_getLast? ends
    cases tipo <;> simp [keyForMemcached, path.nulFree] at member
  simp [sinNul, last]

/-- The NUL a key is looked up with makes no difference. -/
theorem queryMemcached_eq (cache : Cache) (path : List UInt8) (tipo : TipoDeClave) :
    queryMemcached cache path tipo = cache (keyForMemcached path tipo) := by
  simp [queryMemcached, sinNul]

theorem key_injective {path path' : List UInt8} {tipo tipo' : TipoDeClave}
    (same : keyForMemcached path tipo = keyForMemcached path' tipo') :
    path = path' ∧ tipo = tipo' := by
  cases tipo <;> cases tipo' <;> simp_all [keyForMemcached]

/-- An answer that is left is an old one, under a key that was not forgotten. -/
theorem olvidar_some {ks : List (List UInt8 × TipoDeClave)} {cache : Cache} {path : CString}
    {tipo : TipoDeClave} {v : Respuesta}
    (left : olvidar cache ks (keyForMemcached path.bytes tipo) = some v) :
    cache (keyForMemcached path.bytes tipo) = some v ∧ (path.bytes, tipo) ∉ ks := by
  induction ks generalizing cache with
  | nil => exact ⟨left, List.not_mem_nil⟩
  | cons key rest ih =>
    obtain ⟨old, kept⟩ := ih left
    simp only [deleteMemcached, ponEnCache] at old
    split at old
    · cases old
    · rename_i other
      refine ⟨old, ?_⟩
      rw [List.mem_cons, not_or]
      refine ⟨?_, kept⟩
      rintro rfl
      exact other (sinNul_key path tipo).symm

/-! ### What the server would show -/

/-- The request an answer of a type is asked for with. -/
def preguntar (clientId : UInt32) (path : CString) (offset : UInt32) : TipoDeClave → Pedido
  | .getattrResponse => .nipcGetattr clientId path
  | .readdirResponse => .nipcReaddir clientId path offset

/-- What the server would show now; it looks at neither the client nor the offset. -/
def actual (sb : Superblock) (bloquesEnCache : Bool) (s : Servidor) (path : CString)
    (tipo : TipoDeClave) : Option Resultado := do
  let (_, response) ← nipcQuery sb bloquesEnCache s (preguntar 0 path 0 tipo)
  mostrar tipo response

/-- Asking leaves the server as it was. -/
theorem nipcQuery_preguntar {s s' : Servidor} {clientId : UInt32} {path : CString}
    {offset : UInt32} {tipo : TipoDeClave} {response : Respuesta}
    (answered : nipcQuery sb bloquesEnCache s (preguntar clientId path offset tipo) =
      some (s', response)) :
    s' = s ∧ actual sb bloquesEnCache s path tipo = mostrar tipo response := by
  have same : nipcQuery sb bloquesEnCache s (preguntar 0 path 0 tipo) = some (s', response) := by
    cases tipo <;> exact answered
  refine ⟨?_, by simp [actual, same]⟩
  cases tipo with
  | getattrResponse =>
    simp only [nipcQuery, preguntar, serveRequest, serveGetattr, Option.bind_eq_bind,
      Option.bind_eq_some_iff] at answered
    obtain ⟨⟨s1, sent⟩, ⟨found, -, served⟩, response', -, answered⟩ := answered
    cases found <;> simp only [Option.some.injEq, Prod.mk.injEq] at served answered <;>
      rw [← answered.1, served.1]
  | readdirResponse =>
    simp only [nipcQuery, preguntar, serveRequest, serveReaddir, Option.bind_eq_bind,
      Option.bind_eq_some_iff, Option.some.injEq, Prod.mk.injEq] at answered
    obtain ⟨⟨s1, sent⟩, ⟨entries, -, rfl, -⟩, response', -, rfl, -⟩ := answered
    rfl

/-- Every cached answer is what the server would show. -/
def Fresca (sb : Superblock) (bloquesEnCache : Bool) (s : Servidor) (cache : Cache) : Prop :=
  ∀ (path : CString) (tipo : TipoDeClave) (v : Respuesta),
    cache (keyForMemcached path.bytes tipo) = some v →
    ∃ visto, mostrar tipo v = some visto ∧ actual sb bloquesEnCache s path tipo = some visto

def vacia : Cache := fun _ => none

/-- A call with the cache on and one with it off: both have no result, or they show the
same and leave the same server. -/
inductive Simula {α : Type} (P : Servidor → Cache → α → Prop) :
    Option (Estado × α) → Option (Estado × α) → Prop
  | nada : Simula P none none
  | igual (s : Servidor) (cache : Cache) (r : α) (holds : P s cache r) :
      Simula P (some (⟨s, cache⟩, r)) (some (⟨s, vacia⟩, r))

theorem Simula.imp {α : Type} {P Q : Servidor → Cache → α → Prop} {a b : Option (Estado × α)}
    (sim : Simula P a b)
    (weaker : ∀ s cache r, b = some (⟨s, vacia⟩, r) → P s cache r → Q s cache r) :
    Simula Q a b := by
  cases sim with
  | nada => exact .nada
  | igual s cache r holds => exact .igual s cache r (weaker s cache r rfl holds)

theorem Simula.con_cache {α : Type} {P : Servidor → Cache → α → Prop} {a b : Option (Estado × α)}
    {e : Estado} {r : α} (sim : Simula P a b) (ran : a = some (e, r)) :
    P e.servidor e.cache r := by
  cases sim with
  | nada => cases ran
  | igual s cache r holds =>
    cases ran
    exact holds

theorem Simula.sin_cache {α : Type} {P : Servidor → Cache → α → Prop} {a b : Option (Estado × α)}
    {e : Estado} {r : α} (sim : Simula P a b) (ran : b = some (e, r)) :
    ∃ cache, P e.servidor cache r := by
  cases sim with
  | nada => cases ran
  | igual s cache r holds =>
    cases ran
    exact ⟨cache, holds⟩

theorem Simula.bind {α β : Type} {P : Servidor → Cache → α → Prop}
    {Q : Servidor → Cache → β → Prop} {a b : Option (Estado × α)}
    {f g : Estado × α → Option (Estado × β)} (sim : Simula P a b)
    (next : ∀ s cache r, P s cache r → Simula Q (f (⟨s, cache⟩, r)) (g (⟨s, vacia⟩, r))) :
    Simula Q (a >>= f) (b >>= g) := by
  cases sim with
  | nada => exact .nada
  | igual s cache r holds => exact next s cache r holds

theorem Simula.conCodigo {P : Servidor → Cache → Prop} {a b : Option (Estado × Int)}
    (sim : Simula (fun s cache _ => P s cache) a b) :
    Simula (fun s cache _ => P s cache) (conCodigo a) (conCodigo b) := by
  cases sim with
  | nada => exact .nada
  | igual s cache r holds => exact .igual s cache (Resultado.codigo r) holds

/-- The cache after an answer was asked for under a key: nothing else is new. -/
def Agrega (cache cache' : Cache) (path : CString) (tipo : TipoDeClave) : Prop :=
  ∀ k v, cache' k = some v → cache k = some v ∨ k = keyForMemcached path.bytes tipo

/-- Where every cached answer is fresh, asking through the cache shows what the server
shows, and every answer is fresh afterwards. -/
theorem remoteConsulta_simula {s : Servidor} {cache : Cache} (path : CString)
    (tipo : TipoDeClave) (clientId offset : UInt32)
    (fresh : Fresca sb bloquesEnCache s cache) :
    Simula (fun s' after r => s' = s ∧ Fresca sb bloquesEnCache s after ∧
        Agrega cache after path tipo ∧
        (actual sb bloquesEnCache s path tipo = some r ∨
          actual sb bloquesEnCache s path tipo = none ∧ ∃ valor, r = .codigo valor))
      (remoteConsulta sb bloquesEnCache true ⟨s, cache⟩ path tipo
        (preguntar clientId path offset tipo))
      (remoteConsulta sb bloquesEnCache false ⟨s, vacia⟩ path tipo
        (preguntar clientId path offset tipo)) := by
  have asked : nipcQuery sb bloquesEnCache s (preguntar clientId path offset tipo) =
      nipcQuery sb bloquesEnCache s (preguntar 0 path 0 tipo) := by
    cases tipo <;> rfl
  unfold remoteConsulta
  simp only [if_true, Bool.false_eq_true, if_false, queryMemcached_eq]
  cases hit : cache (keyForMemcached path.bytes tipo) with
  | some v =>
    obtain ⟨visto, shown, now⟩ := fresh path tipo v hit
    have served := now
    simp only [actual, Option.bind_eq_bind, Option.bind_eq_some_iff] at served
    obtain ⟨⟨s', response⟩, answered, shows⟩ := served
    have unchanged := (nipcQuery_preguntar answered).1
    subst unchanged
    rw [asked, answered]
    simp only [shown, shows, Option.bind_eq_bind, Option.bind_some]
    exact .igual _ _ _ ⟨rfl, fresh, fun k v held => .inl held, .inl now⟩
  | none =>
    cases answered : nipcQuery sb bloquesEnCache s (preguntar clientId path offset tipo) with
    | none => exact .nada
    | some answer =>
      obtain ⟨s', response⟩ := answer
      obtain ⟨unchanged, shows⟩ := nipcQuery_preguntar answered
      subst unchanged
      simp only [Option.bind_eq_bind, Option.bind_some]
      cases shown : mostrar tipo response with
      | none => exact .igual _ _ _ ⟨rfl, fresh, fun k v held => .inl held, .inr ⟨by rw [shows, shown], _, rfl⟩⟩
      | some visto =>
        refine .igual _ _ _ ⟨rfl, ?_, ?_, .inl (by rw [shows, shown])⟩
        · intro path' tipo' v held
          simp only [storeMemcached, ponEnCache, sinNul_key] at held
          split at held
          · rename_i same
            obtain ⟨samePath, rfl⟩ := key_injective same
            have samePath : path' = path := by
              cases path'
              cases path
              simp_all
            cases held
            exact ⟨visto, shown, by rw [samePath, shows, shown]⟩
          · exact fresh path' tipo' v held
        · intro k v held
          simp only [storeMemcached, ponEnCache, sinNul_key] at held
          split at held
          · rename_i same
            exact .inr same
          · exact .inl held

/-! ### The keys a call forgets -/

section
variable (sb bloquesEnCache c)

/-- The keys forgotten on the answer to a request. -/
def trasRespuesta (s : Servidor) (pedido : Pedido)
    (olvidan : Respuesta → List (List UInt8 × TipoDeClave)) : List (List UInt8 × TipoDeClave) :=
  match nipcQuery sb bloquesEnCache s pedido with
  | some (_, response) => olvidan response
  | none => []

/-- A write truncates first, or has every request answered `nipc_ok`. -/
def escrituraOlvida (s : Servidor) (path : CString) (input : List UInt8) (offset : Nat) : Bool :=
  match actual sb bloquesEnCache s path .getattrResponse with
  | some (.atributos _ _ stSize _) => faltaLugar stSize input offset ||
      (writeLoop sb bloquesEnCache c path input offset (input.length + 1) s 0).any (·.2.1)
  | _ => false

/-- The keys a call forgets. -/
def olvidadas (s : Servidor) : Operacion → List (List UInt8 × TipoDeClave)
  | .create p mode =>
    trasRespuesta sb bloquesEnCache s (.nipcCreate c.clientId p mode) (olvidarPadre p)
  | .mkdir p mode =>
    trasRespuesta sb bloquesEnCache s (.nipcMkdir c.clientId p mode) (olvidarPadre p)
  | .unlink p =>
    trasRespuesta sb bloquesEnCache s (.nipcUnlink c.clientId p) (olvidarPropiosYPadre p)
  | .rmdir p =>
    trasRespuesta sb bloquesEnCache s (.nipcRmdir c.clientId p) (olvidarPropiosYPadre p)
  | .write p input offset =>
    if escrituraOlvida sb bloquesEnCache c s p input offset then [(p.bytes, .getattrResponse)]
    else []
  | .truncate p _ => [(p.bytes, .getattrResponse)]
  | .getattr _ => []
  | .readdir _ _ => []

/-- The key a call looks up. -/
def consultada : Operacion → Option (CString × TipoDeClave)
  | .write p _ _ => some (p, .getattrResponse)
  | .getattr p => some (p, .getattrResponse)
  | .readdir p _ => some (p, .readdirResponse)
  | _ => none

/-- The server after a call that goes past the cache. -/
def servidorTras (s : Servidor) (op : Operacion) : Option Servidor :=
  (ejecutar sb bloquesEnCache false c ⟨s, vacia⟩ op).map (·.1.servidor)

/-- The call does not change what the server would show under a key that is cached, or
that it looks up, unless it forgets the key. -/
def Prolija (s : Servidor) (cache : Cache) (op : Operacion) : Prop :=
  ∀ s', servidorTras sb bloquesEnCache c s op = some s' →
    ∀ (path : CString) (tipo : TipoDeClave),
      (cache (keyForMemcached path.bytes tipo)).isSome ∨ consultada op = some (path, tipo) →
      (path.bytes, tipo) ∉ olvidadas sb bloquesEnCache c s op →
      actual sb bloquesEnCache s' path tipo = actual sb bloquesEnCache s path tipo

/-- Every answer left in the cache was cached or looked up, was fresh before the call,
and is under a key the call does not forget. -/
def Queda (s : Servidor) (cache : Cache) (op : Operacion) (after : Cache) : Prop :=
  ∀ (path : CString) (tipo : TipoDeClave) (v : Respuesta),
    after (keyForMemcached path.bytes tipo) = some v →
    (∃ visto, mostrar tipo v = some visto ∧ actual sb bloquesEnCache s path tipo = some visto) ∧
    ((cache (keyForMemcached path.bytes tipo)).isSome ∨ consultada op = some (path, tipo)) ∧
    (path.bytes, tipo) ∉ olvidadas sb bloquesEnCache c s op

end

/-- A request and the keys forgotten on its answer. -/
theorem remoteCambio_simula {s : Servidor} {cache : Cache} (op : Operacion) (pedido : Pedido)
    (olvidan : Respuesta → List (List UInt8 × TipoDeClave))
    (fresh : Fresca sb bloquesEnCache s cache)
    (forgets : ∀ s' response, nipcQuery sb bloquesEnCache s pedido = some (s', response) →
      olvidadas sb bloquesEnCache c s op = olvidan response) :
    Simula (fun _ after _ => Queda sb bloquesEnCache c s cache op after)
      (remoteCambio sb bloquesEnCache true ⟨s, cache⟩ pedido olvidan)
      (remoteCambio sb bloquesEnCache false ⟨s, vacia⟩ pedido olvidan) := by
  unfold remoteCambio
  cases answered : nipcQuery sb bloquesEnCache s pedido with
  | none => exact .nada
  | some answer =>
    obtain ⟨s', response⟩ := answer
    refine .igual _ _ _ ?_
    intro path tipo v left
    rw [forgets s' response answered]
    obtain ⟨old, kept⟩ := olvidar_some left
    exact ⟨fresh path tipo v old, .inl (Option.isSome_of_eq_some old), kept⟩

/-- The requests of a write, once the size is known: whatever is left was cached, and the
attributes of the path are gone if it truncated or ran to its end. -/
theorem escribirConTamanio_simula (s : Servidor) (cache : Cache) (path : CString)
    (input : List UInt8) (offset : Nat) (stSize : UInt32) :
    Simula (fun _ after _ => ∀ (path' : CString) (tipo : TipoDeClave) (v : Respuesta),
        after (keyForMemcached path'.bytes tipo) = some v →
        cache (keyForMemcached path'.bytes tipo) = some v ∧
        ((faltaLugar stSize input offset || (writeLoop sb bloquesEnCache c path input offset
            (input.length + 1) s 0).any (·.2.1)) = true →
          (path'.bytes, tipo) ∉ [(path.bytes, TipoDeClave.getattrResponse)]))
      (escribirConTamanio sb bloquesEnCache true c ⟨s, cache⟩ path input offset stSize)
      (escribirConTamanio sb bloquesEnCache false c ⟨s, vacia⟩ path input offset stSize) := by
  unfold escribirConTamanio
  cases short : faltaLugar stSize input offset with
  | true =>
    simp only [if_true, remoteTruncate, remoteCambio, Option.bind_eq_bind]
    cases nipcQuery sb bloquesEnCache s
        (.nipcTruncate c.clientId path (.ofNat (offset + input.length))) with
    | none => exact .nada
    | some answer =>
      obtain ⟨s', response⟩ := answer
      simp only [Option.bind_some]
      split
      · refine .igual _ _ _ fun path' tipo v left => ?_
        obtain ⟨old, kept⟩ := olvidar_some left
        exact ⟨old, fun _ => kept⟩
      · cases writeLoop sb bloquesEnCache c path input offset (input.length + 1) s' 0 with
        | none => exact .nada
        | some done =>
          obtain ⟨s'', termino, valor⟩ := done
          refine .igual _ _ _ fun path' tipo v left => ?_
          cases termino with
          | false =>
            obtain ⟨old, kept⟩ := olvidar_some left
            exact ⟨old, fun _ => kept⟩
          | true =>
            -- forgotten twice
            have twice : olvidar (olvidar cache [(path.bytes, .getattrResponse)])
                [(path.bytes, .getattrResponse)] (keyForMemcached path'.bytes tipo) = some v :=
              left
            obtain ⟨once, kept⟩ := olvidar_some twice
            exact ⟨(olvidar_some once).1, fun _ => kept⟩
  | false =>
    simp only [Bool.false_eq_true, if_false, Option.bind_eq_bind, Option.bind_some, ne_eq,
      not_true_eq_false, Bool.false_or]
    cases writeLoop sb bloquesEnCache c path input offset (input.length + 1) s 0 with
    | none => exact .nada
    | some done =>
      obtain ⟨s', termino, valor⟩ := done
      refine .igual _ _ _ fun path' tipo v left => ?_
      cases termino with
      | false => exact ⟨left, fun ended => by simp at ended⟩
      | true =>
        have once : olvidar cache [(path.bytes, .getattrResponse)]
            (keyForMemcached path'.bytes tipo) = some v := left
        obtain ⟨old, kept⟩ := olvidar_some once
        exact ⟨old, fun _ => kept⟩

/-- What an `Agrega` leaves was cached or is the key asked for. -/
theorem Agrega.isSome {cache after : Cache} {path path' : CString} {tipo tipo' : TipoDeClave}
    {v : Respuesta} (added : Agrega cache after path tipo)
    (held : after (keyForMemcached path'.bytes tipo') = some v) :
    (cache (keyForMemcached path'.bytes tipo')).isSome ∨
      some (path, tipo) = some (path', tipo') := by
  rcases added _ _ held with old | same
  · exact .inl (Option.isSome_of_eq_some old)
  · obtain ⟨samePath, rfl⟩ := key_injective same
    obtain ⟨bytes, nulFree⟩ := path
    obtain ⟨bytes', nulFree'⟩ := path'
    obtain rfl : bytes' = bytes := samePath
    exact .inr rfl

theorem remoteWrite_simula {s : Servidor} {cache : Cache} (path : CString)
    (input : List UInt8) (offset : Nat) (fresh : Fresca sb bloquesEnCache s cache) :
    Simula (fun _ after _ => Queda sb bloquesEnCache c s cache (.write path input offset) after)
      (remoteWrite sb bloquesEnCache true c ⟨s, cache⟩ path input offset)
      (remoteWrite sb bloquesEnCache false c ⟨s, vacia⟩ path input offset) := by
  unfold remoteWrite
  apply Simula.bind (remoteConsulta_simula path .getattrResponse c.clientId 0 fresh)
  rintro s after r ⟨rfl, freshAfter, added, shows⟩
  cases r with
  | codigo valor =>
    refine .igual _ _ _ fun path' tipo v held =>
      ⟨freshAfter path' tipo v held, added.isSome held, ?_⟩
    rcases shows with now | ⟨now, -⟩ <;> simp [olvidadas, escrituraOlvida, now]
  | entradas lista => exact .nada
  | atributos mode nLink stSize blocks =>
    have now : actual sb bloquesEnCache s path .getattrResponse =
        some (.atributos mode nLink stSize blocks) := by
      simpa using shows
    refine (escribirConTamanio_simula s after path input offset stSize).imp
      fun _ cache' _ _ left path' tipo v held => ?_
    obtain ⟨old, kept⟩ := left path' tipo v held
    refine ⟨freshAfter path' tipo v old, added.isSome old, ?_⟩
    simp only [olvidadas, escrituraOlvida, now]
    split
    · exact kept ‹_›
    · exact List.not_mem_nil

/-- A lookup forgets nothing and adds the key it looks up. -/
theorem remoteConsulta_queda {s : Servidor} {cache : Cache} (op : Operacion) (path : CString)
    (tipo : TipoDeClave) (offset : UInt32) (fresh : Fresca sb bloquesEnCache s cache)
    (looks : consultada op = some (path, tipo))
    (nothing : olvidadas sb bloquesEnCache c s op = []) :
    Simula (fun _ after _ => Queda sb bloquesEnCache c s cache op after)
      (remoteConsulta sb bloquesEnCache true ⟨s, cache⟩ path tipo
        (preguntar c.clientId path offset tipo))
      (remoteConsulta sb bloquesEnCache false ⟨s, vacia⟩ path tipo
        (preguntar c.clientId path offset tipo)) := by
  refine (remoteConsulta_simula path tipo c.clientId offset fresh).imp ?_
  rintro _ after r - ⟨rfl, freshAfter, added, -⟩ path' tipo' v held
  rw [looks, nothing]
  exact ⟨freshAfter path' tipo' v held, added.isSome held, List.not_mem_nil⟩

/-- Every call, with the cache on and off. -/
theorem ejecutar_simula {s : Servidor} {cache : Cache} (op : Operacion)
    (fresh : Fresca sb bloquesEnCache s cache) :
    Simula (fun _ after _ => Queda sb bloquesEnCache c s cache op after)
      (ejecutar sb bloquesEnCache true c ⟨s, cache⟩ op)
      (ejecutar sb bloquesEnCache false c ⟨s, vacia⟩ op) := by
  have answered : ∀ (op : Operacion) (pedido : Pedido)
      (olvidan : Respuesta → List (List UInt8 × TipoDeClave)),
      olvidadas sb bloquesEnCache c s op = trasRespuesta sb bloquesEnCache s pedido olvidan →
      ∀ s' response, nipcQuery sb bloquesEnCache s pedido = some (s', response) →
        olvidadas sb bloquesEnCache c s op = olvidan response := by
    intro op pedido olvidan same s' response reply
    rw [same, trasRespuesta, reply]
  cases op with
  | create p mode => exact (remoteCambio_simula _ _ _ fresh (answered _ _ _ rfl)).conCodigo
  | mkdir p mode => exact (remoteCambio_simula _ _ _ fresh (answered _ _ _ rfl)).conCodigo
  | unlink p => exact (remoteCambio_simula _ _ _ fresh (answered _ _ _ rfl)).conCodigo
  | rmdir p => exact (remoteCambio_simula _ _ _ fresh (answered _ _ _ rfl)).conCodigo
  | truncate p offset => exact (remoteCambio_simula _ _ _ fresh fun _ _ _ => rfl).conCodigo
  | write p input offset => exact (remoteWrite_simula p input offset fresh).conCodigo
  | getattr p => exact remoteConsulta_queda _ p .getattrResponse 0 fresh rfl rfl
  | readdir p offset => exact remoteConsulta_queda _ p .readdirResponse (.ofNat offset) fresh rfl rfl

/-- A call that meets the condition leaves every cached answer fresh. -/
theorem ejecutar_fresca {s : Servidor} {cache : Cache} (op : Operacion)
    (fresh : Fresca sb bloquesEnCache s cache)
    (neat : Prolija sb bloquesEnCache c s cache op) :
    Simula (fun s' after _ => Fresca sb bloquesEnCache s' after)
      (ejecutar sb bloquesEnCache true c ⟨s, cache⟩ op)
      (ejecutar sb bloquesEnCache false c ⟨s, vacia⟩ op) := by
  refine (ejecutar_simula op fresh).imp fun s' after r ran left path tipo v held => ?_
  obtain ⟨⟨visto, shown, before⟩, known, kept⟩ := left path tipo v held
  have reached : servidorTras sb bloquesEnCache c s op = some s' := by
    simp [servidorTras, ran]
  exact ⟨visto, shown, (neat s' reached path tipo known kept).trans before⟩

/-- Every call of the run with the cache on meets the condition where it is made. -/
def Prolijas (sb : Superblock) (bloquesEnCache : Bool) (c : Cliente) :
    Estado → List Operacion → Prop
  | _, [] => True
  | e, op :: ops => Prolija sb bloquesEnCache c e.servidor e.cache op ∧
      ∀ e' r, ejecutar sb bloquesEnCache true c e op = some (e', r) →
        Prolijas sb bloquesEnCache c e' ops

theorem correr_fresca (ops : List Operacion) {s : Servidor} {cache : Cache}
    (fresh : Fresca sb bloquesEnCache s cache)
    (neat : Prolijas sb bloquesEnCache c ⟨s, cache⟩ ops) :
    correr sb bloquesEnCache true c ⟨s, cache⟩ ops =
      correr sb bloquesEnCache false c ⟨s, vacia⟩ ops := by
  induction ops generalizing s cache with
  | nil => rfl
  | cons op ops ih =>
    obtain ⟨here, later⟩ := neat
    have sim := ejecutar_fresca op fresh here
    simp only [correr]
    generalize ejecutar sb bloquesEnCache true c ⟨s, cache⟩ op = withCache at sim later ⊢
    generalize ejecutar sb bloquesEnCache false c ⟨s, vacia⟩ op = without at sim ⊢
    cases sim with
    | nada => rfl
    | igual s' after r freshAfter =>
      simp only [Option.bind_eq_bind, Option.bind_some]
      rw [ih freshAfter (later _ _ rfl)]

def cliente32K : Cliente := ⟨1, 32 * 1024⟩

def pathRaiz : CString := ⟨[47], by decide⟩

/-- A lookup leaves the server as it is. -/
theorem prolija_getattr (s : Servidor) (cache : Cache) (path : CString) :
    Prolija sb bloquesEnCache c s cache (.getattr path) := by
  intro s' reached path' tipo' _ _
  obtain ⟨⟨e, r⟩, ran, same⟩ : ∃ out, ejecutar sb bloquesEnCache false c ⟨s, vacia⟩
      (.getattr path) = some out ∧ out.1.servidor = s' := by
    simpa [servidorTras, Option.map_eq_some_iff] using reached
  have fresh : Fresca sb bloquesEnCache s vacia := fun _ _ _ held => by cases held
  obtain ⟨after, unchanged, -⟩ :=
    (remoteConsulta_simula path .getattrResponse c.clientId 0 fresh).sin_cache ran
  rw [← same, unchanged]

end LosAltos.Fsc.Metadata
