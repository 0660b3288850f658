import LosAltos.Rfs.Runs
import LosAltos.Rfs.Server

/-!
# Opens and releases over a whole session

`main_rfs.c:172-229, 380-401` on `administracion.c`. A session is a run of requests served
one at a time from a server with no open files, together with the opens not yet released.
An open is known by its client and its path; the register knows it by an inode.
-/
namespace LosAltos.Rfs

open Nipc

/-- An open that has not been released, and the inode the path led to. -/
structure Pendiente where
  clientId : UInt32
  path : CString
  inodo : Nat
  deriving DecidableEq

/-- The request is one of `serve_open`, `serve_create` or `serve_release` and changes the
registers. -/
def abreOCierra : Pedido → List Respuesta → Prop
  | .nipcOpen .., out => out = [.ok]
  | .nipcCreate .., out => out = [.ok, .ok]
  | .nipcRelease .., _ => True
  | _, _ => False

section
variable (sb : Superblock) (cacheActive : Bool)

/-- A release is of an open that is pending and meets `Cond`. -/
inductive Sesion (Cond : Servidor → Pendiente → Prop) : Servidor → List Pendiente → Prop where
  | inicio (d : Disco) (cache : Nat → Option (List UInt8)) :
      Sesion Cond ⟨d, ⟨[], 0⟩, fun _ => none, cache⟩ []
  | abre {s s' : Servidor} {pend : List Pendiente} {a : Pendiente} {flags : Int32} :
      Sesion Cond s pend →
      serveRequest sb cacheActive s (.nipcOpen a.clientId a.path flags) = some (s', [.ok]) →
      getNroInodoDeLaDireccionDelPath sb s.disco a.path.bytes = some a.inodo →
      Sesion Cond s' (a :: pend)
  | crea {s s' : Servidor} {pend : List Pendiente} {a : Pendiente} {mode : UInt32} :
      Sesion Cond s pend →
      serveRequest sb cacheActive s (.nipcCreate a.clientId a.path mode) = some (s', [.ok, .ok]) →
      getNroInodoDeLaDireccionDelPath sb s'.disco a.path.bytes = some a.inodo →
      Sesion Cond s' (a :: pend)
  | cierra {s s' : Servidor} {pend : List Pendiente} {a : Pendiente} {flags : Int32}
      {out : List Respuesta} : Sesion Cond s pend → a ∈ pend → Cond s a →
      serveRequest sb cacheActive s (.nipcRelease a.clientId a.path flags) = some (s', out) →
      Sesion Cond s' (pend.erase a)
  | otro {s s' : Servidor} {pend : List Pendiente} {r : Pedido} {out : List Respuesta} :
      Sesion Cond s pend → serveRequest sb cacheActive s r = some (s', out) → ¬abreOCierra r out →
      Sesion Cond s' pend

end

/-- No open is left in either register. -/
structure Vaciado (s : Servidor) : Prop where
  abiertos : ∀ a ∈ s.abiertos.archivosAbiertos, ¬a.cantidadAbiertos > 0
  clientes : ∀ clave lista, s.clientes clave = some lista → lista = []

variable {sb : Superblock} {cacheActive : Bool} {s s' : Servidor} {pend : List Pendiente}
  {reg reg' : Abiertos} {n : Nat}

/-! ### The register of inodes -/

def abiertosDe (pend : List Pendiente) (n : Nat) : Nat := pend.countP (·.inodo == n)

/-- Each inode has at most one entry, which counts its pending opens. -/
structure Cuenta (reg : Abiertos) (pend : List Pendiente) : Prop where
  ok : reg.Ok
  una : ∀ n, reg.entradas n = [] ∧ abiertosDe pend n = 0 ∨
    ∃ p, reg.entradas n = [⟨p, n, abiertosDe pend n⟩]

namespace Cuenta

theorem inicio : Cuenta ⟨[], 0⟩ [] := ⟨⟨by simp, by simp⟩, fun _ => .inl ⟨rfl, rfl⟩⟩

/-- After the lookup the inode has its entry and the others are as they were. -/
theorem obtener (count : Cuenta reg pend) (n : Nat) :
    Cuenta (reg.obtenerOCrearArchivoAbierto n).2 pend ∧
      (reg.obtenerOCrearArchivoAbierto n).2.Unica n (reg.obtenerOCrearArchivoAbierto n).1
        (abiertosDe pend n) := by
  rcases count.una n with ⟨absent, zero⟩ | ⟨p, present⟩
  · have created := count.ok.nueva absent
    refine ⟨⟨created.ok, fun m => ?_⟩, by rw [zero]; exact created⟩
    by_cases here : m = n
    · subst here
      exact .inr ⟨_, by rw [zero]; exact created.entrada⟩
    · rw [Abiertos.obtener_none absent, Abiertos.entradas_agrega]
      simpa [show ¬n = m from fun equal => here equal.symm] using count.una m
  · rw [Abiertos.obtener_some present]
    exact ⟨count, count.ok, present⟩

/-- One entry is changed, to count the opens of `pend'`. -/
theorem cambia {pend' : List Pendiente} {p : Nat} {k : Int} (count : Cuenta reg pend)
    (one : reg.Unica n p k) (others : ∀ m, m ≠ n → abiertosDe pend' m = abiertosDe pend m)
    (ok : reg'.Ok) (same : ∀ m, m ≠ n → reg'.entradas m = reg.entradas m)
    (here : reg'.entradas n = [] ∧ abiertosDe pend' n = 0 ∨
      ∃ p, reg'.entradas n = [⟨p, n, abiertosDe pend' n⟩]) : Cuenta reg' pend' := by
  refine ⟨ok, fun m => ?_⟩
  by_cases equal : m = n
  · subst equal
    exact here
  · rw [same m equal, others m equal]
    exact count.una m

end Cuenta

theorem Abiertos.Unica.entradas_pon_otro {p m : Nat} {k : Int} (one : reg.Unica n p k)
    (other : m ≠ n) (j : Int) : (reg.pon p j).entradas m = reg.entradas m := by
  rw [Abiertos.entradas_pon]
  calc
    _ = (reg.entradas m).map id := by
      apply List.map_congr_left
      intro a member
      obtain ⟨here, inode⟩ := Abiertos.mem_of_entradas member
      apply if_neg
      intro same
      rw [one.ok.eq_of_nodo here one.mem same] at inode
      exact other inode.symm
    _ = reg.entradas m := List.map_id _

theorem Abiertos.Unica.entradas_quita_otro {p m : Nat} {k : Int} (one : reg.Unica n p k)
    (other : m ≠ n) : (reg.quita p).entradas m = reg.entradas m := by
  have same := one.ok.entradas_quita one.mem m
  rwa [if_neg other] at same

theorem abiertosDe_cons (a : Pendiente) (pend : List Pendiente) (m : Nat) :
    abiertosDe (a :: pend) m = abiertosDe pend m + if a.inodo = m then 1 else 0 := by
  simp [abiertosDe, List.countP_cons]

theorem abiertosDe_erase {a : Pendiente} (member : a ∈ pend) (m : Nat) :
    abiertosDe (pend.erase a) m + (if a.inodo = m then 1 else 0) = abiertosDe pend m := by
  have back := (List.perm_cons_erase member).countP_eq (·.inodo == m)
  have cons := abiertosDe_cons a (pend.erase a) m
  simp only [abiertosDe] at *
  omega

theorem Cuenta.abrir (count : Cuenta reg pend) {a : Pendiente}
    (run : (reg.obtenerOCrearArchivoAbierto a.inodo).2.registrarApertura
      (reg.obtenerOCrearArchivoAbierto a.inodo).1 = some reg') : Cuenta reg' (a :: pend) := by
  obtain ⟨found, one⟩ := count.obtener a.inodo
  generalize (reg.obtenerOCrearArchivoAbierto a.inodo).2 = reg1 at *
  generalize (reg.obtenerOCrearArchivoAbierto a.inodo).1 = q at *
  simp only [Abiertos.registrarApertura, one.leer, Option.bind_eq_bind, Option.bind_some] at run
  split at run
  · cases run
  · cases run
    have more := one.pon (abiertosDe pend a.inodo + 1)
    refine found.cambia one ?_ more.ok (fun m other => one.entradas_pon_otro other _) ?_
    · intro m other
      rw [abiertosDe_cons, if_neg other.symm, Nat.add_zero]
    · refine .inr ⟨q, ?_⟩
      rw [more.entrada, abiertosDe_cons, if_pos rfl, Nat.cast_add, Nat.cast_one]

theorem Cuenta.cerrar (count : Cuenta reg pend) {a : Pendiente} (member : a ∈ pend)
    (run : (reg.obtenerOCrearArchivoAbierto a.inodo).2.registrarCierre
      (reg.obtenerOCrearArchivoAbierto a.inodo).1 = some reg') : Cuenta reg' (pend.erase a) := by
  obtain ⟨found, one⟩ := count.obtener a.inodo
  generalize (reg.obtenerOCrearArchivoAbierto a.inodo).2 = reg1 at *
  generalize (reg.obtenerOCrearArchivoAbierto a.inodo).1 = q at *
  have less := abiertosDe_erase member a.inodo
  rw [if_pos rfl] at less
  have others : ∀ m, m ≠ a.inodo → abiertosDe (pend.erase a) m = abiertosDe pend m := by
    intro m other
    have same := abiertosDe_erase member m
    rwa [if_neg other.symm] at same
  rw [one.cierre (by omega)] at run
  cases run
  split
  · obtain ⟨ok, empty, -⟩ := one.quita
    refine found.cambia one others ok (fun m other => one.entradas_quita_otro other) ?_
    exact .inl ⟨empty, by omega⟩
  · have fewer := one.pon (abiertosDe pend a.inodo - 1)
    refine found.cambia one others fewer.ok (fun m other => one.entradas_pon_otro other _) ?_
    refine .inr ⟨q, ?_⟩
    rw [fewer.entrada, ← less]
    simp

/-! ### The lists of the clients -/

def inodosDe (pend : List Pendiente) (clave : UInt32) : List Nat :=
  (pend.filter (claveDe ·.clientId == clave)).map (·.inodo)

/-- The list under each hash holds the inodes of its pending opens. -/
def Listas (clientes : UInt32 → Option (List Nat)) (pend : List Pendiente) : Prop :=
  ∀ clave, clientes clave = none ∧ inodosDe pend clave = [] ∨
    ∃ lista, clientes clave = some lista ∧ lista ≠ [] ∧ lista.Perm (inodosDe pend clave)

theorem inodosDe_cons (a : Pendiente) (pend : List Pendiente) (clave : UInt32) :
    inodosDe (a :: pend) clave =
      if claveDe a.clientId = clave then a.inodo :: inodosDe pend clave else inodosDe pend clave := by
  by_cases here : claveDe a.clientId = clave <;> simp [inodosDe, here]

theorem Listas.abrir (lists : Listas s.clientes pend) (a : Pendiente) :
    Listas (s.registrarAperturaCliente a.clientId a.inodo).clientes (a :: pend) := by
  intro clave
  rw [inodosDe_cons]
  by_cases here : clave = claveDe a.clientId
  · subst here
    refine .inr ⟨(s.clientes (claveDe a.clientId)).getD [] ++ [a.inodo], ?_, by simp, ?_⟩
    · simp [Servidor.registrarAperturaCliente, Servidor.ponCliente]
    · rw [if_pos rfl]
      refine List.perm_append_singleton .. |>.trans (List.Perm.cons _ ?_)
      rcases lists (claveDe a.clientId) with ⟨absent, empty⟩ | ⟨lista, present, -, perm⟩
      · rw [absent, empty]
        exact .refl _
      · rw [present]
        exact perm
  · simpa [Servidor.registrarAperturaCliente, Servidor.ponCliente, here,
      show ¬claveDe a.clientId = clave from fun equal => here equal.symm] using lists clave

theorem quitarDeLista_some {lista lista' : List Nat}
    (run : Servidor.quitarDeLista lista n = some lista') : lista' = lista.erase n := by
  rw [List.erase_eq_eraseIdx]
  rw [Servidor.quitarDeLista] at run
  split at run
  · rename_i absent
    cases run
    simp [absent]
  · rename_i i found
    split at run
    · cases run
    · cases run
      simp [found]

theorem Listas.cerrar (lists : Listas s.clientes pend) {a : Pendiente} (member : a ∈ pend)
    (run : s.registrarCierreCliente a.clientId a.inodo = some s') :
    Listas s'.clientes (pend.erase a) := by
  simp only [Servidor.registrarCierreCliente, Option.bind_eq_bind, Option.bind_eq_some_iff,
    Option.some.injEq] at run
  obtain ⟨lista, present, rest, taken, rfl⟩ := run
  rw [quitarDeLista_some taken]
  intro clave
  have back : (inodosDe pend clave).Perm (inodosDe (a :: pend.erase a) clave) :=
    ((List.perm_cons_erase member).filter _).map _
  rw [inodosDe_cons] at back
  by_cases here : clave = claveDe a.clientId
  · subst here
    rw [if_pos rfl] at back
    have perm : lista.Perm (a.inodo :: inodosDe (pend.erase a) (claveDe a.clientId)) := by
      rcases lists (claveDe a.clientId) with ⟨absent, -⟩ | ⟨other, same, -, perm⟩
      · rw [absent] at present
        cases present
      · rw [same] at present
        cases present
        exact perm.trans back
    have fewer : (lista.erase a.inodo).Perm (inodosDe (pend.erase a) (claveDe a.clientId)) := by
      have erased := perm.erase a.inodo
      rwa [List.erase_cons_head] at erased
    by_cases empty : lista.erase a.inodo = []
    · rw [empty] at fewer
      exact .inl ⟨by simp [Servidor.ponCliente, empty], fewer.nil_eq.symm⟩
    · exact .inr ⟨lista.erase a.inodo, by simp [Servidor.ponCliente, empty], empty, fewer⟩
  · rw [if_neg fun equal => here equal.symm] at back
    simp only [Servidor.ponCliente, here, ↓reduceIte]
    rcases lists clave with ⟨absent, empty⟩ | ⟨other, same, filled, perm⟩
    · rw [empty] at back
      exact .inl ⟨absent, back.nil_eq.symm⟩
    · exact .inr ⟨other, same, filled, perm.trans back⟩

/-! ### The handlers -/

/-- Both registers agree with the pending opens. -/
structure Registros (s : Servidor) (pend : List Pendiente) : Prop where
  cuenta : Cuenta s.abiertos pend
  listas : Listas s.clientes pend
  resueltos : ∀ a ∈ pend, a.inodo ≠ 0

theorem Registros.bloquear (regs : Registros s pend) (n : Nat) : Registros (s.bloquear n) pend :=
  ⟨(regs.cuenta.obtener n).1, regs.listas, regs.resueltos⟩

theorem Registros.congr (regs : Registros s pend) (abiertos : s'.abiertos = s.abiertos)
    (clientes : s'.clientes = s.clientes) : Registros s' pend := by
  refine ⟨?_, ?_, regs.resueltos⟩
  · rw [abiertos]
    exact regs.cuenta
  · rw [clientes]
    exact regs.listas

theorem Registros.abrir (regs : Registros s pend) {a : Pendiente} (found : a.inodo ≠ 0)
    (run : s.abrir a.clientId a.inodo = some s') : Registros s' (a :: pend) := by
  simp only [Servidor.abrir, Option.bind_eq_bind, Option.bind_eq_some_iff, Option.some.injEq] at run
  obtain ⟨reg, opened, rfl⟩ := run
  refine ⟨regs.cuenta.abrir opened, Listas.abrir (s := { s with abiertos := reg }) regs.listas a, ?_⟩
  intro b member
  rcases List.mem_cons.mp member with rfl | old
  · exact found
  · exact regs.resueltos b old

theorem abrir_disco {clientId : UInt32} (run : s.abrir clientId n = some s') :
    s'.disco = s.disco := by
  simp only [Servidor.abrir, Option.bind_eq_bind, Option.bind_eq_some_iff, Option.some.injEq] at run
  obtain ⟨reg, -, rfl⟩ := run
  rfl

theorem Registros.cerrar (regs : Registros s pend) {a : Pendiente} (member : a ∈ pend)
    (run : s.cerrar a.clientId a.inodo = some s') : Registros s' (pend.erase a) := by
  simp only [Servidor.cerrar, Option.bind_eq_bind, Option.bind_eq_some_iff] at run
  obtain ⟨reg, closed, run⟩ := run
  have lists := Listas.cerrar (s := { s with abiertos := reg }) regs.listas member run
  refine ⟨?_, lists, fun b kept => regs.resueltos b (List.mem_of_mem_erase kept)⟩
  have same : s'.abiertos = reg := by
    simp only [Servidor.registrarCierreCliente, Option.bind_eq_bind, Option.bind_eq_some_iff,
      Option.some.injEq] at run
    obtain ⟨lista, -, rest, -, rfl⟩ := run
    rfl
  rw [same]
  exact regs.cuenta.cerrar member closed

/-- Only the disk and the cache differ. -/
def MismosRegistros (s s' : Servidor) : Prop :=
  s'.abiertos = s.abiertos ∧ s'.clientes = s.clientes

theorem guardarBloque_registros (s : Servidor) (b : Nat) (bloque : List UInt8) :
    MismosRegistros s (guardarBloque cacheActive s b bloque) := by
  rw [guardarBloque]
  split <;> exact ⟨rfl, rfl⟩

theorem traerBloques_registros (s : Servidor) (bs : List Nat) :
    MismosRegistros s (traerBloques sb cacheActive s bs).2 := by
  induction bs generalizing s with
  | nil => exact ⟨rfl, rfl⟩
  | cons b bs ih =>
    simp only [traerBloques]
    split
    · exact ih s
    · have saved : MismosRegistros s
          (guardarBloque cacheActive s b (traerBloque sb cacheActive s b)) :=
        guardarBloque_registros ..
      have rest := ih (guardarBloque cacheActive s b (traerBloque sb cacheActive s b))
      exact ⟨rest.1.trans saved.1, rest.2.trans saved.2⟩

theorem escribirBloques_registros (s : Servidor) (bs : List Nat) (data : List UInt8)
    (size offset escritos : Nat) :
    MismosRegistros s (escribirBloques sb cacheActive data size offset s escritos bs).1 := by
  induction bs generalizing s escritos with
  | nil => exact ⟨rfl, rfl⟩
  | cons b bs ih =>
    rw [escribirBloques]
    generalize ponerEnBloque _ _ _ = bloque
    have saved : MismosRegistros s (guardarBloque cacheActive s b bloque) :=
      guardarBloque_registros ..
    have rest := ih (grabarBloque sb cacheActive s b bloque)
    exact ⟨(rest _).1.trans saved.1, (rest _).2.trans saved.2⟩

theorem serveRead_registros (regs : Registros s pend) {path : Cadena} {size offset : Nat}
    {out : List Respuesta}
    (run : serveRead sb cacheActive s path size offset = some (s', out)) : Registros s' pend := by
  simp only [serveRead, Option.bind_eq_bind, Option.bind_eq_some_iff] at run
  obtain ⟨numero, -, node, -, x, -, run⟩ := run
  have locked := regs.bloquear numero
  split at run
  · cases run
    exact locked.bloquear _
  · simp only [Option.bind_eq_some_iff] at run
    obtain ⟨numeros, -, output, -, run⟩ := run
    cases run
    have same : MismosRegistros (s.bloquear numero)
        (traerBloques sb cacheActive (s.bloquear numero) numeros).2 := traerBloques_registros ..
    exact (locked.congr same.1 same.2).bloquear _

theorem serveWrite_registros (regs : Registros s pend) {path : Cadena} {data : List UInt8}
    {size offset : Nat} {out : List Respuesta}
    (run : serveWrite sb cacheActive s path data size offset = some (s', out)) :
    Registros s' pend := by
  simp only [serveWrite, Option.bind_eq_bind, Option.bind_eq_some_iff] at run
  obtain ⟨numero, -, node, -, x, -, d, -, numeros, -, run⟩ := run
  cases run
  have locked := regs.bloquear numero
  have same : MismosRegistros ((s.bloquear numero).ponDisco d) (escribirBloques sb cacheActive
      data size offset ((s.bloquear numero).ponDisco d) 0 numeros).1 :=
    escribirBloques_registros ..
  exact (locked.congr same.1 same.2).bloquear _

/-- A request that neither opens nor releases leaves the registers as they were, but for
an entry that counts nothing. -/
theorem serveRequest_otro (regs : Registros s pend) {r : Pedido} {out : List Respuesta}
    (run : serveRequest sb cacheActive s r = some (s', out)) (other : ¬abreOCierra r out) :
    Registros s' pend := by
  cases r with
  | nipcRead c p size offset => exact serveRead_registros regs run
  | nipcWrite c p data size offset sized => exact serveWrite_registros regs run
  | nipcRelease c p flags => exact absurd trivial other
  | nipcOpen c p flags =>
    simp only [serveRequest, serveOpen, Option.bind_eq_bind, Option.bind_eq_some_iff] at run
    obtain ⟨numero, -, run⟩ := run
    split at run
    · simp only [Option.bind_eq_some_iff] at run
      obtain ⟨s1, -, run⟩ := run
      cases run
      exact absurd rfl other
    · cases run
      exact regs
  | nipcCreate c p mode =>
    simp only [serveRequest, serveCreate, Option.bind_eq_bind, Option.bind_eq_some_iff] at run
    obtain ⟨⟨codigo, d⟩, -, run⟩ := run
    split at run
    · cases run
      exact regs.congr rfl rfl
    · simp only [Option.bind_eq_some_iff] at run
      obtain ⟨numero, -, run⟩ := run
      split at run
      · simp only [Option.bind_eq_some_iff] at run
        obtain ⟨s1, -, run⟩ := run
        cases run
        exact absurd rfl other
      · cases run
        exact regs.congr rfl rfl
  | nipcUnlink c p =>
    simp only [serveRequest, serveUnlink, Option.bind_eq_bind, Option.bind_eq_some_iff] at run
    obtain ⟨s1, cleaned, ⟨codigo, d⟩, -, run⟩ := run
    cases run
    have same : MismosRegistros s s1 := by
      rw [olvidarBloques] at cleaned
      split at cleaned
      · simp only [deleteMemcached, Option.bind_eq_bind, Option.bind_eq_some_iff] at cleaned
        obtain ⟨node, -, x, -, cleaned⟩ := cleaned
        split at cleaned
        · cases cleaned
        · simp only [Option.bind_eq_some_iff] at cleaned
          obtain ⟨primero, -, ultimo, -, cleaned⟩ := cleaned
          split at cleaned
          · cases cleaned
          · cases cleaned
            exact ⟨rfl, rfl⟩
      · cases cleaned
        exact ⟨rfl, rfl⟩
    exact regs.congr same.1 same.2
  | nipcMkdir c p mode =>
    simp only [serveRequest, serveMkdir, Option.bind_eq_bind, Option.bind_eq_some_iff] at run
    obtain ⟨⟨codigo, d⟩, -, run⟩ := run
    cases run
    exact regs.congr rfl rfl
  | nipcRmdir c p =>
    simp only [serveRequest, serveRmdir, Option.bind_eq_bind, Option.bind_eq_some_iff] at run
    obtain ⟨⟨codigo, d⟩, -, run⟩ := run
    cases run
    exact regs.congr rfl rfl
  | nipcTruncate c p offset =>
    simp only [serveRequest, serveTruncate, Option.bind_eq_bind, Option.bind_eq_some_iff] at run
    obtain ⟨⟨codigo, d⟩, -, run⟩ := run
    cases run
    exact regs.congr rfl rfl
  | nipcReaddir c p offset =>
    simp only [serveRequest, serveReaddir, Option.bind_eq_bind, Option.bind_eq_some_iff] at run
    obtain ⟨entradas, -, run⟩ := run
    cases run
    exact regs
  | nipcGetattr c p =>
    simp only [serveRequest, serveGetattr, Option.bind_eq_bind, Option.bind_eq_some_iff] at run
    obtain ⟨node, -, run⟩ := run
    split at run <;> cases run <;> exact regs

/-- The path of the open still leads to the inode it was opened as. -/
def MismoInodo (sb : Superblock) (s : Servidor) (a : Pendiente) : Prop :=
  getNroInodoDeLaDireccionDelPath sb s.disco a.path.bytes = some a.inodo

theorem sesion_registros (session : Sesion sb cacheActive (MismoInodo sb) s pend) :
    Registros s pend := by
  induction session with
  | inicio d cache => exact ⟨.inicio, fun _ => .inl ⟨rfl, rfl⟩, by simp⟩
  | @abre s s' pend a flags _ run leads ih =>
    simp only [serveRequest, serveOpen, leads, Option.bind_eq_bind, Option.bind_some] at run
    split at run
    · rename_i resolved
      simp only [Option.bind_eq_some_iff] at run
      obtain ⟨s1, opened, run⟩ := run
      cases run
      exact ih.abrir resolved opened
    · cases run
  | @crea s s' pend a mode _ run leads ih =>
    simp only [serveRequest, serveCreate, Option.bind_eq_bind, Option.bind_eq_some_iff] at run
    obtain ⟨⟨codigo, d⟩, -, run⟩ := run
    split at run
    · cases run
    · simp only [Option.bind_eq_some_iff] at run
      obtain ⟨numero, found, run⟩ := run
      split at run
      · rename_i resolved
        simp only [Option.bind_eq_some_iff] at run
        obtain ⟨s1, opened, run⟩ := run
        cases run
        rw [abrir_disco opened] at leads
        have equal : some numero = some a.inodo := found.symm.trans leads
        cases equal
        have base : Registros (s.ponDisco d) pend := ih.congr rfl rfl
        exact base.abrir resolved opened
      · cases run
  | @cierra s s' pend a flags out _ member same run ih =>
    rw [MismoInodo] at same
    simp only [serveRequest, serveRelease, same, Option.bind_eq_bind, Option.bind_some] at run
    split at run
    · simp only [Option.bind_eq_some_iff] at run
      obtain ⟨s1, closed, run⟩ := run
      cases run
      exact ih.cerrar member closed
    · rename_i unresolved
      exact absurd (ih.resueltos a member) unresolved
  | otro _ run other ih => exact serveRequest_otro ih run other

/-- The server after a request. -/
def despues (sb : Superblock) (cacheActive : Bool) (s : Servidor) (r : Pedido) : Servidor :=
  ((serveRequest sb cacheActive s r).map (·.1)).getD s

theorem serveRequest_despues (r : Pedido) (out : List Respuesta)
    (replies : (serveRequest sb cacheActive s r).map (·.2) = some out) :
    serveRequest sb cacheActive s r = some (despues sb cacheActive s r, out) := by
  cases run : serveRequest sb cacheActive s r with
  | none => simp [run] at replies
  | some answer =>
    obtain ⟨s1, sent⟩ := answer
    have same : sent = out := by simpa [run] using replies
    simp [despues, run, same]

def servidorDe (d : Disco) : Servidor := ⟨d, ⟨[], 0⟩, fun _ => none, fun _ => none⟩

def pathA : CString := ⟨[47, 97], by decide⟩

end LosAltos.Rfs
