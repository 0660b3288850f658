import LosAltos.Lib.ChainTable
import LosAltos.Rfs.Sessions

/-!
# The lists of open files of the clients

`administracion.c:73-125` over `commons/collections/dictionary.c` and `list.c:152-171`, with the
pointers the handlers of the server leave out: the dictionary holds the address of a list, a list
is a chain of nodes, and each has its own address. A dictionary finds an element by the hash of
its key alone. There is no result where a null pointer or a freed node is followed.
-/
namespace LosAltos.Rfs

open Lib

/-! ### The dictionary -/

/-- `t_dictionary`: `table_max_size` is the number of chains. -/
structure Dictionary (α : Type) where
  elements : ChainTable α
  tableCurrentSize : Nat

namespace Dictionary

variable {α : Type}

/-- `dictionary_create`. -/
def create : Dictionary α := ⟨List.replicate 20 [], 0⟩

/-- `dictionary_resize`. -/
def resize (self : Dictionary α) (newMaxSize : Nat) : Dictionary α :=
  let elements := self.elements.refill newMaxSize
  ⟨elements, elements.countP (!·.isEmpty)⟩

/-- `dictionary_put`. -/
def put (self : Dictionary α) (key : List UInt8) (data : α) : Dictionary α :=
  let keyHash := (dictionaryHash key).toNat
  let elements := self.elements.append keyHash data
  if (self.elements.chain keyHash).isEmpty then
    let tableCurrentSize := self.tableCurrentSize + 1
    if elements.length ≤ tableCurrentSize then resize ⟨elements, tableCurrentSize⟩ (elements.length * 2)
    else ⟨elements, tableCurrentSize⟩
  else ⟨elements, self.tableCurrentSize⟩

/-- `dictionary_get`. -/
def get (self : Dictionary α) (key : List UInt8) : Option α :=
  self.elements.lookup (dictionaryHash key).toNat

/-- `dictionary_remove`. -/
def remove (self : Dictionary α) (key : List UInt8) : Dictionary α :=
  let keyHash := (dictionaryHash key).toNat
  let elements := self.elements.erase keyHash
  if (self.elements.chain keyHash).isEmpty then self
  else if (elements.chain keyHash).isEmpty then ⟨elements, self.tableCurrentSize - 1⟩
  else ⟨elements, self.tableCurrentSize⟩

variable {self : Dictionary α} {key key' : List UInt8} {data : α}

theorem create_wellPlaced : (create : Dictionary α).elements.WellPlaced :=
  ChainTable.wellPlaced_replicate (by decide)

theorem get_create (key : List UInt8) : (create : Dictionary α).get key = none := by
  rw [get, create, ChainTable.lookup, ChainTable.chain, ChainTable.getD_replicate_nil]
  rfl

theorem resize_elements (m : Nat) : (self.resize m).elements = self.elements.refill m := rfl

/-- A put adds its element, in a table of some size. -/
theorem put_elements (ok : self.elements.WellPlaced) (new : self.get key = none) :
    (self.put key data).elements.WellPlaced ∧ ∀ h, (self.put key data).elements.lookup h =
      (self.elements.append (dictionaryHash key).toNat data).lookup h := by
  rw [get] at new
  rw [put]
  generalize (dictionaryHash key).toNat = keyHash at *
  have placed := ok.append (v := data) new
  have positive : 0 < (self.elements.append keyHash data).length * 2 :=
    Nat.mul_pos placed.positive (by decide)
  split
  · dsimp only
    split
    · rw [resize_elements]
      exact ⟨placed.refill positive, ChainTable.lookup_refill placed positive⟩
    · exact ⟨placed, fun _ => rfl⟩
  · exact ⟨placed, fun _ => rfl⟩

theorem remove_elements (ok : self.elements.WellPlaced) :
    (self.remove key).elements.WellPlaced ∧ ∀ h, (self.remove key).elements.lookup h =
      if (dictionaryHash key).toNat = h then none else self.elements.lookup h := by
  rw [remove]
  generalize (dictionaryHash key).toNat = keyHash at *
  split
  · rename_i empty
    refine ⟨ok, fun h => ?_⟩
    split
    · rename_i same
      rw [← same, ChainTable.lookup, List.isEmpty_iff.mp empty]
      rfl
    · rfl
  · split
    · exact ⟨ok.erase, fun h => ChainTable.lookup_erase ok⟩
    · exact ⟨ok.erase, fun h => ChainTable.lookup_erase ok⟩

end Dictionary

/-! ### The lists -/

/-- `archivos_por_cliente`: the address of a `struct archivos_cliente` leads to the nodes of its
list, each an address and an inode. -/
structure Clientes where
  diccionario : Dictionary Nat
  archivos : Nat → List (Nat × Nat)
  /-- What `malloc` answers next. -/
  proxima : Nat

/-- The inode and the next node of a node that is still in the list. -/
def nodo (element : Nat) : List (Nat × Nat) → Option (Nat × Option Nat)
  | [] => none
  | (dir, data) :: resto =>
    if dir = element then some (data, resto.head?.map Prod.fst) else nodo element resto

/-- The loop of `registrar_cierre_cliente`. After a removal it goes on from the same node, which
`list_remove` has freed. -/
def quitarNodos (numeroInodo : Nat) :
    Nat → Nat → Option Nat → List (Nat × Nat) → Option (List (Nat × Nat))
  | 0, index, _, archivos => if index < archivos.length then none else some archivos
  | fuel + 1, index, element, archivos =>
    if index < archivos.length then do
      let e ← element
      let (data, next) ← nodo e archivos
      if data = numeroInodo then
        quitarNodos numeroInodo fuel (index + 1) (some e) (archivos.eraseIdx index)
      else quitarNodos numeroInodo fuel (index + 1) next archivos
    else some archivos

namespace Clientes

def inicio : Clientes := ⟨.create, fun _ => [], 0⟩

/-- `dictionary_get` with the decimal id. -/
def lista (s : Clientes) (clientId : UInt32) : Option Nat :=
  s.diccionario.get (stringFromUint32 clientId)

def inodos (s : Clientes) (p : Nat) : List Nat := (s.archivos p).map Prod.snd

def ponArchivos (s : Clientes) (p : Nat) (archivos : List (Nat × Nat)) : Clientes :=
  { s with archivos := fun q => if q = p then archivos else s.archivos q }

def obtenerOCrearListaDelCliente (s : Clientes) (clientId : UInt32) : Nat × Clientes :=
  match s.lista clientId with
  | some p => (p, s)
  | none =>
    (s.proxima, { s.ponArchivos s.proxima [] with
      diccionario := s.diccionario.put (stringFromUint32 clientId) s.proxima
      proxima := s.proxima + 1 })

def registrarAperturaCliente (s : Clientes) (p numeroInodo : Nat) : Clientes :=
  { s.ponArchivos p (s.archivos p ++ [(s.proxima, numeroInodo)]) with proxima := s.proxima + 1 }

def registrarCierreCliente (s : Clientes) (clientId : UInt32) (numeroInodo : Nat) :
    Option Clientes := do
  let p ← s.lista clientId
  let archivos := s.archivos p
  let archivos ← quitarNodos numeroInodo archivos.length 0 (archivos.head?.map Prod.fst) archivos
  let s := s.ponArchivos p archivos
  if archivos.length < 1 then
    some { s with diccionario := s.diccionario.remove (stringFromUint32 clientId) }
  else some s

/-- The open that `serve_open` and `serve_create` register. -/
def abrir (s : Clientes) (clientId : UInt32) (numeroInodo : Nat) : Clientes :=
  let (p, s) := s.obtenerOCrearListaDelCliente clientId
  s.registrarAperturaCliente p numeroInodo

end Clientes

/-! ### The loop of a release -/

section
variable {numeroInodo fuel index e : Nat} {pre suf archivos : List (Nat × Nat)}

theorem nodo_append {x : Nat} (out : e ∉ pre.map Prod.fst) :
    nodo e (pre ++ (e, x) :: suf) = some (x, suf.head?.map Prod.fst) := by
  induction pre with
  | nil => simp [nodo]
  | cons a pre ih =>
    rw [List.map_cons, List.mem_cons, not_or] at out
    rw [List.cons_append, nodo, if_neg (fun same => out.1 same.symm), ih out.2]

theorem nodo_none (out : e ∉ archivos.map Prod.fst) : nodo e archivos = none := by
  induction archivos with
  | nil => rfl
  | cons a resto ih =>
    rw [List.map_cons, List.mem_cons, not_or] at out
    rw [nodo, if_neg (fun same => out.1 same.symm), ih out.2]

/-- From a node that is not in the list the loop may only stop. -/
theorem quitarNodos_liberado (out : e ∉ archivos.map Prod.fst) :
    quitarNodos numeroInodo fuel index (some e) archivos =
      if index < archivos.length then none else some archivos := by
  cases fuel with
  | zero => rfl
  | succ fuel =>
    rw [quitarNodos]
    split
    · rw [Option.bind_eq_bind, Option.bind_some, nodo_none out]
      rfl
    · rfl

/-- The loop from the node it has come to, the ones before it being of other inodes. -/
theorem quitarNodos_desde (pre : List (Nat × Nat)) (distinct : ((pre ++ suf).map Prod.fst).Nodup)
    (before : numeroInodo ∉ pre.map Prod.snd) (turns : suf.length ≤ fuel) :
    quitarNodos numeroInodo fuel pre.length (suf.head?.map Prod.fst) (pre ++ suf) =
      match (suf.map Prod.snd).idxOf? numeroInodo with
      | none => some (pre ++ suf)
      | some i => if i + 2 < suf.length then none else some (pre ++ suf.eraseIdx i) := by
  induction suf generalizing pre fuel with
  | nil =>
    rw [List.append_nil]
    cases fuel <;> simp [quitarNodos]
  | cons a suf ih =>
    obtain ⟨e, x⟩ := a
    obtain ⟨fuel, rfl⟩ : ∃ m, fuel = m + 1 := ⟨fuel - 1, by
      rw [List.length_cons] at turns
      omega⟩
    rw [List.map_append, List.map_cons, List.nodup_append] at distinct
    obtain ⟨first, second, apart⟩ := distinct
    have outside : e ∉ pre.map Prod.fst := fun member =>
      apart e member e List.mem_cons_self rfl
    rw [quitarNodos, if_pos (by rw [List.length_append, List.length_cons]; omega)]
    simp only [List.head?_cons, Option.map_some, Option.bind_eq_bind, Option.bind_some,
      nodo_append outside]
    by_cases here : x = numeroInodo
    · -- the node goes, and the loop follows it
      subst here
      have gone : e ∉ (pre ++ suf).map Prod.fst := by
        rw [List.map_append, List.mem_append, not_or]
        exact ⟨outside, (List.nodup_cons.mp second).1⟩
      have erased : (pre ++ (e, x) :: suf).eraseIdx pre.length = pre ++ suf := by
        rw [List.eraseIdx_append_of_length_le (Nat.le_refl _), Nat.sub_self,
          List.eraseIdx_cons_zero]
      rw [if_pos rfl, erased, quitarNodos_liberado gone, List.length_append]
      simp only [List.map_cons, List.idxOf?_cons, beq_self_eq_true, if_true, List.length_cons,
        List.eraseIdx_cons_zero]
      split <;> split <;> first | rfl | omega
    · rw [if_neg here]
      have shorter : suf.length ≤ fuel := by
        rw [List.length_cons] at turns
        omega
      have rest := ih (pre ++ [(e, x)]) ?_ ?_ shorter
      · rw [List.append_assoc, List.singleton_append, List.length_append, List.length_singleton]
          at rest
        rw [rest]
        simp only [List.map_cons, List.idxOf?_cons, beq_false_of_ne here, Bool.false_eq_true,
          if_false]
        cases (suf.map Prod.snd).idxOf? numeroInodo with
        | none => rfl
        | some i =>
          simp only [Option.map_some, List.length_cons, List.eraseIdx_cons_succ, List.append_assoc,
            List.singleton_append]
          split <;> split <;> first | rfl | omega
      · rw [List.append_assoc, List.singleton_append, List.map_append, List.map_cons,
          List.nodup_append]
        exact ⟨first, second, apart⟩
      · rw [List.map_append, List.mem_append, not_or]
        exact ⟨before, by simpa using fun same => here same.symm⟩

/-- The loop removes the first node of the inode, if no node but one is behind it. -/
theorem quitarNodos_eq (distinct : (archivos.map Prod.fst).Nodup) :
    quitarNodos numeroInodo archivos.length 0 (archivos.head?.map Prod.fst) archivos =
      match (archivos.map Prod.snd).idxOf? numeroInodo with
      | none => some archivos
      | some i => if i + 2 < archivos.length then none else some (archivos.eraseIdx i) :=
  quitarNodos_desde [] distinct (by simp) (Nat.le_refl _)

end

/-! ### The state over a run -/

/-- The lists in the dictionary are allocated, no two clients share one, and no two nodes of a
list share an address. -/
structure Clientes.Ok (s : Clientes) : Prop where
  tabla : s.diccionario.elements.WellPlaced
  reservada : ∀ h p, s.diccionario.elements.lookup h = some p → p < s.proxima
  propia : ∀ h h' p, s.diccionario.elements.lookup h = some p →
    s.diccionario.elements.lookup h' = some p → h = h'
  nodos : ∀ p, ((s.archivos p).map Prod.fst).Nodup
  viejos : ∀ p, ∀ e ∈ s.archivos p, e.1 < s.proxima

namespace Clientes

variable {s s' : Clientes} {a b : UInt32} {p n : Nat}

theorem inicio_ok : inicio.Ok where
  tabla := Dictionary.create_wellPlaced
  reservada h p found := by
    rw [inicio, Dictionary.create, ChainTable.lookup, ChainTable.chain,
      ChainTable.getD_replicate_nil] at found
    cases found
  propia h h' p found := by
    rw [inicio, Dictionary.create, ChainTable.lookup, ChainTable.chain,
      ChainTable.getD_replicate_nil] at found
    cases found
  nodos p := List.nodup_nil
  viejos p e member := absurd member List.not_mem_nil

theorem lista_eq (s : Clientes) (a : UInt32) :
    s.lista a = s.diccionario.elements.lookup (claveDe a).toNat := rfl

theorem put_lookup (ok : s.Ok) (absent : s.lista a = none) :
    (s.diccionario.put (stringFromUint32 a) s.proxima).elements.WellPlaced ∧
      ∀ h, (s.diccionario.put (stringFromUint32 a) s.proxima).elements.lookup h =
        (s.diccionario.elements.append (claveDe a).toNat s.proxima).lookup h :=
  Dictionary.put_elements ok.tabla absent

/-- A client that has no list gets a new one. -/
theorem crear_lookup (ok : s.Ok) (absent : s.lista a = none) (h : Nat) :
    (s.obtenerOCrearListaDelCliente a).2.diccionario.elements.lookup h =
      if (claveDe a).toNat = h then some s.proxima else s.diccionario.elements.lookup h := by
  obtain ⟨-, same⟩ := put_lookup ok absent
  rw [obtenerOCrearListaDelCliente, absent]
  refine (same h).trans ?_
  rw [lista_eq] at absent
  generalize (claveDe a).toNat = clave at *
  rw [ChainTable.lookup_append ok.tabla.positive]
  split
  · rename_i here
    rw [← here, absent, Option.none_or]
  · rw [Option.or_none]

theorem Ok.obtener (ok : s.Ok) (a : UInt32) : (s.obtenerOCrearListaDelCliente a).2.Ok := by
  cases found : s.lista a with
  | some p =>
    rw [obtenerOCrearListaDelCliente, found]
    exact ok
  | none =>
    have lookup := crear_lookup ok found
    have placed := (put_lookup ok found).1
    rw [obtenerOCrearListaDelCliente, found] at lookup ⊢
    constructor
    · exact placed
    · intro h p there
      rw [lookup h] at there
      split at there
      · cases there
        exact Nat.lt_succ_self _
      · exact Nat.lt_succ_of_lt (ok.reservada h p there)
    · intro h h' p there there'
      rw [lookup h] at there
      rw [lookup h'] at there'
      split at there <;> split at there'
      · omega
      · cases there
        exact absurd (ok.reservada h' _ there') (lt_irrefl _)
      · cases there'
        exact absurd (ok.reservada h _ there) (lt_irrefl _)
      · exact ok.propia h h' p there there'
    · intro p
      simp only [ponArchivos]
      split
      · exact List.nodup_nil
      · exact ok.nodos p
    · intro p e member
      simp only [ponArchivos] at member
      split at member
      · cases member
      · exact Nat.lt_succ_of_lt (ok.viejos p e member)

theorem Ok.apertura (ok : s.Ok) (p n : Nat) : (s.registrarAperturaCliente p n).Ok where
  tabla := ok.tabla
  reservada h q found := Nat.lt_succ_of_lt (ok.reservada h q found)
  propia := ok.propia
  nodos q := by
    simp only [registrarAperturaCliente, ponArchivos]
    split
    · rw [List.map_append, List.nodup_append]
      refine ⟨ok.nodos p, by simp, fun c old d last => ?_⟩
      obtain ⟨e, member, rfl⟩ := List.mem_map.mp old
      simp only [List.map_cons, List.map_nil, List.mem_singleton] at last
      have before := ok.viejos p e member
      omega
    · exact ok.nodos q
  viejos q e member := by
    simp only [registrarAperturaCliente, ponArchivos] at member ⊢
    split at member
    · rcases List.mem_append.mp member with old | last
      · exact Nat.lt_succ_of_lt (ok.viejos p e old)
      · rw [List.mem_singleton.mp last]
        exact Nat.lt_succ_self _
    · exact Nat.lt_succ_of_lt (ok.viejos q e member)

theorem remove_lookup (ok : s.Ok) (a : UInt32) :
    (s.diccionario.remove (stringFromUint32 a)).elements.WellPlaced ∧
      ∀ h, (s.diccionario.remove (stringFromUint32 a)).elements.lookup h =
        if (claveDe a).toNat = h then none else s.diccionario.elements.lookup h :=
  Dictionary.remove_elements ok.tabla

/-- What a release that ends has done. -/
theorem cierre_some (ok : s.Ok) (run : s.registrarCierreCliente a n = some s') :
    ∃ p archivos, s.lista a = some p ∧ archivos.Sublist (s.archivos p) ∧
      s'.archivos = (s.ponArchivos p archivos).archivos ∧ s'.proxima = s.proxima ∧
      s'.diccionario.elements.WellPlaced ∧ ∀ h, s'.diccionario.elements.lookup h =
        if archivos = [] ∧ (claveDe a).toNat = h then none
        else s.diccionario.elements.lookup h := by
  simp only [registrarCierreCliente, Option.bind_eq_bind, Option.bind_eq_some_iff] at run
  obtain ⟨p, found, archivos, taken, run⟩ := run
  rw [quitarNodos_eq (ok.nodos p)] at taken
  have shorter : archivos.Sublist (s.archivos p) := by
    split at taken
    · cases taken
      exact List.Sublist.refl _
    · split at taken
      · cases taken
      · cases taken
        exact List.eraseIdx_sublist _ _
  refine ⟨p, archivos, found, shorter, ?_⟩
  split at run
  · rename_i empty
    have none_left : archivos = [] := List.length_eq_zero_iff.mp (by omega)
    obtain ⟨placed, lookup⟩ := remove_lookup ok a
    cases run
    refine ⟨rfl, rfl, placed, fun h => ?_⟩
    refine (lookup h).trans ?_
    simp only [none_left, true_and]
  · rename_i some_left
    have filled : archivos ≠ [] := by
      rintro rfl
      exact some_left (by decide)
    cases run
    refine ⟨rfl, rfl, ok.tabla, fun h => ?_⟩
    rw [if_neg fun both => filled both.1]
    rfl

theorem Ok.cierre (ok : s.Ok) (run : s.registrarCierreCliente a n = some s') : s'.Ok := by
  obtain ⟨p, archivos, -, shorter, lists, next, placed, lookup⟩ := cierre_some ok run
  constructor
  · exact placed
  · intro h q there
    rw [lookup h] at there
    split at there
    · cases there
    · rw [next]
      exact ok.reservada h q there
  · intro h h' q there there'
    rw [lookup h] at there
    rw [lookup h'] at there'
    split at there
    · cases there
    · split at there'
      · cases there'
      · exact ok.propia h h' q there there'
  · intro q
    rw [lists]
    simp only [ponArchivos]
    split
    · exact (ok.nodos p).sublist (shorter.map _)
    · exact ok.nodos q
  · intro q e member
    rw [lists] at member
    rw [next]
    simp only [ponArchivos] at member
    split at member
    · exact ok.viejos p e (shorter.subset member)
    · exact ok.viejos q e member

/-- The states that opens and releases lead to. -/
inductive Alcanzable : Clientes → Prop where
  | inicio : Alcanzable .inicio
  | obtener {s : Clientes} (before : Alcanzable s) (a : UInt32) :
    Alcanzable (s.obtenerOCrearListaDelCliente a).2
  | apertura {s : Clientes} (before : Alcanzable s) (p n : Nat) :
    Alcanzable (s.registrarAperturaCliente p n)
  | cierre {s s' : Clientes} (before : Alcanzable s) (a : UInt32) (n : Nat)
    (run : s.registrarCierreCliente a n = some s') : Alcanzable s'

theorem Alcanzable.ok (reach : Alcanzable s) : s.Ok := by
  induction reach with
  | inicio => exact inicio_ok
  | obtener _ a ih => exact ih.obtener a
  | apertura _ p n ih => exact ih.apertura p n
  | cierre _ a n run ih => exact ih.cierre run

/-! ### One release -/

/-- The release of `n` returns, having taken one record of `n` off the list `p` of the client and
no other, and the client is in the dictionary unless that was the last one. -/
def CierraUno (s : Clientes) (clientId : UInt32) (p n : Nat) : Prop :=
  ∃ s', s.registrarCierreCliente clientId n = some s' ∧
    (s'.inodos p).count n + 1 = (s.inodos p).count n ∧
    (∀ m, m ≠ n → (s'.inodos p).count m = (s.inodos p).count m) ∧
    (s'.lista clientId = none ↔ s'.inodos p = [])

theorem idxOf?_of_mem {l : List Nat} (member : n ∈ l) : l.idxOf? n = some (l.idxOf n) := by
  induction l with
  | nil => cases member
  | cons x l ih =>
    rw [List.idxOf?_cons]
    by_cases here : x = n
    · simp [here]
    · have inner : n ∈ l := (List.mem_cons.mp member).resolve_left fun same => here same.symm
      rw [List.idxOf_cons_ne l here, ih inner]
      simp [here]

/-- A release does its work exactly when the first record of the inode is one of the last two of
the list: elsewhere the loop goes on from the node it has freed. -/
theorem cierre_quita_uno (ok : s.Ok) (there : s.lista a = some p) (member : n ∈ s.inodos p) :
    CierraUno s a p n ↔ (s.inodos p).length ≤ (s.inodos p).idxOf n + 2 := by
  have length : (s.archivos p).length = (s.inodos p).length := (List.length_map _).symm
  have taken : _ = match (s.inodos p).idxOf? n with | none => _ | some i => _ :=
    quitarNodos_eq (ok.nodos p)
  rw [idxOf?_of_mem member] at taken
  simp only at taken
  constructor
  · rintro ⟨s', run, -⟩
    by_contra early
    rw [registrarCierreCliente, there, Option.bind_eq_bind, Option.bind_some] at run
    simp only [taken, if_pos (show (s.inodos p).idxOf n + 2 < (s.archivos p).length by omega)]
      at run
    cases run
  · intro late
    rw [if_neg (by omega)] at taken
    have erased : ((s.archivos p).eraseIdx ((s.inodos p).idxOf n)).map Prod.snd =
        (s.inodos p).erase n := by
      rw [← List.eraseIdx_map, List.erase_eq_eraseIdx, ← inodos, idxOf?_of_mem member]
    generalize (s.archivos p).eraseIdx ((s.inodos p).idxOf n) = archivos at *
    obtain ⟨s', run, lists, found⟩ : ∃ s', s.registrarCierreCliente a n = some s' ∧
        s'.archivos p = archivos ∧ (s'.lista a = none ↔ archivos = []) := by
      rw [registrarCierreCliente, there]
      simp only [Option.bind_eq_bind, Option.bind_some, taken]
      split
      · rename_i empty
        refine ⟨_, rfl, if_pos rfl, iff_of_true ?_ (List.length_eq_zero_iff.mp (by omega))⟩
        exact ((remove_lookup ok a).2 _).trans (if_pos rfl)
      · rename_i filled
        refine ⟨_, rfl, if_pos rfl, iff_of_false ?_ fun empty => filled (by simp [empty])⟩
        rw [show (s.ponArchivos p archivos).lista a = s.lista a from rfl, there]
        exact Option.some_ne_none p
    have rest : s'.inodos p = (s.inodos p).erase n := by
      rw [inodos, lists, erased]
    refine ⟨s', run, ?_, fun m other => ?_, ?_⟩
    · have positive := List.count_pos_iff.mpr member
      rw [rest, List.count_erase_self]
      omega
    · rw [rest, List.count_erase_of_ne other]
    · rw [found, inodos, lists, List.map_eq_nil_iff]

/-- Client 1 has opened the inodes of the list, in this order. -/
def abiertosEnOrden (ns : List Nat) : Clientes := ns.foldl (fun s n => s.abrir 1 n) inicio

theorem abiertosEnOrden_alcanzable (ns : List Nat) : Alcanzable (abiertosEnOrden ns) := by
  have run : ∀ s, Alcanzable s → Alcanzable (ns.foldl (fun s n => s.abrir 1 n) s) := by
    induction ns with
    | nil => exact fun s reach => reach
    | cons n ns ih => exact fun s reach => ih _ ((reach.obtener 1).apertura _ n)
  exact run inicio .inicio

/-- Of two records of inode 5 with one of inode 6 between them, the second one is next to last. -/
theorem cierre_quita_uno_seis : CierraUno (abiertosEnOrden [5, 6, 5]) 1 0 6 :=
  (cierre_quita_uno (abiertosEnOrden_alcanzable _).ok (by decide +kernel) (by decide +kernel)).mpr
    (by decide +kernel)

/-- With two nodes behind it the removal of the first one is followed by a use of it. -/
theorem cierre_tras_liberar : ¬∀ (s : Clientes) (a : UInt32) (p n : Nat), Alcanzable s →
    s.lista a = some p → n ∈ s.inodos p → CierraUno s a p n := by
  intro all
  obtain ⟨s', run, -⟩ := all (abiertosEnOrden [5, 6, 7]) 1 0 5 (abiertosEnOrden_alcanzable _)
    (by decide +kernel) (by decide +kernel)
  have stuck : ((abiertosEnOrden [5, 6, 7]).registrarCierreCliente 1 5).isNone = true := by
    decide +kernel
  rw [run] at stuck
  cases stuck

/-! ### Two clients -/

/-- The inodes a client has open, if it has a list. -/
def abiertosPor (s : Clientes) (a : UInt32) : Option (List Nat) := (s.lista a).map s.inodos

/-- The clients get different lists, and no open or release of `a` changes the list of `b`. -/
structure Separados (a b : UInt32) (s : Clientes) : Prop where
  listas : (s.obtenerOCrearListaDelCliente a).1 ≠
    ((s.obtenerOCrearListaDelCliente a).2.obtenerOCrearListaDelCliente b).1
  abre : ∀ n, (s.abrir a n).abiertosPor b = s.abiertosPor b
  cierra : ∀ n s', s.registrarCierreCliente a n = some s' → s'.abiertosPor b = s.abiertosPor b

theorem obtener_lista (ok : s.Ok) (a : UInt32) :
    (s.obtenerOCrearListaDelCliente a).2.lista a = some (s.obtenerOCrearListaDelCliente a).1 := by
  cases found : s.lista a with
  | some p =>
    rw [obtenerOCrearListaDelCliente, found]
    exact found
  | none =>
    rw [lista_eq, crear_lookup ok found, if_pos rfl, obtenerOCrearListaDelCliente, found]

theorem obtener_otro {h : Nat} (ok : s.Ok) (other : (claveDe a).toNat ≠ h) :
    (s.obtenerOCrearListaDelCliente a).2.diccionario.elements.lookup h =
      s.diccionario.elements.lookup h := by
  cases found : s.lista a with
  | some p => rw [obtenerOCrearListaDelCliente, found]
  | none => rw [crear_lookup ok found, if_neg other]

/-- An address that is in the dictionary keeps its list when another client gets one. -/
theorem obtener_archivos (ok : s.Ok) {h q : Nat} (a : UInt32)
    (there : s.diccionario.elements.lookup h = some q) :
    (s.obtenerOCrearListaDelCliente a).2.archivos q = s.archivos q := by
  cases found : s.lista a with
  | some p => rw [obtenerOCrearListaDelCliente, found]
  | none =>
    rw [obtenerOCrearListaDelCliente, found]
    exact if_neg (ok.reservada h q there).ne

/-- An open of a client keeps the lists under the other hashes. -/
theorem abrir_otro {h : Nat} (ok : s.Ok) (other : (claveDe a).toNat ≠ h) (n : Nat) :
    ((s.abrir a n).diccionario.elements.lookup h).map (s.abrir a n).inodos =
      (s.diccionario.elements.lookup h).map s.inodos := by
  have list := obtener_otro ok other
  rw [show (s.abrir a n).diccionario.elements.lookup h = _ from list]
  cases found : s.diccionario.elements.lookup h with
  | none => rfl
  | some q =>
    rw [found] at list
    have apart : q ≠ (s.obtenerOCrearListaDelCliente a).1 := by
      rintro rfl
      exact other ((ok.obtener a).propia _ _ _ (obtener_lista ok a) list)
    rw [Option.map_some, Option.map_some, inodos, inodos, ← obtener_archivos ok a found]
    exact congrArg (fun l => some (List.map Prod.snd l)) (if_neg apart)

theorem cierre_otro {h : Nat} (ok : s.Ok) (other : (claveDe a).toNat ≠ h)
    (run : s.registrarCierreCliente a n = some s') :
    (s'.diccionario.elements.lookup h).map s'.inodos =
      (s.diccionario.elements.lookup h).map s.inodos := by
  obtain ⟨p, archivos, found, -, lists, -, -, lookup⟩ := cierre_some ok run
  rw [lookup, if_neg fun both => other both.2]
  cases there : s.diccionario.elements.lookup h with
  | none => rfl
  | some q =>
    have apart : q ≠ p := by
      rintro rfl
      exact other (ok.propia _ _ _ found there)
    rw [Option.map_some, Option.map_some, inodos, inodos, lists]
    exact congrArg (fun l => some (List.map Prod.snd l)) (if_neg apart)

theorem separados (ok : s.Ok) (other : claveDe a ≠ claveDe b) : Separados a b s := by
  have keys : (claveDe a).toNat ≠ (claveDe b).toNat := fun same => other (UInt32.toNat_inj.mp same)
  refine ⟨fun same => ?_, abrir_otro ok keys, fun n s' run => cierre_otro ok keys run⟩
  have ok1 := ok.obtener a
  have mine := obtener_lista ok a
  have yours := obtener_lista ok1 b
  rw [← same] at yours
  have kept := obtener_otro ok1 (fun equal => keys equal.symm)
  rw [← lista_eq, ← lista_eq, mine] at kept
  exact keys ((ok1.obtener b).propia _ _ _ kept yours)

/-- Clients whose ids have one hash get one list. -/
theorem comparten (same : claveDe a = claveDe b) : ¬Separados a b inicio := by
  intro apart
  apply apart.listas
  have mine := obtener_lista inicio_ok a
  rw [lista_eq, same, ← lista_eq] at mine
  generalize inicio.obtenerOCrearListaDelCliente a = r at *
  rw [obtenerOCrearListaDelCliente, mine]

/-- Two clients are kept apart exactly when the hashes of their decimal ids differ. -/
theorem listas_separadas_iff (a b : UInt32) :
    (∀ s, Alcanzable s → Separados a b s) ↔ claveDe a ≠ claveDe b := by
  constructor
  · exact fun apart same => comparten same (apart inicio .inicio)
  · exact fun other s reach => separados reach.ok other

/-- The ids 11840 and 50904 have one hash. -/
theorem listas_compartidas : ¬∀ a b : UInt32, a ≠ b → ∀ s, Alcanzable s → Separados a b s := by
  intro all
  have same : claveDe 11840 = claveDe 50904 := by decide +kernel
  exact comparten same (all 11840 50904 (by decide) inicio .inicio)

/-! ### The lists of the server -/

/-- The lists as the handlers of the server see them: under the hash of the id. -/
def Representa (s : Clientes) (clientes : UInt32 → Option (List Nat)) : Prop :=
  ∀ k : UInt32, (s.diccionario.elements.lookup k.toNat).map s.inodos = clientes k

theorem abrir_representa {t : Servidor} (ok : s.Ok) (rep : s.Representa t.clientes) (a : UInt32)
    (n : Nat) : (s.abrir a n).Representa (t.registrarAperturaCliente a n).clientes := by
  intro k
  by_cases here : k = claveDe a
  · subst here
    have before := rep (claveDe a)
    have mine := obtener_lista ok a
    have list : (s.obtenerOCrearListaDelCliente a).2.inodos (s.obtenerOCrearListaDelCliente a).1 =
        (t.clientes (claveDe a)).getD [] := by
      rw [← before, ← lista_eq]
      cases found : s.lista a with
      | some p => rw [obtenerOCrearListaDelCliente, found, Option.map_some, Option.getD_some]
      | none => simp [obtenerOCrearListaDelCliente, found, inodos, ponArchivos]
    rw [show (s.abrir a n).diccionario.elements.lookup (claveDe a).toNat = _ from mine]
    simp only [Option.map_some, Servidor.registrarAperturaCliente, Servidor.ponCliente, ↓reduceIte,
      ← list]
    simp [abrir, registrarAperturaCliente, inodos, ponArchivos]
  · have keys : (claveDe a).toNat ≠ k.toNat := fun same => here (UInt32.toNat_inj.mp same).symm
    rw [abrir_otro ok keys n, rep k]
    simp [Servidor.registrarAperturaCliente, Servidor.ponCliente, here]

/-- The loop over the nodes is the one of the handlers. -/
theorem quitarNodos_quitarDeLista (ok : s.Ok) (p n : Nat) :
    (quitarNodos n (s.archivos p).length 0 ((s.archivos p).head?.map Prod.fst) (s.archivos p)).map
      (List.map Prod.snd) = Servidor.quitarDeLista (s.inodos p) n := by
  rw [quitarNodos_eq (ok.nodos p), Servidor.quitarDeLista, ← inodos]
  cases (s.inodos p).idxOf? n with
  | none => rfl
  | some i =>
    simp only [inodos, List.length_map, List.eraseIdx_map]
    split <;> rfl

/-- What a release leaves to its client. -/
theorem cierre_queda (ok : s.Ok) (run : s.registrarCierreCliente a n = some s') :
    ∃ p archivos, s.lista a = some p ∧
      quitarNodos n (s.archivos p).length 0 ((s.archivos p).head?.map Prod.fst) (s.archivos p) =
        some archivos ∧
      (s'.lista a).map s'.inodos =
        if archivos = [] then none else some (archivos.map Prod.snd) := by
  simp only [registrarCierreCliente, Option.bind_eq_bind, Option.bind_eq_some_iff] at run
  obtain ⟨p, found, archivos, taken, run⟩ := run
  refine ⟨p, archivos, found, taken, ?_⟩
  split at run
  · rename_i empty
    have gone := (remove_lookup ok a).2 (claveDe a).toNat
    rw [if_pos rfl] at gone
    cases run
    rw [if_pos (List.length_eq_zero_iff.mp (by omega)), lista_eq]
    exact congrArg (Option.map _) gone
  · rename_i filled
    cases run
    rw [if_neg fun empty => filled (by simp [empty]),
      show (s.ponArchivos p archivos).lista a = s.lista a from rfl, found, Option.map_some]
    exact congrArg (fun l => some (List.map Prod.snd l)) (if_pos rfl)

theorem cierre_representa {t : Servidor} (ok : s.Ok) (rep : s.Representa t.clientes)
    (run : s.registrarCierreCliente a n = some s') :
    ∃ t', t.registrarCierreCliente a n = some t' ∧ s'.Representa t'.clientes := by
  have apart := fun (h : Nat) (other : (claveDe a).toNat ≠ h) => cierre_otro ok other run
  have before := rep (claveDe a)
  have left := cierre_queda ok run
  obtain ⟨p, archivos, found, taken, same⟩ := left
  have listed := quitarNodos_quitarDeLista ok p n
  rw [taken, Option.map_some] at listed
  rw [← lista_eq, found, Option.map_some] at before
  refine ⟨t.ponCliente (claveDe a) (if archivos.map Prod.snd = [] then none
    else some (archivos.map Prod.snd)), ?_, fun k => ?_⟩
  · rw [Servidor.registrarCierreCliente, ← before]
    exact Option.bind_eq_some_iff.mpr ⟨_, rfl, Option.bind_eq_some_iff.mpr ⟨_, listed.symm, rfl⟩⟩
  · by_cases here : k = claveDe a
    · subst here
      rw [← lista_eq, same]
      simp only [Servidor.ponCliente, ↓reduceIte, List.map_eq_nil_iff]
    · have keys : (claveDe a).toNat ≠ k.toNat := fun same => here (UInt32.toNat_inj.mp same).symm
      rw [apart _ keys, rep k]
      simp [Servidor.ponCliente, here]

end Clientes

end LosAltos.Rfs
