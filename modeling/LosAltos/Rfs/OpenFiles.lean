import Mathlib.Algebra.Ring.Int.Defs
import Mathlib.Data.List.Nodup
import Mathlib.Tactic.Common

/-!
# Open files and who holds them

`rfs/src/administracion.c`. An entry of `archivos_abiertos` is a `malloc`ed record that
requests point to; here a pointer is a number that is never given out twice, so that a
step on a record already freed is seen as such and has no result.

The regions under one lock are the steps: looking the entry up or creating it, adding one,
and taking one off with the removal at zero.
-/
namespace LosAltos.Rfs

/-- `struct archivo_abierto`, at the address `nodo`. -/
structure ArchivoAbierto where
  nodo : Nat
  numeroInodo : Nat
  cantidadAbiertos : Int
  deriving DecidableEq

structure Abiertos where
  archivosAbiertos : List ArchivoAbierto
  /-- Next address `malloc` gives. -/
  proximo : Nat
  deriving DecidableEq

namespace Abiertos

def obtenerOCrearArchivoAbierto (s : Abiertos) (numeroInodo : Nat) : Nat × Abiertos :=
  match s.archivosAbiertos.find? (·.numeroInodo == numeroInodo) with
  | some a => (a.nodo, s)
  | none =>
    (s.proximo,
      { archivosAbiertos := s.archivosAbiertos ++ [⟨s.proximo, numeroInodo, 0⟩]
        proximo := s.proximo + 1 })

def pon (s : Abiertos) (nodo : Nat) (cantidad : Int) : Abiertos :=
  { s with archivosAbiertos := s.archivosAbiertos.map fun a =>
      if a.nodo = nodo then { a with cantidadAbiertos := cantidad } else a }

def quita (s : Abiertos) (nodo : Nat) : Abiertos :=
  { s with archivosAbiertos := s.archivosAbiertos.eraseP (·.nodo == nodo) }

/-- The record a pointer leads to, if it has not been freed. -/
def leer (s : Abiertos) (nodo : Nat) : Option ArchivoAbierto :=
  s.archivosAbiertos.find? (·.nodo == nodo)

/-- No result either where the `int` overflows. -/
def registrarApertura (s : Abiertos) (nodo : Nat) : Option Abiertos := do
  let a ← s.leer nodo
  if a.cantidadAbiertos = 2 ^ 31 - 1 then none else some (s.pon nodo (a.cantidadAbiertos + 1))

def registrarCierre (s : Abiertos) (nodo : Nat) : Option Abiertos := do
  let a ← s.leer nodo
  if a.cantidadAbiertos > 0 then
    if a.cantidadAbiertos - 1 = 0 then some (s.quita nodo)
    else some (s.pon nodo (a.cantidadAbiertos - 1))
  else some s

/-- Addresses are told apart and below the next one. -/
structure Ok (s : Abiertos) : Prop where
  distintos : (s.archivosAbiertos.map (·.nodo)).Nodup
  menores : ∀ a ∈ s.archivosAbiertos, a.nodo < s.proximo

/-- The entries of one inode. -/
def entradas (s : Abiertos) (n : Nat) : List ArchivoAbierto :=
  s.archivosAbiertos.filter (·.numeroInodo == n)

end Abiertos

variable {s s' : Abiertos} {n : Nat} {a : ArchivoAbierto}

namespace Abiertos

theorem find_entradas (s : Abiertos) (n : Nat) :
    s.archivosAbiertos.find? (·.numeroInodo == n) = (s.entradas n).head? := by
  rw [entradas, List.head?_filter]

theorem Ok.eq_of_nodo (ok : s.Ok) {a b : ArchivoAbierto} (left : a ∈ s.archivosAbiertos)
    (right : b ∈ s.archivosAbiertos) (same : a.nodo = b.nodo) : a = b :=
  List.inj_on_of_nodup_map ok.distintos left right same

theorem Ok.leer_eq (ok : s.Ok) (member : a ∈ s.archivosAbiertos) : s.leer a.nodo = some a := by
  cases found : s.leer a.nodo with
  | none =>
    have absent := List.find?_eq_none.mp found a member
    simp at absent
  | some b =>
    have here := List.mem_of_find?_eq_some found
    have same : b.nodo = a.nodo := by simpa using List.find?_some found
    rw [ok.eq_of_nodo here member same]

theorem mem_of_entradas {m : Nat} (member : a ∈ s.entradas m) :
    a ∈ s.archivosAbiertos ∧ a.numeroInodo = m := by
  simpa [entradas] using member

/-! ### What the steps do to the entries -/

theorem entradas_pon (s : Abiertos) (m nodo : Nat) (cantidad : Int) :
    (s.pon nodo cantidad).entradas m = (s.entradas m).map fun a =>
      if a.nodo = nodo then { a with cantidadAbiertos := cantidad } else a := by
  rw [entradas, pon, List.filter_map]
  congr 1
  apply List.filter_congr
  intro a _
  by_cases here : a.nodo = nodo <;> simp [here]

theorem Ok.pon (ok : s.Ok) (nodo : Nat) (cantidad : Int) : (s.pon nodo cantidad).Ok where
  distintos := by
    have same : (s.pon nodo cantidad).archivosAbiertos.map (·.nodo) =
        s.archivosAbiertos.map (·.nodo) := by
      rw [Abiertos.pon, List.map_map]
      apply List.map_congr_left
      intro a _
      by_cases here : a.nodo = nodo <;> simp [here]
    rw [same]
    exact ok.distintos
  menores := by
    intro a member
    obtain ⟨b, here, rfl⟩ := List.mem_map.mp member
    have := ok.menores b here
    split <;> exact this

theorem Ok.quita (ok : s.Ok) (nodo : Nat) : (s.quita nodo).Ok where
  distintos := ok.distintos.sublist (List.eraseP_sublist.map _)
  menores a member := ok.menores a (List.mem_of_mem_eraseP member)

theorem filter_eraseP {α : Type} (p q : α → Bool) (l : List α)
    (sub : ∀ a ∈ l, q a = true → p a = true) : (l.eraseP q).filter p = (l.filter p).eraseP q := by
  induction l with
  | nil => rfl
  | cons a l ih =>
    have rest := ih fun b member => sub b (List.mem_cons_of_mem _ member)
    by_cases here : q a = true
    · have kept := sub a (List.mem_cons_self ..) here
      simp [here, kept]
    · by_cases kept : p a = true
      · simp [here, kept, rest]
      · simp [here, kept, rest]

theorem filter_eraseP_none {α : Type} (p q : α → Bool) (l : List α)
    (apart : ∀ a ∈ l, q a = true → p a = false) : (l.eraseP q).filter p = l.filter p := by
  induction l with
  | nil => rfl
  | cons a l ih =>
    have rest := ih fun b member => apart b (List.mem_cons_of_mem _ member)
    by_cases here : q a = true
    · have out := apart a (List.mem_cons_self ..) here
      simp [here, out]
    · by_cases kept : p a = true
      · simp [here, kept, rest]
      · simp [here, kept, rest]

/-- The entry removed is taken out of its inode's entries and of no other's. -/
theorem Ok.entradas_quita (ok : s.Ok) (member : a ∈ s.archivosAbiertos) (m : Nat) :
    (s.quita a.nodo).entradas m =
      if m = a.numeroInodo then (s.entradas m).eraseP (·.nodo == a.nodo) else s.entradas m := by
  have only : ∀ b ∈ s.archivosAbiertos, (b.nodo == a.nodo) = true → b = a := by
    intro b here same
    exact ok.eq_of_nodo here member (by simpa using same)
  split
  · rename_i inode
    subst inode
    apply filter_eraseP
    intro b here same
    rw [only b here same]
    simp
  · rename_i other
    apply filter_eraseP_none
    intro b here same
    rw [only b here same]
    simpa using fun equal => other equal.symm

theorem Ok.obtener (ok : s.Ok) (n : Nat) : (s.obtenerOCrearArchivoAbierto n).2.Ok := by
  rw [obtenerOCrearArchivoAbierto]
  split
  · exact ok
  · constructor
    · rw [List.map_append, List.nodup_append]
      refine ⟨ok.distintos, List.nodup_singleton _, ?_⟩
      intro nodo old last new
      obtain ⟨a, member, rfl⟩ := List.mem_map.mp old
      have below := ok.menores a member
      rw [List.map_singleton, List.mem_singleton] at new
      simp only at new
      omega
    · intro a member
      rcases List.mem_append.mp member with old | new
      · exact Nat.lt_succ_of_lt (ok.menores a old)
      · rw [List.mem_singleton.mp new]
        exact Nat.lt_succ_self _

theorem obtener_some {rest : List ArchivoAbierto} (present : s.entradas n = a :: rest) :
    s.obtenerOCrearArchivoAbierto n = (a.nodo, s) := by
  rw [obtenerOCrearArchivoAbierto, find_entradas, present]
  rfl

theorem obtener_none (absent : s.entradas n = []) :
    s.obtenerOCrearArchivoAbierto n = (s.proximo,
      ⟨s.archivosAbiertos ++ [⟨s.proximo, n, 0⟩], s.proximo + 1⟩) := by
  rw [obtenerOCrearArchivoAbierto, find_entradas, absent]
  rfl

theorem entradas_agrega (s : Abiertos) (m proximo : Nat) (a : ArchivoAbierto) :
    entradas ⟨s.archivosAbiertos ++ [a], proximo⟩ m =
      s.entradas m ++ if a.numeroInodo = m then [a] else [] := by
  rw [entradas, entradas, List.filter_append]
  congr 1
  by_cases here : a.numeroInodo = m <;> simp [here]

/-! ### One entry for an inode -/

/-- The inode `n` has one entry, at `p`, open `k` times. -/
structure Unica (s : Abiertos) (n p : Nat) (k : Int) : Prop where
  ok : s.Ok
  entrada : s.entradas n = [⟨p, n, k⟩]

namespace Unica

variable {p : Nat} {k : Int}

theorem mem (one : s.Unica n p k) : ⟨p, n, k⟩ ∈ s.archivosAbiertos := by
  apply (mem_of_entradas (m := n) _).1
  rw [one.entrada]
  exact List.mem_singleton_self _

theorem leer (one : s.Unica n p k) : s.leer p = some ⟨p, n, k⟩ := one.ok.leer_eq one.mem

theorem obtener (one : s.Unica n p k) : s.obtenerOCrearArchivoAbierto n = (p, s) :=
  obtener_some one.entrada

theorem pon (one : s.Unica n p k) (j : Int) : (s.pon p j).Unica n p j := by
  refine ⟨one.ok.pon p j, ?_⟩
  rw [entradas_pon, one.entrada]
  simp

theorem apertura (one : s.Unica n p k) (room : k ≠ 2 ^ 31 - 1) :
    s.registrarApertura p = some (s.pon p (k + 1)) := by
  simp only [registrarApertura, one.leer, Option.bind_eq_bind, Option.bind_some]
  rw [if_neg room]

theorem cierre (one : s.Unica n p k) (positive : 0 < k) : s.registrarCierre p =
    some (if k - 1 = 0 then s.quita p else s.pon p (k - 1)) := by
  simp only [registrarCierre, one.leer, Option.bind_eq_bind, Option.bind_some]
  rw [if_pos positive]
  split <;> rfl

theorem quita (one : s.Unica n p k) :
    (s.quita p).Ok ∧ (s.quita p).entradas n = [] ∧ (s.quita p).leer p = none := by
  refine ⟨one.ok.quita p, ?_, ?_⟩
  · have gone := one.ok.entradas_quita one.mem n
    rw [if_pos rfl, one.entrada] at gone
    simpa using gone
  · rw [Abiertos.leer, List.find?_eq_none]
    intro b member same
    have kept := List.mem_of_mem_eraseP member
    have equal := one.ok.eq_of_nodo kept one.mem (by simpa using same)
    have twice : ((s.quita p).entradas n) = [] := by
      have gone := one.ok.entradas_quita one.mem n
      rw [if_pos rfl, one.entrada] at gone
      simpa using gone
    have here : b ∈ (s.quita p).entradas n := by
      simpa [entradas, equal] using member
    rw [twice] at here
    cases here

end Unica

/-- An entry just created. -/
theorem Ok.nueva (ok : s.Ok) (absent : s.entradas n = []) :
    (s.obtenerOCrearArchivoAbierto n).2.Unica n (s.obtenerOCrearArchivoAbierto n).1 0 := by
  refine ⟨ok.obtener n, ?_⟩
  rw [obtener_none absent, entradas_agrega, absent]
  simp

end Abiertos

/-! ### One open against one release -/

/-- The client that opens, and the one that releases. -/
inductive Hilo where
  | abre
  | cierra
  deriving DecidableEq

/-- The list and the pointers the two requests hold. -/
structure Carrera where
  abiertos : Abiertos
  nodoAbre : Option Nat
  nodoCierra : Option Nat

/-- The next step of a client: it looks the entry up, then it changes the count. -/
def Carrera.paso (n : Nat) (c : Carrera) : Hilo → Option Carrera
  | .abre =>
    match c.nodoAbre with
    | none =>
      let (nodo, abiertos) := c.abiertos.obtenerOCrearArchivoAbierto n
      some { c with abiertos, nodoAbre := some nodo }
    | some nodo => do
      let abiertos ← c.abiertos.registrarApertura nodo
      some { c with abiertos }
  | .cierra =>
    match c.nodoCierra with
    | none =>
      let (nodo, abiertos) := c.abiertos.obtenerOCrearArchivoAbierto n
      some { c with abiertos, nodoCierra := some nodo }
    | some nodo => do
      let abiertos ← c.abiertos.registrarCierre nodo
      some { c with abiertos }

/-- Both requests, in the order given. -/
def carrera (n : Nat) (s : Abiertos) (orden : List Hilo) : Option Carrera :=
  orden.foldlM (Carrera.paso n) ⟨s, none, none⟩

/-- One entry for `n`, open once. -/
def UnaVez (s : Abiertos) (n : Nat) : Prop := ∃ p, s.Unica n p 1

theorem orden_cases {orden : List Hilo} (both : orden.Perm [.abre, .abre, .cierra, .cierra]) :
    orden = [.abre, .abre, .cierra, .cierra] ∨ orden = [.abre, .cierra, .abre, .cierra] ∨
    orden = [.cierra, .abre, .abre, .cierra] ∨ orden = [.cierra, .cierra, .abre, .abre] ∨
    orden = [.abre, .cierra, .cierra, .abre] ∨ orden = [.cierra, .abre, .cierra, .abre] := by
  have opens := both.count_eq .abre
  have length := both.length_eq
  match orden, length with
  | [a, b, c, d], _ => cases a <;> cases b <;> cases c <;> cases d <;> revert opens <;> decide

/-- With the inode open once, an open and a release that run against each other leave it
open once, exactly when the release does not remove the entry between the two steps of
the open. -/
theorem carrera_una_vez {orden : List Hilo} (once : UnaVez s n)
    (both : orden.Perm [.abre, .abre, .cierra, .cierra]) :
    (∃ c, carrera n s orden = some c ∧ UnaVez c.abiertos n) ↔
      ¬[Hilo.cierra, .abre] <:+ orden := by
  obtain ⟨p, one⟩ := once
  have two := one.pon 2
  have opened : s.registrarApertura p = some (s.pon p 2) := one.apertura (by decide)
  have closed : (s.pon p 2).registrarCierre p = some ((s.pon p 2).pon p 1) := by
    rw [two.cierre (by decide)]
    rfl
  have removed : s.registrarCierre p = some (s.quita p) := by
    rw [one.cierre (by decide)]
    rfl
  obtain ⟨ok, empty, gone⟩ := one.quita
  have lost : (s.quita p).registrarApertura p = none := by
    simp [Abiertos.registrarApertura, gone]
  rcases orden_cases both with rfl | rfl | rfl | rfl | rfl | rfl
  -- the count goes up to two before it comes down
  · refine ⟨fun _ => by decide, fun _ => ⟨⟨(s.pon p 2).pon p 1, some p, some p⟩, ?_, p, two.pon 1⟩⟩
    simp [carrera, Carrera.paso, one.obtener, two.obtener, opened, closed]
  · refine ⟨fun _ => by decide, fun _ => ⟨⟨(s.pon p 2).pon p 1, some p, some p⟩, ?_, p, two.pon 1⟩⟩
    simp [carrera, Carrera.paso, one.obtener, opened, closed]
  · refine ⟨fun _ => by decide, fun _ => ⟨⟨(s.pon p 2).pon p 1, some p, some p⟩, ?_, p, two.pon 1⟩⟩
    simp [carrera, Carrera.paso, one.obtener, opened, closed]
  -- the entry is removed and the open makes another
  · cases found : (s.quita p).obtenerOCrearArchivoAbierto n with
    | mk q t =>
      have fresh : t.Unica n q 0 := by
        have created := ok.nueva empty
        rwa [found] at created
      have again : t.registrarApertura q = some (t.pon q 1) := fresh.apertura (by decide)
      refine ⟨fun _ => by decide, fun _ => ⟨⟨t.pon q 1, some q, some p⟩, ?_, q, fresh.pon 1⟩⟩
      simp [carrera, Carrera.paso, one.obtener, removed, found, again]
  -- the open holds a pointer to the entry removed
  · refine ⟨?_, fun safe => absurd (by decide) safe⟩
    rintro ⟨c, run, -⟩
    simp [carrera, Carrera.paso, one.obtener, removed, lost] at run
  · refine ⟨?_, fun safe => absurd (by decide) safe⟩
    rintro ⟨c, run, -⟩
    simp [carrera, Carrera.paso, one.obtener, removed, lost] at run

/-- Inode 7 open once, and the increment right after the other client's lookup. -/
theorem carrera_una_vez_intercalada :
    ∃ c, carrera 7 ⟨[⟨0, 7, 1⟩], 1⟩ [.abre, .cierra, .abre, .cierra] = some c ∧
      UnaVez c.abiertos 7 := by
  have once : UnaVez ⟨[⟨0, 7, 1⟩], 1⟩ 7 :=
    ⟨0, ⟨by decide, by decide⟩, by decide⟩
  exact (carrera_una_vez once (by decide)).mpr (by decide)

/-- The release removes the entry the open has just found. -/
theorem carrera_pierde_apertura :
    ¬∀ (s : Abiertos) (n : Nat) (orden : List Hilo), UnaVez s n →
      orden.Perm [.abre, .abre, .cierra, .cierra] →
      ∃ c, carrera n s orden = some c ∧ UnaVez c.abiertos n := by
  intro all
  have once : UnaVez ⟨[⟨0, 7, 1⟩], 1⟩ 7 :=
    ⟨0, ⟨by decide, by decide⟩, by decide⟩
  obtain ⟨c, run, -⟩ := all _ _ [.abre, .cierra, .cierra, .abre] once (by decide)
  have nothing : (carrera 7 ⟨[⟨0, 7, 1⟩], 1⟩ [.abre, .cierra, .cierra, .abre]).isNone := by decide
  simp [run] at nothing

end LosAltos.Rfs
