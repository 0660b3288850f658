import LosAltos.Lib.Cells

/-!
# The lists of the commons

`commons/collections/list.c`, `node.h:23-40` and the queues of `queue.c` over them. All the lists
live in one memory: a list and each of its elements have an address, and null data is `none`.
There is no result where a null pointer or something freed is followed, nor where a loop does not
come to its end in the turns it is given.
-/
namespace LosAltos.Commons

open Lib

structure TList where
  head : Option Nat
  elementsCount : Nat

/-- The elements and the lists that are allocated, and the addresses `malloc` answers next. -/
structure Memoria (α : Type) where
  elementos : Heap (Option α)
  listas : Nat → Option TList
  proximoElemento : Nat
  proximaLista : Nat

namespace Memoria

variable {α : Type}

def inicial : Memoria α := ⟨fun _ => none, fun _ => none, 0, 0⟩

def ponElemento (m : Memoria α) (a : Nat) (e : Option (Cell (Option α))) : Memoria α :=
  { m with elementos := Function.update m.elementos a e }

def ponLista (m : Memoria α) (l : Nat) (t : Option TList) : Memoria α :=
  { m with listas := Function.update m.listas l t }

/-! ### Private functions -/

def listLinkElement (m : Memoria α) (previous next : Option Nat) : Option (Memoria α) :=
  match previous with
  | none => some m
  | some p => (m.elementos p).map fun e => m.ponElemento p (some { e with next })

def listCreateElement (m : Memoria α) (data : Option α) : Nat × Memoria α :=
  (m.proximoElemento, { m.ponElemento m.proximoElemento (some ⟨data, none⟩) with
    proximoElemento := m.proximoElemento + 1 })

def listGetElement (m : Memoria α) (self : Nat) (index : Int) : Option (Option Nat) := do
  let t ← m.listas self
  if index < t.elementsCount ∧ 0 ≤ index then walk m.elementos index.toNat t.head else some none

/-- The loop of `list_find_element`, with the position it has come to. -/
def listFindFrom (m : Memoria α) (condition : Option α → Bool) :
    Nat → Option Nat → Nat → Option (Option Nat × Nat)
  | _, none, position => some (none, position)
  | 0, some _, _ => none
  | k + 1, some a, position => do
    let e ← m.elementos a
    if condition e.data then some (some a, position)
    else listFindFrom m condition k e.next (position + 1)

def listFindElement (k : Nat) (m : Memoria α) (self : Nat) (condition : Option α → Bool) :
    Option (Option Nat × Nat) := do
  let t ← m.listas self
  m.listFindFrom condition k t.head 0

/-! ### Public functions -/

def listCreate (m : Memoria α) : Nat × Memoria α :=
  (m.proximaLista, { m.ponLista m.proximaLista (some ⟨none, 0⟩) with
    proximaLista := m.proximaLista + 1 })

/-- The element is created before the list is looked at. -/
def listAdd (m : Memoria α) (self : Nat) (data : Option α) : Option (Nat × Memoria α) := do
  let (newElement, m) := m.listCreateElement data
  let t ← m.listas self
  if t.elementsCount = 0 then
    some (t.elementsCount, m.ponLista self (some ⟨some newElement, t.elementsCount + 1⟩))
  else
    let last ← m.listGetElement self (t.elementsCount - 1)
    let m ← m.listLinkElement last (some newElement)
    some (t.elementsCount, m.ponLista self (some ⟨t.head, t.elementsCount + 1⟩))

def listGet (m : Memoria α) (self : Nat) (index : Int) : Option (Option α) := do
  match ← m.listGetElement self index with
  | none => some none
  | some a => (m.elementos a).map Cell.data

/-- The next element is read once the closure has come back. -/
def listIterateFrom (closure : Option α → Memoria α → Option (Memoria α)) :
    Nat → Option Nat → Memoria α → Option (Memoria α)
  | _, none, m => some m
  | 0, some _, _ => none
  | k + 1, some a, m => do
    let e ← m.elementos a
    let m ← closure e.data m
    let e ← m.elementos a
    listIterateFrom closure k e.next m

def listIterate (k : Nat) (m : Memoria α) (self : Nat)
    (closure : Option α → Memoria α → Option (Memoria α)) : Option (Memoria α) := do
  let t ← m.listas self
  listIterateFrom closure k t.head m

def listAddAll (k : Nat) (m : Memoria α) (self other : Nat) : Option (Memoria α) :=
  m.listIterate k other fun element m => (m.listAdd self element).map Prod.snd

def listAddInIndex (m : Memoria α) (self : Nat) (index : Int) (data : Option α) :
    Option (Memoria α) := do
  let t ← m.listas self
  if index < t.elementsCount ∧ 0 ≤ index then
    let (newElement, m) := m.listCreateElement data
    if index = 0 then
      let m ← m.listLinkElement (some newElement) t.head
      some (m.ponLista self (some ⟨some newElement, t.elementsCount + 1⟩))
    else
      let next ← m.listGetElement self index
      let previous ← m.listGetElement self (index - 1)
      let m ← m.listLinkElement previous (some newElement)
      let m ← m.listLinkElement (some newElement) next
      some (m.ponLista self (some ⟨t.head, t.elementsCount + 1⟩))
  else some m

def listReplace (m : Memoria α) (self : Nat) (index : Int) (data : Option α) :
    Option (Option α × Memoria α) := do
  match ← m.listGetElement self index with
  | none => some (none, m)
  | some a =>
    let e ← m.elementos a
    some (e.data, m.ponElemento a (some { e with data }))

def listFind (k : Nat) (m : Memoria α) (self : Nat) (condition : Option α → Bool) :
    Option (Option α) := do
  match (← m.listFindElement k self condition).1 with
  | none => some none
  | some a => (m.elementos a).map Cell.data

/-- Only a list without elements is checked; an index that is not there leads to a null pointer. -/
def listRemove (m : Memoria α) (self : Nat) (index : Int) : Option (Option α × Memoria α) := do
  let t ← m.listas self
  if t.head = none then some (none, m)
  else
    let a ← ← m.listGetElement self index
    let e ← m.elementos a
    if index = 0 then
      let m := m.ponLista self (some ⟨e.next, t.elementsCount - 1⟩)
      some (e.data, m.ponElemento a none)
    else
      let previous ← m.listGetElement self (index - 1)
      let m ← m.listLinkElement previous e.next
      let m := m.ponLista self (some ⟨t.head, t.elementsCount - 1⟩)
      some (e.data, m.ponElemento a none)

def listRemoveByCondition (k : Nat) (m : Memoria α) (self : Nat) (condition : Option α → Bool) :
    Option (Option α × Memoria α) := do
  match ← m.listFindElement k self condition with
  | (none, _) => some (none, m)
  | (some _, index) => m.listRemove self index

def listSize (m : Memoria α) (list : Nat) : Option Nat := (m.listas list).map TList.elementsCount

def listIsEmpty (m : Memoria α) (list : Nat) : Option Bool := (m.listSize list).map (· == 0)

def listCleanFrom : Nat → Option Nat → Memoria α → Option (Memoria α)
  | _, none, m => some m
  | 0, some _, _ => none
  | k + 1, some a, m => do
    let e ← m.elementos a
    listCleanFrom k e.next (m.ponElemento a none)

def listClean (k : Nat) (m : Memoria α) (self : Nat) : Option (Memoria α) := do
  let t ← m.listas self
  let m ← listCleanFrom k t.head m
  some (m.ponLista self (some ⟨none, 0⟩))

def listDestroy (k : Nat) (m : Memoria α) (self : Nat) : Option (Memoria α) :=
  (m.listClean k self).map (·.ponLista self none)

/-- `n` turns from `i` on. -/
def listTakeFrom (self sublist : Nat) : Nat → Nat → Memoria α → Option (Memoria α)
  | 0, _, m => some m
  | n + 1, i, m => do
    let element ← m.listGet self i
    let (_, m) ← m.listAdd sublist element
    listTakeFrom self sublist n (i + 1) m

def listTake (m : Memoria α) (self : Nat) (count : Int) : Option (Nat × Memoria α) :=
  let (sublist, m) := m.listCreate
  (listTakeFrom self sublist count.toNat 0 m).map (sublist, ·)

def listTakeAndRemoveFrom (self sublist : Nat) : Nat → Memoria α → Option (Memoria α)
  | 0, m => some m
  | n + 1, m => do
    let (element, m) ← m.listRemove self 0
    let (_, m) ← m.listAdd sublist element
    listTakeAndRemoveFrom self sublist n m

def listTakeAndRemove (m : Memoria α) (self : Nat) (count : Int) : Option (Nat × Memoria α) :=
  let (sublist, m) := m.listCreate
  (listTakeAndRemoveFrom self sublist count.toNat m).map (sublist, ·)

def listFilter (k : Nat) (m : Memoria α) (self : Nat) (condition : Option α → Bool) :
    Option (Nat × Memoria α) :=
  let (filtered, m) := m.listCreate
  (m.listIterate k self fun element m =>
    if condition element then (m.listAdd filtered element).map Prod.snd else some m).map
      (filtered, ·)

def listMap (k : Nat) (m : Memoria α) (self : Nat) (transformer : Option α → Option α) :
    Option (Nat × Memoria α) :=
  let (mapped, m) := m.listCreate
  (m.listIterate k self fun element m => (m.listAdd mapped (transformer element)).map
    Prod.snd).map (mapped, ·)

/-! ### Queues: `self` is the list of the queue -/

def queuePush (m : Memoria α) (self : Nat) (element : Option α) : Option (Memoria α) :=
  (m.listAdd self element).map Prod.snd

def queuePop (m : Memoria α) (self : Nat) : Option (Option α × Memoria α) := m.listRemove self 0

def queuePeek (m : Memoria α) (self : Nat) : Option (Option α) := m.listGet self 0

end Memoria

end LosAltos.Commons
