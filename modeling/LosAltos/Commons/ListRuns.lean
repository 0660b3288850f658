import LosAltos.Commons.ListLoops

/-!
# Runs of list operations

Any calls on any lists, one after another, answer what the sequences answer, while every call is
on lists that exist, a removal from a list with elements is at an index it has, and a list with
elements is not added to itself.
-/
namespace LosAltos.Commons

open Lib

variable {α : Type}

inductive Orden (α : Type) where
  | create
  | add (self : Nat) (data : Option α)
  | addAll (self other : Nat)
  | get (self : Nat) (index : Int)
  | addInIndex (self : Nat) (index : Int) (data : Option α)
  | replace (self : Nat) (index : Int) (data : Option α)
  | find (self : Nat) (condition : Option α → Bool)
  | remove (self : Nat) (index : Int)
  | removeByCondition (self : Nat) (condition : Option α → Bool)
  | size (self : Nat)
  | isEmpty (self : Nat)
  | clean (self : Nat)
  | destroy (self : Nat)
  | take (self : Nat) (count : Int)
  | takeAndRemove (self : Nat) (count : Int)
  | filter (self : Nat) (condition : Option α → Bool)
  | map (self : Nat) (transformer : Option α → Option α)
  | push (self : Nat) (element : Option α)
  | pop (self : Nat)
  | peek (self : Nat)

inductive Respuesta (α : Type) where
  | nada
  | dato (data : Option α)
  | numero (n : Nat)
  | logico (b : Bool)
  | lista (l : Nat)

/-- A call; each loop has `k` turns. -/
def Memoria.ejecutar (k : Nat) (m : Memoria α) : Orden α → Option (Respuesta α × Memoria α)
  | .create => some (.lista m.listCreate.1, m.listCreate.2)
  | .add self data => (m.listAdd self data).map fun (n, m) => (.numero n, m)
  | .addAll self other => (m.listAddAll k self other).map (.nada, ·)
  | .get self index => (m.listGet self index).map (.dato ·, m)
  | .addInIndex self index data => (m.listAddInIndex self index data).map (.nada, ·)
  | .replace self index data => (m.listReplace self index data).map fun (x, m) => (.dato x, m)
  | .find self condition => (m.listFind k self condition).map (.dato ·, m)
  | .remove self index => (m.listRemove self index).map fun (x, m) => (.dato x, m)
  | .removeByCondition self condition =>
    (m.listRemoveByCondition k self condition).map fun (x, m) => (.dato x, m)
  | .size self => (m.listSize self).map (.numero ·, m)
  | .isEmpty self => (m.listIsEmpty self).map (.logico ·, m)
  | .clean self => (m.listClean k self).map (.nada, ·)
  | .destroy self => (m.listDestroy k self).map (.nada, ·)
  | .take self count => (m.listTake self count).map fun (l, m) => (.lista l, m)
  | .takeAndRemove self count => (m.listTakeAndRemove self count).map fun (l, m) => (.lista l, m)
  | .filter self condition => (m.listFilter k self condition).map fun (l, m) => (.lista l, m)
  | .map self transformer => (m.listMap k self transformer).map fun (l, m) => (.lista l, m)
  | .push self element => (m.queuePush self element).map (.nada, ·)
  | .pop self => (m.queuePop self).map fun (x, m) => (.dato x, m)
  | .peek self => (m.queuePeek self).map (.dato ·, m)

def Memoria.correr (k : Nat) (m : Memoria α) :
    List (Orden α) → Option (List (Respuesta α) × Memoria α)
  | [] => some ([], m)
  | o :: os => do
    let (r, m) ← m.ejecutar k o
    let (rs, m) ← Memoria.correr k m os
    some (r :: rs, m)
namespace Vista

def ejecutar (v : Vista α) : Orden α → Option (Respuesta α × Vista α)
  | .create => some (.lista v.proxima, v.nueva [])
  | .add self data => (v.listas self).map fun xs => (.numero xs.length, v.pon self (xs ++ [data]))
  | .addAll self other => do
    let xs ← v.listas self
    let ys ← v.listas other
    if self = other ∧ ys ≠ [] then none else some (.nada, v.pon self (xs ++ ys))
  | .get self index => (v.listas self).map fun xs => (.dato (enIndice xs index), v)
  | .addInIndex self index data => (v.listas self).map fun xs =>
    (.nada, v.pon self
      (if 0 ≤ index ∧ index < xs.length then xs.insertIdx index.toNat data else xs))
  | .replace self index data => (v.listas self).map fun xs =>
    (.dato (enIndice xs index), v.pon self (if 0 ≤ index then xs.set index.toNat data else xs))
  | .find self condition => (v.listas self).map fun xs => (.dato (xs.find? condition).join, v)
  | .remove self index => do
    let xs ← v.listas self
    if xs = [] then some (.dato none, v)
    else if 0 ≤ index ∧ index < xs.length then
      some (.dato (enIndice xs index), v.pon self (xs.eraseIdx index.toNat))
    else none
  | .removeByCondition self condition => (v.listas self).map fun xs =>
    (.dato (xs.find? condition).join, v.pon self (xs.eraseP condition))
  | .size self => (v.listas self).map fun xs => (.numero xs.length, v)
  | .isEmpty self => (v.listas self).map fun xs => (.logico xs.isEmpty, v)
  | .clean self => (v.listas self).map fun _ => (.nada, v.pon self [])
  | .destroy self => (v.listas self).map fun _ => (.nada, v.quita self)
  | .take self count => (v.listas self).map fun xs =>
    (.lista v.proxima, v.nueva (primeros xs count.toNat))
  | .takeAndRemove self count => (v.listas self).map fun xs =>
    (.lista v.proxima, (v.pon self (xs.drop count.toNat)).nueva (primeros xs count.toNat))
  | .filter self condition => (v.listas self).map fun xs =>
    (.lista v.proxima, v.nueva (xs.filter condition))
  | .map self transformer => (v.listas self).map fun xs =>
    (.lista v.proxima, v.nueva (xs.map transformer))
  | .push self element => (v.listas self).map fun xs => (.nada, v.pon self (xs ++ [element]))
  | .pop self => (v.listas self).map fun xs => (.dato xs.head?.join, v.pon self xs.tail)
  | .peek self => (v.listas self).map fun xs => (.dato xs.head?.join, v)

def correr (v : Vista α) : List (Orden α) → Option (List (Respuesta α) × Vista α)
  | [] => some ([], v)
  | o :: os => do
    let (r, v) ← v.ejecutar o
    let (rs, v) ← v.correr os
    some (r :: rs, v)
end Vista

variable {celdas : Nat → List (Nat × Option α)} {m m' : Memoria α} {v : Vista α}

/-! ### Any calls, one after another -/

/-- A call the sequences answer is answered so by the lists, with turns enough for the loops. -/
theorem ejecutar_representa {o : Orden α} {r : Respuesta α} {v' : Vista α}
    (answered : v.ejecutar o = some (r, v')) :
    ∃ n, ∀ m k, Representa m v → n ≤ k →
      ∃ m', m.ejecutar k o = some (r, m') ∧ Representa m' v' := by
  cases o with
  | create =>
    cases answered
    refine ⟨0, fun m k rep _ => ?_⟩
    obtain ⟨celdas, s⟩ := rep
    obtain ⟨place, -, kept⟩ := s.crea
    rw [Memoria.ejecutar, place]
    exact ⟨_, rfl, _, kept⟩
  | add self data =>
    obtain ⟨xs, viva, answered⟩ := Option.map_eq_some_iff.mp answered
    cases answered
    refine ⟨0, fun m k rep _ => ?_⟩
    obtain ⟨celdas, s⟩ := rep
    obtain ⟨m', called, kept⟩ := listAdd_sostiene s viva data
    rw [Memoria.ejecutar, called]
    exact ⟨m', rfl, _, kept⟩
  | addAll self other =>
    obtain ⟨xs, viva, answered⟩ := Option.bind_eq_some_iff.mp answered
    obtain ⟨ys, origen, answered⟩ := Option.bind_eq_some_iff.mp answered
    split at answered
    · cases answered
    · rename_i distinta
      cases answered
      refine ⟨ys.length, fun m k rep turns => ?_⟩
      obtain ⟨celdas, s⟩ := rep
      by_cases same : self = other
      · have empty : ys = [] := by
          by_contra llena
          exact distinta ⟨same, llena⟩
        subst empty
        rw [Memoria.ejecutar, listAddAll_vacia s origen, List.append_nil, Vista.pon_mismo viva]
        exact ⟨m, rfl, celdas, s⟩
      · obtain ⟨m', called, kept⟩ := listAddAll_otra s viva origen (Ne.symm same) turns
        rw [Memoria.ejecutar, called]
        exact ⟨m', rfl, kept⟩
  | get self index =>
    obtain ⟨xs, viva, answered⟩ := Option.map_eq_some_iff.mp answered
    cases answered
    refine ⟨0, fun m k rep _ => ?_⟩
    obtain ⟨celdas, s⟩ := rep
    rw [Memoria.ejecutar, listGet_eq s viva]
    exact ⟨m, rfl, celdas, s⟩
  | addInIndex self index data =>
    obtain ⟨xs, viva, answered⟩ := Option.map_eq_some_iff.mp answered
    cases answered
    refine ⟨0, fun m k rep _ => ?_⟩
    obtain ⟨celdas, s⟩ := rep
    obtain ⟨m', called, kept⟩ := listAddInIndex_sostiene s viva index data
    rw [Memoria.ejecutar, called]
    exact ⟨m', rfl, kept⟩
  | replace self index data =>
    obtain ⟨xs, viva, answered⟩ := Option.map_eq_some_iff.mp answered
    cases answered
    refine ⟨0, fun m k rep _ => ?_⟩
    obtain ⟨celdas, s⟩ := rep
    obtain ⟨m', called, kept⟩ := listReplace_sostiene s viva index data
    rw [Memoria.ejecutar, called]
    exact ⟨m', rfl, kept⟩
  | find self condition =>
    obtain ⟨xs, viva, answered⟩ := Option.map_eq_some_iff.mp answered
    cases answered
    refine ⟨xs.length, fun m k rep turns => ?_⟩
    obtain ⟨celdas, s⟩ := rep
    rw [Memoria.ejecutar, listFind_eq s viva turns]
    exact ⟨m, rfl, celdas, s⟩
  | remove self index =>
    obtain ⟨xs, viva, answered⟩ := Option.bind_eq_some_iff.mp answered
    refine ⟨0, fun m k rep _ => ?_⟩
    obtain ⟨celdas, s⟩ := rep
    rw [Memoria.ejecutar]
    split at answered
    · rename_i empty
      subst empty
      cases answered
      rw [listRemove_vacia s viva]
      exact ⟨m, rfl, celdas, s⟩
    · split at answered
      · rename_i dentro
        cases answered
        obtain ⟨m', called, kept⟩ := listRemove_indice s viva dentro
        rw [called]
        exact ⟨m', rfl, kept⟩
      · cases answered
  | removeByCondition self condition =>
    obtain ⟨xs, viva, answered⟩ := Option.map_eq_some_iff.mp answered
    cases answered
    refine ⟨xs.length, fun m k rep turns => ?_⟩
    obtain ⟨celdas, s⟩ := rep
    obtain ⟨m', called, kept⟩ := listRemoveByCondition_sostiene s viva turns condition
    rw [Memoria.ejecutar, called]
    exact ⟨m', rfl, kept⟩
  | size self =>
    obtain ⟨xs, viva, answered⟩ := Option.map_eq_some_iff.mp answered
    cases answered
    refine ⟨0, fun m k rep _ => ?_⟩
    obtain ⟨celdas, s⟩ := rep
    rw [Memoria.ejecutar, listSize_eq s viva]
    exact ⟨m, rfl, celdas, s⟩
  | isEmpty self =>
    obtain ⟨xs, viva, answered⟩ := Option.map_eq_some_iff.mp answered
    cases answered
    refine ⟨0, fun m k rep _ => ?_⟩
    obtain ⟨celdas, s⟩ := rep
    rw [Memoria.ejecutar, listIsEmpty_eq s viva]
    exact ⟨m, rfl, celdas, s⟩
  | clean self =>
    obtain ⟨xs, viva, answered⟩ := Option.map_eq_some_iff.mp answered
    cases answered
    refine ⟨xs.length, fun m k rep turns => ?_⟩
    obtain ⟨celdas, s⟩ := rep
    obtain ⟨m', called, kept⟩ := listClean_sostiene s viva turns
    rw [Memoria.ejecutar, called]
    exact ⟨m', rfl, _, kept⟩
  | destroy self =>
    obtain ⟨xs, viva, answered⟩ := Option.map_eq_some_iff.mp answered
    cases answered
    refine ⟨xs.length, fun m k rep turns => ?_⟩
    obtain ⟨celdas, s⟩ := rep
    obtain ⟨m', called, kept⟩ := listDestroy_sostiene s viva turns
    rw [Memoria.ejecutar, called]
    exact ⟨m', rfl, kept⟩
  | take self count =>
    obtain ⟨xs, viva, answered⟩ := Option.map_eq_some_iff.mp answered
    cases answered
    refine ⟨0, fun m k rep _ => ?_⟩
    obtain ⟨celdas, s⟩ := rep
    obtain ⟨m', called, kept⟩ := listTake_sostiene s viva count
    rw [Memoria.ejecutar, called]
    exact ⟨m', rfl, kept⟩
  | takeAndRemove self count =>
    obtain ⟨xs, viva, answered⟩ := Option.map_eq_some_iff.mp answered
    cases answered
    refine ⟨0, fun m k rep _ => ?_⟩
    obtain ⟨celdas, s⟩ := rep
    obtain ⟨m', called, kept⟩ := listTakeAndRemove_sostiene s viva count
    rw [Memoria.ejecutar, called]
    exact ⟨m', rfl, kept⟩
  | filter self condition =>
    obtain ⟨xs, viva, answered⟩ := Option.map_eq_some_iff.mp answered
    cases answered
    refine ⟨xs.length, fun m k rep turns => ?_⟩
    obtain ⟨celdas, s⟩ := rep
    obtain ⟨m', called, kept⟩ := listFilter_sostiene s viva turns condition
    rw [Memoria.ejecutar, called]
    exact ⟨m', rfl, kept⟩
  | map self transformer =>
    obtain ⟨xs, viva, answered⟩ := Option.map_eq_some_iff.mp answered
    cases answered
    refine ⟨xs.length, fun m k rep turns => ?_⟩
    obtain ⟨celdas, s⟩ := rep
    obtain ⟨m', called, kept⟩ := listMap_sostiene s viva turns transformer
    rw [Memoria.ejecutar, called]
    exact ⟨m', rfl, kept⟩

  | push self element =>
    obtain ⟨xs, viva, answered⟩ := Option.map_eq_some_iff.mp answered
    cases answered
    refine ⟨0, fun m k rep _ => ?_⟩
    obtain ⟨celdas, s⟩ := rep
    obtain ⟨m', called, kept⟩ := listAdd_sostiene s viva element
    rw [Memoria.ejecutar, Memoria.queuePush, called]
    exact ⟨m', rfl, _, kept⟩
  | pop self =>
    obtain ⟨xs, viva, answered⟩ := Option.map_eq_some_iff.mp answered
    cases answered
    refine ⟨0, fun m k rep _ => ?_⟩
    obtain ⟨celdas, s⟩ := rep
    obtain ⟨m', called, kept⟩ := queuePop_sostiene s viva
    rw [Memoria.ejecutar, called]
    exact ⟨m', rfl, kept⟩
  | peek self =>
    obtain ⟨xs, viva, answered⟩ := Option.map_eq_some_iff.mp answered
    cases answered
    refine ⟨0, fun m k rep _ => ?_⟩
    obtain ⟨celdas, s⟩ := rep
    rw [Memoria.ejecutar, queuePeek_eq s viva]
    exact ⟨m, rfl, celdas, s⟩

/-- The lists a call is given. -/
def Orden.usa : Orden α → List Nat
  | .create => []
  | .addAll self other => [self, other]
  | .add self _ | .get self _ | .addInIndex self _ _ | .replace self _ _ | .find self _
  | .remove self _ | .removeByCondition self _ | .size self | .isEmpty self | .clean self
  | .destroy self | .take self _ | .takeAndRemove self _ | .filter self _ | .map self _
  | .push self _ | .pop self | .peek self => [self]

/-- A call on lists that exist and that the sequences do not answer follows a null pointer or
does not end. -/
theorem ejecutar_none {o : Orden α} (rep : Representa m v)
    (vivas : ∀ l ∈ o.usa, v.listas l ≠ none) (unanswered : v.ejecutar o = none) (k : Nat) :
    m.ejecutar k o = none := by
  obtain ⟨celdas, s⟩ := rep
  have viva : ∀ l ∈ o.usa, ∃ xs, v.listas l = some xs := fun l member =>
    Option.ne_none_iff_exists'.mp (vivas l member)
  cases o with
  | create => cases unanswered
  | addAll self other =>
    obtain ⟨xs, first⟩ := viva self (by simp [Orden.usa])
    obtain ⟨ys, second⟩ := viva other (by simp [Orden.usa])
    rw [Vista.ejecutar, first, second] at unanswered
    simp only [Option.bind_eq_bind, Option.bind_some] at unanswered
    split at unanswered
    · rename_i both
      obtain ⟨rfl, llena⟩ := both
      rw [Memoria.ejecutar, listAddAll_misma s second llena]
      rfl
    · cases unanswered
  | remove self index =>
    obtain ⟨xs, there⟩ := viva self (by simp [Orden.usa])
    rw [Vista.ejecutar, there] at unanswered
    simp only [Option.bind_eq_bind, Option.bind_some] at unanswered
    split at unanswered
    · cases unanswered
    · rename_i llena
      split at unanswered
      · cases unanswered
      · rename_i fuera
        rw [Memoria.ejecutar, listRemove_fuera s there llena fuera]
        rfl
  | _ =>
    rw [Vista.ejecutar, Option.map_eq_none_iff] at unanswered
    exact absurd unanswered (vivas _ (by simp [Orden.usa]))

theorem correr_representa {os : List (Orden α)} {rs : List (Respuesta α)} {v' : Vista α}
    (answered : v.correr os = some (rs, v')) :
    ∃ n, ∀ m k, Representa m v → n ≤ k →
      ∃ m', m.correr k os = some (rs, m') ∧ Representa m' v' := by
  induction os generalizing v rs with
  | nil =>
    cases answered
    exact ⟨0, fun m k rep _ => ⟨m, rfl, rep⟩⟩
  | cons o os ih =>
    obtain ⟨⟨r, v1⟩, one, answered⟩ := Option.bind_eq_some_iff.mp answered
    obtain ⟨⟨rest, v2⟩, others, answered⟩ := Option.bind_eq_some_iff.mp answered
    cases answered
    obtain ⟨n, called⟩ := ejecutar_representa one
    obtain ⟨j, run⟩ := ih others
    refine ⟨max n j, fun m k rep turns => ?_⟩
    obtain ⟨m1, first, rep1⟩ := called m k rep (by omega)
    obtain ⟨m', second, rep'⟩ := run m1 k rep1 (by omega)
    refine ⟨m', ?_, rep'⟩
    rw [Memoria.correr, first]
    simp only [Option.bind_eq_bind, Option.bind_some, second]

/-- The lists of the commons are sequences, over every run. -/
theorem listas_son_secuencias (os : List (Orden α)) (rs : List (Respuesta α)) (v : Vista α)
    (answered : Vista.inicial.correr os = some (rs, v)) :
    (∃ n, ∀ k ≥ n, ∃ m, Memoria.inicial.correr k os = some (rs, m) ∧ Representa m v) ∧
      ∀ m : Memoria α, Representa m v → ∀ o : Orden α, (∀ l ∈ o.usa, v.listas l ≠ none) →
        v.ejecutar o = none → ∀ k, m.ejecutar k o = none := by
  obtain ⟨n, run⟩ := correr_representa answered
  refine ⟨⟨n, fun k turns => run _ k ⟨_, Sostiene.inicial⟩ turns⟩, ?_⟩
  intro m rep o vivas unanswered k
  exact ejecutar_none rep vivas unanswered k

/-- A list whose first element moves to another one that is added back to it. -/
theorem listas_son_secuencias_dos :
    ∃ v : Vista Nat,
      (∃ n, ∀ k ≥ n, ∃ m, Memoria.inicial.correr k [.create, .add 0 (some 7), .add 0 (some 9),
          .takeAndRemove 0 1, .addAll 0 1, .remove 0 0] =
        some ([.lista 0, .numero 0, .numero 1, .lista 1, .nada, .dato (some 9)], m) ∧
        Representa m v) ∧
      ∀ m : Memoria Nat, Representa m v → ∀ o : Orden Nat,
        (∀ l ∈ o.usa, v.listas l ≠ none) → v.ejecutar o = none → ∀ k, m.ejecutar k o = none :=
  ⟨_, listas_son_secuencias _ _ _ rfl⟩

end LosAltos.Commons
