import LosAltos.Commons.Lists

/-!
# Lists as sequences

A list of the commons is the sequence of what it holds: the elements of all the lists that exist
are chains of one memory, without any in common. What each call on one list answers and leaves.
-/
namespace LosAltos.Commons

open Lib

variable {α : Type}

/-! ### The sequences -/

structure Vista (α : Type) where
  listas : Nat → Option (List (Option α))
  proxima : Nat

/-- The value at an index, null outside. -/
def enIndice (xs : List (Option α)) (index : Int) : Option α :=
  if 0 ≤ index then (xs[index.toNat]?).join else none

/-- The first `n`, and a null for each one that is not there. -/
def primeros (xs : List (Option α)) (n : Nat) : List (Option α) :=
  xs.take n ++ List.replicate (n - xs.length) none

namespace Vista

def inicial : Vista α := ⟨fun _ => none, 0⟩

def pon (v : Vista α) (l : Nat) (xs : List (Option α)) : Vista α :=
  { v with listas := Function.update v.listas l (some xs) }

def quita (v : Vista α) (l : Nat) : Vista α :=
  { v with listas := Function.update v.listas l none }

/-- With a new list. -/
def nueva (v : Vista α) (xs : List (Option α)) : Vista α :=
  { v.pon v.proxima xs with proxima := v.proxima + 1 }
section
variable {v : Vista α} {l : Nat} {xs ys : List (Option α)}

theorem pon_mismo (viva : v.listas l = some xs) : v.pon l xs = v := by
  rw [pon, ← viva, Function.update_eq_self]

theorem pon_pon : (v.pon l xs).pon l ys = v.pon l ys := by
  rw [pon, pon, Function.update_idem]
  rfl

theorem nueva_pon : (v.nueva ys).pon v.proxima xs = v.nueva xs := by
  rw [nueva, nueva, pon, pon, pon, Function.update_idem]

theorem listas_pon : (v.pon l xs).listas l = some xs := Function.update_self ..

theorem pon_otra {j : Nat} (other : j ≠ l) : (v.pon l xs).pon j ys = (v.pon j ys).pon l xs := by
  rw [pon, pon, pon, pon, Function.update_comm other]

theorem pon_alternado {j : Nat} {zs ws : List (Option α)} (other : j ≠ l) :
    (((v.pon l xs).pon j zs).pon l ys).pon j ws = (v.pon l ys).pon j ws := by
  have swapped : ((v.pon l xs).pon j zs).pon l ys = ((v.pon l xs).pon l ys).pon j zs :=
    pon_otra other.symm
  rw [swapped, pon_pon, pon_pon]

theorem listas_pon_otra {j : Nat} (other : j ≠ l) : (v.pon l xs).listas j = v.listas j :=
  Function.update_of_ne other ..

end

end Vista

/-! ### What the memory holds -/

/-- The elements of each list, by address, for the sequences. -/
structure Sostiene (celdas : Nat → List (Nat × Option α)) (m : Memoria α) (v : Vista α) : Prop where
  cadenas : Chains m.elementos m.proximoElemento celdas
  listas : ∀ l, m.listas l = (v.listas l).map fun xs => ⟨first (celdas l) none, xs.length⟩
  datos : ∀ l, (celdas l).map Prod.snd = (v.listas l).getD []
  proxima : m.proximaLista = v.proxima
  nuevas : ∀ l, v.proxima ≤ l → v.listas l = none

def Representa (m : Memoria α) (v : Vista α) : Prop := ∃ celdas, Sostiene celdas m v

variable {celdas : Nat → List (Nat × Option α)} {m m' : Memoria α} {v : Vista α} {k l n : Nat}
  {xs ys : List (Option α)} {c pre suf : List (Nat × Option α)} {e : Nat × Option α} {a : Nat}
  {x : Option α} {condition : Option α → Bool}

namespace Sostiene

theorem inicial : Sostiene (fun _ => []) (Memoria.inicial : Memoria α) Vista.inicial where
  cadenas := Chains.empty
  listas _ := rfl
  datos _ := rfl
  proxima := rfl
  nuevas _ _ := rfl

theorem lista (s : Sostiene celdas m v) (viva : v.listas l = some xs) :
    m.listas l = some ⟨first (celdas l) none, xs.length⟩ := by
  rw [s.listas, viva]
  rfl

theorem dato (s : Sostiene celdas m v) (viva : v.listas l = some xs) :
    (celdas l).map Prod.snd = xs := by
  rw [s.datos, viva]
  rfl

theorem largo (s : Sostiene celdas m v) (viva : v.listas l = some xs) :
    (celdas l).length = xs.length := by
  rw [← s.dato viva, List.length_map]

/-- One list holds something else. -/
theorem pon (s : Sostiene celdas m v) (viva : v.listas l = some xs)
    (cadenas : Chains m'.elementos m'.proximoElemento (Function.update celdas l c))
    (datos : c.map Prod.snd = ys)
    (listas : m'.listas = Function.update m.listas l (some ⟨first c none, ys.length⟩))
    (proxima : m'.proximaLista = m.proximaLista) :
    Sostiene (Function.update celdas l c) m' (v.pon l ys) := by
  refine ⟨cadenas, fun j => ?_, fun j => ?_, proxima.trans s.proxima, fun j above => ?_⟩
  · rw [listas, Vista.pon]
    by_cases here : j = l
    · subst here
      simp only [Function.update_self, Option.map_some]
    · simp only [Function.update_of_ne here]
      exact s.listas j
  · rw [Vista.pon]
    by_cases here : j = l
    · subst here
      simp only [Function.update_self, Option.getD_some]
      exact datos
    · simp only [Function.update_of_ne here]
      exact s.datos j
  · rw [Vista.pon]
    have old := s.nuevas j above
    have here : j ≠ l := by
      rintro rfl
      rw [viva] at old
      cases old
    simp only [Function.update_of_ne here]
    exact old

theorem crea (s : Sostiene celdas m v) :
    m.listCreate.1 = v.proxima ∧ celdas v.proxima = [] ∧
      Sostiene celdas m.listCreate.2 (v.nueva []) := by
  have none_yet := s.nuevas v.proxima (Nat.le_refl _)
  have empty : celdas v.proxima = [] := by
    have data := s.datos v.proxima
    rw [none_yet] at data
    exact List.map_eq_nil_iff.mp data
  refine ⟨s.proxima, empty, s.cadenas, fun j => ?_, fun j => ?_, ?_, fun j above => ?_⟩
  · rw [Memoria.listCreate, Vista.nueva, Vista.pon, Memoria.ponLista, s.proxima]
    by_cases here : j = v.proxima
    · subst here
      simp only [Function.update_self, Option.map_some, empty]
      rfl
    · simp only [Function.update_of_ne here]
      exact s.listas j
  · rw [Vista.nueva, Vista.pon]
    by_cases here : j = v.proxima
    · subst here
      simp only [Function.update_self, empty]
      rfl
    · simp only [Function.update_of_ne here]
      exact s.datos j
  · exact congrArg (· + 1) s.proxima
  · have above : v.proxima + 1 ≤ j := above
    have here : j ≠ v.proxima := by omega
    rw [Vista.nueva, Vista.pon]
    simp only [Function.update_of_ne here]
    exact s.nuevas j (by omega)

theorem parte (s : Sostiene celdas m v) (viva : v.listas l = some xs) (dentro : n < xs.length) :
    ∃ pre e suf, celdas l = pre ++ e :: suf ∧ pre.length = n := by
  have inside : n < (celdas l).length := by rwa [s.largo viva]
  refine ⟨(celdas l).take n, (celdas l)[n], (celdas l).drop (n + 1), ?_, ?_⟩
  · rw [← List.drop_eq_getElem_cons, List.take_append_drop]
  · rw [List.length_take]
    omega

end Sostiene

/-! ### One list -/

theorem listGetElement_dentro (pre : List (Nat × Option α)) (e : Nat × Option α)
    (suf : List (Nat × Option α)) {cuenta : Nat}
    (lista : m.listas l = some ⟨first (pre ++ e :: suf) none, cuenta⟩)
    (enlazada : Linked m.elementos none (pre ++ e :: suf)) (dentro : pre.length < cuenta) :
    m.listGetElement l pre.length = some (some e.1) := by
  rw [Memoria.listGetElement, lista]
  simp only [Option.bind_eq_bind, Option.bind_some]
  rw [if_pos ⟨by omega, by omega⟩, Int.toNat_natCast, enlazada.walk_eq]
  rfl

theorem listGetElement_fuera {t : TList} (lista : m.listas l = some t) {index : Int}
    (fuera : ¬(index < t.elementsCount ∧ 0 ≤ index)) :
    m.listGetElement l index = some none := by
  rw [Memoria.listGetElement, lista]
  simp only [Option.bind_eq_bind, Option.bind_some]
  rw [if_neg fuera]

theorem listAdd_sostiene (s : Sostiene celdas m v) (viva : v.listas l = some xs)
    (x : Option α) :
    ∃ m', m.listAdd l x = some (xs.length, m') ∧
      Sostiene (Function.update celdas l (celdas l ++ [(m.proximoElemento, x)])) m'
        (v.pon l (xs ++ [x])) := by
  have lista := s.lista viva
  have data := s.dato viva
  have size := s.largo viva
  have creada : (m.listCreateElement x).2.listas l = m.listas l := rfl
  rw [Memoria.listAdd]
  simp only [creada, lista, Option.bind_eq_bind, Option.bind_some]
  rcases List.eq_nil_or_concat (celdas l) with empty | ⟨pre, e, parts⟩
  · have none_there : xs = [] := by rw [← data, empty]; rfl
    subst none_there
    rw [if_pos List.length_nil]
    refine ⟨_, rfl, s.pon viva ?_ ?_ ?_ rfl⟩
    · have new := s.cadenas.push (i := l) x
      rw [empty] at new ⊢
      exact new
    · rw [List.map_append, data]
      rfl
    · rw [empty]
      rfl
  · rw [List.concat_eq_append] at parts
    have some_there : xs.length ≠ 0 := by
      rw [← size, parts, List.length_append]
      simp
    have position : ((xs.length : Int) - 1) = pre.length := by
      rw [← size, parts, List.length_append, List.length_singleton]
      omega
    have linked := s.cadenas.linked l
    have last : (m.listCreateElement x).2.listGetElement l pre.length = some (some e.1) := by
      apply listGetElement_dentro pre e []
      · rw [creada, lista, parts]
      · rw [← parts]
        exact linked.update s.cadenas.new_out _
      · rw [← size, parts, List.length_append]
        simp
    have different : e.1 ≠ m.proximoElemento := by
      intro same
      apply s.cadenas.new_out (i := l)
      rw [← same, parts]
      simp
    have there : (m.listCreateElement x).2.elementos e.1 = some ⟨e.2, none⟩ := by
      rw [parts] at linked
      exact (Function.update_of_ne different ..).trans linked.cell
    rw [if_neg some_there, position]
    simp only [last, Option.bind_some, Memoria.listLinkElement, there, Option.map_some]
    refine ⟨_, rfl, s.pon viva ?_ ?_ ?_ rfl⟩
    · have new := s.cadenas.insert parts x
      rwa [List.append_cons, ← parts] at new
    · rw [List.map_append, data]
      rfl
    · have start : first (celdas l ++ [(m.proximoElemento, x)]) none = first (celdas l) none := by
        rw [parts, ← List.append_cons]
        exact first_middle ..
      rw [start, List.length_append]
      rfl

theorem enIndice_dentro (xs ys : List (Option α)) (x : Option α) :
    enIndice (xs ++ x :: ys) xs.length = x := by
  rw [enIndice, if_pos (Int.natCast_nonneg _), Int.toNat_natCast,
    List.getElem?_append_right (Nat.le_refl _), Nat.sub_self]
  rfl

theorem enIndice_fuera {index : Int} (fuera : ¬(index < xs.length ∧ 0 ≤ index)) :
    enIndice xs index = none := by
  unfold enIndice
  split
  · rw [List.getElem?_eq_none (by omega)]
    rfl
  · rfl

namespace Sostiene

/-- Where an index leads: a cell, or nowhere. -/
theorem indice (s : Sostiene celdas m v) (viva : v.listas l = some xs) (index : Int) :
    (∃ pre e suf, celdas l = pre ++ e :: suf ∧ index = pre.length ∧ enIndice xs index = e.2 ∧
      m.listGetElement l index = some (some e.1)) ∨
    (¬(index < xs.length ∧ 0 ≤ index) ∧ enIndice xs index = none ∧
      m.listGetElement l index = some none) := by
  by_cases dentro : index < xs.length ∧ 0 ≤ index
  · obtain ⟨n, rfl⟩ := Int.eq_ofNat_of_zero_le dentro.2
    have inside : n < xs.length := by omega
    obtain ⟨pre, e, suf, parts, rfl⟩ := s.parte viva inside
    refine .inl ⟨pre, e, suf, parts, rfl, ?_, ?_⟩
    · rw [← s.dato viva, parts, List.map_append, List.map_cons]
      have value := enIndice_dentro (pre.map Prod.snd) (suf.map Prod.snd) e.2
      rwa [List.length_map] at value
    · have lista := s.lista viva
      have linked := s.cadenas.linked l
      rw [parts] at lista linked
      exact listGetElement_dentro pre e suf lista linked inside
  · exact .inr ⟨dentro, enIndice_fuera dentro, listGetElement_fuera (s.lista viva) dentro⟩

theorem celda (s : Sostiene celdas m v) (parts : celdas l = pre ++ e :: suf) :
    m.elementos e.1 = some ⟨e.2, first suf none⟩ := by
  have linked := s.cadenas.linked l
  rw [parts] at linked
  exact linked.cell

end Sostiene

theorem listGet_eq (s : Sostiene celdas m v) (viva : v.listas l = some xs) (index : Int) :
    m.listGet l index = some (enIndice xs index) := by
  rw [Memoria.listGet]
  rcases s.indice viva index with ⟨pre, e, suf, parts, -, value, there⟩ | ⟨-, value, there⟩
  · rw [there, value]
    simp only [Option.bind_eq_bind, Option.bind_some, s.celda parts, Option.map_some]
  · rw [there, value]
    rfl

theorem listReplace_sostiene (s : Sostiene celdas m v) (viva : v.listas l = some xs)
    (index : Int) (x : Option α) :
    ∃ m', m.listReplace l index x = some (enIndice xs index, m') ∧
      Representa m' (v.pon l (if 0 ≤ index then xs.set index.toNat x else xs)) := by
  rw [Memoria.listReplace]
  rcases s.indice viva index with ⟨pre, e, suf, parts, rfl, value, there⟩ | ⟨out, value, there⟩
  · rw [there, value]
    simp only [Option.bind_eq_bind, Option.bind_some, s.celda parts]
    refine ⟨_, rfl, _, s.pon viva (s.cadenas.replace parts x) ?_ ?_ rfl⟩
    · rw [if_pos (Int.natCast_nonneg _), Int.toNat_natCast, ← s.dato viva, parts]
      simp
    · rw [if_pos (Int.natCast_nonneg _), List.length_set, first_replace pre suf e.1 x e.2,
        ← parts, ← s.lista viva, Function.update_eq_self]
      rfl
  · rw [there, value]
    refine ⟨m, rfl, celdas, ?_⟩
    have same : (if 0 ≤ index then xs.set index.toNat x else xs) = xs := by
      split
      · exact List.set_eq_of_length_le (by omega)
      · rfl
    rwa [same, Vista.pon_mismo viva]

/-! ### Searches -/

theorem listSize_eq (s : Sostiene celdas m v) (viva : v.listas l = some xs) :
    m.listSize l = some xs.length := by
  rw [Memoria.listSize, s.lista viva]
  rfl

theorem listIsEmpty_eq (s : Sostiene celdas m v) (viva : v.listas l = some xs) :
    m.listIsEmpty l = some xs.isEmpty := by
  rw [Memoria.listIsEmpty, listSize_eq s viva]
  cases xs <;> rfl

theorem listFindFrom_pasa (linked : Linked m.elementos none (pre ++ suf))
    (ninguno : ∀ e ∈ pre, condition e.2 = false) (turns : pre.length ≤ k) :
    m.listFindFrom condition k (first (pre ++ suf) none) n =
      m.listFindFrom condition (k - pre.length) (first suf none) (n + pre.length) := by
  induction pre generalizing k n with
  | nil => rfl
  | cons e pre ih =>
    have here : m.elementos e.1 = some ⟨e.2, first (pre ++ suf) none⟩ := linked.1
    have rest : Linked m.elementos none (pre ++ suf) := linked.2
    rw [List.length_cons] at turns
    obtain ⟨j, rfl⟩ : ∃ j, k = j + 1 := ⟨k - 1, by omega⟩
    rw [List.cons_append, first, Memoria.listFindFrom]
    simp only [here, Option.bind_eq_bind, Option.bind_some]
    rw [ninguno e List.mem_cons_self, if_neg Bool.false_ne_true,
      ih rest (fun e member => ninguno e (List.mem_cons_of_mem _ member)) (by omega),
      List.length_cons, Nat.add_sub_add_right, Nat.add_right_comm, Nat.add_assoc]

/-- The first element that meets the condition, or none. -/
theorem listFindElement_eq (s : Sostiene celdas m v) (viva : v.listas l = some xs)
    (turns : xs.length ≤ k) (condition : Option α → Bool) :
    (∃ pre e suf, celdas l = pre ++ e :: suf ∧ (∀ e ∈ pre, condition e.2 = false) ∧
      condition e.2 = true ∧ m.listFindElement k l condition = some (some e.1, pre.length)) ∨
    ((∀ x ∈ xs, condition x = false) ∧
      m.listFindElement k l condition = some (none, xs.length)) := by
  have linked := s.cadenas.linked l
  have size := s.largo viva
  rw [Memoria.listFindElement, s.lista viva]
  simp only [Option.bind_eq_bind, Option.bind_some]
  cases found : (celdas l).find? (fun e => condition e.2) with
  | some e =>
    obtain ⟨meets, pre, suf, parts, before⟩ := List.find?_eq_some_iff_append.mp found
    have before : ∀ e ∈ pre, condition e.2 = false := fun e member => by simpa using before e member
    rw [parts] at linked size ⊢
    rw [List.length_append, List.length_cons] at size
    refine .inl ⟨pre, e, suf, rfl, before, meets, ?_⟩
    rw [listFindFrom_pasa linked before (by omega)]
    obtain ⟨j, more⟩ : ∃ j, k - pre.length = j + 1 := ⟨k - pre.length - 1, by omega⟩
    have meets : condition e.2 = true := meets
    rw [more, first, Memoria.listFindFrom, (linked_append.mp linked).2.1]
    simp only [Option.bind_eq_bind, Option.bind_some]
    rw [if_pos meets, Nat.zero_add]
  | none =>
    have before : ∀ e ∈ celdas l, condition e.2 = false := fun e member => by
      simpa using List.find?_eq_none.mp found e member
    refine .inr ⟨fun x member => ?_, ?_⟩
    · rw [← s.dato viva] at member
      obtain ⟨e, inside, rfl⟩ := List.mem_map.mp member
      exact before e inside
    · have linked : Linked m.elementos none (celdas l ++ []) := by rwa [List.append_nil]
      have whole := listFindFrom_pasa (n := 0) (k := k) linked before (by omega)
      rw [List.append_nil] at whole
      rw [whole, size, Nat.zero_add]
      cases k - xs.length <;> rfl

theorem listFind_eq (s : Sostiene celdas m v) (viva : v.listas l = some xs)
    (turns : xs.length ≤ k) (condition : Option α → Bool) :
    m.listFind k l condition = some (xs.find? condition).join := by
  rw [Memoria.listFind]
  rcases listFindElement_eq s viva turns condition with
    ⟨pre, e, suf, parts, before, meets, found⟩ | ⟨before, found⟩
  · have value : xs.find? condition = some e.2 := by
      rw [← s.dato viva, parts, List.find?_eq_some_iff_append]
      refine ⟨meets, pre.map Prod.snd, suf.map Prod.snd, by simp, fun x member => ?_⟩
      obtain ⟨d, inside, rfl⟩ := List.mem_map.mp member
      rw [before d inside]
      rfl
    rw [found, value]
    simp only [Option.bind_eq_bind, Option.bind_some, s.celda parts, Option.map_some]
    rfl
  · have value : xs.find? condition = none := by
      rw [List.find?_eq_none]
      intro x member
      rw [before x member]
      exact Bool.false_ne_true
    rw [found, value]
    rfl

/-! ### Elements that come and go -/

theorem listAddInIndex_primero (s : Sostiene celdas m v) (viva : v.listas l = some xs)
    (llena : 0 < xs.length) (x : Option α) :
    ∃ m', m.listAddInIndex l 0 x = some m' ∧
      Sostiene (Function.update celdas l ((m.proximoElemento, x) :: celdas l)) m'
        (v.pon l (x :: xs)) := by
  have there : (m.listCreateElement x).2.elementos m.proximoElemento = some ⟨x, none⟩ :=
    Function.update_self ..
  rw [Memoria.listAddInIndex, s.lista viva]
  simp only [Option.bind_eq_bind, Option.bind_some]
  rw [if_pos ⟨by omega, Int.le_refl 0⟩]
  simp only [Memoria.listLinkElement, Memoria.listCreateElement] at there ⊢
  simp only [there, if_true, Option.map_some, Option.bind_some]
  refine ⟨_, rfl, s.pon viva ?_ ?_ rfl rfl⟩
  · have placed := s.cadenas.push (i := l) x
    dsimp only [Memoria.ponLista, Memoria.ponElemento]
    rwa [Function.update_idem]
  · rw [List.map_cons, s.dato viva]

/-- The new element goes after `e`, and before `d`. -/
theorem listAddInIndex_despues {d : Nat × Option α} (s : Sostiene celdas m v)
    (viva : v.listas l = some xs) (parts : celdas l = pre ++ e :: d :: suf) (x : Option α) :
    ∃ m', m.listAddInIndex l (pre.length + 1 : Nat) x = some m' ∧
      Sostiene (Function.update celdas l (pre ++ e :: (m.proximoElemento, x) :: d :: suf)) m'
        (v.pon l ((pre ++ e :: (m.proximoElemento, x) :: d :: suf).map Prod.snd)) := by
  have lista := s.lista viva
  have out := s.cadenas.new_out (i := l)
  have size := s.largo viva
  have creada : (m.listCreateElement x).2.listas l = m.listas l := rfl
  have linked : Linked (m.listCreateElement x).2.elementos none (pre ++ e :: d :: suf) := by
    rw [← parts]
    exact (s.cadenas.linked l).update out _
  rw [parts] at lista out size
  have inside : pre.length + 1 < xs.length := by
    rw [← size, List.length_append, List.length_cons, List.length_cons]
    omega
  have behind : (m.listCreateElement x).2.listGetElement l (pre.length + 1 : Nat) =
      some (some d.1) := by
    have whole := listGetElement_dentro (pre ++ [e]) d suf
      (creada.trans (by rw [lista, List.append_cons])) (by rwa [← List.append_cons])
      (by rw [List.length_append]; exact inside)
    rwa [List.length_append] at whole
  have before : (m.listCreateElement x).2.listGetElement l ((pre.length + 1 : Nat) - 1) =
      some (some e.1) := by
    rw [Int.natCast_succ, Int.add_sub_cancel]
    exact listGetElement_dentro pre e (d :: suf) (creada.trans lista) linked (by omega)
  have different : e.1 ≠ m.proximoElemento := by
    intro same
    apply out
    rw [← same]
    simp
  have there : (m.listCreateElement x).2.elementos e.1 = some ⟨e.2, some d.1⟩ := linked.cell
  have new : ((m.listCreateElement x).2.ponElemento e.1
      (some ⟨e.2, some m.proximoElemento⟩)).elementos m.proximoElemento = some ⟨x, none⟩ :=
    (Function.update_of_ne different.symm ..).trans (Function.update_self ..)
  have own : (m.listCreateElement x).1 = m.proximoElemento := rfl
  rw [Memoria.listAddInIndex, lista]
  simp only [Option.bind_eq_bind, Option.bind_some]
  rw [if_pos ⟨by omega, by omega⟩, if_neg (by omega)]
  simp only [behind, before, Option.bind_some, Memoria.listLinkElement, there, Option.map_some,
    own, new]
  refine ⟨_, rfl, s.pon viva ?_ rfl ?_ rfl⟩
  · have placed := s.cadenas.insert parts x
    dsimp only [Memoria.ponLista, Memoria.ponElemento, Memoria.listCreateElement]
    rw [Function.update_comm different, Function.update_idem]
    exact placed
  · have start : first (pre ++ e :: (m.proximoElemento, x) :: d :: suf) none =
        first (pre ++ e :: d :: suf) none := first_middle ..
    have longer : ((pre ++ e :: (m.proximoElemento, x) :: d :: suf).map Prod.snd).length =
        xs.length + 1 := by
      rw [← size, List.length_map, List.length_append, List.length_append]
      rfl
    rw [start, longer]
    rfl

theorem insertIdx_append (xs ys : List (Option α)) (x : Option α) :
    (xs ++ ys).insertIdx xs.length x = xs ++ x :: ys := by
  induction xs with
  | nil => rfl
  | cons y xs ih => rw [List.cons_append, List.length_cons, List.insertIdx_succ_cons, ih]; rfl

theorem listAddInIndex_sostiene (s : Sostiene celdas m v) (viva : v.listas l = some xs)
    (index : Int) (x : Option α) :
    ∃ m', m.listAddInIndex l index x = some m' ∧ Representa m'
      (v.pon l (if 0 ≤ index ∧ index < xs.length then xs.insertIdx index.toNat x else xs)) := by
  by_cases dentro : 0 ≤ index ∧ index < xs.length
  · obtain ⟨n, rfl⟩ := Int.eq_ofNat_of_zero_le dentro.1
    have inside : n < xs.length := by omega
    rw [if_pos dentro, Int.toNat_natCast]
    cases n with
    | zero =>
      obtain ⟨m', added, kept⟩ := listAddInIndex_primero s viva inside x
      exact ⟨m', added, _, kept⟩
    | succ n =>
      obtain ⟨pre, e, rest, parts, rfl⟩ := s.parte viva (n := n) (by omega)
      have size := s.largo viva
      rw [parts, List.length_append, List.length_cons] at size
      cases rest with
      | nil =>
        rw [List.length_nil] at size
        omega
      | cons d suf =>
        obtain ⟨m', added, kept⟩ := listAddInIndex_despues s viva parts x
        have place := insertIdx_append ((pre ++ [e]).map Prod.snd) ((d :: suf).map Prod.snd) x
        rw [List.length_map, List.length_append, List.length_singleton, ← List.map_append,
          ← List.append_cons, ← parts, s.dato viva] at place
        rw [place]
        rw [List.append_cons, List.map_append] at kept
        exact ⟨m', added, _, kept⟩
  · rw [if_neg dentro, Vista.pon_mismo viva, Memoria.listAddInIndex, s.lista viva]
    simp only [Option.bind_eq_bind, Option.bind_some]
    rw [if_neg fun both => dentro both.symm]
    exact ⟨m, rfl, celdas, s⟩

/-- The element of an index goes, and its data is the answer. -/
theorem listRemove_sostiene (s : Sostiene celdas m v) (viva : v.listas l = some xs)
    (parts : celdas l = pre ++ e :: suf) :
    ∃ m', m.listRemove l pre.length = some (e.2, m') ∧
      Sostiene (Function.update celdas l (pre ++ suf)) m'
        (v.pon l ((pre ++ suf).map Prod.snd)) := by
  have lista := s.lista viva
  have linked := s.cadenas.linked l
  have size := s.largo viva
  have head : ∃ a, first (celdas l) none = some a := by
    rw [parts]
    cases pre <;> exact ⟨_, rfl⟩
  obtain ⟨a, head⟩ := head
  have there : m.listGetElement l pre.length = some (some e.1) := by
    rw [parts] at lista linked
    apply listGetElement_dentro pre e suf lista linked
    rw [← size, parts, List.length_append, List.length_cons]
    omega
  have less : xs.length - 1 = ((pre ++ suf).map Prod.snd).length := by
    rw [← size, parts, List.length_map, List.length_append, List.length_append, List.length_cons]
    omega
  rw [Memoria.listRemove, lista]
  simp only [Option.bind_eq_bind, Option.bind_some, head, reduceCtorEq, if_false, there,
    s.celda parts]
  rcases List.eq_nil_or_concat pre with rfl | ⟨before, d, rfl⟩
  · rw [List.length_nil, if_pos Int.natCast_zero, less]
    exact ⟨_, rfl, s.pon viva (s.cadenas.pop parts) rfl rfl rfl⟩
  · rw [List.concat_eq_append] at parts less ⊢
    have again : celdas l = before ++ d :: e :: suf := by rw [parts]; simp
    have previous : m.listGetElement l (((before ++ [d]).length : Nat) - 1) = some (some d.1) := by
      rw [List.length_append, List.length_singleton, Int.natCast_succ, Int.add_sub_cancel]
      rw [again] at lista linked
      apply listGetElement_dentro before d (e :: suf) lista linked
      rw [← size, again, List.length_append, List.length_cons]
      omega
    have index : ((before ++ [d]).length : Int) ≠ 0 := by
      rw [List.length_append, List.length_singleton]
      omega
    rw [if_neg index]
    simp only [previous, Option.bind_some, Memoria.listLinkElement, s.celda again, Option.map_some]
    rw [less]
    refine ⟨_, rfl, s.pon viva ?_ rfl ?_ rfl⟩
    · have placed := s.cadenas.remove again
      rwa [List.append_cons] at placed
    · rw [← head, again, ← List.append_cons, first_middle before d suf (e :: suf) none none]
      rfl

theorem eraseIdx_append (xs ys : List (Option α)) (x : Option α) :
    (xs ++ x :: ys).eraseIdx xs.length = xs ++ ys := by
  rw [List.eraseIdx_append_of_length_le (Nat.le_refl _), Nat.sub_self, List.eraseIdx_cons_zero]

theorem listRemove_indice (s : Sostiene celdas m v) (viva : v.listas l = some xs) {index : Int}
    (dentro : 0 ≤ index ∧ index < xs.length) :
    ∃ m', m.listRemove l index = some (enIndice xs index, m') ∧
      Representa m' (v.pon l (xs.eraseIdx index.toNat)) := by
  rcases s.indice viva index with ⟨pre, e, suf, parts, rfl, value, -⟩ | ⟨out, -⟩
  · obtain ⟨m', removed, kept⟩ := listRemove_sostiene s viva parts
    have erased := eraseIdx_append (pre.map Prod.snd) (suf.map Prod.snd) e.2
    rw [List.length_map, ← List.map_cons, ← List.map_append, ← parts, s.dato viva,
      ← List.map_append] at erased
    rw [← erased] at kept
    rw [Int.toNat_natCast, value]
    exact ⟨m', removed, _, kept⟩
  · exact absurd dentro.symm out

theorem listRemove_vacia (s : Sostiene celdas m v) (viva : v.listas l = some []) (index : Int) :
    m.listRemove l index = some (none, m) := by
  have empty : celdas l = [] := List.map_eq_nil_iff.mp (s.dato viva)
  rw [Memoria.listRemove, s.lista viva, empty]
  rfl

/-- An index that is not there leads to a null pointer. -/
theorem listRemove_fuera (s : Sostiene celdas m v) (viva : v.listas l = some xs) (llena : xs ≠ [])
    {index : Int} (fuera : ¬(0 ≤ index ∧ index < xs.length)) : m.listRemove l index = none := by
  have head : first (celdas l) none ≠ none := by
    cases parts : celdas l with
    | nil =>
      have data := s.dato viva
      rw [parts] at data
      exact absurd data.symm llena
    | cons e c => exact Option.some_ne_none _
  have out : ¬(index < xs.length ∧ 0 ≤ index) := fun both => fuera both.symm
  rw [Memoria.listRemove, s.lista viva]
  simp only [Option.bind_eq_bind, Option.bind_some]
  rw [if_neg head, listGetElement_fuera (s.lista viva) out]
  rfl

theorem enIndice_cero (xs : List (Option α)) : enIndice xs 0 = xs.head?.join := by
  cases xs <;> rfl

theorem queuePeek_eq (s : Sostiene celdas m v) (viva : v.listas l = some xs) :
    m.queuePeek l = some xs.head?.join := by
  rw [Memoria.queuePeek, listGet_eq s viva, enIndice_cero]

theorem queuePop_sostiene (s : Sostiene celdas m v) (viva : v.listas l = some xs) :
    ∃ m', m.queuePop l = some (xs.head?.join, m') ∧ Representa m' (v.pon l xs.tail) := by
  cases xs with
  | nil =>
    refine ⟨m, listRemove_vacia s viva 0, celdas, ?_⟩
    rwa [List.tail_nil, Vista.pon_mismo viva]
  | cons x xs => exact listRemove_indice s viva ⟨Int.le_refl 0, by simp⟩

theorem listRemoveByCondition_sostiene (s : Sostiene celdas m v) (viva : v.listas l = some xs)
    (turns : xs.length ≤ k) (condition : Option α → Bool) :
    ∃ m', m.listRemoveByCondition k l condition = some ((xs.find? condition).join, m') ∧
      Representa m' (v.pon l (xs.eraseP condition)) := by
  rw [Memoria.listRemoveByCondition]
  rcases listFindElement_eq s viva turns condition with
    ⟨pre, e, suf, parts, before, meets, found⟩ | ⟨before, found⟩
  · obtain ⟨m', removed, kept⟩ := listRemove_sostiene s viva parts
    have before : ∀ x ∈ pre.map Prod.snd, condition x = false := fun x member => by
      obtain ⟨d, inside, rfl⟩ := List.mem_map.mp member
      exact before d inside
    have value : xs.find? condition = some e.2 := by
      rw [← s.dato viva, parts, List.find?_eq_some_iff_append]
      exact ⟨meets, pre.map Prod.snd, suf.map Prod.snd, by simp, fun x member => by
        rw [before x member]
        rfl⟩
    have erased : xs.eraseP condition = (pre ++ suf).map Prod.snd := by
      rw [← s.dato viva, parts, List.map_append, List.map_cons, List.eraseP_append_right,
        List.eraseP_cons_of_pos meets, List.map_append]
      intro x member
      rw [before x member]
      exact Bool.false_ne_true
    rw [found, value, erased]
    exact ⟨m', removed, _, kept⟩
  · have value : xs.find? condition = none := by
      rw [List.find?_eq_none]
      intro x member
      rw [before x member]
      exact Bool.false_ne_true
    have whole : xs.eraseP condition = xs := by
      apply List.eraseP_of_forall_not
      intro x member
      rw [before x member]
      exact Bool.false_ne_true
    rw [found, value, whole, Vista.pon_mismo viva]
    exact ⟨m, rfl, celdas, s⟩

theorem listCleanFrom_cadenas (cadenas : Chains m.elementos m.proximoElemento celdas)
    (parts : celdas l = c) (turns : c.length ≤ k) :
    ∃ h, Memoria.listCleanFrom k (first c none) m = some { m with elementos := h } ∧
      Chains h m.proximoElemento (Function.update celdas l []) := by
  induction c generalizing m celdas k with
  | nil =>
    refine ⟨m.elementos, by cases k <;> rfl, ?_⟩
    rwa [← parts, Function.update_eq_self]
  | cons e c ih =>
    rw [List.length_cons] at turns
    obtain ⟨j, rfl⟩ : ∃ j, k = j + 1 := ⟨k - 1, by omega⟩
    have linked := cadenas.linked l
    rw [parts] at linked
    have shorter : c.length ≤ j := by omega
    obtain ⟨h, cleaned, kept⟩ := ih (m := m.ponElemento e.1 none) (cadenas.pop parts)
      (Function.update_self ..) shorter
    rw [Function.update_idem] at kept
    refine ⟨h, ?_, kept⟩
    rw [first, Memoria.listCleanFrom, linked.1]
    exact cleaned

theorem listClean_sostiene (s : Sostiene celdas m v) (viva : v.listas l = some xs)
    (turns : xs.length ≤ k) :
    ∃ m', m.listClean k l = some m' ∧ Sostiene (Function.update celdas l []) m' (v.pon l []) := by
  obtain ⟨h, cleaned, kept⟩ := listCleanFrom_cadenas (k := k) s.cadenas (rfl : celdas l = _)
    (by rwa [s.largo viva])
  rw [Memoria.listClean, s.lista viva]
  simp only [Option.bind_eq_bind, Option.bind_some, cleaned]
  exact ⟨_, rfl, s.pon viva kept rfl rfl rfl⟩

theorem listDestroy_sostiene (s : Sostiene celdas m v) (viva : v.listas l = some xs)
    (turns : xs.length ≤ k) :
    ∃ m', m.listDestroy k l = some m' ∧ Representa m' (v.quita l) := by
  obtain ⟨m', cleaned, kept⟩ := listClean_sostiene s viva turns
  rw [Memoria.listDestroy, cleaned]
  refine ⟨_, rfl, _, kept.cadenas, fun j => ?_, fun j => ?_, kept.proxima, fun j above => ?_⟩
  · simp only [Memoria.ponLista, Vista.quita]
    by_cases here : j = l
    · subst here
      simp only [Function.update_self, Option.map_none]
    · have same := kept.listas j
      rw [Vista.listas_pon_otra here] at same
      simp only [Function.update_of_ne here] at same ⊢
      exact same
  · rw [Vista.quita]
    by_cases here : j = l
    · subst here
      simp only [Function.update_self]
      rfl
    · have same := kept.datos j
      rw [Vista.listas_pon_otra here] at same
      simp only [Function.update_of_ne here] at same ⊢
      exact same
  · rw [Vista.quita]
    by_cases here : j = l
    · subst here
      exact Function.update_self ..
    · simp only [Function.update_of_ne here]
      exact s.nuevas j above

end LosAltos.Commons
