import LosAltos.Commons.ListRuns
import Mathlib.Data.List.ReduceOption

/-!
# Queues are first in, first out

`queue.c:64-99`. An empty queue answers a null pointer to a pop, so that what is null is not
counted.
-/
namespace LosAltos.Commons

variable {α : Type} {q : Nat}

/-- Whatever is done to other lists, the queue is only pushed to, popped from and read. -/
def Orden.Encola (q : Nat) : Orden α → Prop
  | .add self _ | .addAll self _ | .addInIndex self _ _ | .replace self _ _ | .remove self _
  | .removeByCondition self _ | .clean self | .destroy self | .takeAndRemove self _ => self ≠ q
  | _ => True

/-- What a call pushes. -/
def Orden.puesto (q : Nat) : Orden α → List (Option α)
  | .push self element => if self = q then [element] else []
  | _ => []

/-- What a call pops. -/
def Orden.sacado (q : Nat) : Orden α → Respuesta α → List (Option α)
  | .pop self, .dato data => if self = q then [data] else []
  | _, _ => []

def puestos (q : Nat) (os : List (Orden α)) : List (Option α) := os.flatMap (·.puesto q)

def sacados (q : Nat) (os : List (Orden α)) (rs : List (Respuesta α)) : List (Option α) :=
  (os.zip rs).flatMap fun (o, r) => o.sacado q r

variable {v v' : Vista α} {o : Orden α} {r : Respuesta α} {xs ys : List (Option α)} {l : Nat}

/-- A call that is not on the queue. -/
theorem cola_igual (cola : v'.listas q = some xs) (nada : o.sacado q r = [])
    (nadie : o.puesto q = []) :
    ∃ ys, v'.listas q = some ys ∧
      (o.sacado q r).reduceOption ++ ys.reduceOption =
        xs.reduceOption ++ (o.puesto q).reduceOption := by
  refine ⟨xs, cola, ?_⟩
  rw [nada, nadie, List.reduceOption_nil, List.append_nil]
  rfl

/-- One call: what is popped and what is left are what was there and what is pushed. -/
theorem ejecutar_cola (rep : ∃ m, Representa m v) (cola : v.listas q = some xs)
    (respeta : o.Encola q) (answered : v.ejecutar o = some (r, v')) :
    ∃ ys, v'.listas q = some ys ∧
      (o.sacado q r).reduceOption ++ ys.reduceOption =
        xs.reduceOption ++ (o.puesto q).reduceOption := by
  obtain ⟨m, celdas, s⟩ := rep
  have nueva : ∀ ys, (v.nueva ys).listas q = some xs := fun ys => listas_nueva s cola
  cases o with
  | create =>
    cases answered
    exact cola_igual (nueva _) rfl rfl
  | push self element =>
    obtain ⟨zs, viva, answered⟩ := Option.map_eq_some_iff.mp answered
    cases answered
    by_cases here : self = q
    · subst here
      cases cola.symm.trans viva
      refine ⟨_, Vista.listas_pon, ?_⟩
      rw [Orden.puesto, if_pos rfl, List.reduceOption_append]
      rfl
    · exact cola_igual ((Vista.listas_pon_otra (Ne.symm here)).trans cola) rfl (if_neg here)
  | pop self =>
    obtain ⟨zs, viva, answered⟩ := Option.map_eq_some_iff.mp answered
    cases answered
    by_cases here : self = q
    · subst here
      cases cola.symm.trans viva
      have nadie : Orden.puesto self (.pop self : Orden α) = [] := rfl
      refine ⟨_, Vista.listas_pon, ?_⟩
      rw [Orden.sacado, if_pos rfl, nadie, List.reduceOption_nil, List.append_nil,
        ← List.reduceOption_append]
      cases xs <;> rfl
    · exact cola_igual ((Vista.listas_pon_otra (Ne.symm here)).trans cola) (if_neg here) rfl
  | remove self index =>
    obtain ⟨zs, viva, answered⟩ := Option.bind_eq_some_iff.mp answered
    split at answered
    · cases answered
      exact cola_igual cola rfl rfl
    · split at answered
      · cases answered
        exact cola_igual ((Vista.listas_pon_otra (Ne.symm respeta)).trans cola) rfl rfl
      · cases answered
  | addAll self other =>
    obtain ⟨zs, viva, answered⟩ := Option.bind_eq_some_iff.mp answered
    obtain ⟨ys, origen, answered⟩ := Option.bind_eq_some_iff.mp answered
    split at answered
    · cases answered
    · cases answered
      exact cola_igual ((Vista.listas_pon_otra (Ne.symm respeta)).trans cola) rfl rfl
  | get | find | size | isEmpty | peek =>
    obtain ⟨zs, viva, answered⟩ := Option.map_eq_some_iff.mp answered
    cases answered
    exact cola_igual cola rfl rfl
  | add | addInIndex | replace | removeByCondition | clean =>
    obtain ⟨zs, viva, answered⟩ := Option.map_eq_some_iff.mp answered
    cases answered
    exact cola_igual ((Vista.listas_pon_otra (Ne.symm respeta)).trans cola) rfl rfl
  | destroy =>
    obtain ⟨zs, viva, answered⟩ := Option.map_eq_some_iff.mp answered
    cases answered
    exact cola_igual ((Function.update_of_ne (Ne.symm respeta) ..).trans cola) rfl rfl
  | take | filter | map =>
    obtain ⟨zs, viva, answered⟩ := Option.map_eq_some_iff.mp answered
    cases answered
    exact cola_igual (nueva _) rfl rfl
  | takeAndRemove self count =>
    obtain ⟨zs, viva, answered⟩ := Option.map_eq_some_iff.mp answered
    cases answered
    have other : q ≠ v.proxima := nueva_otra s cola
    exact cola_igual ((Vista.listas_pon_otra other).trans
      ((Vista.listas_pon_otra (Ne.symm respeta)).trans cola)) rfl rfl

theorem correr_cola {os : List (Orden α)} {rs : List (Respuesta α)} (rep : ∃ m, Representa m v)
    (cola : v.listas q = some xs) (respetan : ∀ o ∈ os, o.Encola q)
    (answered : v.correr os = some (rs, v')) :
    ∃ ys, v'.listas q = some ys ∧
      (sacados q os rs).reduceOption ++ ys.reduceOption =
        xs.reduceOption ++ (puestos q os).reduceOption := by
  induction os generalizing v xs rs with
  | nil =>
    cases answered
    exact ⟨xs, cola, (List.append_nil _).symm⟩
  | cons o os ih =>
    obtain ⟨⟨r, v1⟩, one, answered⟩ := Option.bind_eq_some_iff.mp answered
    obtain ⟨⟨rest, v2⟩, others, answered⟩ := Option.bind_eq_some_iff.mp answered
    cases answered
    obtain ⟨zs, there, first⟩ := ejecutar_cola rep cola (respetan o List.mem_cons_self) one
    obtain ⟨m, rep⟩ := rep
    obtain ⟨n, called⟩ := ejecutar_representa one
    obtain ⟨m1, -, rep1⟩ := called m n rep (Nat.le_refl n)
    obtain ⟨ys, last, second⟩ := ih ⟨m1, rep1⟩ there
      (fun o member => respetan o (List.mem_cons_of_mem _ member)) others
    refine ⟨ys, last, ?_⟩
    rw [sacados, puestos, List.zip_cons_cons, List.flatMap_cons, List.flatMap_cons,
      List.reduceOption_append, List.reduceOption_append, List.append_assoc]
    calc (o.sacado q r).reduceOption ++ ((sacados q os rest).reduceOption ++ ys.reduceOption)
        = (o.sacado q r).reduceOption ++ (zs.reduceOption ++ (puestos q os).reduceOption) := by
          rw [second]
      _ = xs.reduceOption ++ ((o.puesto q).reduceOption ++ (puestos q os).reduceOption) := by
          rw [← List.append_assoc, first, List.append_assoc]

theorem correr_append {os os' : List (Orden α)} {rs rs' : List (Respuesta α)} {v1 : Vista α}
    (first : v.correr os = some (rs, v1)) (second : v1.correr os' = some (rs', v')) :
    v.correr (os ++ os') = some (rs ++ rs', v') := by
  induction os generalizing v rs with
  | nil =>
    cases first
    exact second
  | cons o os ih =>
    obtain ⟨⟨r, v2⟩, one, first⟩ := Option.bind_eq_some_iff.mp first
    obtain ⟨⟨rest, v3⟩, others, first⟩ := Option.bind_eq_some_iff.mp first
    cases first
    rw [List.cons_append, Vista.correr, one]
    simp only [Option.bind_eq_bind, Option.bind_some, ih others]
    rfl

/-- Nothing pushed to a queue is lost, comes twice or comes before what was pushed before it,
whatever is done meanwhile to other lists. -/
theorem cola_fifo (q : Nat) (previas os : List (Orden α)) (rs₀ rs : List (Respuesta α))
    (v₀ v : Vista α) (previo : Vista.inicial.correr previas = some (rs₀, v₀))
    (vacia : v₀.listas q = some []) (respetan : ∀ o ∈ os, o.Encola q)
    (sigue : v₀.correr os = some (rs, v)) :
    ∃ xs, v.listas q = some xs ∧
      (sacados q os rs).reduceOption ++ xs.reduceOption = (puestos q os).reduceOption ∧
      ∃ n, ∀ k ≥ n, ∃ m, Memoria.inicial.correr k (previas ++ os) = some (rs₀ ++ rs, m) ∧
        Representa m v := by
  obtain ⟨n, run⟩ := correr_representa previo
  obtain ⟨m, -, rep⟩ := run _ n ⟨_, Sostiene.inicial⟩ (Nat.le_refl n)
  obtain ⟨xs, last, kept⟩ := correr_cola ⟨m, rep⟩ vacia respetan sigue
  obtain ⟨j, whole⟩ := correr_representa (correr_append previo sigue)
  exact ⟨xs, last, kept, j, fun k turns => whole _ k ⟨_, Sostiene.inicial⟩ turns⟩

/-- Two values go in, another list takes a copy, and the first one comes out. -/
theorem cola_fifo_dos :
    let os : List (Orden Nat) := [.push 0 (some 7), .push 0 (some 9), .addAll 1 0, .pop 0]
    ∃ v : Vista Nat, ∃ xs, v.listas 0 = some xs ∧
      (sacados 0 os [.nada, .nada, .nada, .dato (some 7)]).reduceOption ++
        xs.reduceOption = (puestos 0 os).reduceOption ∧
      ∃ n, ∀ k ≥ n, ∃ m, Memoria.inicial.correr k ([.create, .create] ++ os) =
        some ([.lista 0, .lista 1] ++ [.nada, .nada, .nada, .dato (some 7)], m) ∧
          Representa m v :=
  ⟨_, cola_fifo 0 [.create, .create] _ _ _ _ _ rfl rfl (by simp [Orden.Encola]) rfl⟩

end LosAltos.Commons
