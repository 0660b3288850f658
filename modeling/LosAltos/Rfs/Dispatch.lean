import Mathlib.Data.List.Induction
import Mathlib.Data.List.Nodup
import Mathlib.Data.List.Perm.Basic
import Mathlib.Data.Multiset.Defs

/-!
# The hand-over of ready sockets to workers

`rfs/src/main_rfs.c:622-675, 872-913`. The event loop stores a ready descriptor in
`querySocket`, waits for `threads_count` and creates a worker that is given the address of
that variable; the worker reads the descriptor through it, serves it and posts the semaphore.
Every turn of the loop uses the same variable.
-/
namespace LosAltos.Rfs

/-- A worker, with the socket it read. -/
inductive Trabajador where
  | creado
  | atiende (socket : Int)
  | termino (socket : Int)
  deriving DecidableEq

def Trabajador.socket : Trabajador → Option Int
  | .creado => none
  | .atiende socket | .termino socket => some socket

/-- The event loop and its workers, in the order they were created. -/
structure Reparto where
  /-- Ready descriptors the loop has not come to. -/
  listos : List Int
  querySocket : Int
  /-- The loop stands between the store and `pthread_create`. -/
  guardado : Bool
  threadsCount : Nat
  trabajadores : List Trabajador
  /-- The descriptors stored so far. -/
  despachados : List Int
  deriving DecidableEq

inductive Acto where
  | guardar
  | crear
  | leer (w : Nat)
  | terminar (w : Nat)
  deriving DecidableEq

namespace Reparto

/-- A step that is not enabled has no result. -/
def paso (s : Reparto) : Acto → Option Reparto
  | .guardar =>
    match s.listos, s.guardado with
    | socket :: listos, false =>
      some { s with
        listos, querySocket := socket, guardado := true
        despachados := s.despachados ++ [socket] }
    | _, _ => none
  | .crear =>
    if s.guardado ∧ 0 < s.threadsCount then
      some { s with
        guardado := false, threadsCount := s.threadsCount - 1
        trabajadores := s.trabajadores ++ [.creado] }
    else none
  | .leer w =>
    if s.trabajadores[w]? = some .creado then
      some { s with trabajadores := s.trabajadores.set w (.atiende s.querySocket) }
    else none
  | .terminar w =>
    match s.trabajadores[w]? with
    | some (.atiende socket) =>
      some { s with
        threadsCount := s.threadsCount + 1
        trabajadores := s.trabajadores.set w (.termino socket) }
    | _ => none

def correr (s : Reparto) (orden : List Acto) : Option Reparto := orden.foldlM paso s

/-- The loop before it comes to the first of `listos`, whatever the variable holds. -/
def inicial (listos : List Int) (querySocket : Int) (threadsCount : Nat) : Reparto :=
  ⟨listos, querySocket, false, threadsCount, [], []⟩

/-- The loop has come to every descriptor and every worker has read its own. -/
def Completo (s : Reparto) : Prop :=
  s.listos = [] ∧ s.guardado = false ∧ .creado ∉ s.trabajadores

/-- The descriptors the workers read. -/
def leidos (s : Reparto) : List Int := s.trabajadores.filterMap Trabajador.socket

/-- Along the order no descriptor is stored while a worker has yet to read. -/
def LeenAntes (s : Reparto) : List Acto → Prop
  | [] => True
  | a :: orden => (a = .guardar → .creado ∉ s.trabajadores) ∧
    match s.paso a with
    | some t => LeenAntes t orden
    | none => True

variable {s t : Reparto} {a : Acto} {orden : List Acto}

/-- What each step does. -/
theorem paso_cases (run : s.paso a = some t) :
    (∃ socket listos, a = .guardar ∧ s.listos = socket :: listos ∧ s.guardado = false ∧
      t = { s with
        listos, querySocket := socket, guardado := true
        despachados := s.despachados ++ [socket] }) ∨
    (a = .crear ∧ s.guardado = true ∧
      t = { s with
        guardado := false, threadsCount := s.threadsCount - 1
        trabajadores := s.trabajadores ++ [.creado] }) ∨
    (∃ w, a = .leer w ∧ s.trabajadores[w]? = some .creado ∧
      t = { s with trabajadores := s.trabajadores.set w (.atiende s.querySocket) }) ∨
    ∃ w socket, a = .terminar w ∧ s.trabajadores[w]? = some (.atiende socket) ∧
      t = { s with
        threadsCount := s.threadsCount + 1
        trabajadores := s.trabajadores.set w (.termino socket) } := by
  cases a with
  | guardar =>
    rw [paso] at run
    split at run
    · rename_i socket listos first free
      cases run
      exact .inl ⟨socket, listos, rfl, first, free, rfl⟩
    · cases run
  | crear =>
    rw [paso] at run
    split at run
    · rename_i enabled
      cases run
      exact .inr (.inl ⟨rfl, enabled.1, rfl⟩)
    · cases run
  | leer w =>
    rw [paso] at run
    split at run
    · rename_i waiting
      cases run
      exact .inr (.inr (.inl ⟨w, rfl, waiting, rfl⟩))
    · cases run
  | terminar w =>
    rw [paso] at run
    split at run
    · rename_i socket serving
      cases run
      exact .inr (.inr (.inr ⟨w, socket, rfl, serving, rfl⟩))
    · cases run

/-- What worker `w` read, if it did. -/
def leyo (trabajadores : List Trabajador) (w : Nat) : Option Int :=
  trabajadores[w]?.bind Trabajador.socket

section
variable {ts : List Trabajador} {e : Trabajador} {w w' : Nat}

theorem leyo_append : leyo (ts ++ [.creado]) w = leyo ts w := by
  rw [leyo, leyo, List.getElem?_append]
  split
  · rfl
  · rename_i beyond
    rw [List.getElem?_eq_none (Nat.le_of_not_lt beyond), List.getElem?_singleton]
    split <;> rfl

theorem leyo_set (inside : w < ts.length) :
    leyo (ts.set w e) w' = if w' = w then e.socket else leyo ts w' := by
  rw [leyo, List.getElem?_set]
  split
  · rename_i same
    subst same
    simp
  · rename_i other
    rw [if_neg (Ne.symm other), leyo]

theorem leyo_waiting (waiting : ts[w]? = some .creado) : leyo ts w = none := by
  rw [leyo, waiting]
  rfl

theorem leyo_serving {socket : Int} (serving : ts[w]? = some (.atiende socket)) :
    leyo ts w = some socket := by
  rw [leyo, serving]
  rfl

/-- A worker that is done keeps what it read. -/
theorem leyo_terminar {socket : Int} (serving : ts[w]? = some (.atiende socket)) :
    leyo (ts.set w (.termino socket)) w' = leyo ts w' := by
  rw [leyo_set (List.getElem?_eq_some_iff.mp serving).1]
  split
  · rename_i same
    rw [same, leyo_serving serving]
    rfl
  · rfl

end

/-- A worker reads its own descriptor or a later one. -/
structure Marcha (sockets : List Int) (s : Reparto) : Prop where
  total : s.despachados ++ s.listos = sockets
  cuenta : s.despachados.length = s.trabajadores.length + if s.guardado then 1 else 0
  ultimo : s.trabajadores ≠ [] ∨ s.guardado → s.despachados.getLast? = some s.querySocket
  lectura : ∀ w socket, leyo s.trabajadores w = some socket →
    ∃ k, w ≤ k ∧ s.despachados[k]? = some socket

variable {sockets : List Int}

theorem getElem?_prefijo {l l' : List Int} {k : Nat} {v : Int} (here : l[k]? = some v) :
    (l ++ l')[k]? = some v := by
  rw [List.getElem?_append_left (List.getElem?_eq_some_iff.mp here).1]
  exact here

/-- The last descriptor stored is the one in the variable. -/
theorem Marcha.querySocket (going : Marcha sockets s) (some_worker : s.trabajadores ≠ []) :
    s.despachados[s.despachados.length - 1]? = some s.querySocket := by
  rw [← List.getLast?_eq_getElem?]
  exact going.ultimo (.inl some_worker)

theorem Marcha.paso (going : Marcha sockets s) (run : s.paso a = some t) : Marcha sockets t := by
  rcases paso_cases run with ⟨socket, listos, -, first, free, rfl⟩ | ⟨-, stored, rfl⟩ |
    ⟨w, -, waiting, rfl⟩ | ⟨w, socket, -, serving, rfl⟩
  · refine ⟨?_, ?_, fun _ => List.getLast?_concat, fun w fd read => ?_⟩
    · rw [← going.total, first, List.append_assoc]
      rfl
    · have count := going.cuenta
      rw [free] at count
      rw [List.length_append, count]
      rfl
    · obtain ⟨k, later, there⟩ := going.lectura w fd read
      exact ⟨k, later, getElem?_prefijo there⟩
  · refine ⟨going.total, ?_, fun _ => going.ultimo (.inr stored), fun w fd read => ?_⟩
    · have count := going.cuenta
      rw [stored] at count
      rw [List.length_append, count]
      rfl
    · rw [leyo_append] at read
      exact going.lectura w fd read
  · have inside := (List.getElem?_eq_some_iff.mp waiting).1
    have some_worker : s.trabajadores ≠ [] := List.ne_nil_of_length_pos (by omega)
    have last := going.querySocket some_worker
    have count := going.cuenta
    refine ⟨going.total, ?_, fun _ => going.ultimo (.inl some_worker), fun v fd read => ?_⟩
    · rw [List.length_set]
      exact count
    · rw [leyo_set inside] at read
      split at read
      · rename_i same
        cases read
        refine ⟨s.despachados.length - 1, ?_, last⟩
        split at count <;> omega
      · exact going.lectura v fd read
  · refine ⟨going.total, ?_, fun _ => going.ultimo (.inl ?_), fun v fd read => ?_⟩
    · rw [List.length_set]
      exact going.cuenta
    · have inside := (List.getElem?_eq_some_iff.mp serving).1
      exact List.ne_nil_of_length_pos (by omega)
    · rw [leyo_terminar serving] at read
      exact going.lectura v fd read

/-- Worker `w` has yet to read with the descriptor `j` stored, or read `j` or a later one. -/
def Atrasado (s : Reparto) (w j : Nat) : Prop :=
  (s.trabajadores[w]? = some .creado ∧ j < s.despachados.length) ∨
    ∃ socket, leyo s.trabajadores w = some socket ∧ ∃ k, j ≤ k ∧ s.despachados[k]? = some socket

theorem Atrasado.paso {w j : Nat} (late : Atrasado s w j) (going : Marcha sockets s)
    (run : s.paso a = some t) : Atrasado t w j := by
  rcases paso_cases run with ⟨socket, listos, -, first, free, rfl⟩ | ⟨-, stored, rfl⟩ |
    ⟨v, -, waiting, rfl⟩ | ⟨v, socket, -, serving, rfl⟩
  · rcases late with ⟨yet, below⟩ | ⟨fd, read, k, later, there⟩
    · refine .inl ⟨yet, ?_⟩
      rw [List.length_append]
      omega
    · exact .inr ⟨fd, read, k, later, getElem?_prefijo there⟩
  · rcases late with ⟨yet, below⟩ | ⟨fd, read, there⟩
    · refine .inl ⟨?_, below⟩
      rw [List.getElem?_append_left (List.getElem?_eq_some_iff.mp yet).1]
      exact yet
    · refine .inr ⟨fd, ?_, there⟩
      rw [leyo_append]
      exact read
  · have inside := (List.getElem?_eq_some_iff.mp waiting).1
    by_cases own : w = v
    · subst own
      rcases late with ⟨-, below⟩ | ⟨fd, read, -⟩
      · have last := going.querySocket (List.ne_nil_of_length_pos (by omega))
        refine .inr ⟨s.querySocket, ?_, s.despachados.length - 1, by omega, last⟩
        rw [leyo_set inside, if_pos rfl]
        rfl
      · rw [leyo_waiting waiting] at read
        cases read
    · rcases late with ⟨yet, below⟩ | ⟨fd, read, there⟩
      · refine .inl ⟨?_, below⟩
        rw [List.getElem?_set_ne (Ne.symm own)]
        exact yet
      · refine .inr ⟨fd, ?_, there⟩
        rw [leyo_set inside, if_neg own]
        exact read
  · rcases late with ⟨yet, below⟩ | ⟨fd, read, there⟩
    · have other : v ≠ w := by
        rintro rfl
        rw [yet] at serving
        cases serving
      refine .inl ⟨?_, below⟩
      rw [List.getElem?_set_ne other]
      exact yet
    · refine .inr ⟨fd, ?_, there⟩
      rw [leyo_terminar serving]
      exact read

/-- Every worker that has read has its own descriptor, and only the last one may yet read. -/
structure Puntual (s : Reparto) : Prop where
  propio : ∀ w socket, leyo s.trabajadores w = some socket → s.despachados[w]? = some socket
  espera : ∀ w, s.trabajadores[w]? = some .creado →
    w + 1 = s.despachados.length ∧ s.guardado = false

theorem Puntual.paso (prompt : Puntual s) (going : Marcha sockets s)
    (first : a = .guardar → .creado ∉ s.trabajadores) (run : s.paso a = some t) : Puntual t := by
  rcases paso_cases run with ⟨socket, listos, rfl, -, free, rfl⟩ | ⟨-, stored, rfl⟩ |
    ⟨v, -, waiting, rfl⟩ | ⟨v, socket, -, serving, rfl⟩
  · refine ⟨fun w fd read => getElem?_prefijo (prompt.propio w fd read), fun w yet => ?_⟩
    exact absurd (List.mem_of_getElem? yet) (first rfl)
  · refine ⟨fun w fd read => ?_, fun w yet => ⟨?_, rfl⟩⟩
    · rw [leyo_append] at read
      exact prompt.propio w fd read
    · have count := going.cuenta
      rw [stored] at count
      rw [List.getElem?_append] at yet
      split at yet
      · have := (prompt.espera w yet).2
        rw [stored] at this
        cases this
      · have inside := (List.getElem?_eq_some_iff.mp yet).1
        simp only [List.length_singleton, ↓reduceIte] at inside count
        show w + 1 = s.despachados.length
        omega
  · have inside := (List.getElem?_eq_some_iff.mp waiting).1
    obtain ⟨position, free⟩ := prompt.espera v waiting
    refine ⟨fun w fd read => ?_, fun w yet => ?_⟩
    · rw [leyo_set inside] at read
      split at read
      · rename_i own
        cases read
        have last := going.querySocket (List.ne_nil_of_length_pos (by omega))
        rwa [← position, Nat.add_sub_cancel, ← own] at last
      · exact prompt.propio w fd read
    · rw [List.getElem?_set] at yet
      split at yet
      · cases yet
      · exact prompt.espera w yet
  · refine ⟨fun w fd read => ?_, fun w yet => ?_⟩
    · rw [leyo_terminar serving] at read
      exact prompt.propio w fd read
    · have inside := (List.getElem?_eq_some_iff.mp serving).1
      rw [List.getElem?_set] at yet
      split at yet
      · cases yet
      · exact prompt.espera w yet

/-! ### Whole orders -/

theorem correr_cons : s.correr (a :: orden) = (s.paso a).bind (correr · orden) := by
  rw [correr, List.foldlM_cons]
  rfl

theorem Marcha.correr (going : Marcha sockets s) (run : s.correr orden = some t) :
    Marcha sockets t := by
  induction orden generalizing s with
  | nil =>
    cases run
    exact going
  | cons a orden ih =>
    rw [correr_cons, Option.bind_eq_some_iff] at run
    obtain ⟨next, step, rest⟩ := run
    exact ih (going.paso step) rest

theorem Atrasado.correr {w j : Nat} (late : Atrasado s w j) (going : Marcha sockets s)
    (run : s.correr orden = some t) : Atrasado t w j := by
  induction orden generalizing s with
  | nil =>
    cases run
    exact late
  | cons a orden ih =>
    rw [correr_cons, Option.bind_eq_some_iff] at run
    obtain ⟨next, step, rest⟩ := run
    exact ih (late.paso going step) (going.paso step) rest

theorem Puntual.correr (prompt : Puntual s) (going : Marcha sockets s)
    (before : s.LeenAntes orden) (run : s.correr orden = some t) : Puntual t := by
  induction orden generalizing s with
  | nil =>
    cases run
    exact prompt
  | cons a orden ih =>
    rw [correr_cons, Option.bind_eq_some_iff] at run
    obtain ⟨next, step, rest⟩ := run
    rw [LeenAntes, step] at before
    exact ih (prompt.paso going before.1 step) (going.paso step) before.2 rest

/-- A store that comes too early leaves a worker behind. -/
theorem leenAntes_or_atrasado (going : Marcha sockets s) (run : s.correr orden = some t) :
    s.LeenAntes orden ∨ ∃ w j, w < j ∧ Atrasado t w j := by
  induction orden generalizing s with
  | nil => exact .inl trivial
  | cons a orden ih =>
    rw [correr_cons, Option.bind_eq_some_iff] at run
    obtain ⟨next, step, rest⟩ := run
    by_cases early : a = .guardar ∧ .creado ∈ s.trabajadores
    · obtain ⟨rfl, waiting⟩ := early
      obtain ⟨w, here⟩ := List.mem_iff_getElem?.mp waiting
      have inside := (List.getElem?_eq_some_iff.mp here).1
      have count := going.cuenta
      rcases paso_cases step with ⟨socket, listos, -, -, free, stored⟩ | ⟨other, -⟩ |
        ⟨_, other, -⟩ | ⟨_, _, other, -⟩
      · rw [free] at count
        have below : w < s.despachados.length := count ▸ inside
        have late : Atrasado next w s.despachados.length := by
          rw [stored]
          exact .inl ⟨here, by simp⟩
        exact .inr ⟨w, _, below, late.correr (going.paso step) rest⟩
      · cases other
      · cases other
      · cases other
    · rw [LeenAntes, step]
      rcases ih (going.paso step) rest with before | behind
      · exact .inl ⟨fun store waiting => early ⟨store, waiting⟩, before⟩
      · exact .inr behind

/-- A rearrangement in which nothing comes after its place is no rearrangement. -/
theorem eq_of_perm_of_later {l ds : List Int} (perm : l.Perm ds) (distinct : ds.Nodup)
    (later : ∀ (w : Nat) (v : Int), l[w]? = some v → ∃ k, w ≤ k ∧ ds[k]? = some v) : l = ds := by
  induction l using List.reverseRecOn generalizing ds with
  | nil => exact (List.nil_perm.mp perm).symm
  | append_singleton l x ih =>
    have size := perm.length_eq
    obtain ⟨ds, y, rfl⟩ : ∃ ds' y, ds = ds' ++ [y] :=
      ⟨ds.dropLast, ds.getLast (by rintro rfl; simp at size), (List.dropLast_append_getLast _).symm⟩
    simp only [List.length_append, List.length_singleton, Nat.add_right_cancel_iff] at size
    -- the last one can only be the last one
    obtain ⟨k, after, there⟩ := later l.length x (by simp)
    have bound := (List.getElem?_eq_some_iff.mp there).1
    rw [List.length_append, List.length_singleton] at bound
    obtain rfl : k = ds.length := by omega
    obtain rfl : y = x := by simpa using there
    have fresh : y ∉ l := by
      have nodup := perm.nodup_iff.mpr distinct
      exact fun member => (List.nodup_append.mp nodup).2.2 y member y (by simp) rfl
    rw [ih ((List.perm_append_right_iff _).mp perm) (List.nodup_append.mp distinct).1]
    intro w v here
    obtain ⟨k, after, there⟩ := later w v (getElem?_prefijo here)
    refine ⟨k, after, ?_⟩
    rw [List.getElem?_append] at there
    split at there
    · exact there
    · have same : v = y := by
        have := (List.getElem?_eq_some_iff.mp there).1
        rw [List.getElem?_singleton] at there
        split at there
        · exact (Option.some.inj there).symm
        · cases there
      exact absurd (same ▸ List.mem_of_getElem? here) fresh

theorem inicial_marcha (listos : List Int) (querySocket : Int) (threadsCount : Nat) :
    Marcha listos (inicial listos querySocket threadsCount) where
  total := rfl
  cuenta := rfl
  ultimo := by simp [inicial]
  lectura := by simp [inicial, leyo]

theorem inicial_puntual (listos : List Int) (querySocket : Int) (threadsCount : Nat) :
    Puntual (inicial listos querySocket threadsCount) where
  propio := by simp [inicial, leyo]
  espera := by simp [inicial]

theorem filterMap_leyo {ts : List Trabajador} (read : .creado ∉ ts) (w : Nat) :
    (ts.filterMap Trabajador.socket)[w]? = leyo ts w := by
  induction ts generalizing w with
  | nil => rfl
  | cons e ts ih =>
    rw [List.mem_cons, not_or] at read
    have tail := ih read.2
    cases e with
    | creado => exact absurd rfl read.1
    | atiende socket | termino socket =>
      cases w with
      | zero => rfl
      | succ w => exact tail w

theorem length_le_of_leyo {ts : List Trabajador} {w : Nat} (read : .creado ∉ ts)
    (nothing : leyo ts w = none) : ts.length ≤ w := by
  cases here : ts[w]? with
  | none => exact List.getElem?_eq_none_iff.mp here
  | some e =>
    rw [leyo, here] at nothing
    cases e with
    | creado => exact absurd (List.mem_of_getElem? here) read
    | atiende socket | termino socket => cases nothing

theorem leidos_getElem? (done : s.Completo) (w : Nat) : s.leidos[w]? = leyo s.trabajadores w :=
  filterMap_leyo done.2.2 w

end Reparto

open Reparto

/-- The workers read the descriptors that were dispatched, each once, exactly when every worker
reads before the next store. -/
theorem atendidos_una_vez (sockets : List Int) (distinct : sockets.Nodup) (querySocket : Int)
    (threadsCount : Nat) (orden : List Acto) (final : Reparto)
    (run : (inicial sockets querySocket threadsCount).correr orden = some final)
    (done : final.Completo) :
    final.despachados = sockets ∧ ((final.leidos : Multiset Int) = final.despachados ↔
      (inicial sockets querySocket threadsCount).LeenAntes orden) := by
  have start := inicial_marcha sockets querySocket threadsCount
  have going := start.correr run
  have all : final.despachados = sockets := by
    rw [← going.total, done.1, List.append_nil]
  refine ⟨all, fun equal => ?_, fun before => ?_⟩
  · have same : final.leidos = sockets := by
      rw [all] at equal
      refine eq_of_perm_of_later (Multiset.coe_eq_coe.mp equal) distinct fun w v here => ?_
      rw [leidos_getElem? done] at here
      rw [← all]
      exact going.lectura w v here
    rcases leenAntes_or_atrasado start run with before | ⟨w, j, order, late⟩
    · exact before
    rcases late with ⟨yet, -⟩ | ⟨socket, read, k, after, there⟩
    · exact absurd (List.mem_of_getElem? yet) done.2.2
    · -- worker `w` read what stands at two places
      rw [← leidos_getElem? done, same] at read
      rw [all] at there
      have equal := (List.Nodup.getElem_inj_iff distinct).mp
        (((List.getElem?_eq_some_iff.mp read).2.trans (List.getElem?_eq_some_iff.mp there).2.symm))
      omega
  · have prompt := (inicial_puntual sockets querySocket threadsCount).correr start before run
    have count := going.cuenta
    rw [done.2.1] at count
    have same : final.leidos = final.despachados := by
      apply List.ext_getElem?
      intro w
      rw [leidos_getElem? done]
      cases read : leyo final.trabajadores w with
      | some socket => exact (prompt.propio w socket read).symm
      | none =>
        have beyond := length_le_of_leyo done.2.2 read
        rw [List.getElem?_eq_none (count ▸ beyond)]
    rw [same]

instance (s : Reparto) : Decidable s.Completo := inferInstanceAs (Decidable (_ ∧ _ ∧ _))

/-- Each of two workers reads before the loop goes on. -/
theorem atendidos_una_vez_dos : ∃ final, (inicial [7, 9] 0 1).correr
    [.guardar, .crear, .leer 0, .guardar, .terminar 0, .crear, .leer 1] = some final ∧
    (final.leidos : Multiset Int) = final.despachados := by
  have run : (inicial [7, 9] 0 1).correr
      [.guardar, .crear, .leer 0, .guardar, .terminar 0, .crear, .leer 1] =
      some ⟨[], 9, false, 0, [.termino 7, .atiende 9], [7, 9]⟩ := by decide
  refine ⟨_, run, (atendidos_una_vez [7, 9] (by decide) 0 1 _ _ run (by decide)).2.mpr ?_⟩
  simp [LeenAntes, inicial, paso]

/-- The second descriptor is stored before the first worker reads: it is served twice, and the
first one never, even with a single thread. -/
theorem atendido_dos_veces : ¬∀ (sockets : List Int), sockets.Nodup →
    ∀ (querySocket : Int) (threadsCount : Nat) (orden : List Acto) (final : Reparto),
      (inicial sockets querySocket threadsCount).correr orden = some final → final.Completo →
        (final.leidos : Multiset Int) = final.despachados := by
  intro all
  have run : (inicial [7, 9] 0 1).correr
      [.guardar, .crear, .guardar, .leer 0, .terminar 0, .crear, .leer 1] =
      some ⟨[], 9, false, 0, [.termino 9, .atiende 9], [7, 9]⟩ := by decide
  exact absurd (all [7, 9] (by decide) 0 1 _ _ run (by decide)) (by decide)

end LosAltos.Rfs
