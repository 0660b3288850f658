import Mathlib.Algebra.BigOperators.Group.Finset.Basic
import Mathlib.Algebra.Order.BigOperators.Group.Finset
import Mathlib.Data.Fintype.Basic
import Mathlib.Data.Finset.Max
import Mathlib.Logic.Relation

/-!
# Locks taken in one order

Threads take read-write locks and give them back. Where every lock a thread takes ranks above
those it holds, and a thread ends with none, the threads cannot all wait: one that wants a lock
of the highest rank finds it free. What the code of a thread takes and gives back is read off it
function by function, with a rule for each way of putting code together.
-/
namespace LosAltos.Lib

inductive LockAction (L : Type) where
  | read (l : L)
  | write (l : L)
  | free (l : L)

/-- What is left of the code of a function when only its locks are looked at. -/
inductive LockCode (L : Type) where
  | skip
  | act (a : LockAction L)
  | seq (a b : LockCode L)
  | choice (a b : LockCode L)
  | loop (a : LockCode L)

/-- The locks held, with `true` where for writing, and what is still to do. -/
structure Thread (L : Type) where
  held : List (L × Bool)
  rest : List (LockAction L)

namespace LockCode

variable {L : Type}

def opt (a : LockCode L) : LockCode L := choice a skip

/-- `a` with the lock held. -/
def locked (l : L) (a : LockCode L) : LockCode L := seq (act (.write l)) (seq a (act (.free l)))

inductive Runs : LockCode L → List (LockAction L) → Prop where
  | skip : Runs skip []
  | act (a : LockAction L) : Runs (act a) [a]
  | seq {a b : LockCode L} {s t : List (LockAction L)} : Runs a s → Runs b t →
      Runs (seq a b) (s ++ t)
  | left {a b : LockCode L} {s : List (LockAction L)} : Runs a s → Runs (choice a b) s
  | right {a b : LockCode L} {t : List (LockAction L)} : Runs b t → Runs (choice a b) t
  | done {a : LockCode L} : Runs (loop a) []
  | again {a : LockCode L} {s t : List (LockAction L)} : Runs a s → Runs (loop a) t →
      Runs (loop a) (s ++ t)

end LockCode

section
variable {L : Type} [DecidableEq L]

/-- The locks held after an action. -/
def after (held : List (L × Bool)) : LockAction L → List (L × Bool)
  | .read l => (l, false) :: held
  | .write l => (l, true) :: held
  | .free l => held.eraseP (·.1 = l)

variable (rank : L → Nat)

/-- A lock taken ranks above those held; one given back is held. -/
def Allowed (held : List (L × Bool)) : LockAction L → Prop
  | .read l | .write l => ∀ m ∈ held, rank m.1 < rank l
  | .free l => ∃ m ∈ held, m.1 = l

/-- Every action is allowed where it is done, and no lock is held at the end. -/
def Ordered : List (L × Bool) → List (LockAction L) → Prop
  | held, [] => held = []
  | held, a :: rest => Allowed rank held a ∧ Ordered (after held a) rest

/-- After any run of the code from `held` on, the thread goes on from `then_`. -/
def Leads (held : List (L × Bool)) (code : LockCode L) (then_ : List (L × Bool)) : Prop :=
  ∀ t, code.Runs t → ∀ rest, Ordered rank then_ rest → Ordered rank held (t ++ rest)

/-- The code may be called with any locks of a rank below `k`, and gives back what it takes. -/
def Balanced (k : Nat) (code : LockCode L) : Prop :=
  ∀ held, (∀ m ∈ held, rank m.1 < k) → Leads rank held code held

variable {rank} {held then_ last : List (L × Bool)} {a b c : LockCode L} {k n : Nat} {l : L}

/-! ### One rule for each kind of code -/

namespace Leads

theorem skip : Leads rank held .skip held := by
  intro t runs rest ordered
  cases runs
  exact ordered

theorem act {x : LockAction L} (allowed : Allowed rank held x) :
    Leads rank held (.act x) (after held x) := by
  intro t runs rest ordered
  cases runs
  exact ⟨allowed, ordered⟩

theorem seq (first : Leads rank held a then_) (second : Leads rank then_ b last) :
    Leads rank held (.seq a b) last := by
  intro t runs rest ordered
  cases runs with
  | seq one two =>
    rw [List.append_assoc]
    exact first _ one _ (second _ two rest ordered)

theorem choice (left : Leads rank held a then_) (right : Leads rank held b then_) :
    Leads rank held (.choice a b) then_ := by
  intro t runs rest ordered
  cases runs with
  | left one => exact left t one rest ordered
  | right two => exact right t two rest ordered

theorem loop (turn : Leads rank held a held) : Leads rank held (.loop a) held := by
  intro t runs rest ordered
  generalize same : LockCode.loop a = code at runs
  induction runs with
  | done => exact ordered
  | again one _ _ ih =>
    cases same
    rw [List.append_assoc]
    exact turn _ one _ (ih rfl)
  | _ => cases same

theorem read (below : ∀ m ∈ held, rank m.1 < rank l) :
    Leads rank held (.act (.read l)) ((l, false) :: held) := by
  have allowed : Allowed rank held (.read l) := below
  exact act allowed

theorem write (below : ∀ m ∈ held, rank m.1 < rank l) :
    Leads rank held (.act (.write l)) ((l, true) :: held) := by
  have allowed : Allowed rank held (.write l) := below
  exact act allowed

/-- The lock taken last is given back. -/
theorem free {mode : Bool} : Leads rank ((l, mode) :: held) (.act (.free l)) held := by
  have mine : Allowed rank ((l, mode) :: held) (.free l) := ⟨_, List.mem_cons_self .., rfl⟩
  have back : after ((l, mode) :: held) (.free l) = held := by simp [after]
  have step := act mine
  rwa [back] at step

end Leads

omit [DecidableEq L] in
theorem below_cons (below : ∀ m ∈ held, rank m.1 < rank l) (mode : Bool) :
    ∀ m ∈ (l, mode) :: held, rank m.1 < rank l + 1 := by
  intro m member
  rcases List.mem_cons.mp member with rfl | old
  · exact Nat.lt_succ_self _
  · exact Nat.lt_succ_of_lt (below m old)

namespace Balanced

theorem skip : Balanced rank k .skip := fun _ _ => Leads.skip

theorem seq (first : Balanced rank k a) (second : Balanced rank k b) :
    Balanced rank k (.seq a b) :=
  fun held below => (first held below).seq (second held below)

theorem choice (left : Balanced rank k a) (right : Balanced rank k b) :
    Balanced rank k (.choice a b) :=
  fun held below => (left held below).choice (right held below)

theorem opt (code : Balanced rank k a) : Balanced rank k (.opt a) := code.choice skip

theorem loop (turn : Balanced rank k a) : Balanced rank k (.loop a) :=
  fun held below => (turn held below).loop

/-- Code that may be called with more locks may be called with fewer. -/
theorem mono (code : Balanced rank n a) (le : k ≤ n) : Balanced rank k a :=
  fun held below => code held fun m member => lt_of_lt_of_le (below m member) le

theorem locked (code : Balanced rank (k + 1) a) (place : rank l = k) :
    Balanced rank k (.locked l a) := by
  subst place
  intro held below
  exact (Leads.write below).seq ((code _ (below_cons below true)).seq .free)

/-- A thread that runs the code from the start keeps to the order. -/
theorem ordered (code : Balanced rank k a) {t : List (LockAction L)} (runs : a.Runs t) :
    Ordered rank [] t := by
  have whole := code [] (by simp) t runs [] rfl
  rwa [List.append_nil] at whole

end Balanced

/-! ### Threads -/

section
variable {ι : Type} [DecidableEq ι]

/-- The locks the other threads hold let the action go on. -/
def Granted (s : ι → Thread L) : LockAction L → Prop
  | .read l => ∀ i, (l, true) ∉ (s i).held
  | .write l => ∀ i, ∀ m ∈ (s i).held, m.1 ≠ l
  | .free _ => True

/-- One thread does its next action. -/
inductive Step (s : ι → Thread L) : (ι → Thread L) → Prop where
  | act (i : ι) (x : LockAction L) (rest : List (LockAction L)) : (s i).rest = x :: rest →
      Granted s x → Step s (Function.update s i ⟨after (s i).held x, rest⟩)

def Reachable (start s : ι → Thread L) : Prop := Relation.ReflTransGen Step start s

def Disciplined (rank : L → Nat) (s : ι → Thread L) : Prop :=
  ∀ i, Ordered rank (s i).held (s i).rest

/-- A lock held for writing is held once. -/
def Exclusive (s : ι → Thread L) : Prop :=
  ∀ i j l b, i ≠ j → (l, true) ∈ (s i).held → (l, b) ∉ (s j).held

variable {s s' start : ι → Thread L}

theorem Step.disciplined (step : Step s s') (kept : Disciplined rank s) : Disciplined rank s' := by
  cases step with
  | act i x rest next granted =>
    intro j
    by_cases here : j = i
    · subst here
      have ordered := kept j
      rw [next] at ordered
      rw [Function.update_self]
      exact ordered.2
    · rw [Function.update_of_ne here]
      exact kept j

theorem mem_after {x : LockAction L} {b : Bool} (member : (l, b) ∈ after held x) :
    (l, b) ∈ held ∨ x = .read l ∧ b = false ∨ x = .write l ∧ b = true := by
  cases x with
  | read m | write m =>
    rcases List.mem_cons.mp member with same | old
    · cases same
      simp
    · exact .inl old
  | free m => exact .inl (List.mem_of_mem_eraseP member)

theorem Step.exclusive (step : Step s s') (kept : Exclusive s) : Exclusive s' := by
  cases step with
  | act i x rest next granted =>
    intro j k l b other writer member
    by_cases first : j = i
    · subst first
      rw [Function.update_self] at writer
      rw [Function.update_of_ne (Ne.symm other)] at member
      rcases mem_after writer with old | ⟨rfl, mode⟩ | ⟨rfl, -⟩
      · exact kept j k l b other old member
      · cases mode
      · exact granted k _ member rfl
    · rw [Function.update_of_ne first] at writer
      by_cases second : k = i
      · subst second
        rw [Function.update_self] at member
        rcases mem_after member with old | ⟨rfl, -⟩ | ⟨rfl, -⟩
        · exact kept j k l b other writer old
        · exact granted j writer
        · exact granted j _ writer rfl
      · rw [Function.update_of_ne second] at member
        exact kept j k l b other writer member

theorem Reachable.disciplined (reached : Reachable start s) (kept : Disciplined rank start) :
    Disciplined rank s := by
  induction reached with
  | refl => exact kept
  | tail _ step ih => exact step.disciplined ih

theorem Reachable.exclusive (reached : Reachable start s) (kept : Exclusive start) :
    Exclusive s := by
  induction reached with
  | refl => exact kept
  | tail _ step ih => exact step.exclusive ih

/-! ### Not all of them wait -/

/-- The rank of the lock the thread asks for next. -/
def Thread.wants (rank : L → Nat) (t : Thread L) : Nat :=
  match t.rest with
  | .read l :: _ | .write l :: _ => rank l
  | _ => 0

omit [DecidableEq L] [DecidableEq ι] in
theorem not_granted {x : LockAction L} (waits : ¬Granted s x) :
    ∃ l, (x = .read l ∨ x = .write l) ∧ ∃ j, ∃ m ∈ (s j).held, m.1 = l := by
  cases x with
  | read l =>
    unfold Granted at waits
    push Not at waits
    obtain ⟨j, member⟩ := waits
    exact ⟨l, .inl rfl, j, _, member, rfl⟩
  | write l =>
    unfold Granted at waits
    push Not at waits
    obtain ⟨j, m, member, same⟩ := waits
    exact ⟨l, .inr rfl, j, m, member, same⟩
  | free l => exact absurd trivial waits

/-- A thread that waits asks for a lock above those it holds. -/
theorem waits_above {i : ι} (kept : Disciplined rank s) (stuck : ∀ s', ¬Step s s')
    (unfinished : (s i).rest ≠ []) :
    (∀ m ∈ (s i).held, rank m.1 < (s i).wants rank) ∧
      ∃ j, ∃ m ∈ (s j).held, rank m.1 = (s i).wants rank := by
  obtain ⟨x, rest, next⟩ := List.exists_cons_of_ne_nil unfinished
  have waits : ¬Granted s x := fun granted => stuck _ (.act i x rest next granted)
  obtain ⟨l, kind, j, m, member, same⟩ := not_granted waits
  have ordered := kept i
  rw [next] at ordered
  have wanted : (s i).wants rank = rank l := by
    unfold Thread.wants
    rw [next]
    rcases kind with rfl | rfl <;> rfl
  rw [wanted]
  refine ⟨?_, j, m, member, by rw [same]⟩
  rcases kind with rfl | rfl <;> exact ordered.1

theorem exists_step [Fintype ι] {i : ι} (kept : Disciplined rank s) (unfinished : (s i).rest ≠ []) :
    ∃ s', Step s s' := by
  by_contra none_left
  push Not at none_left
  obtain ⟨i, busy, highest⟩ := Finset.exists_max_image
    (Finset.univ.filter fun i => (s i).rest ≠ []) (fun i => (s i).wants rank)
    ⟨i, by simpa using unfinished⟩
  have busy : (s i).rest ≠ [] := by simpa using busy
  obtain ⟨-, j, m, member, same⟩ := waits_above kept none_left busy
  have holder : (s j).rest ≠ [] := by
    intro finished
    have ordered := kept j
    rw [finished] at ordered
    have empty : (s j).held = [] := ordered
    rw [empty] at member
    cases member
  have above := (waits_above kept none_left holder).1 m member
  have below := highest j (by simpa using holder)
  omega

/-- The actions still to do. -/
def remaining [Fintype ι] (s : ι → Thread L) : Nat := ∑ i, (s i).rest.length

theorem Step.remaining [Fintype ι] (step : Step s s') :
    Lib.remaining s' + 1 = Lib.remaining s := by
  cases step with
  | act i x rest next granted =>
    have others : ∀ j ∈ Finset.univ.erase i,
        (Function.update s i ⟨after (s i).held x, rest⟩ j).rest.length = (s j).rest.length := by
      intro j member
      rw [Function.update_of_ne (Finset.ne_of_mem_erase member)]
    unfold Lib.remaining
    rw [← Finset.add_sum_erase _ _ (Finset.mem_univ i), Finset.sum_congr rfl others,
      ← Finset.add_sum_erase _ _ (Finset.mem_univ i), Function.update_self, next,
      List.length_cons]
    exact Nat.add_right_comm _ _ _

/-- Every thread is done and holds nothing. -/
def Finished (s : ι → Thread L) : Prop := ∀ i, s i = ⟨[], []⟩

theorem finished_of_stuck [Fintype ι] (kept : Disciplined rank s) (stuck : ∀ s', ¬Step s s') :
    Finished s := by
  intro i
  have done : (s i).rest = [] := by
    by_contra unfinished
    obtain ⟨s', step⟩ := exists_step kept unfinished
    exact stuck s' step
  have ordered := kept i
  rw [done] at ordered
  cases whole : s i
  rw [whole] at done ordered
  cases done
  cases ordered
  rfl

/-- Whatever was done so far, the threads can all come to their end. -/
theorem exists_finished [Fintype ι] (kept : Disciplined rank s) :
    ∃ s', Reachable s s' ∧ Finished s' := by
  generalize left : remaining s = n
  induction n generalizing s with
  | zero =>
    refine ⟨s, .refl, finished_of_stuck kept fun s' step => ?_⟩
    have less := step.remaining
    omega
  | succ n ih =>
    by_cases stuck : ∀ s', ¬Step s s'
    · exact ⟨s, .refl, finished_of_stuck kept stuck⟩
    · push Not at stuck
      obtain ⟨s1, step⟩ := stuck
      have less := step.remaining
      obtain ⟨s', rest, finished⟩ := ih (step.disciplined kept) (by omega)
      exact ⟨s', .head step rest, finished⟩

end

end

end LosAltos.Lib
