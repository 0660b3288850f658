import Mathlib.Logic.Equiv.Basic
import Mathlib.Data.Finset.Max
import Mathlib.Data.Finset.Range

/-!
# Sweeps of a bubble sort

A row of elements is swept from the left, neighbours out of order changing places. Elements that
are not present are never moved, so that the row falls apart into stretches sorted on their own. A
sweep settles one more element at the end of every stretch, and brings the lowest one to the left
by a single place: what a number of sweeps leaves sorted is read off these two facts. A mark that
follows an element to the right, and never to the left, is traced at the end.
-/
namespace LosAltos.Lib

/-- What the sort reads of an element. -/
structure Sorter (α β : Type) where
  present : α → Bool
  key : α → β

namespace Sorter

variable {α β : Type} (S : Sorter α β)

/-- No element from `i` to `j` is missing. -/
def Joined (f : Nat → α) (i j : Nat) : Prop := ∀ k, i ≤ k → k ≤ j → S.present (f k)

theorem not_joined {S : Sorter α β} {f : Nat → α} {i j : Nat} (one : S.present (f i))
    (other : S.present (f j)) (broken : ¬S.Joined f i j) :
    ∃ e, i < e ∧ e < j ∧ S.present (f e) = false := by
  unfold Joined at broken
  push Not at broken
  obtain ⟨e, low, high, gap⟩ := broken
  refine ⟨e, ?_, ?_, by simpa using gap⟩
  · by_contra same
    rw [show e = i by omega] at gap
    exact gap one
  · by_contra same
    rw [show e = j by omega] at gap
    exact gap other

variable [LinearOrder β]

def Due (f : Nat → α) (j : Nat) : Prop :=
  S.present (f j) ∧ S.present (f (j + 1)) ∧ S.key (f (j + 1)) < S.key (f j)

instance (f : Nat → α) (j : Nat) : Decidable (S.Due f j) :=
  inferInstanceAs (Decidable (_ ∧ _ ∧ _))

def exchange (f : Nat → α) (j : Nat) : Nat → α :=
  if S.Due f j then f ∘ Equiv.swap j (j + 1) else f

/-- The row after the comparisons at `0` to `m - 1`. -/
def sweep (f : Nat → α) : Nat → Nat → α
  | 0 => f
  | m + 1 => S.exchange (sweep f m) m

def sweeps (n : Nat) : Nat → (Nat → α) → Nat → α
  | 0, f => f
  | k + 1, f => sweeps n k (S.sweep f n)

/-- Nothing before `j` in its stretch is above it. -/
def Tops (f : Nat → α) (j : Nat) : Prop :=
  ∀ i, i < j → S.Joined f i j → S.key (f i) ≤ S.key (f j)

/-- The last `k` elements of every stretch of the first `n` are in their place. -/
def Settled (n k : Nat) (f : Nat → α) : Prop :=
  ∀ j e, j < e → e ≤ n → e ≤ j + k → S.present (f e) = false → S.Tops f j

def Sorted (n : Nat) (f : Nat → α) : Prop :=
  ∀ i j, i < j → j < n → S.present (f i) → S.present (f j) → S.key (f i) ≤ S.key (f j)

/-- Elements of different stretches are in order. -/
def Apart (n : Nat) (f : Nat → α) : Prop :=
  ∀ i e j, i < e → e < j → j < n → S.present (f i) → S.present (f e) = false →
    S.present (f j) → S.key (f i) ≤ S.key (f j)

/-- The row is a single stretch, and its last element is below all others. -/
def LastLowest (n : Nat) (f : Nat → α) : Prop :=
  2 ≤ n ∧ (∀ i, i < n → S.present (f i)) ∧ ∀ i, i < n - 1 → S.key (f (n - 1)) < S.key (f i)

/-- The element at `q` is below all others of the first `n`. -/
def Lone (n q : Nat) (f : Nat → α) : Prop :=
  q < n ∧ ∀ i, i < n → i ≠ q → S.key (f q) < S.key (f i)

/-- The lowest value, `v`, is found at `q` or before. -/
def LowBy (n : Nat) (v : β) (q : Nat) (f : Nat → α) : Prop :=
  (∃ i, i ≤ q ∧ S.key (f i) = v) ∧ ∀ i, i < n → v ≤ S.key (f i)

variable {S} {f : Nat → α} {n m k i j q : Nat}

theorem exchange_idle (idle : ¬S.Due f m) : S.exchange f m = f := if_neg idle

theorem exchange_left (due : S.Due f m) : S.exchange f m m = f (m + 1) := by
  rw [exchange, if_pos due, Function.comp_apply, Equiv.swap_apply_left]

theorem exchange_right (due : S.Due f m) : S.exchange f m (m + 1) = f m := by
  rw [exchange, if_pos due, Function.comp_apply, Equiv.swap_apply_right]

theorem exchange_other (first : i ≠ m) (second : i ≠ m + 1) : S.exchange f m i = f i := by
  unfold exchange
  split
  · rw [Function.comp_apply, Equiv.swap_apply_of_ne_of_ne first second]
  · rfl

theorem present_exchange : S.present (S.exchange f m i) = S.present (f i) := by
  by_cases due : S.Due f m
  · by_cases first : i = m
    · rw [first, exchange_left due, due.1, due.2.1]
    · by_cases second : i = m + 1
      · rw [second, exchange_right due, due.1, due.2.1]
      · rw [exchange_other first second]
  · rw [exchange_idle due]

theorem present_sweep : S.present (S.sweep f m i) = S.present (f i) := by
  induction m with
  | zero => rfl
  | succ m ih => rw [sweep, present_exchange, ih]

/-- Past the comparisons made nothing has changed. -/
theorem sweep_of_gt (later : m < i) : S.sweep f m i = f i := by
  induction m with
  | zero => rfl
  | succ m ih => rw [sweep, exchange_other (by omega) (by omega), ih (by omega)]

theorem joined_exchange : S.Joined (S.exchange f m) i j ↔ S.Joined f i j := by
  simp only [Joined, present_exchange]

theorem Due.joined (due : S.Due f m) : S.Joined f m (m + 1) := by
  intro k low high
  rcases (by omega : k = m ∨ k = m + 1) with rfl | rfl
  · exact due.1
  · exact due.2.1

theorem Due.ne_absent (due : S.Due f m) {e : Nat} (absent : S.present (f e) = false) :
    e ≠ m ∧ e ≠ m + 1 := by
  constructor
  · rintro rfl
    simp [due.1] at absent
  · rintro rfl
    simp [due.2.1] at absent

/-- What has nothing above it before it is not exchanged to the left. -/
theorem Tops.not_due (tops : S.Tops f (m + 1)) : ¬S.Due f m := by
  intro due
  exact absurd due.2.2 (not_lt.mpr (tops m (by omega) due.joined))

/-- The comparison at the highest element takes on the next one. -/
theorem Tops.advance (tops : S.Tops f m) : S.Tops (S.exchange f m) (m + 1) := by
  intro i before joined
  rw [joined_exchange] at joined
  have earlier : i < m → S.key (f i) ≤ S.key (f m) :=
    fun strict => tops i strict fun k low high => joined k low (by omega)
  by_cases due : S.Due f m
  · rw [exchange_right due]
    rcases Nat.lt_or_ge i m with strict | equal
    · rw [exchange_other (by omega) (by omega)]
      exact earlier strict
    · rw [show i = m by omega, exchange_left due]
      exact le_of_lt due.2.2
  · rw [exchange_idle due]
    have last : S.key (f m) ≤ S.key (f (m + 1)) := by
      by_contra above
      exact due ⟨joined m (by omega) (by omega), joined (m + 1) (by omega) (by omega),
        not_le.mp above⟩
    rcases Nat.lt_or_ge i m with strict | equal
    · exact (earlier strict).trans last
    · rwa [show i = m by omega]

/-- The element that arrives at `m` is the highest so far in its stretch. -/
theorem sweep_tops (S : Sorter α β) (f : Nat → α) (m : Nat) : S.Tops (S.sweep f m) m := by
  induction m with
  | zero =>
    intro i before
    omega
  | succ m ih => exact ih.advance

/-- An exchange elsewhere leaves the highest element of a stretch where it is. -/
theorem Tops.exchange (tops : S.Tops f j) (first : j ≠ m) (second : j ≠ m + 1) :
    S.Tops (S.exchange f m) j := by
  by_cases due : S.Due f m
  · intro i before joined
    rw [joined_exchange] at joined
    rw [exchange_other first second]
    by_cases left : i = m
    · rw [left, exchange_left due]
      exact tops (m + 1) (by omega) fun k low high => joined k (by omega) high
    · by_cases right : i = m + 1
      · rw [right, exchange_right due]
        refine tops m (by omega) fun k low high => ?_
        rcases (by omega : k = m ∨ i ≤ k) with rfl | later
        · exact due.1
        · exact joined k later high
      · rw [exchange_other left right]
        exact tops i before joined
  · rwa [exchange_idle due]

theorem Settled.exchange (settled : S.Settled n k f) : S.Settled n k (S.exchange f m) := by
  by_cases due : S.Due f m
  · intro j e after inside near absent
    rw [present_exchange] at absent
    have apart := due.ne_absent absent
    -- neither place of the exchange is among the last `k`
    have unsettled : ¬(j = m ∨ j = m + 1) := by
      intro touched
      exact (settled (m + 1) e (by omega) inside (by omega) absent).not_due due
    exact (settled j e after inside near absent).exchange (by omega) (by omega)
  · rwa [exchange_idle due]

theorem Settled.sweep (settled : S.Settled n k f) : S.Settled n k (S.sweep f m) := by
  induction m with
  | zero => exact settled
  | succ m ih => exact ih.exchange

/-- What has come to its place stays there for the rest of the sweep. -/
theorem Settled.tops_sweep (settled : S.Settled n k f) {e : Nat} (after : j < e) (inside : e ≤ n)
    (near : e ≤ j + (k + 1)) (absent : S.present (f e) = false) (d : Nat) :
    S.Tops (S.sweep f (j + d)) j := by
  induction d with
  | zero => exact sweep_tops S f j
  | succ d ih =>
    rw [← Nat.add_assoc, Sorter.sweep]
    by_cases due : S.Due (S.sweep f (j + d)) (j + d)
    · have missing : S.present (S.sweep f (j + d) e) = false := by rw [present_sweep, absent]
      have apart := due.ne_absent missing
      have past : e < j + d := by
        by_contra before
        exact (settled.sweep (j + d + 1) e (by omega) inside (by omega) missing).not_due due
      exact ih.exchange (by omega) (by omega)
    · rwa [exchange_idle due]

/-- A sweep settles one more element of every stretch. -/
theorem Settled.next (settled : S.Settled n k f) : S.Settled n (k + 1) (S.sweep f n) := by
  intro j e after inside near absent
  rw [present_sweep] at absent
  have tops := settled.tops_sweep after inside near absent (n - j)
  rwa [show j + (n - j) = n by omega] at tops

theorem Settled.sweeps (settled : S.Settled n k f) (d : Nat) :
    S.Settled n (k + d) (S.sweeps n d f) := by
  induction d generalizing k f with
  | zero => exact settled
  | succ d ih =>
    have rest := ih settled.next
    rwa [show k + 1 + d = k + (d + 1) by omega] at rest

theorem settled_sweeps (S : Sorter α β) (n k : Nat) (f : Nat → α) :
    S.Settled n k (S.sweeps n k f) := by
  have none : S.Settled n 0 f := by
    intro j e after inside near
    omega
  simpa using none.sweeps k

theorem present_sweeps : S.present (S.sweeps n k f i) = S.present (f i) := by
  induction k generalizing f with
  | zero => rfl
  | succ k ih => rw [sweeps, ih, present_sweep]

/-- A sweep that changes nothing is the last. -/
theorem sweeps_of_fixed (fixed : S.sweep f n = f) : S.sweeps n k f = f := by
  induction k with
  | zero => rfl
  | succ k ih => rw [sweeps, fixed, ih]

/-- What is true of every element stays so. -/
theorem exchange_all {Q : α → Prop} (all : ∀ i, Q (f i)) (i : Nat) : Q (S.exchange f m i) := by
  unfold exchange
  split
  · exact all _
  · exact all i

theorem swap_lt {e : Nat} (second : e ≠ m + 1) (before : i < e) :
    Equiv.swap m (m + 1) i < e := by
  rw [Equiv.swap_apply_def]
  split
  · omega
  · split <;> omega

theorem lt_swap {e : Nat} (first : e ≠ m) (after : e < i) :
    e < Equiv.swap m (m + 1) i := by
  rw [Equiv.swap_apply_def]
  split
  · omega
  · split <;> omega

theorem apart_exchange (absent : S.present (f n) = false) :
    S.Apart n (S.exchange f m) ↔ S.Apart n f := by
  by_cases due : S.Due f m
  · have past := due.ne_absent absent
    have present : ∀ k, S.present (f (Equiv.swap m (m + 1) k)) = S.present (f k) := by
      intro k
      have same := present_exchange (S := S) (f := f) (m := m) (i := k)
      rwa [exchange, if_pos due] at same
    rw [exchange, if_pos due]
    -- an exchange crosses no gap, and undoes itself
    constructor
    · intro apart i e j before after inside one gap other
      obtain ⟨first, second⟩ := due.ne_absent gap
      have order := apart (Equiv.swap m (m + 1) i) e (Equiv.swap m (m + 1) j)
        (swap_lt second before) (lt_swap first after)
        (swap_lt past.2 inside)
      simp only [Function.comp_apply, Equiv.swap_apply_self, present] at order
      exact order one gap other
    · intro apart i e j before after inside one gap other
      simp only [Function.comp_apply, present] at one gap other ⊢
      obtain ⟨first, second⟩ := due.ne_absent gap
      refine apart _ e _ (swap_lt second before) (lt_swap first after)
        (swap_lt past.2 inside) ?_ gap ?_
      · rw [present, one]
      · rw [present, other]
  · rw [exchange_idle due]

theorem apart_sweep (absent : S.present (f n) = false) :
    S.Apart n (S.sweep f m) ↔ S.Apart n f := by
  induction m with
  | zero => rfl
  | succ m ih => rw [sweep, apart_exchange (by rw [present_sweep, absent]), ih]

theorem apart_sweeps (absent : S.present (f n) = false) :
    S.Apart n (S.sweeps n k f) ↔ S.Apart n f := by
  induction k generalizing f with
  | zero => rfl
  | succ k ih => rw [sweeps, ih (by rw [present_sweep, absent]), apart_sweep absent]

/-- The sweeps rearrange the row. -/
theorem sweep_perm (absent : S.present (f n) = false) (bound : m ≤ n) :
    ∃ σ : Equiv.Perm Nat, S.sweep f m = f ∘ σ ∧ ∀ i, n ≤ i → σ i = i := by
  induction m with
  | zero => exact ⟨Equiv.refl Nat, rfl, fun _ _ => rfl⟩
  | succ m ih =>
    obtain ⟨σ, same, fixed⟩ := ih (by omega)
    rw [sweep]
    by_cases due : S.Due (S.sweep f m) m
    · have past := due.ne_absent (e := n) (by rw [present_sweep, absent])
      refine ⟨(Equiv.swap m (m + 1)).trans σ, ?_, fun i outside => ?_⟩
      · rw [exchange, if_pos due, same]
        rfl
      · rw [Equiv.trans_apply, Equiv.swap_apply_of_ne_of_ne (by omega) (by omega), fixed i outside]
    · rw [exchange_idle due]
      exact ⟨σ, same, fixed⟩

theorem sweeps_perm (absent : S.present (f n) = false) :
    ∃ σ : Equiv.Perm Nat, S.sweeps n k f = f ∘ σ ∧ ∀ i, n ≤ i → σ i = i := by
  induction k generalizing f with
  | zero => exact ⟨Equiv.refl Nat, rfl, fun _ _ => rfl⟩
  | succ k ih =>
    obtain ⟨σ, same, fixed⟩ := sweep_perm absent le_rfl
    obtain ⟨τ, rest, kept⟩ := ih (f := S.sweep f n) (by rw [present_sweep, absent])
    refine ⟨τ.trans σ, ?_, fun i outside => ?_⟩
    · rw [sweeps, rest, same]
      rfl
    · rw [Equiv.trans_apply, kept i outside, fixed i outside]

/-- Every element of the row is found in it after the sweeps. -/
theorem sweeps_mem (absent : S.present (f n) = false) (inside : i < n) :
    ∃ j, j < n ∧ S.sweeps n k f j = f i := by
  obtain ⟨σ, same, fixed⟩ := sweeps_perm (k := k) absent
  refine ⟨σ.symm i, ?_, ?_⟩
  · by_contra outside
    have stays := fixed (σ.symm i) (by omega)
    rw [Equiv.apply_symm_apply] at stays
    omega
  · rw [same, Function.comp_apply, Equiv.apply_symm_apply]

/-- An exchange reads and writes within the row. -/
theorem exchange_within (absent : S.present (f n) = false) (inside : i < n) :
    ∃ k, k < n ∧ S.exchange f m i = f k ∧ (i = k ∨ (S.Due f m ∧ (k = m ∨ k = m + 1))) := by
  by_cases due : S.Due f m
  · have past := due.ne_absent absent
    by_cases first : i = m
    · exact ⟨m + 1, by omega, by rw [first, exchange_left due], Or.inr ⟨due, Or.inr rfl⟩⟩
    · by_cases second : i = m + 1
      · exact ⟨m, by omega, by rw [second, exchange_right due], Or.inr ⟨due, Or.inl rfl⟩⟩
      · exact ⟨i, inside, exchange_other first second, Or.inl rfl⟩
  · exact ⟨i, inside, by rw [exchange_idle due], Or.inl rfl⟩

theorem Lone.exchange (lone : S.Lone n q f) (absent : S.present (f n) = false) (first : q ≠ m)
    (second : q ≠ m + 1) : S.Lone n q (S.exchange f m) := by
  refine ⟨lone.1, fun i inside different => ?_⟩
  rw [exchange_other first second]
  obtain ⟨k, within, same, source⟩ := exchange_within (m := m) absent inside
  rw [same]
  exact lone.2 k within (by omega)

/-- A sweep brings the lowest element one place to the left. -/
theorem Lone.sweep (lone : S.Lone n (q + 1) f) (absent : S.present (f n) = false)
    (full : ∀ i, i < n → S.present (f i)) : S.Lone n q (S.sweep f n) := by
  have ends : ∀ m, S.present (S.sweep f m n) = false := fun m => by rw [present_sweep, absent]
  have before : ∀ m, m ≤ q → S.Lone n (q + 1) (S.sweep f m) := by
    intro m early
    induction m with
    | zero => exact lone
    | succ m ih => exact (ih (by omega)).exchange (ends m) (by omega) (by omega)
  have after : ∀ d, S.Lone n q (S.sweep f (q + 1 + d)) := by
    intro d
    induction d with
    | zero =>
      obtain ⟨inside, lowest⟩ := before q (by omega)
      have due : S.Due (S.sweep f q) q := by
        refine ⟨?_, ?_, lowest q (by omega) (by omega)⟩
        · rw [present_sweep]
          exact full q (by omega)
        · rw [present_sweep]
          exact full (q + 1) inside
      refine ⟨by omega, fun i within different => ?_⟩
      simp only [Sorter.sweep]
      rw [exchange_left due]
      by_cases last : i = q + 1
      · rw [last, exchange_right due]
        exact due.2.2
      · rw [exchange_other different last]
        exact lowest i within last
    | succ d ih => exact ih.exchange (m := q + 1 + d) (ends _) (by omega) (by omega)
  have last := after (n - (q + 1))
  have inside := lone.1
  rwa [show q + 1 + (n - (q + 1)) = n by omega] at last

theorem Lone.sweeps (lone : S.Lone n (q + k) f) (absent : S.present (f n) = false)
    (full : ∀ i, i < n → S.present (f i)) : S.Lone n q (S.sweeps n k f) := by
  induction k generalizing f with
  | zero => exact lone
  | succ k ih =>
    refine ih (Lone.sweep lone absent full) (by rw [present_sweep, absent]) fun i inside => ?_
    rw [present_sweep]
    exact full i inside

theorem LowBy.exchange {v : β} (low : S.LowBy n v q f) (absent : S.present (f n) = false)
    (inside : q < n) : S.LowBy n v q (S.exchange f m) := by
  obtain ⟨⟨i, before, lowest⟩, bound⟩ := low
  constructor
  · by_cases due : S.Due f m
    · have past := due.ne_absent absent
      by_cases first : i = m
      · have below := bound (m + 1) (by omega)
        have above := due.2.2
        rw [← first, lowest] at above
        rw [← first] at below
        exact absurd above (not_lt.mpr below)
      · by_cases second : i = m + 1
        · exact ⟨m, by omega, by rw [exchange_left due, ← second, lowest]⟩
        · exact ⟨i, before, by rw [exchange_other first second, lowest]⟩
    · exact ⟨i, before, by rw [exchange_idle due, lowest]⟩
  · intro i within
    obtain ⟨k, range, same, -⟩ := exchange_within (m := m) absent within
    rw [same]
    exact bound k range

theorem LowBy.sweep {v : β} (low : S.LowBy n v (q + 1) f) (absent : S.present (f n) = false)
    (inside : q + 1 < n) (full : ∀ i, i < n → S.present (f i)) : S.LowBy n v q (S.sweep f n) := by
  have ends : ∀ m, S.present (S.sweep f m n) = false := fun m => by rw [present_sweep, absent]
  have before : ∀ m, S.LowBy n v (q + 1) (S.sweep f m) := by
    intro m
    induction m with
    | zero => exact low
    | succ m ih => exact ih.exchange (ends m) inside
  have after : ∀ d, S.LowBy n v q (S.sweep f (q + 1 + d)) := by
    intro d
    induction d with
    | zero =>
      obtain ⟨⟨i, near, lowest⟩, bound⟩ := before q
      by_cases arrived : ∃ i, i ≤ q ∧ S.key (S.sweep f q i) = v
      · exact LowBy.exchange ⟨arrived, bound⟩ (ends q) (by omega)
      · have last : i = q + 1 := by
          by_contra other
          exact arrived ⟨i, by omega, lowest⟩
        have above : v ≠ S.key (S.sweep f q q) := fun same => arrived ⟨q, by omega, same.symm⟩
        have due : S.Due (S.sweep f q) q := by
          refine ⟨?_, ?_, ?_⟩
          · rw [present_sweep]
            exact full q (by omega)
          · rw [present_sweep]
            exact full (q + 1) inside
          · rw [← last, lowest]
            exact lt_of_le_of_ne (bound q (by omega)) above
        refine ⟨⟨q, by omega, ?_⟩, (before (q + 1)).2⟩
        simp only [Sorter.sweep]
        rw [exchange_left due, ← last, lowest]
    | succ d ih => exact ih.exchange (ends _) (by omega)
  have last := after (n - (q + 1))
  rwa [show q + 1 + (n - (q + 1)) = n by omega] at last

theorem LowBy.sweeps {v : β} (low : S.LowBy n v (q + k) f) (absent : S.present (f n) = false)
    (inside : q + k < n) (full : ∀ i, i < n → S.present (f i)) :
    S.LowBy n v q (S.sweeps n k f) := by
  induction k generalizing f with
  | zero => exact low
  | succ k ih =>
    refine ih (LowBy.sweep low absent (by omega) full) (by rw [present_sweep, absent])
      (by omega) fun i within => ?_
    rw [present_sweep]
    exact full i within

/-- With the last `n - 2` settled only the two first elements of a full row may be out of order. -/
theorem Settled.le (settled : S.Settled n (n - 2) f) (absent : S.present (f n) = false)
    (before : i < j) (inside : j < n) (joined : S.Joined f i j)
    (short : 2 ≤ j ∨ ∃ e, e < n ∧ S.present (f e) = false) : S.key (f i) ≤ S.key (f j) := by
  by_cases second : 2 ≤ j
  · exact settled j n inside le_rfl (by omega) absent i before joined
  · obtain ⟨e, within, gap⟩ := short.resolve_left second
    have after : j < e := by
      by_contra early
      rcases (by omega : e = i ∨ e = j) with rfl | rfl
      · simp [joined e (by omega) (by omega)] at gap
      · simp [joined e (by omega) (by omega)] at gap
    exact settled j e after (by omega) (by omega) gap i before joined

theorem sorted_of_settled (settled : S.Settled n (n - 2) f) (absent : S.present (f n) = false)
    (apart : S.Apart n f)
    (short : (∃ e, e < n ∧ S.present (f e) = false) ∨ S.key (f 0) ≤ S.key (f 1)) :
    S.Sorted n f := by
  intro i j before inside one other
  by_cases joined : S.Joined f i j
  · rcases short with gap | first
    · exact settled.le absent before inside joined (Or.inr gap)
    · by_cases second : 2 ≤ j
      · exact settled.le absent before inside joined (Or.inl second)
      · rwa [show i = 0 by omega, show j = 1 by omega]
  · obtain ⟨e, low, high, gap⟩ := not_joined one other joined
    exact apart i e j low high inside one gap other

/-- The lowest element, last in a full row, is second after `n - 2` sweeps. -/
theorem LastLowest.second (last : S.LastLowest n f) (absent : S.present (f n) = false) :
    S.Lone n 1 (S.sweeps n (n - 2) f) ∧ S.sweeps n (n - 2) f 1 = f (n - 1) := by
  obtain ⟨two, full, lowest⟩ := last
  have start : S.Lone n (1 + (n - 2)) f := by
    refine ⟨by omega, fun i inside different => ?_⟩
    rw [show 1 + (n - 2) = n - 1 by omega] at different ⊢
    exact lowest i (by omega)
  have lone := start.sweeps absent full
  refine ⟨lone, ?_⟩
  obtain ⟨σ, row, fixed⟩ := sweeps_perm (S := S) (k := n - 2) absent
  have range : σ 1 < n := by
    by_contra outside
    have := σ.injective (fixed (σ 1) (by omega))
    omega
  obtain ⟨i, within, same⟩ := sweeps_mem (S := S) (k := n - 2) absent (show n - 1 < n by omega)
  by_cases here : i = 1
  · rwa [here] at same
  · have below := lone.2 i within here
    rw [same, row, Function.comp_apply] at below
    rcases (by omega : σ 1 < n - 1 ∨ σ 1 = n - 1) with early | late
    · exact absurd below (not_lt.mpr (le_of_lt (lowest (σ 1) early)))
    · rw [late] at below
      exact absurd below (lt_irrefl _)

/-- When `n - 2` sweeps sort the first `n`: the stretches are in order to begin with, and the lowest
element of a full row is not last. -/
theorem sorted_sweeps_iff (absent : S.present (f n) = false) :
    S.Sorted n (S.sweeps n (n - 2) f) ↔ S.Apart n f ∧ ¬S.LastLowest n f := by
  have settled := settled_sweeps S n (n - 2) f
  have ends : S.present (S.sweeps n (n - 2) f n) = false := by rw [present_sweeps, absent]
  rw [← apart_sweeps (k := n - 2) absent]
  constructor
  · intro sorted
    refine ⟨fun i e j before after inside one _ other => sorted i j (by omega) inside one other, ?_⟩
    intro last
    obtain ⟨lone, -⟩ := last.second absent
    obtain ⟨two, full, -⟩ := last
    have order := sorted 0 1 (by omega) (by omega) (by rw [present_sweeps]; exact full 0 (by omega))
      (by rw [present_sweeps]; exact full 1 (by omega))
    exact absurd (lone.2 0 (by omega) (by omega)) (not_lt.mpr order)
  · rintro ⟨apart, last⟩
    by_cases gap : ∃ e, e < n ∧ S.present (f e) = false
    · obtain ⟨e, inside, missing⟩ := gap
      exact sorted_of_settled settled ends apart
        (Or.inl ⟨e, inside, by rw [present_sweeps, missing]⟩)
    · have full : ∀ i, i < n → S.present (f i) := by
        intro i inside
        by_contra missing
        exact gap ⟨i, inside, by simpa using missing⟩
      by_cases two : 2 ≤ n
      · obtain ⟨i, early, lowest⟩ := (Finset.range (n - 1)).exists_min_image (fun i => S.key (f i))
          ⟨0, by simp; omega⟩
        simp only [Finset.mem_range] at early lowest
        have other : S.key (f i) ≤ S.key (f (n - 1)) := by
          by_contra below
          refine last ⟨two, full, fun k before => ?_⟩
          exact lt_of_lt_of_le (not_le.mp below) (lowest k before)
        have low : S.LowBy n (S.key (f i)) (0 + (n - 2)) f := by
          refine ⟨⟨i, by omega, rfl⟩, fun k inside => ?_⟩
          rcases (by omega : k < n - 1 ∨ k = n - 1) with before | rfl
          · exact lowest k before
          · exact other
        obtain ⟨⟨first, zero, same⟩, bound⟩ := low.sweeps absent (by omega) full
        rw [show first = 0 by omega] at same
        refine sorted_of_settled settled ends apart (Or.inr ?_)
        rw [same]
        exact bound 1 (by omega)
      · intro i j before inside
        omega

end Sorter

end LosAltos.Lib
