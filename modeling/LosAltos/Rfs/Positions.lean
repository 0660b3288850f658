import LosAltos.Lib.Forest
import LosAltos.Rfs.Truncate

/-!
# Where a logical block is kept

`Inicia p k pos`: the block at position `pos` of an inode is first needed by logical
block `k`, with `p` pointers to an indirection block. Each region of
`getPtrNroBloqueLogicoDentroInodo` is one way of writing `k` in base `p`; the functions
that add and remove blocks are read here region by region.
-/
namespace LosAltos.Rfs

open Lib

inductive Inicia (p : Nat) : Nat → List Nat → Prop where
  | directo {k : Nat} (h : k < 12) : Inicia p k [k]
  | simple : Inicia p 12 [12]
  | enSimple {a : Nat} (ha : a < p) : Inicia p (12 + a) [a, 12]
  | doble : Inicia p (12 + p) [13]
  | simpleEnDoble {a : Nat} (ha : a < p) : Inicia p (12 + p + a * p) [a, 13]
  | enDoble {a b : Nat} (ha : a < p) (hb : b < p) : Inicia p (12 + p + (a * p + b)) [b, a, 13]
  | triple : Inicia p (12 + p + p * p) [14]
  | dobleEnTriple {a : Nat} (ha : a < p) : Inicia p (12 + p + p * p + a * p * p) [a, 14]
  | simpleEnTriple {a b : Nat} (ha : a < p) (hb : b < p) :
      Inicia p (12 + p + p * p + (a * p + b) * p) [b, a, 14]
  | enTriple {a b c : Nat} (ha : a < p) (hb : b < p) (hc : c < p) :
      Inicia p (12 + p + p * p + ((a * p + b) * p + c)) [c, b, a, 14]

/-- The positions a file of `n` logical blocks needs. -/
def Vivo (p n : Nat) (pos : List Nat) : Prop := ∃ k < n, Inicia p k pos

theorem digits_unique {p a b a' b' : Nat} (hb : b < p) (hb' : b' < p)
    (same : a * p + b = a' * p + b') : a = a' ∧ b = b' := by
  have low : (a * p + b) % p = (a' * p + b') % p := by rw [same]
  rw [Nat.mul_add_mod', Nat.mul_add_mod', Nat.mod_eq_of_lt hb, Nat.mod_eq_of_lt hb'] at low
  subst low
  have high : a * p = a' * p := by omega
  exact ⟨Nat.eq_of_mul_eq_mul_right (by omega) high, rfl⟩

theorem digits_lt {p a b n : Nat} (ha : a < n) (hb : b < p) : a * p + b < n * p := by
  calc
    a * p + b < a * p + p := by omega
    _ = (a + 1) * p := by rw [Nat.add_mul, Nat.one_mul]
    _ ≤ n * p := Nat.mul_le_mul_right p ha

theorem Inicia.unique {p k k' : Nat} {pos : List Nat} (one : Inicia p k pos)
    (other : Inicia p k' pos) : k = k' := by
  cases one <;> cases other <;> first | rfl | omega

theorem Inicia.ne_nil {p k : Nat} {pos : List Nat} (here : Inicia p k pos) : pos ≠ [] := by
  cases here <;> simp

/-- The block a slot lies in is needed no later than the slot, and has `p` of them. -/
theorem Inicia.parent {p k i j : Nat} {pos : List Nat} (here : Inicia p k (i :: j :: pos)) :
    i < p ∧ ∃ k' ≤ k, Inicia p k' (j :: pos) := by
  cases here with
  | enSimple ha => exact ⟨ha, _, by omega, .simple⟩
  | simpleEnDoble ha => exact ⟨ha, _, by omega, .doble⟩
  | enDoble ha hb => exact ⟨hb, _, by omega, .simpleEnDoble ha⟩
  | dobleEnTriple ha => exact ⟨ha, _, by omega, .triple⟩
  | simpleEnTriple ha hb =>
    exact ⟨hb, _, by rw [Nat.add_mul]; omega, .dobleEnTriple ha⟩
  | enTriple ha hb hc => exact ⟨hc, _, by omega, .simpleEnTriple ha hb⟩

theorem Vivo.parent {p n i j : Nat} {pos : List Nat} (here : Vivo p n (i :: j :: pos)) :
    Vivo p n (j :: pos) := by
  obtain ⟨k, below, inicia⟩ := here
  obtain ⟨-, k', earlier, up⟩ := inicia.parent
  exact ⟨k', by omega, up⟩

theorem vivo_succ {p n : Nat} {pos : List Nat} :
    Vivo p (n + 1) pos ↔ Vivo p n pos ∨ Inicia p n pos := by
  constructor
  · rintro ⟨k, below, inicia⟩
    rcases Nat.lt_succ_iff_lt_or_eq.mp below with earlier | rfl
    · exact .inl ⟨k, earlier, inicia⟩
    · exact .inr inicia
  · rintro (⟨k, below, inicia⟩ | inicia)
    · exact ⟨k, by omega, inicia⟩
    · exact ⟨n, by omega, inicia⟩

theorem not_vivo_of_inicia {p k n : Nat} {pos : List Nat} (here : Inicia p k pos) (late : n ≤ k) :
    ¬Vivo p n pos := by
  rintro ⟨k', below, again⟩
  have := here.unique again
  omega

theorem not_vivo_zero {p : Nat} {pos : List Nat} : ¬Vivo p 0 pos := by
  rintro ⟨k, below, -⟩
  omega

/-! ### The positions that start at one logical block -/

theorem inicia_directo {p k : Nat} (h : k < 12) {pos : List Nat} :
    Inicia p k pos ↔ pos = [k] := by
  constructor
  · intro here
    cases here <;> first | rfl | omega
  · rintro rfl
    exact .directo h

theorem inicia_simple {p a : Nat} (ha : a < p) {pos : List Nat} :
    Inicia p (12 + a) pos ↔ pos = [a, 12] ∨ a = 0 ∧ pos = [12] := by
  constructor
  · intro here
    generalize start : 12 + a = k at here
    cases here with
    | simple => exact .inr ⟨by omega, rfl⟩
    | @enSimple a' _ =>
      obtain rfl : a = a' := by omega
      exact .inl rfl
    | _ => omega
  · rintro (rfl | ⟨rfl, rfl⟩)
    · exact .enSimple ha
    · exact .simple

theorem inicia_doble {p a b : Nat} (ha : a < p) (hb : b < p) {pos : List Nat} :
    Inicia p (12 + p + (a * p + b)) pos ↔
      pos = [b, a, 13] ∨ b = 0 ∧ pos = [a, 13] ∨ (a = 0 ∧ b = 0) ∧ pos = [13] := by
  have small := digits_lt ha hb
  constructor
  · intro here
    generalize start : 12 + p + (a * p + b) = k at here
    cases here with
    | doble =>
      obtain ⟨rfl, rfl⟩ : a = 0 ∧ b = 0 := digits_unique hb (by omega) (by omega)
      exact .inr (.inr ⟨⟨rfl, rfl⟩, rfl⟩)
    | @simpleEnDoble a' _ =>
      obtain ⟨rfl, rfl⟩ : a = a' ∧ b = 0 := digits_unique hb (by omega) (by omega)
      exact .inr (.inl ⟨rfl, rfl⟩)
    | @enDoble a' b' _ hb' =>
      obtain ⟨rfl, rfl⟩ : a = a' ∧ b = b' := digits_unique hb hb' (by omega)
      exact .inl rfl
    | _ => omega
  · rintro (rfl | ⟨rfl, rfl⟩ | ⟨⟨rfl, rfl⟩, rfl⟩)
    · exact .enDoble ha hb
    · exact .simpleEnDoble ha
    · simpa using Inicia.doble (p := p)

theorem inicia_triple {p a b c : Nat} (ha : a < p) (hb : b < p) (hc : c < p) {pos : List Nat} :
    Inicia p (12 + p + p * p + ((a * p + b) * p + c)) pos ↔
      pos = [c, b, a, 14] ∨ c = 0 ∧ pos = [b, a, 14] ∨ (b = 0 ∧ c = 0) ∧ pos = [a, 14] ∨
        (a = 0 ∧ b = 0 ∧ c = 0) ∧ pos = [14] := by
  have positive : 0 < p * p := Nat.mul_pos (by omega) (by omega)
  constructor
  · intro here
    generalize start : 12 + p + p * p + ((a * p + b) * p + c) = k at here
    cases here with
    | enDoble ha' hb' =>
      have := digits_lt ha' hb'
      omega
    | @simpleEnDoble a' ha' =>
      have := Nat.mul_lt_mul_of_pos_right ha' (by omega : 0 < p)
      omega
    | triple =>
      obtain ⟨high, rfl⟩ : a * p + b = 0 ∧ c = 0 := digits_unique hc (by omega) (by omega)
      obtain ⟨rfl, rfl⟩ : a = 0 ∧ b = 0 := digits_unique hb (by omega) (by omega)
      exact .inr (.inr (.inr ⟨⟨rfl, rfl, rfl⟩, rfl⟩))
    | @dobleEnTriple a' _ =>
      obtain ⟨high, rfl⟩ : a * p + b = a' * p ∧ c = 0 := digits_unique hc (by omega) (by omega)
      obtain ⟨rfl, rfl⟩ : a = a' ∧ b = 0 := digits_unique hb (by omega) (by omega)
      exact .inr (.inr (.inl ⟨⟨rfl, rfl⟩, rfl⟩))
    | @simpleEnTriple a' b' _ hb' =>
      obtain ⟨high, rfl⟩ : a * p + b = a' * p + b' ∧ c = 0 :=
        digits_unique hc (by omega) (Nat.add_left_cancel start)
      obtain ⟨rfl, rfl⟩ := digits_unique hb hb' high
      exact .inr (.inl ⟨rfl, rfl⟩)
    | enTriple _ hb' hc' =>
      obtain ⟨high, rfl⟩ := digits_unique hc hc' (Nat.add_left_cancel start)
      obtain ⟨rfl, rfl⟩ := digits_unique hb hb' high
      exact .inl rfl
    | _ => omega
  · rintro (rfl | ⟨rfl, rfl⟩ | ⟨⟨rfl, rfl⟩, rfl⟩ | ⟨⟨rfl, rfl, rfl⟩, rfl⟩)
    · exact .enTriple ha hb hc
    · exact .simpleEnTriple ha hb
    · simpa using Inicia.dobleEnTriple ha
    · simpa using Inicia.triple (p := p)

/-- Of each length, at most one position starts at a given logical block. -/
theorem inicia_simple_length {p a : Nat} (ha : a < p) (pos : List Nat) :
    (pos.length = 1 → (Inicia p (12 + a) pos ↔ a = 0 ∧ pos = [12])) ∧
    (pos.length = 2 → (Inicia p (12 + a) pos ↔ pos = [a, 12])) := by
  rw [inicia_simple ha]
  refine ⟨fun length => or_iff_right ?_, fun length => or_iff_left ?_⟩
  · rintro rfl
    cases length
  · rintro ⟨-, rfl⟩
    cases length

theorem inicia_doble_length {p a b : Nat} (ha : a < p) (hb : b < p) (pos : List Nat) :
    (pos.length = 1 → (Inicia p (12 + p + (a * p + b)) pos ↔ (a = 0 ∧ b = 0) ∧ pos = [13])) ∧
    (pos.length = 2 → (Inicia p (12 + p + (a * p + b)) pos ↔ b = 0 ∧ pos = [a, 13])) ∧
    (pos.length = 3 → (Inicia p (12 + p + (a * p + b)) pos ↔ pos = [b, a, 13])) := by
  rw [inicia_doble ha hb]
  refine ⟨fun length => ?_, fun length => ?_, fun length => ?_⟩
  · rw [or_iff_right, or_iff_right]
    · rintro ⟨-, rfl⟩
      cases length
    · rintro rfl
      cases length
  · rw [or_iff_right, or_iff_left]
    · rintro ⟨-, rfl⟩
      cases length
    · rintro rfl
      cases length
  · rw [or_iff_left]
    rintro (⟨-, rfl⟩ | ⟨-, rfl⟩) <;> cases length

theorem inicia_triple_length {p a b c : Nat} (ha : a < p) (hb : b < p) (hc : c < p)
    (pos : List Nat) :
    let k := 12 + p + p * p + ((a * p + b) * p + c)
    (pos.length = 1 → (Inicia p k pos ↔ (a = 0 ∧ b = 0 ∧ c = 0) ∧ pos = [14])) ∧
    (pos.length = 2 → (Inicia p k pos ↔ (b = 0 ∧ c = 0) ∧ pos = [a, 14])) ∧
    (pos.length = 3 → (Inicia p k pos ↔ c = 0 ∧ pos = [b, a, 14])) ∧
    (pos.length = 4 → (Inicia p k pos ↔ pos = [c, b, a, 14])) := by
  intro k
  rw [inicia_triple ha hb hc]
  refine ⟨fun length => ?_, fun length => ?_, fun length => ?_, fun length => ?_⟩
  · rw [or_iff_right, or_iff_right, or_iff_right]
    · rintro ⟨-, rfl⟩
      cases length
    · rintro ⟨-, rfl⟩
      cases length
    · rintro rfl
      cases length
  · rw [or_iff_right, or_iff_right, or_iff_left]
    · rintro ⟨-, rfl⟩
      cases length
    · rintro ⟨-, rfl⟩
      cases length
    · rintro rfl
      cases length
  · rw [or_iff_right, or_iff_left]
    · rintro (⟨-, rfl⟩ | ⟨-, rfl⟩) <;> cases length
    · rintro rfl
      cases length
  · rw [or_iff_left]
    rintro (⟨-, rfl⟩ | ⟨-, rfl⟩ | ⟨-, rfl⟩) <;> cases length

/-- The four ways a logical block is reached. -/
inductive Region (p : Nat) : Nat → Prop where
  | directo {k : Nat} (h : k < 12) : Region p k
  | simple {a : Nat} (ha : a < p) : Region p (12 + a)
  | doble {a b : Nat} (ha : a < p) (hb : b < p) : Region p (12 + p + (a * p + b))
  | triple {a b c : Nat} (ha : a < p) (hb : b < p) (hc : c < p) :
      Region p (12 + p + p * p + ((a * p + b) * p + c))

theorem region {p k : Nat} (bound : k < 12 + p + p * p + p * p * p) : Region p k := by
  rcases Nat.lt_or_ge k 12 with small | big
  · exact .directo small
  obtain ⟨n, rfl⟩ := Nat.exists_eq_add_of_le big
  rcases Nat.lt_or_ge n p with small | big
  · exact .simple small
  obtain ⟨n, rfl⟩ := Nat.exists_eq_add_of_le big
  have positive : 0 < p := by
    rcases Nat.eq_zero_or_pos p with rfl | positive
    · omega
    · exact positive
  rw [← Nat.add_assoc]
  rcases Nat.lt_or_ge n (p * p) with small | big
  · rw [← Nat.div_add_mod' n p]
    exact .doble (Nat.div_lt_of_lt_mul small) (Nat.mod_lt n positive)
  obtain ⟨n, rfl⟩ := Nat.exists_eq_add_of_le big
  have small : n < p * p * p := by omega
  rw [← Nat.add_assoc, ← Nat.div_add_mod' n p, ← Nat.div_add_mod' (n / p) p]
  refine .triple ?_ (Nat.mod_lt _ positive) (Nat.mod_lt n positive)
  exact Nat.div_lt_of_lt_mul (Nat.div_lt_of_lt_mul (by rwa [← Nat.mul_assoc]))

/-! ### The same positions in the code -/

variable (sb : Superblock)

/-- The block numbers of a disk, as a forest with one tree for each inode. -/
def punteros (d : Disco) : Punteros Nat where
  raiz x i := leerSlot d (.inodo x i)
  palabra b i := leerSlot d (slotDeBloque sb b i)

/-- The slot of a position. -/
def slotDe (d : Disco) (x : Nat) : List Nat → Slot
  | [] => .inodo x 0
  | [i] => .inodo x i
  | i :: j :: pos => slotDeBloque sb ((punteros sb d).valor x (j :: pos)) i

theorem leerSlot_slotDe (d : Disco) (x i : Nat) (pos : List Nat) :
    leerSlot d (slotDe sb d x (i :: pos)) = (punteros sb d).valor x (i :: pos) := by
  cases pos <;> rfl

section
variable {sb} {a b c k : Nat} (d : Disco) (x : Nat)

theorem getPtr_directo (h : k < 12) :
    getPtrNroBloqueLogicoDentroInodo sb d x k = some (slotDe sb d x [k]) := by
  simp [getPtrNroBloqueLogicoDentroInodo, esBloqueDirecto, h, slotDe]

theorem getPtr_simple (ha : a < ptrsPorBloque sb) :
    getPtrNroBloqueLogicoDentroInodo sb d x (12 + a) = some (slotDe sb d x [a, 12]) := by
  simp [getPtrNroBloqueLogicoDentroInodo, esBloqueDirecto, esIndireccionSimple, inicioDoble, ha,
    posicionarIndireccionSimple, slotDe, Punteros.valor, punteros]

/-- The tests of the code on a logical block of the double indirection. -/
theorem tests_doble (ha : a < ptrsPorBloque sb) (hb : b < ptrsPorBloque sb) :
    esBloqueDirecto (12 + ptrsPorBloque sb + (a * ptrsPorBloque sb + b)) = false ∧
    esIndireccionSimple sb (12 + ptrsPorBloque sb + (a * ptrsPorBloque sb + b)) = false ∧
    esIndireccionDoble sb (12 + ptrsPorBloque sb + (a * ptrsPorBloque sb + b)) = true := by
  have small := digits_lt ha hb
  simp only [esBloqueDirecto, esIndireccionSimple, esIndireccionDoble, Bool.and_eq_true,
    Bool.and_eq_false_iff, decide_eq_true_eq, decide_eq_false_iff_not]
  simp only [inicioDoble, inicioTriple]
  omega

theorem tests_triple (ha : a < ptrsPorBloque sb) (hb : b < ptrsPorBloque sb)
    (hc : c < ptrsPorBloque sb) :
    let p := ptrsPorBloque sb
    let k := 12 + p + p * p + ((a * p + b) * p + c)
    esBloqueDirecto k = false ∧ esIndireccionSimple sb k = false ∧
      esIndireccionDoble sb k = false ∧ esIndireccionTriple sb k = true := by
  have small := digits_lt (digits_lt ha hb) hc
  simp only [esBloqueDirecto, esIndireccionSimple, esIndireccionDoble, esIndireccionTriple,
    Bool.and_eq_true, Bool.and_eq_false_iff, decide_eq_true_eq, decide_eq_false_iff_not]
  simp only [inicioDoble, inicioTriple]
  omega

theorem digits_div {p : Nat} (hb : b < p) : (a * p + b) / p = a := by
  rw [Nat.mul_comm, Nat.mul_add_div (by omega), Nat.div_eq_of_lt hb, Nat.add_zero]

theorem digits_mod {p : Nat} (hb : b < p) : (a * p + b) % p = b := by
  rw [Nat.mul_add_mod', Nat.mod_eq_of_lt hb]

theorem digits_div_sq {p : Nat} (hb : b < p) (hc : c < p) :
    ((a * p + b) * p + c) / (p * p) = a := by
  rw [← Nat.div_div_eq_div_mul, digits_div hc, digits_div hb]

theorem digits_mod_sq {p : Nat} (hb : b < p) (hc : c < p) :
    ((a * p + b) * p + c) % (p * p) = b * p + c := by
  have split : (a * p + b) * p + c = a * (p * p) + (b * p + c) := by
    rw [Nat.add_mul, Nat.mul_assoc, Nat.add_assoc]
  rw [split, digits_mod (digits_lt hb hc)]

theorem getPtr_doble (ha : a < ptrsPorBloque sb) (hb : b < ptrsPorBloque sb) :
    getPtrNroBloqueLogicoDentroInodo sb d x (12 + ptrsPorBloque sb + (a * ptrsPorBloque sb + b)) =
      some (slotDe sb d x [b, a, 13]) := by
  obtain ⟨direct, simple, double⟩ := tests_doble ha hb
  simp [getPtrNroBloqueLogicoDentroInodo, direct, simple, double, posicionarIndireccionDoble,
    inicioDoble, digits_div hb, digits_mod hb, slotDe, Punteros.valor, punteros]

theorem getPtr_triple (ha : a < ptrsPorBloque sb) (hb : b < ptrsPorBloque sb)
    (hc : c < ptrsPorBloque sb) :
    getPtrNroBloqueLogicoDentroInodo sb d x (12 + ptrsPorBloque sb +
      ptrsPorBloque sb * ptrsPorBloque sb + ((a * ptrsPorBloque sb + b) * ptrsPorBloque sb + c)) =
      some (slotDe sb d x [c, b, a, 14]) := by
  obtain ⟨direct, simple, double, triple⟩ := tests_triple ha hb hc
  simp [getPtrNroBloqueLogicoDentroInodo, direct, simple, double, triple,
    posicionarIndireccionTriple, getPtrBloqueIndDoble, getPtrBloqueIndTriple, inicioTriple,
    digits_div_sq hb hc, digits_mod_sq hb hc, digits_div hc, digits_mod hc, slotDe, Punteros.valor,
    punteros]

/-- The position of the data of logical block `k`. -/
def camino (p k : Nat) : List Nat :=
  if k < 12 then [k]
  else if k < 12 + p then [k - 12, 12]
  else if k < 12 + p + p * p then [(k - (12 + p)) % p, (k - (12 + p)) / p, 13]
  else
    let n := k - (12 + p + p * p)
    [n % p, n / p % p, n / (p * p), 14]

theorem camino_directo {p : Nat} (h : k < 12) : camino p k = [k] := by simp [camino, h]

theorem camino_simple {p : Nat} (ha : a < p) : camino p (12 + a) = [a, 12] := by
  simp [camino, ha]

theorem camino_doble {p : Nat} (ha : a < p) (hb : b < p) :
    camino p (12 + p + (a * p + b)) = [b, a, 13] := by
  have small := digits_lt ha hb
  simp [camino, show ¬12 + p + (a * p + b) < 12 by omega, small, digits_div hb, digits_mod hb]

theorem camino_triple {p : Nat} (hb : b < p) (hc : c < p) :
    camino p (12 + p + p * p + ((a * p + b) * p + c)) = [c, b, a, 14] := by
  simp [camino, show ¬12 + p + p * p + ((a * p + b) * p + c) < 12 by omega,
    show ¬12 + p + p * p + ((a * p + b) * p + c) < 12 + p by omega,
    digits_div hc, digits_mod hc, digits_mod hb, digits_div_sq hb hc]

/-- The code finds a slot exactly for the logical blocks of the four regions. -/
theorem getPtr_some {slot : Slot} (run : getPtrNroBloqueLogicoDentroInodo sb d x k = some slot) :
    k < 12 + ptrsPorBloque sb + ptrsPorBloque sb * ptrsPorBloque sb +
      ptrsPorBloque sb * ptrsPorBloque sb * ptrsPorBloque sb := by
  by_contra outside
  have direct : esBloqueDirecto k = false := by
    simp only [esBloqueDirecto, decide_eq_false_iff_not]
    omega
  have simple : esIndireccionSimple sb k = false := by
    simp only [esIndireccionSimple, Bool.and_eq_false_iff, decide_eq_false_iff_not]
    rw [inicioDoble]
    omega
  have double : esIndireccionDoble sb k = false := by
    simp only [esIndireccionDoble, Bool.and_eq_false_iff, decide_eq_false_iff_not]
    rw [inicioTriple]
    omega
  have triple : esIndireccionTriple sb k = false := by
    simp only [esIndireccionTriple, Bool.and_eq_false_iff, decide_eq_false_iff_not]
    rw [inicioTriple]
    omega
  simp [getPtrNroBloqueLogicoDentroInodo, direct, simple, double, triple] at run

theorem getPtr_camino (bound : k < 12 + ptrsPorBloque sb + ptrsPorBloque sb * ptrsPorBloque sb +
      ptrsPorBloque sb * ptrsPorBloque sb * ptrsPorBloque sb) :
    getPtrNroBloqueLogicoDentroInodo sb d x k =
      some (slotDe sb d x (camino (ptrsPorBloque sb) k)) := by
  cases region bound with
  | directo h => rw [getPtr_directo d x h, camino_directo h]
  | simple ha => rw [getPtr_simple d x ha, camino_simple ha]
  | doble ha hb => rw [getPtr_doble d x ha hb, camino_doble ha hb]
  | triple ha hb hc => rw [getPtr_triple d x ha hb hc, camino_triple hb hc]

theorem inicia_camino {p : Nat} (bound : k < 12 + p + p * p + p * p * p) :
    Inicia p k (camino p k) := by
  cases region bound with
  | directo h =>
    rw [camino_directo h]
    exact .directo h
  | simple ha =>
    rw [camino_simple ha]
    exact .enSimple ha
  | doble ha hb =>
    rw [camino_doble ha hb]
    exact .enDoble ha hb
  | triple ha hb hc =>
    rw [camino_triple hb hc]
    exact .enTriple ha hb hc

/-- The data block is the deepest position that starts at its logical block. -/
theorem inicia_length {p : Nat} {pos : List Nat} (bound : k < 12 + p + p * p + p * p * p)
    (here : Inicia p k pos) :
    pos.length < (camino p k).length ∨ pos = camino p k := by
  cases region bound with
  | directo h =>
    rw [camino_directo h]
    exact .inr ((inicia_directo h).mp here)
  | simple ha =>
    rw [camino_simple ha]
    rcases (inicia_simple ha).mp here with rfl | ⟨-, rfl⟩
    · exact .inr rfl
    · exact .inl (by simp)
  | doble ha hb =>
    rw [camino_doble ha hb]
    rcases (inicia_doble ha hb).mp here with rfl | ⟨-, rfl⟩ | ⟨-, rfl⟩
    · exact .inr rfl
    all_goals exact .inl (by simp)
  | triple ha hb hc =>
    rw [camino_triple hb hc]
    rcases (inicia_triple ha hb hc).mp here with rfl | ⟨-, rfl⟩ | ⟨-, rfl⟩ | ⟨-, rfl⟩
    · exact .inr rfl
    all_goals exact .inl (by simp)

/-- A logical block that starts no indirection block. -/
theorem inicia_solo {p : Nat} {pos : List Nat} (bound : k < 12 + p + p * p + p * p * p)
    (inner : k < 12 ∨ (k - 12) % p ≠ 0) (here : Inicia p k pos) : pos = camino p k := by
  cases region bound with
  | directo h =>
    rw [camino_directo h]
    exact (inicia_directo h).mp here
  | simple ha =>
    rw [camino_simple ha]
    rcases (inicia_simple ha).mp here with rfl | ⟨rfl, -⟩
    · rfl
    · simp at inner
  | @doble a b ha hb =>
    have shift : 12 + p + (a * p + b) - 12 = (a + 1) * p + b := by
      rw [Nat.add_mul]
      omega
    have nonzero : b ≠ 0 := by
      rw [shift, digits_mod hb] at inner
      omega
    rw [camino_doble ha hb]
    rcases (inicia_doble ha hb).mp here with rfl | ⟨zero, -⟩ | ⟨⟨-, zero⟩, -⟩
    · rfl
    all_goals exact absurd zero nonzero
  | @triple a b c ha hb hc =>
    have shift : 12 + p + p * p + ((a * p + b) * p + c) - 12 = (1 + p + (a * p + b)) * p + c := by
      have spread : (1 + p + (a * p + b)) * p = p + p * p + (a * p + b) * p := by
        rw [Nat.add_mul, Nat.add_mul 1 p p, Nat.one_mul]
      omega
    have nonzero : c ≠ 0 := by
      rw [shift, digits_mod hc] at inner
      omega
    rw [camino_triple hb hc]
    rcases (inicia_triple ha hb hc).mp here with
      rfl | ⟨zero, -⟩ | ⟨⟨-, zero⟩, -⟩ | ⟨⟨-, -, zero⟩, -⟩
    · rfl
    all_goals exact absurd zero nonzero

/-- No slot lies inside a data block. -/
theorem camino_leaf {p j n : Nat} (bound : k < 12 + p + p * p + p * p * p) :
    ¬Inicia p n (j :: camino p k) := by
  intro inside
  cases region bound with
  | directo h =>
    rw [camino_directo h] at inside
    cases inside <;> omega
  | simple ha =>
    rw [camino_simple ha] at inside
    cases inside
  | doble ha hb =>
    rw [camino_doble ha hb] at inside
    cases inside
  | triple ha hb hc =>
    rw [camino_triple hb hc] at inside
    cases inside

theorem digits_eq_zero {p : Nat} (hb : b < p) : a * p + b = 0 ↔ a = 0 ∧ b = 0 := by
  constructor
  · intro zero
    exact digits_unique hb (by omega) (by omega)
  · rintro ⟨rfl, rfl⟩
    simp

theorem start_doble (hb : b < ptrsPorBloque sb) :
    12 + ptrsPorBloque sb + (a * ptrsPorBloque sb + b) = inicioDoble sb ↔ a = 0 ∧ b = 0 := by
  rw [← digits_eq_zero hb, inicioDoble]
  omega

theorem mod_doble (hb : b < ptrsPorBloque sb) :
    (12 + ptrsPorBloque sb + (a * ptrsPorBloque sb + b) - 12) % ptrsPorBloque sb = b := by
  have shift : 12 + ptrsPorBloque sb + (a * ptrsPorBloque sb + b) - 12 =
      (a + 1) * ptrsPorBloque sb + b := by
    rw [Nat.add_mul]
    omega
  rw [shift, digits_mod hb]

theorem start_triple (hb : b < ptrsPorBloque sb) (hc : c < ptrsPorBloque sb) :
    12 + ptrsPorBloque sb + ptrsPorBloque sb * ptrsPorBloque sb +
      ((a * ptrsPorBloque sb + b) * ptrsPorBloque sb + c) = inicioTriple sb ↔
      a = 0 ∧ b = 0 ∧ c = 0 := by
  rw [← and_assoc, ← digits_eq_zero hb, ← digits_eq_zero hc, inicioTriple]
  omega

theorem sub_triple (n : Nat) :
    12 + ptrsPorBloque sb + ptrsPorBloque sb * ptrsPorBloque sb + n - inicioTriple sb = n := by
  rw [inicioTriple]
  omega

theorem pedirIndirecciones_directo (h : k < 12) : pedirIndirecciones sb d x k = some d := by
  simp [pedirIndirecciones, esIndireccionSimple, esIndireccionDoble, esIndireccionTriple,
    inicioDoble, inicioTriple, show ¬12 ≤ k by omega, show ¬12 + ptrsPorBloque sb ≤ k by omega,
    show ¬12 + ptrsPorBloque sb + ptrsPorBloque sb * ptrsPorBloque sb ≤ k by omega]

theorem pedirIndirecciones_simple (ha : a < ptrsPorBloque sb) :
    pedirIndirecciones sb d x (12 + a) = pedirSi sb (a = 0) d (slotDe sb d x [12]) := by
  simp [pedirIndirecciones, esIndireccionSimple, inicioDoble, ha, slotDe]

theorem pedirIndirecciones_doble (ha : a < ptrsPorBloque sb) (hb : b < ptrsPorBloque sb) :
    pedirIndirecciones sb d x (12 + ptrsPorBloque sb + (a * ptrsPorBloque sb + b)) = (do
      let d ← pedirContadoSi sb (a = 0 ∧ b = 0) d x (slotDe sb d x [13])
      pedirContadoSi sb (b = 0) d x (slotDe sb d x [a, 13])) := by
  obtain ⟨-, simple, double⟩ := tests_doble ha hb
  have index : (12 + ptrsPorBloque sb + (a * ptrsPorBloque sb + b) - inicioDoble sb) /
      ptrsPorBloque sb = a := by
    rw [inicioDoble, Nat.add_sub_cancel_left, digits_div hb]
  simp only [pedirIndirecciones, simple, double, Bool.false_eq_true, ↓reduceIte, start_doble hb,
    mod_doble hb, index]
  rfl

theorem pedirIndirecciones_triple (ha : a < ptrsPorBloque sb) (hb : b < ptrsPorBloque sb)
    (hc : c < ptrsPorBloque sb) :
    pedirIndirecciones sb d x (12 + ptrsPorBloque sb + ptrsPorBloque sb * ptrsPorBloque sb +
      ((a * ptrsPorBloque sb + b) * ptrsPorBloque sb + c)) = (do
      let d ← pedirContadoSi sb (a = 0 ∧ b = 0 ∧ c = 0) d x (slotDe sb d x [14])
      let d ← pedirContadoSi sb (b = 0 ∧ c = 0) d x (slotDe sb d x [a, 14])
      pedirContadoSi sb (c = 0) d x (slotDe sb d x [b, a, 14])) := by
  obtain ⟨-, simple, double, triple⟩ := tests_triple ha hb hc
  simp only [pedirIndirecciones, simple, double, triple, Bool.false_eq_true, ↓reduceIte,
    start_triple hb hc, sub_triple, digits_mod hc, digits_mod_sq hb hc, digits_div_sq hb hc,
    digits_div hc, digits_eq_zero hc, getPtrBloqueIndTriple]
  rfl

end

/-! ### The release of indirection blocks, with `liberar` in the place of `liberarBloque` -/

section
variable (liberar : Disco → Slot → Option Disco)

def liberarSiCon (condicion : Bool) (d : Disco) (x : Nat) (slot : Slot) : Option Disco :=
  if condicion then do
    let d ← liberar d slot
    some (restaBloques sb d x)
  else some d

def liberarIndireccionesCon (d : Disco) (x k : Nat) : Option Disco :=
  let p := ptrsPorBloque sb
  if esIndireccionSimple sb k then liberarSiCon sb liberar (k = 12) d x (.inodo x 12)
  else if esIndireccionDoble sb k then do
    let pos := (k - inicioDoble sb) / p
    let d ← liberarSiCon sb liberar ((k - 12) % p = 0) d x
      (slotDeBloque sb (leerSlot d (.inodo x 13)) pos)
    liberarSiCon sb liberar (k = inicioDoble sb) d x (.inodo x 13)
  else if esIndireccionTriple sb k then do
    let ptrIndDoble := getPtrBloqueIndDoble sb d (leerSlot d (.inodo x 14)) k
    let ptrIndTriple := getPtrBloqueIndTriple sb (leerSlot d (.inodo x 14)) k
    let d ← liberarSiCon sb liberar ((k - inicioTriple sb) % p = 0) d x ptrIndDoble
    let d ← liberarSiCon sb liberar ((k - inicioTriple sb) % (p * p) = 0) d x ptrIndTriple
    liberarSiCon sb liberar (k = inicioTriple sb) d x (.inodo x 14)
  else some d

end

section
variable {sb} {a b c k : Nat} (liberar : Disco → Slot → Option Disco) (d : Disco) (x : Nat)

theorem liberarIndireccionesCon_directo (h : k < 12) :
    liberarIndireccionesCon sb liberar d x k = some d := by
  simp [liberarIndireccionesCon, esIndireccionSimple, esIndireccionDoble, esIndireccionTriple,
    inicioDoble, inicioTriple, show ¬12 ≤ k by omega, show ¬12 + ptrsPorBloque sb ≤ k by omega,
    show ¬12 + ptrsPorBloque sb + ptrsPorBloque sb * ptrsPorBloque sb ≤ k by omega]

theorem liberarIndireccionesCon_simple (ha : a < ptrsPorBloque sb) :
    liberarIndireccionesCon sb liberar d x (12 + a) =
      liberarSiCon sb liberar (a = 0) d x (slotDe sb d x [12]) := by
  simp [liberarIndireccionesCon, esIndireccionSimple, inicioDoble, ha, slotDe]

theorem liberarIndireccionesCon_doble (ha : a < ptrsPorBloque sb) (hb : b < ptrsPorBloque sb) :
    liberarIndireccionesCon sb liberar d x
      (12 + ptrsPorBloque sb + (a * ptrsPorBloque sb + b)) = (do
      let d ← liberarSiCon sb liberar (b = 0) d x (slotDe sb d x [a, 13])
      liberarSiCon sb liberar (a = 0 ∧ b = 0) d x (slotDe sb d x [13])) := by
  obtain ⟨-, simple, double⟩ := tests_doble ha hb
  have index : (12 + ptrsPorBloque sb + (a * ptrsPorBloque sb + b) - inicioDoble sb) /
      ptrsPorBloque sb = a := by
    rw [inicioDoble, Nat.add_sub_cancel_left, digits_div hb]
  simp only [liberarIndireccionesCon, simple, double, Bool.false_eq_true, ↓reduceIte,
    start_doble hb, mod_doble hb, index]
  rfl

/-- The two inner slots are computed before either block goes. -/
theorem liberarIndireccionesCon_triple (ha : a < ptrsPorBloque sb) (hb : b < ptrsPorBloque sb)
    (hc : c < ptrsPorBloque sb) :
    liberarIndireccionesCon sb liberar d x (12 + ptrsPorBloque sb +
      ptrsPorBloque sb * ptrsPorBloque sb +
        ((a * ptrsPorBloque sb + b) * ptrsPorBloque sb + c)) = (do
      let ptrIndTriple := slotDe sb d x [a, 14]
      let d ← liberarSiCon sb liberar (c = 0) d x (slotDe sb d x [b, a, 14])
      let d ← liberarSiCon sb liberar (b = 0 ∧ c = 0) d x ptrIndTriple
      liberarSiCon sb liberar (a = 0 ∧ b = 0 ∧ c = 0) d x (slotDe sb d x [14])) := by
  obtain ⟨-, simple, double, triple⟩ := tests_triple ha hb hc
  simp only [liberarIndireccionesCon, simple, double, triple, Bool.false_eq_true, ↓reduceIte,
    start_triple hb hc, sub_triple, digits_mod hc, digits_mod_sq hb hc, digits_div_sq hb hc,
    digits_div hc, digits_eq_zero hc, getPtrBloqueIndTriple, getPtrBloqueIndDoble]
  rfl

theorem liberarIndirecciones_directo (h : k < 12) : liberarIndirecciones sb d x k = some d :=
  liberarIndireccionesCon_directo (liberarBloque sb) d x h

theorem liberarIndirecciones_simple (ha : a < ptrsPorBloque sb) :
    liberarIndirecciones sb d x (12 + a) = liberarSi sb (a = 0) d x (slotDe sb d x [12]) :=
  liberarIndireccionesCon_simple (liberarBloque sb) d x ha

theorem liberarIndirecciones_doble (ha : a < ptrsPorBloque sb) (hb : b < ptrsPorBloque sb) :
    liberarIndirecciones sb d x (12 + ptrsPorBloque sb + (a * ptrsPorBloque sb + b)) = (do
      let d ← liberarSi sb (b = 0) d x (slotDe sb d x [a, 13])
      liberarSi sb (a = 0 ∧ b = 0) d x (slotDe sb d x [13])) :=
  liberarIndireccionesCon_doble (liberarBloque sb) d x ha hb

theorem liberarIndirecciones_triple (ha : a < ptrsPorBloque sb) (hb : b < ptrsPorBloque sb)
    (hc : c < ptrsPorBloque sb) :
    liberarIndirecciones sb d x (12 + ptrsPorBloque sb + ptrsPorBloque sb * ptrsPorBloque sb +
      ((a * ptrsPorBloque sb + b) * ptrsPorBloque sb + c)) = (do
      let ptrIndTriple := slotDe sb d x [a, 14]
      let d ← liberarSi sb (c = 0) d x (slotDe sb d x [b, a, 14])
      let d ← liberarSi sb (b = 0 ∧ c = 0) d x ptrIndTriple
      liberarSi sb (a = 0 ∧ b = 0 ∧ c = 0) d x (slotDe sb d x [14])) :=
  liberarIndireccionesCon_triple (liberarBloque sb) d x ha hb hc

end

end LosAltos.Rfs
