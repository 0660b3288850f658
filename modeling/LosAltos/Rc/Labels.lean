import LosAltos.Rc.SearchEnds
import LosAltos.Rc.SearchFit

/-!
# The labels of the buddy tree

`rc/src/vector.c:199-273, 658-742`. A block carries its own label, `actual`, and the one of the
block it was halved from, `padre`; only blocks of one size and one `padre` are joined. A join
recomputes the `padre` of the block it makes. For the two halves of the cache the result is not
the label they had, and a half that was ever halved is not joined with the other one again.
-/
namespace LosAltos.Rc

open Lib Finset

/-- The bytes of the cache an entry stands for. -/
def abarca (e : KeyElement) : Nat :=
  if e.dataSize = 0 then 0 else if e.libre then e.dataSize else e.dataSize + e.dataUnuse

def total (c : Config) (m : Motor) : Nat := suma c (fun _ => abarca) m

/-- A power of two, more than half of which is data. -/
def Colmada (e : KeyElement) : Prop := ∃ t, abarca e = 2 ^ t ∧ 2 ^ t < 2 * e.dataSize

/-- The `padre` that `juntarlos` gives to the block it makes. -/
def padreDe (padre : Int) : Int :=
  if padre > 0 then padre - (if padre % 2 ≠ 0 then 2 else 1)
  else padre + (if padre % 2 ≠ 0 then 2 else 1)

/-- The block with the lowest bytes of a half of the cache that was halved; `signo` is the label of
the half. -/
def Ficha (c : Config) (signo : Int) (e : KeyElement) : Prop :=
  (∃ k : Nat, abarca e * 2 ^ (k + 2) = c.cacheSize ∧ e.padre = signo * (2 * k + 1)) ∨
    (abarca e * 2 = c.cacheSize ∧ e.padre = -signo)

/-- Both halves were halved. -/
def Fichas (c : Config) (m : Motor) : Prop :=
  ∃ i < c.cantRegistros, ∃ j < c.cantRegistros,
    Ficha c 1 (m.keyVector i) ∧ Ficha c (-1) (m.keyVector j)

/-- One half was never halved, and nothing else has its `padre`. -/
def MitadSola (c : Config) (m : Motor) : Prop :=
  ∃ i < c.cantRegistros, abarca (m.keyVector i) * 2 = c.cacheSize ∧ (m.keyVector i).padre = 0 ∧
    ∀ j < c.cantRegistros, j ≠ i → 0 < abarca (m.keyVector j) → (m.keyVector j).padre ≠ 0

/-- The cache cannot become one block again: some bytes are lost, or the labels of its halves
differ. -/
structure Rota (c : Config) (m : Motor) : Prop where
  tabla : Tabla c m
  cabe : total c m ≤ c.cacheSize
  pierde : total c m < c.cacheSize ∨
    (∀ i < c.cantRegistros, 0 < abarca (m.keyVector i) → Colmada (m.keyVector i)) ∧
      (Fichas c m ∨ MitadSola c m)

variable {c : Config} {m m' : Motor} {i j k a b : Nat} {signo : Int} {e f : KeyElement}

/-! ### The bytes of the entries -/

theorem abarca_pos : 0 < abarca e ↔ 0 < e.dataSize := by
  unfold abarca
  split
  · omega
  · split <;> omega

theorem abarca_libre (free : e.libre) : abarca e = e.dataSize := by
  unfold abarca
  split
  · omega
  · rfl

theorem dataSize_le_abarca (e : KeyElement) : e.dataSize ≤ abarca e := by
  unfold abarca
  split
  · omega
  · split <;> omega

theorem total_par (first : i < c.cantRegistros) (second : j < c.cantRegistros) (different : i ≠ j)
    (others : ∀ k, k ≠ i → k ≠ j → m'.keyVector k = m.keyVector k) :
    total c m' + (abarca (m.keyVector i) + abarca (m.keyVector j)) =
      total c m + (abarca (m'.keyVector i) + abarca (m'.keyVector j)) :=
  suma_par (fun _ => abarca) first second different others

theorem total_uno (inside : i < c.cantRegistros)
    (others : ∀ k, k ≠ i → m'.keyVector k = m.keyVector k) :
    total c m' + abarca (m.keyVector i) = total c m + abarca (m'.keyVector i) := by
  have member : i ∈ range c.cantRegistros := mem_range.mpr inside
  have rest : ∑ k ∈ (range c.cantRegistros).erase i, abarca (m'.keyVector k) =
      ∑ k ∈ (range c.cantRegistros).erase i, abarca (m.keyVector k) :=
    sum_congr rfl fun k other => by rw [others k (ne_of_mem_erase other)]
  have before := add_sum_erase _ (fun k => abarca (m.keyVector k)) member
  have after := add_sum_erase _ (fun k => abarca (m'.keyVector k)) member
  unfold total suma
  dsimp only at before after ⊢
  omega

/-- Different entries together stand for at most the total. -/
theorem sum_le_total {s : Finset Nat} (inside : ∀ k ∈ s, k < c.cantRegistros) :
    ∑ k ∈ s, abarca (m.keyVector k) ≤ total c m :=
  sum_le_sum_of_subset fun k member => mem_range.mpr (inside k member)

theorem abarca_le_total (inside : i < c.cantRegistros) : abarca (m.keyVector i) ≤ total c m := by
  have one := sum_le_total (c := c) (m := m) (s := {i}) (by simpa using inside)
  simpa using one

theorem abarca_par_le (first : i < c.cantRegistros) (second : j < c.cantRegistros)
    (different : i ≠ j) : abarca (m.keyVector i) + abarca (m.keyVector j) ≤ total c m := by
  have two := sum_le_total (c := c) (m := m) (s := {i, j}) (by simp [first, second])
  rwa [sum_pair different] at two

/-! ### A join -/

theorem padreDe_ne_zero (padre : Int) : padreDe padre ≠ 0 := by
  unfold padreDe
  split <;> split <;> omega

theorem juntarlos_padre (different : a ≠ b) :
    ((juntarlos m a b).keyVector a).padre = padreDe (m.keyVector a).padre := by
  simp [juntarlos, different, padreDe]

theorem cumple_some {vecino : Int} (joins : cumple c m a vecino = true) :
    vecino = vecino.toNat ∧ vecino.toNat < c.cantRegistros ∧
      0 < (m.keyVector vecino.toNat).dataSize ∧
      (m.keyVector vecino.toNat).dataSize = (m.keyVector a).dataSize ∧
      (m.keyVector vecino.toNat).padre = (m.keyVector a).padre ∧
      (m.keyVector vecino.toNat).libre := by
  simp only [cumple] at joins
  split at joins
  · rename_i range
    simp only [Bool.and_eq_true, decide_eq_true_eq, beq_iff_eq] at joins
    exact ⟨by omega, by omega, joins.1.1.1, joins.1.1.2, joins.1.2, joins.2⟩
  · cases joins

/-- A join makes one block of two of the same bytes and the same `padre`. -/
structure Unida (c : Config) (m m' : Motor) (a b : Nat) : Prop where
  tabla : Tabla c m'
  distintas : a ≠ b
  primera : a < c.cantRegistros
  segunda : b < c.cantRegistros
  cuenta : total c m' = total c m
  bytes : abarca (m'.keyVector a) = abarca (m.keyVector a) + abarca (m.keyVector b)
  doble : (m'.keyVector a).dataSize = 2 * (m.keyVector a).dataSize
  mismo : (m.keyVector b).dataSize = (m.keyVector a).dataSize
  libre : (m.keyVector b).libre
  llena : 0 < (m.keyVector b).dataSize
  rotulo : (m.keyVector b).padre = (m.keyVector a).padre
  padre : (m'.keyVector a).padre = padreDe (m.keyVector a).padre
  vacia : abarca (m'.keyVector b) = 0
  otras : ∀ k, k ≠ a → k ≠ b → m'.keyVector k = m.keyVector k

theorem juntarlos_unida {vecino : Int} (table : Tabla c m) (bounded : total c m ≤ c.cacheSize)
    (inside : a < c.cantRegistros) (apart : vecino ≠ a) (joins : cumple c m a vecino = true) :
    Unida c m (juntarlos m a vecino.toNat) a vecino.toNat := by
  obtain ⟨same, within, filled, size, label, free⟩ := cumple_some joins
  have different : a ≠ vecino.toNat := by omega
  generalize vecino.toNat = b at within filled size label free different
  have kept := juntarlos_actual m different
  have gone := juntarlos_posicion m different
  have others : ∀ k, k ≠ a → k ≠ b → (juntarlos m a b).keyVector k = m.keyVector k :=
    fun k first second => juntarlos_other m first second
  have both := abarca_par_le (m := m) inside within different
  have first := dataSize_le_abarca (m.keyVector a)
  have second := abarca_libre free
  have cache := c.cacheSize_lt
  have sum : a64 ((m.keyVector a).dataSize + (m.keyVector b).dataSize) =
      (m.keyVector a).dataSize + (m.keyVector b).dataSize := by
    have word := a64_of_lt (x := ((m.keyVector a).dataSize + (m.keyVector b).dataSize : Nat))
      (by omega) (by omega)
    exact_mod_cast word
  have newSize : ((juntarlos m a b).keyVector a).dataSize =
      (m.keyVector a).dataSize + (m.keyVector b).dataSize := by
    rw [kept]
    exact_mod_cast sum
  have flag : ((juntarlos m a b).keyVector a).libre = (m.keyVector a).libre := by rw [kept]
  have unuse : ((juntarlos m a b).keyVector a).dataUnuse = (m.keyVector a).dataUnuse := by
    rw [kept]
  have span : abarca ((juntarlos m a b).keyVector a) =
      abarca (m.keyVector a) + abarca (m.keyVector b) := by
    rw [second]
    have before : (m.keyVector a).dataSize ≠ 0 := by omega
    have after : (m.keyVector a).dataSize + (m.keyVector b).dataSize ≠ 0 := by omega
    unfold abarca
    rw [flag, unuse, newSize, if_neg after, if_neg before]
    split <;> omega
  have empty : abarca ((juntarlos m a b).keyVector b) = 0 := by
    rw [gone]
    rfl
  have whole := total_par (c := c) inside within different others
  have registros : 0 < c.cantRegistros := by omega
  exact ⟨(tabla_estable registros).junta m a b table inside within different free filled,
    different, inside, within, by omega, span, by omega, size, free, filled, label,
    juntarlos_padre different, empty, others⟩

/-- Blocks of one size are of one size with their padding too. -/
theorem Unida.iguales (joined : Unida c m m' a b)
    (dense : ∀ i < c.cantRegistros, 0 < abarca (m.keyVector i) → Colmada (m.keyVector i)) :
    abarca (m.keyVector b) = abarca (m.keyVector a) := by
  have free := abarca_libre joined.libre
  have first := dataSize_le_abarca (m.keyVector a)
  have size := joined.mismo
  have filled := joined.llena
  obtain ⟨t, span, most⟩ := dense a joined.primera (by omega)
  obtain ⟨u, half, -⟩ := dense b joined.segunda (by omega)
  have below : 2 ^ t < 2 ^ (u + 1) := by
    rw [Nat.pow_succ]
    omega
  have above : 2 ^ u ≤ 2 ^ t := by omega
  have exponents : t = u := by
    have less := (Nat.pow_lt_pow_iff_right (by decide : 1 < 2)).mp below
    have more := (Nat.pow_le_pow_iff_right (by decide : 1 < 2)).mp above
    omega
  rw [half, span, exponents]

/-- The lowest block of a half keeps its mark when it is joined with another one of its half. -/
theorem Ficha.junta (sign : signo = 1 ∨ signo = -1) (mark : Ficha c signo e)
    (span : abarca f = 2 * abarca e) (label : f.padre = padreDe e.padre)
    (half : ¬(abarca e * 2 = c.cacheSize ∧ e.padre = -signo)) : Ficha c signo f := by
  rcases mark with ⟨k, size, parent⟩ | whole
  · cases k with
    | zero =>
      refine Or.inr ⟨by omega, ?_⟩
      rw [label, parent]
      rcases sign with rfl | rfl <;> rfl
    | succ k =>
      refine Or.inl ⟨k, ?_, ?_⟩
      · rw [span, ← size, Nat.pow_succ 2 (k + 2), Nat.mul_comm 2, Nat.mul_assoc, Nat.mul_comm 2]
      · rw [label, parent]
        unfold padreDe
        push_cast
        rcases sign with rfl | rfl
        · split <;> split <;> omega
        · split <;> split <;> omega
  · exact absurd whole half

theorem Ficha.pos (cache : 0 < c.cacheSize) (mark : Ficha c signo e) : 0 < abarca e := by
  rcases mark with ⟨k, size, -⟩ | ⟨size, -⟩
  · exact Nat.pos_of_ne_zero fun zero => by simp [zero] at size; omega
  · omega

theorem Ficha.congr (mark : Ficha c signo e) (span : abarca f = abarca e)
    (label : f.padre = e.padre) : Ficha c signo f := by
  unfold Ficha
  rwa [span, label]

/-- The mark of a half is found after a join, next to the one of the other half. -/
theorem Unida.ficha (joined : Unida c m m' a b) (sign : signo = 1 ∨ signo = -1)
    (bounded : total c m ≤ c.cacheSize)
    (dense : ∀ i < c.cantRegistros, 0 < abarca (m.keyVector i) → Colmada (m.keyVector i))
    (first : i < c.cantRegistros) (mark : Ficha c signo (m.keyVector i))
    (second : j < c.cantRegistros) (rest : Ficha c (-signo) (m.keyVector j)) :
    ∃ k < c.cantRegistros, Ficha c signo (m'.keyVector k) := by
  have same := joined.iguales dense
  have filled := joined.llena
  have free := abarca_libre joined.libre
  have pair := abarca_par_le (m := m) joined.primera joined.segunda joined.distintas
  have cache : 0 < c.cacheSize := by omega
  by_cases outside : i ≠ a ∧ i ≠ b
  · exact ⟨i, first, joined.otras i outside.1 outside.2 ▸ mark⟩
  have here : Ficha c signo (m.keyVector a) := by
    by_cases left : i = a
    · exact left ▸ mark
    · have right : i = b := by
        by_contra other
        exact outside ⟨left, other⟩
      exact (right ▸ mark).congr same.symm joined.rotulo.symm
  refine ⟨a, joined.primera, here.junta sign ?_ joined.padre ?_⟩
  · rw [joined.bytes]
    omega
  · rintro ⟨half, parent⟩
    -- the two blocks are the whole cache, and the other mark is on one of them
    have there : Ficha c (-signo) (m.keyVector a) := by
      by_cases left : j = a
      · exact left ▸ rest
      · by_cases right : j = b
        · exact (right ▸ rest).congr same.symm joined.rotulo.symm
        · have three := sum_le_total (c := c) (m := m) (s := {a, b, j}) (by
            simp [joined.primera, joined.segunda, second])
          have positive := rest.pos cache
          rw [sum_insert (by simp [joined.distintas, Ne.symm left]),
            sum_pair (Ne.symm right)] at three
          omega
    rcases there with ⟨k, size, -⟩ | ⟨-, label⟩
    · have more : 2 ^ 2 ≤ 2 ^ (k + 2) := Nat.pow_le_pow_right (by decide) (by omega)
      have product := Nat.mul_le_mul_left (abarca (m.keyVector a)) more
      omega
    · rcases sign with rfl | rfl <;> omega

theorem Rota.junta (broken : Rota c m) (joined : Unida c m m' a b) : Rota c m' := by
  refine ⟨joined.tabla, joined.cuenta ▸ broken.cabe, ?_⟩
  rw [joined.cuenta]
  rcases broken.pierde with lost | ⟨dense, marks⟩
  · exact Or.inl lost
  have same := joined.iguales dense
  have free := abarca_libre joined.libre
  have size := joined.mismo
  have filled := joined.llena
  refine Or.inr ⟨fun k inside positive => ?_, ?_⟩
  · by_cases left : k = a
    · subst left
      obtain ⟨t, span, most⟩ := dense b joined.segunda (by omega)
      refine ⟨t + 1, ?_, ?_⟩
      · rw [joined.bytes, Nat.pow_succ]
        omega
      · rw [joined.doble, Nat.pow_succ]
        omega
    · by_cases right : k = b
      · subst right
        exact absurd joined.vacia positive.ne'
      · rw [joined.otras k left right] at positive ⊢
        exact dense k inside positive
  · rcases marks with ⟨i, first, j, second, low, high⟩ | ⟨i, inside, half, label, others⟩
    · obtain ⟨i', first', low'⟩ := joined.ficha (Or.inl rfl) broken.cabe dense first low second high
      obtain ⟨j', second', high'⟩ := joined.ficha (Or.inr rfl) broken.cabe dense second high first
        low
      exact Or.inl ⟨i', first', j', second', low', high'⟩
    · have notFirst : i ≠ a := by
        rintro rfl
        exact others b joined.segunda joined.distintas.symm (by omega) (joined.rotulo.trans label)
      have notSecond : i ≠ b := by
        rintro rfl
        exact others a joined.primera joined.distintas (by omega) (joined.rotulo ▸ label)
      refine Or.inr ⟨i, inside, ?_, ?_, fun k below different positive => ?_⟩
      · rwa [joined.otras i notFirst notSecond]
      · rwa [joined.otras i notFirst notSecond]
      · by_cases left : k = a
        · subst left
          rw [joined.padre]
          exact padreDe_ne_zero _
        · by_cases right : k = b
          · subst right
            exact absurd joined.vacia positive.ne'
          · rw [joined.otras k left right] at positive ⊢
            exact others k below different positive

/-! ### The other steps of a deletion -/

/-- The same blocks with the same labels, maybe in other entries. -/
theorem Rota.mudar {σ : Nat → Nat} (broken : Rota c m) (table : Tabla c m')
    (all : total c m' = total c m) (inside : ∀ k < c.cantRegistros, σ k < c.cantRegistros)
    (back : ∀ k, σ (σ k) = k)
    (span : ∀ k < c.cantRegistros, abarca (m'.keyVector k) = abarca (m.keyVector (σ k)))
    (label : ∀ k < c.cantRegistros, (m'.keyVector k).padre = (m.keyVector (σ k)).padre)
    (filled : ∀ k < c.cantRegistros,
      (m.keyVector (σ k)).dataSize ≤ (m'.keyVector k).dataSize) : Rota c m' := by
  refine ⟨table, all ▸ broken.cabe, ?_⟩
  rw [all]
  rcases broken.pierde with lost | ⟨dense, marks⟩
  · exact Or.inl lost
  have moved : ∀ {signo : Int} {k : Nat}, k < c.cantRegistros → Ficha c signo (m.keyVector k) →
      Ficha c signo (m'.keyVector (σ k)) := by
    intro signo k below mark
    have size := span (σ k) (inside k below)
    have parent := label (σ k) (inside k below)
    rw [back] at size parent
    exact mark.congr size parent
  refine Or.inr ⟨fun k below positive => ?_, ?_⟩
  · rw [span k below] at positive
    obtain ⟨t, size, most⟩ := dense (σ k) (inside k below) positive
    have more := filled k below
    exact ⟨t, (span k below).trans size, by omega⟩
  · rcases marks with ⟨i, first, j, second, low, high⟩ | ⟨i, here, half, parent, others⟩
    · exact Or.inl ⟨σ i, inside i first, σ j, inside j second, moved first low, moved second high⟩
    · refine Or.inr ⟨σ i, inside i here, ?_, ?_, fun k below different positive => ?_⟩
      · rwa [span (σ i) (inside i here), back]
      · rwa [label (σ i) (inside i here), back]
      · rw [label k below]
        rw [span k below] at positive
        refine others (σ k) (inside k below) (fun same => different ?_) positive
        rw [← same, back]

theorem rota_permuta (broken : Rota c m) (bound : j + 1 < c.cantRegistros)
    (first : 0 < (m.keyVector j).dataSize) (second : 0 < (m.keyVector (j + 1)).dataSize) :
    Rota c (m.permuta j (j + 1)) := by
  have registros : 0 < c.cantRegistros := by omega
  have table := (tabla_estable registros).permuta m j broken.tabla bound ⟨first, second⟩
  have left : (m.permuta j (j + 1)).keyVector j = m.keyVector (j + 1) := by
    simp [Motor.permuta]
  have right : (m.permuta j (j + 1)).keyVector (j + 1) = m.keyVector j := by
    simp [Motor.permuta]
  have others : ∀ k, k ≠ j → k ≠ j + 1 →
      (m.permuta j (j + 1)).keyVector k = m.keyVector k := by
    intro k notFirst notSecond
    simp [Motor.permuta, notFirst, notSecond]
  have sum := total_par (c := c) (by omega) bound (by omega : j ≠ j + 1) others
  rw [left, right] at sum
  refine broken.mudar table (by omega) (fun k => swap_lt bound) (Equiv.swap j (j + 1)).left_inv
    (fun k _ => ?_) (fun k _ => ?_) (fun k _ => ?_)
  · rw [Motor.permuta_keyVector]
  · rw [Motor.permuta_keyVector]
  · rw [Motor.permuta_keyVector]

/-- One entry loses bytes, or keeps them with its label. -/
theorem Rota.cambia (broken : Rota c m) (table : Tabla c m') (inside : i < c.cantRegistros)
    (others : ∀ k, k ≠ i → m'.keyVector k = m.keyVector k)
    (fewer : abarca (m'.keyVector i) ≤ abarca (m.keyVector i))
    (label : (m'.keyVector i).padre = (m.keyVector i).padre)
    (filled : (m.keyVector i).dataSize ≤ (m'.keyVector i).dataSize) : Rota c m' := by
  have sum := total_uno (c := c) inside others
  by_cases same : abarca (m'.keyVector i) = abarca (m.keyVector i)
  · refine broken.mudar (σ := id) table (by omega) (fun k below => below) (fun k => rfl) ?_ ?_ ?_
    · intro k _
      by_cases here : k = i
      · exact here ▸ same
      · rw [others k here, id]
    · intro k _
      by_cases here : k = i
      · exact here ▸ label
      · rw [others k here, id]
    · intro k _
      by_cases here : k = i
      · exact here ▸ filled
      · rw [others k here, id]
  · have before := broken.cabe
    exact ⟨table, by omega, Or.inl (by omega)⟩

theorem rota_juntarSiCumple {vecino : Int} (broken : Rota c m) (inside : a < c.cantRegistros)
    (apart : vecino ≠ a) (cuenta : Nat) : Rota c (juntarSiCumple c m a vecino cuenta).1 := by
  simp only [juntarSiCumple]
  split
  · rename_i joins
    exact broken.junta (juntarlos_unida broken.tabla broken.cabe inside apart joins)
  · exact broken

theorem rota_eliminaBuddyLoop (posicion k : Nat) :
    ∀ {m m' : Motor} {siguiente anterior : Int} {s a : Nat}, Rota c m →
      (posicion : Int) < siguiente → anterior < posicion →
      eliminaBuddyLoop c posicion k m siguiente anterior s a = some m' → Rota c m' := by
  induction k with
  | zero => intro m m' siguiente anterior s a _ _ _ runs; cases runs
  | succ k ih =>
    intro m m' siguiente anterior s a broken after before runs
    simp only [eliminaBuddyLoop] at runs
    split at runs
    · rename_i bound
      have first := rota_juntarSiCumple broken bound (by omega : siguiente ≠ posicion) s
      have second := rota_juntarSiCumple first bound (by omega : anterior ≠ posicion) a
      split at runs
      · exact ih second (by omega) (by omega) runs
      · simp only [Option.some.injEq] at runs
        rwa [← runs]
    · simp only [Option.some.injEq] at runs
      rwa [← runs]

theorem vectorGetLoop_llena {key : List UInt8} (k : Nat) :
    ∀ {i res : Nat}, vectorGetLoop c m key k i = some res → (m.keyVector res).dataSize ≠ 0 := by
  induction k with
  | zero => intro i res runs; cases runs
  | succ k ih =>
    intro i res runs
    simp only [vectorGetLoop] at runs
    split at runs
    · split at runs
      · cases runs
      · rename_i full
        split at runs
        · simp only [Option.some.injEq] at runs
          exact runs ▸ full
        · exact ih runs
    · cases runs

/-- A deletion does not make the cache whole. -/
theorem rota_dummyNgItemDelete {fuel : Nat} {key : List UInt8} (buddy : c.esquema = .buddy)
    (broken : Rota c m) (runs : dummyNgItemDelete c fuel m key = some m') : Rota c m' := by
  unfold dummyNgItemDelete at runs
  split at runs
  · simp only [Option.some.injEq] at runs
    rwa [← runs]
  rename_i res found
  obtain ⟨inside, held⟩ := vectorGet_some found
  have busy := tieneClave_libre held
  have full := vectorGetLoop_llena _ found
  have cache := c.cacheSize_lt
  have bounded := (abarca_le_total (m := m) inside).trans broken.cabe
  have span : abarca (m.keyVector res) =
      (m.keyVector res).dataSize + (m.keyVector res).dataUnuse := by
    unfold abarca
    rw [if_neg full, if_neg (by simp [busy])]
  have word : a64 ((m.keyVector res).dataSize + (m.keyVector res).dataUnuse) =
      (m.keyVector res).dataSize + (m.keyVector res).dataUnuse := by
    have small := a64_of_lt
      (x := ((m.keyVector res).dataSize + (m.keyVector res).dataUnuse : Nat)) (by omega) (by omega)
    exact_mod_cast small
  have place : (eliminarParticion c m (some res)).2 = res := by
    simp [eliminarParticion, inside.ne]
  have freed : Rota c (eliminarParticion c m (some res)).1 := by
    have registros : 0 < c.cantRegistros := by omega
    have table := (tabla_estable registros).elimina m res broken.tabla inside busy
    rw [eliminarParticion_some inside] at table ⊢
    refine broken.cambia table inside (fun k other => by simp [other]) ?_ (by simp) ?_
    · rw [Motor.pon_keyVector, if_pos rfl, abarca_libre rfl, word, span]
    · simp [word]
  simp only [Option.bind_eq_bind, buddy, if_true, Option.bind_eq_some_iff, Prod.exists,
    Option.some.injEq, place] at runs
  obtain ⟨joined, last, deletes, released⟩ := runs
  simp only [eliminaBuddy, Option.bind_eq_bind, Option.bind_eq_some_iff, Prod.exists,
    Option.some.injEq, Prod.mk.injEq] at deletes
  obtain ⟨sorted, pos, order, joined', joins, rfl, rfl⟩ := deletes
  have swaps : Permutable c (Rota c) :=
    ⟨fun m broken => broken.tabla, fun m j broken => rota_permuta broken⟩
  obtain ⟨kept, within⟩ := ordenarVector_permutable swaps freed order
  have whole := rota_eliminaBuddyLoop pos fuel kept (by omega) (by omega) joins
  rw [← released]
  unfold dummyNgItemRelease
  split
  · exact whole
  · have position : pos < c.cantRegistros := within inside
    refine whole.cambia (whole.tabla.pon position (whole.tabla.claves pos position)) position
      (fun k other => by simp [other]) ?_ (by simp) (by simp)
    rw [Motor.pon_keyVector, if_pos rfl, abarca_libre rfl]
    exact dataSize_le_abarca (joined'.keyVector pos)

/-- The table is one free block, the whole cache. -/
def Fundida (c : Config) (m : Motor) : Prop :=
  ∃ i < c.cantRegistros, 0 < (m.keyVector i).dataSize ∧
    (∀ j < c.cantRegistros, 0 < (m.keyVector j).dataSize → j = i) ∧
    (m.keyVector i).libre ∧ (m.keyVector i).data = 0 ∧ (m.keyVector i).dataSize = c.cacheSize

theorem Rota.no_fundida (broken : Rota c m) : ¬Fundida c m := by
  rintro ⟨i, inside, positive, only, free, -, size⟩
  have span : abarca (m.keyVector i) = c.cacheSize := (abarca_libre free).trans size
  have whole := abarca_le_total (m := m) inside
  have alone : ∀ k < c.cantRegistros, 0 < abarca (m.keyVector k) →
      abarca (m.keyVector k) = c.cacheSize := by
    intro k below filled
    rw [only k below (abarca_pos.mp filled), span]
  rcases broken.pierde with lost | ⟨-, ⟨x, first, -, -, mark, -⟩ | ⟨x, first, half, -⟩⟩
  · omega
  · have cache := alone x first (mark.pos (by omega))
    rcases mark with ⟨k, part, -⟩ | ⟨part, -⟩
    · have more : 2 ^ 2 ≤ 2 ^ (k + 2) := Nat.pow_le_pow_right (by decide) (by omega)
      have product := Nat.mul_le_mul_left (abarca (m.keyVector x)) more
      omega
    · omega
  · have cache := alone x first (by omega)
    omega

end LosAltos.Rc
