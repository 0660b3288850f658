import LosAltos.Rfs.FileBytes

/-!
# The translation of logical blocks

`rfs/src/funciones_rfs.c:386-448, 654-699`.

The source finds the index of a block inside each level of indirection by subtracting
in a loop; the model of the disk divides. Here the loops are read as they stand and the
two are the same, and the slot found is the one ext2 prescribes, `slotExt2`.
-/
namespace LosAltos.Rfs

open Lib

/-! ### The loops of the source -/

/-- `for (i = 0; paso <= n; i++, n -= paso);`, `i` and `n` at its end. The loop is only
run with a step that is not 0. -/
def restando (paso i n : Nat) : Nat × Nat :=
  if 0 < paso ∧ paso ≤ n then restando paso (i + 1) (n - paso) else (i, n)
termination_by n
decreasing_by omega

/-- `for (i = 0; i < n; i++);` -/
def contando (i n : Nat) : Nat := if i < n then contando (i + 1) n else i
termination_by n - i

theorem restando_eq {paso : Nat} (positive : 0 < paso) (i n : Nat) :
    restando paso i n = (i + n / paso, n % paso) := by
  induction n using Nat.strong_induction_on generalizing i with
  | _ n ih =>
    rw [restando]
    by_cases more : paso ≤ n
    · rw [if_pos ⟨positive, more⟩, ih (n - paso) (by omega)]
      rw [Nat.div_eq_sub_div positive more, ← Nat.mod_eq_sub_mod more]
      congr 1
      omega
    · rw [if_neg (by omega), Nat.div_eq_of_lt (by omega), Nat.mod_eq_of_lt (by omega)]
      rfl

theorem contando_eq (i n : Nat) : contando i n = max i n := by
  fun_induction contando i n with
  | case1 i less ih =>
    rw [ih]
    omega
  | case2 i done => omega

section
variable (sb : Superblock)

def Recorrido.posicionarIndireccionSimple (nroBloqueIndireccion nroBloqueLogico : Nat) : Slot :=
  slotDeBloque sb nroBloqueIndireccion (contando 0 (resta32 nroBloqueLogico 12))

def Recorrido.posicionarIndireccionDoble (d : Disco) (nroBloqueIndireccion nroBloqueLogico : Nat) :
    Slot :=
  let porSimple := ptrsPorBloque sb
  let vuelta := restando porSimple 0 (resta32 nroBloqueLogico (12 + porSimple))
  let simple := leerSlot d (slotDeBloque sb nroBloqueIndireccion vuelta.1)
  slotDeBloque sb simple vuelta.2

/-- The first loop of the three functions over the triple indirection. -/
def Recorrido.porDobles (nroBloqueLogico : Nat) : Nat × Nat :=
  let porSimple := ptrsPorBloque sb
  let porDoble := porSimple ^ 2
  restando porDoble 0 (resta32 nroBloqueLogico (12 + porSimple + porDoble))

def Recorrido.posicionarIndireccionTriple (d : Disco) (nroBloqueIndireccion nroBloqueLogico : Nat) :
    Slot :=
  let porDobles := Recorrido.porDobles sb nroBloqueLogico
  let doble := leerSlot d (slotDeBloque sb nroBloqueIndireccion porDobles.1)
  let porSimples := restando (ptrsPorBloque sb) 0 porDobles.2
  let simple := leerSlot d (slotDeBloque sb doble porSimples.1)
  slotDeBloque sb simple porSimples.2

def Recorrido.getPtrBloqueIndTriple (nroBloqueIndireccion nroBloqueLogico : Nat) : Slot :=
  slotDeBloque sb nroBloqueIndireccion (Recorrido.porDobles sb nroBloqueLogico).1

def Recorrido.getPtrBloqueIndDoble (d : Disco) (nroBloqueIndireccion nroBloqueLogico : Nat) :
    Slot :=
  let porDobles := Recorrido.porDobles sb nroBloqueLogico
  let doble := leerSlot d (slotDeBloque sb nroBloqueIndireccion porDobles.1)
  let porSimples := restando (ptrsPorBloque sb) 0 porDobles.2
  slotDeBloque sb doble porSimples.1

/-- `getPtrNroBloqueLogicoDentroInodo` over the loops. -/
def Recorrido.getPtrNroBloqueLogicoDentroInodo (d : Disco) (x k : Nat) : Option Slot :=
  if esBloqueDirecto k then some (.inodo x k)
  else if esIndireccionSimple sb k then
    some (Recorrido.posicionarIndireccionSimple sb (leerSlot d (.inodo x 12)) k)
  else if esIndireccionDoble sb k then
    some (Recorrido.posicionarIndireccionDoble sb d (leerSlot d (.inodo x 13)) k)
  else if esIndireccionTriple sb k then
    some (Recorrido.posicionarIndireccionTriple sb d (leerSlot d (.inodo x 14)) k)
  else none

end

/-! ### The loops divide -/

section
variable {sb : Superblock} (d : Disco)

theorem ptrs_pos_of_log (log : sb.logBlockSize ≤ 2) : 0 < ptrsPorBloque sb := by
  rw [ptrsPorBloque]
  rcases tamanioDeBloque_cases log with block | block | block <;> rw [block] <;> decide

variable {k : Nat} (log : sb.logBlockSize ≤ 2) (width : k < 2 ^ 32)

include width in
theorem recorrido_simple (nro : Nat) (reached : 12 ≤ k) :
    Recorrido.posicionarIndireccionSimple sb nro k = posicionarIndireccionSimple sb nro k := by
  rw [Recorrido.posicionarIndireccionSimple, posicionarIndireccionSimple, contando_eq,
    resta32_of_le reached width, Nat.zero_max]

include log width in
theorem recorrido_doble (nro : Nat) (reached : inicioDoble sb ≤ k) :
    Recorrido.posicionarIndireccionDoble sb d nro k = posicionarIndireccionDoble sb d nro k := by
  rw [inicioDoble] at reached
  simp only [Recorrido.posicionarIndireccionDoble, posicionarIndireccionDoble, inicioDoble,
    restando_eq (ptrs_pos_of_log log), resta32_of_le reached width, Nat.zero_add]

include log width in
theorem recorrido_porDobles (reached : inicioTriple sb ≤ k) :
    Recorrido.porDobles sb k =
      ((k - inicioTriple sb) / (ptrsPorBloque sb * ptrsPorBloque sb),
        (k - inicioTriple sb) % (ptrsPorBloque sb * ptrsPorBloque sb)) := by
  have positive := ptrs_pos_of_log log
  rw [inicioTriple] at reached
  rw [Recorrido.porDobles, Nat.pow_two, resta32_of_le reached width,
    restando_eq (Nat.mul_pos positive positive), Nat.zero_add, inicioTriple]

include log width in
theorem recorrido_triple (nro : Nat) (reached : inicioTriple sb ≤ k) :
    Recorrido.posicionarIndireccionTriple sb d nro k = posicionarIndireccionTriple sb d nro k ∧
    Recorrido.getPtrBloqueIndDoble sb d nro k = getPtrBloqueIndDoble sb d nro k ∧
    Recorrido.getPtrBloqueIndTriple sb nro k = getPtrBloqueIndTriple sb nro k := by
  simp only [Recorrido.posicionarIndireccionTriple, Recorrido.getPtrBloqueIndDoble,
    Recorrido.getPtrBloqueIndTriple, posicionarIndireccionTriple, getPtrBloqueIndDoble,
    getPtrBloqueIndTriple, recorrido_porDobles log width reached,
    restando_eq (ptrs_pos_of_log log), Nat.zero_add, and_self]

include log width in
/-- The model of the disk is the source, loops and all. -/
theorem recorrido_getPtr (x : Nat) :
    Recorrido.getPtrNroBloqueLogicoDentroInodo sb d x k =
      getPtrNroBloqueLogicoDentroInodo sb d x k := by
  unfold Recorrido.getPtrNroBloqueLogicoDentroInodo getPtrNroBloqueLogicoDentroInodo
  by_cases direct : esBloqueDirecto k
  · rw [if_pos direct, if_pos direct]
  rw [if_neg direct, if_neg direct]
  by_cases simple : esIndireccionSimple sb k
  · have reached : 12 ≤ k := by
      simp only [esIndireccionSimple, Bool.and_eq_true, decide_eq_true_eq] at simple
      exact simple.1
    rw [if_pos simple, if_pos simple, recorrido_simple width _ reached]
  rw [if_neg simple, if_neg simple]
  by_cases double : esIndireccionDoble sb k
  · have reached : inicioDoble sb ≤ k := by
      simp only [esIndireccionDoble, Bool.and_eq_true, decide_eq_true_eq] at double
      exact double.1
    rw [if_pos double, if_pos double, recorrido_doble d log width _ reached]
  rw [if_neg double, if_neg double]
  by_cases triple : esIndireccionTriple sb k
  · have reached : inicioTriple sb ≤ k := by
      simp only [esIndireccionTriple, Bool.and_eq_true, decide_eq_true_eq] at triple
      exact triple.1
    rw [if_pos triple, if_pos triple, (recorrido_triple d log width _ reached).1]
  rw [if_neg triple, if_neg triple]

end

/-! ### The slots of ext2 -/

/-- Where ext2 keeps the number of logical block `k` of an inode. -/
def slotExt2 (sb : Superblock) (d : Disco) (x k : Nat) : Slot :=
  let p := ptrsPorBloque sb
  let bloqueEn (b i : Nat) := leerSlot d (slotDeBloque sb b i)
  let iblock := ((d.inodo x).blocks 12).toNat
  let iiblock := ((d.inodo x).blocks 13).toNat
  let iiiblock := ((d.inodo x).blocks 14).toNat
  if k < 12 then .inodo x k
  else if k < 12 + p then slotDeBloque sb iblock (k - 12)
  else if k < 12 + p + p ^ 2 then
    let r := k - 12 - p
    slotDeBloque sb (bloqueEn iiblock (r / p)) (r % p)
  else
    let r := k - 12 - p - p ^ 2
    slotDeBloque sb (bloqueEn (bloqueEn iiiblock (r / p ^ 2)) (r % p ^ 2 / p)) (r % p)

/-- The four tests of the code, in the order it makes them. -/
def pruebas (sb : Superblock) (k : Nat) : List Bool :=
  [esBloqueDirecto k, esIndireccionSimple sb k, esIndireccionDoble sb k, esIndireccionTriple sb k]

variable {sb : Superblock} {d : Disco} {x k : Nat}

/-- Each test is for an interval, and the intervals follow one another. -/
theorem pruebas_una (bound : k < alcance sb) : (pruebas sb k).count true = 1 := by
  rw [alcance] at bound
  simp only [pruebas, esBloqueDirecto, esIndireccionSimple, esIndireccionDoble,
    esIndireccionTriple, List.count_cons, List.count_nil, beq_true, Bool.and_eq_true,
    decide_eq_true_eq]
  have double : inicioDoble sb = 12 + ptrsPorBloque sb := rfl
  have triple : inicioTriple sb = 12 + ptrsPorBloque sb + ptrsPorBloque sb * ptrsPorBloque sb := rfl
  split_ifs <;> omega

theorem getPtr_slotExt2 (bound : k < alcance sb) :
    getPtrNroBloqueLogicoDentroInodo sb d x k = some (slotExt2 sb d x k) := by
  rw [alcance] at bound
  have square : ptrsPorBloque sb ^ 2 = ptrsPorBloque sb * ptrsPorBloque sb := Nat.pow_two _
  unfold slotExt2
  simp only [square]
  cases region bound with
  | directo h =>
    rw [getPtr_directo d x h, if_pos h]
    rfl
  | @simple a ha =>
    rw [getPtr_simple d x ha, if_neg (by omega), if_pos (by omega), Nat.add_sub_cancel_left]
    rfl
  | @doble a b ha hb =>
    have small := digits_lt ha hb
    rw [getPtr_doble d x ha hb, if_neg (by omega), if_neg (by omega), if_pos (by omega),
      Nat.sub_sub, Nat.add_sub_cancel_left, digits_div hb, digits_mod hb]
    rfl
  | @triple a b c ha hb hc =>
    rw [getPtr_triple d x ha hb hc, if_neg (by omega), if_neg (by omega), if_neg (by omega),
      Nat.sub_sub, Nat.sub_sub, ← Nat.add_assoc 12, Nat.add_sub_cancel_left, digits_div_sq hb hc,
      digits_mod_sq hb hc, digits_div hc, digits_mod hc]
    rfl

/-! ### Distinct blocks have distinct slots -/

/-- The positions of the indirection blocks on the way to logical block `k`. -/
def indirectos (sb : Superblock) (k : Nat) : List (List Nat) :=
  (camino (ptrsPorBloque sb) k).tail.tails.dropLast

/-- No two words of two blocks of an image below 4 GiB are the same. -/
theorem slotDeBloque_inj (log : sb.logBlockSize ≤ 2)
    (small : sb.blocks * tamanioDeBloque sb ≤ 2 ^ 32) {b c i j : Nat} (hb : b < sb.blocks)
    (hc : c < sb.blocks) (hi : i < ptrsPorBloque sb) (hj : j < ptrsPorBloque sb)
    (same : slotDeBloque sb b i = slotDeBloque sb c j) : b = c ∧ i = j := by
  have places : posicionarInicioBloque sb b + (i * 4 : Nat) =
      posicionarInicioBloque sb c + (j * 4 : Nat) := Slot.disco.inj same
  have four : ptrsPorBloque sb * 4 ≤ tamanioDeBloque sb := Nat.div_mul_le_self _ _
  by_cases equal : b = c
  · subst equal
    exact ⟨rfl, by omega⟩
  · have apart := bloques_aparte log small hb hc equal
    omega

theorem mem_tails_dropLast (i : Nat) (pos : List Nat) : i :: pos ∈ (i :: pos).tails.dropLast := by
  cases pos <;> simp [List.tails]

/-- The slot of a block is in the inode or in the last indirection block on its way. -/
theorem slotDe_inj (log : sb.logBlockSize ≤ 2)
    (small : sb.blocks * tamanioDeBloque sb ≤ 2 ^ 32) {l : Nat} (boundK : k < alcance sb)
    (boundL : l < alcance sb)
    (inside : ∀ pos ∈ indirectos sb k ++ indirectos sb l,
      (punteros sb d).valor x pos < sb.blocks)
    (distinct : ∀ pos ∈ indirectos sb k ++ indirectos sb l,
      ∀ pos' ∈ indirectos sb k ++ indirectos sb l,
        (punteros sb d).valor x pos = (punteros sb d).valor x pos' → pos = pos')
    (same : slotDe sb d x (camino (ptrsPorBloque sb) k) =
      slotDe sb d x (camino (ptrsPorBloque sb) l)) : k = l := by
  have startK := inicia_camino boundK
  have startL := inicia_camino boundL
  apply camino_inj boundL boundK
  simp only [indirectos, List.mem_append] at inside distinct
  generalize camino (ptrsPorBloque sb) k = posK at *
  generalize camino (ptrsPorBloque sb) l = posL at *
  match posK, posL with
  | [], _ => exact absurd rfl startK.ne_nil
  | _, [] => exact absurd rfl startL.ne_nil
  | [i], [j] =>
    obtain ⟨-, rfl⟩ := Slot.inodo.inj same
    rfl
  | [i], j :: j' :: q => cases same
  | i :: i' :: q, [j] => cases same
  | i :: i' :: q, j :: j' :: r =>
    have memK := mem_tails_dropLast i' q
    have memL := mem_tails_dropLast j' r
    obtain ⟨blocks, rfl⟩ := slotDeBloque_inj log small (inside _ (.inl memK))
      (inside _ (.inr memL)) startK.parent.1 startL.parent.1 same
    rw [distinct _ (.inl memK) _ (.inr memL) blocks]

/-- A file with a block of simple indirection, and one in its double one. -/
def imagenIndirecta : Disco :=
  { imagenConArchivo 0 with
    inodo := fun x =>
      if x = 11 then
        ⟨S_IFREG, 300000, 1, 600, fun i => if i = 12 then 20 else if i = 13 then 21 else 0⟩
      else (imagenConArchivo 0).inodo x
    mem := escribir (imagenConArchivo 0).mem (posicionarInicioBloque (volumen 0) 21) (toLe 4 22) }

end LosAltos.Rfs
