import LosAltos.Rfs.Paths
import Mathlib.Data.Set.Card

/-!
# The blocks an inode counts

`nr_blocks` over the five operations (`funciones_rfs.c:506-629, 1201-1234, 1285-1300`). Growing
past the direct blocks leaves the simple indirection block out of the count, a directory that
gets another block does not count it, and a new inode keeps the count of the one before it.
-/
namespace LosAltos.Rfs

open Lib

section
variable (sb : Superblock)

/-- `tamanioDeBloque() / 512`. -/
def unidad : UInt32 := .ofNat (tamanioDeBloque sb / 512)

/-- How many indirection blocks start with logical block `k`. -/
def indirecciones (k : Nat) : Nat :=
  let p := ptrsPorBloque sb
  if esIndireccionSimple sb k then (decide (k = 12)).toNat
  else if esIndireccionDoble sb k then
    (decide ((k - 12) % p = 0)).toNat + (decide (k = inicioDoble sb)).toNat
  else if esIndireccionTriple sb k then
    (decide ((k - inicioTriple sb) % p = 0)).toNat +
      (decide ((k - inicioTriple sb) % (p * p) = 0)).toNat + (decide (k = inicioTriple sb)).toNat
  else 0

/-- The blocks of a file of `n` logical blocks. -/
def cuenta : Nat → Nat
  | 0 => 0
  | n + 1 => cuenta n + (1 + indirecciones sb n)

end

variable {sb : Superblock} {d d' : Disco} {x y k n : Nat} {slot : Slot} {condicion : Bool}

theorem indirecciones_directo (direct : k < 12) : indirecciones sb k = 0 := by
  simp [indirecciones, esIndireccionSimple, esIndireccionDoble, esIndireccionTriple, inicioDoble,
    inicioTriple, show ¬12 ≤ k by omega, show ¬12 + ptrsPorBloque sb ≤ k by omega,
    show ¬12 + ptrsPorBloque sb + ptrsPorBloque sb * ptrsPorBloque sb ≤ k by omega]

/-! ### The count in the code -/

/-- The count of the inode `x` goes up by `n` blocks; read backwards, it goes down. -/
def Suma (sb : Superblock) (x n : Nat) (d d' : Disco) : Prop :=
  (d'.inodo x).nrBlocks = (d.inodo x).nrBlocks + unidad sb * .ofNat n

theorem Suma.trans {d'' : Disco} {m : Nat} (first : Suma sb x n d d') (second : Suma sb x m d' d'') :
    Suma sb x (n + m) d d'' := by
  rw [Suma] at *
  rw [second, first, UInt32.ofNat_add, UInt32.mul_add, UInt32.add_assoc]

theorem Suma.desde {d'' : Disco} (same : Suma sb x 0 d d') (second : Suma sb x n d' d'') :
    Suma sb x n d d'' := by
  simpa only [Nat.zero_add] using same.trans second

theorem Suma.of_eq (same : (d'.inodo x).nrBlocks = (d.inodo x).nrBlocks) : Suma sb x 0 d d' := by
  rw [Suma, same]
  simp

theorem grabarSlot_nrBlocks (d : Disco) (slot : Slot) (b y : Nat) :
    ((grabarSlot d slot b).inodo y).nrBlocks = (d.inodo y).nrBlocks := by
  cases slot with
  | inodo x i => by_cases here : y = x <;> simp [grabarSlot, Disco.ponInodo, INode.ponBloque, here]
  | disco dir => rfl

theorem Suma.asignar (d : Disco) (slot : Slot) (b : Nat) : Suma sb x 0 d (asignar d slot b) :=
  .of_eq (grabarSlot_nrBlocks d slot b x)

theorem Suma.sumaBloques (d : Disco) : Suma sb x 1 d (sumaBloques sb d x) := by
  simp [Suma, Rfs.sumaBloques, Disco.ponInodo, unidad]

theorem Suma.getBloqueLibre {b : Nat} (run : getBloqueLibre sb d = some (b, d')) :
    Suma sb x 0 d d' := .of_eq (by rw [(getBloqueLibre_solo run).inodo])

theorem Suma.liberarBloque (run : liberarBloque sb d slot = some d') : Suma sb x 0 d d' := by
  simp only [Rfs.liberarBloque, Option.bind_eq_bind, Option.bind_eq_some_iff,
    Option.some.injEq] at run
  obtain ⟨grupo, -, rfl⟩ := run
  exact .of_eq (grabarSlot_nrBlocks ..)

theorem Suma.pedirSi (run : pedirSi sb condicion d slot = some d') : Suma sb x 0 d d' := by
  rw [Rfs.pedirSi] at run
  split at run
  · simp only [Option.bind_eq_bind, Option.bind_eq_some_iff, Option.some.injEq] at run
    obtain ⟨⟨b, d1⟩, asked, rfl⟩ := run
    exact (Suma.getBloqueLibre asked).desde (.asignar d1 slot b)
  · cases run
    exact .of_eq rfl

theorem Suma.pedirContadoSi (run : pedirContadoSi sb condicion d x slot = some d') :
    Suma sb x condicion.toNat d d' := by
  simp only [Rfs.pedirContadoSi, Option.bind_eq_bind, Option.bind_eq_some_iff,
    Option.some.injEq] at run
  obtain ⟨d1, asked, rfl⟩ := run
  have same : Suma sb x 0 d d1 := .pedirSi asked
  cases condicion with
  | true => exact same.desde (.sumaBloques d1)
  | false => exact same

theorem Suma.liberarSi (run : liberarSi sb condicion d x slot = some d') :
    Suma sb x condicion.toNat d' d := by
  rw [Rfs.liberarSi] at run
  cases condicion with
  | true =>
    simp only [↓reduceIte, Option.bind_eq_bind, Option.bind_eq_some_iff, Option.some.injEq] at run
    obtain ⟨d1, freed, rfl⟩ := run
    have same : Suma sb x 0 d d1 := .liberarBloque freed
    simp only [Suma, restaBloques, Disco.ponInodo, ↓reduceIte, unidad] at same ⊢
    simp [same]
  | false =>
    cases run
    exact .of_eq rfl

/-- All indirection blocks are counted as they are asked for, but for the simple one. -/
theorem Suma.pedirIndirecciones (inner : k ≠ 12)
    (run : pedirIndirecciones sb d x k = some d') : Suma sb x (indirecciones sb k) d d' := by
  simp only [Rfs.pedirIndirecciones, Option.bind_eq_bind] at run
  simp only [indirecciones]
  split at run
  · rename_i simple
    simpa [simple, inner] using Suma.pedirSi run
  rename_i simple
  split at run
  · rename_i doble
    obtain ⟨d1, outer, last⟩ := Option.bind_eq_some_iff.mp run
    simpa [simple, doble, Nat.add_comm] using (Suma.pedirContadoSi outer).trans (.pedirContadoSi last)
  rename_i doble
  split at run
  · rename_i triple
    obtain ⟨d1, outer, run⟩ := Option.bind_eq_some_iff.mp run
    obtain ⟨d2, middle, last⟩ := Option.bind_eq_some_iff.mp run
    have all := (Suma.pedirContadoSi outer).trans
      ((Suma.pedirContadoSi middle).trans (.pedirContadoSi last))
    simpa [simple, doble, triple, Nat.add_comm, Nat.add_left_comm] using all
  · rename_i triple
    cases run
    simpa [simple, doble, triple] using Suma.of_eq rfl

/-- All of them are taken off as they go. -/
theorem Suma.liberarIndirecciones (run : liberarIndirecciones sb d x k = some d') :
    Suma sb x (indirecciones sb k) d' d := by
  simp only [Rfs.liberarIndirecciones, Option.bind_eq_bind] at run
  simp only [indirecciones]
  split at run
  · rename_i simple
    simpa [simple] using Suma.liberarSi run
  rename_i simple
  split at run
  · rename_i doble
    obtain ⟨d1, inner, last⟩ := Option.bind_eq_some_iff.mp run
    simpa [simple, doble, Nat.add_comm] using (Suma.liberarSi last).trans (.liberarSi inner)
  rename_i doble
  split at run
  · rename_i triple
    obtain ⟨d1, inner, run⟩ := Option.bind_eq_some_iff.mp run
    obtain ⟨d2, middle, last⟩ := Option.bind_eq_some_iff.mp run
    have all := (Suma.liberarSi last).trans ((Suma.liberarSi middle).trans (.liberarSi inner))
    simpa [simple, doble, triple, Nat.add_comm, Nat.add_left_comm] using all
  · rename_i triple
    cases run
    simpa [simple, doble, triple] using Suma.of_eq rfl

theorem Suma.agregarBloque (inner : k ≠ 12) (run : agregarBloque sb d x k = some d') :
    Suma sb x (1 + indirecciones sb k) d d' := by
  simp only [Rfs.agregarBloque, agregarAInodo, Option.bind_eq_bind, Option.bind_eq_some_iff,
    Option.some.injEq] at run
  obtain ⟨⟨b, d1⟩, asked, d2, levels, slot, -, rfl⟩ := run
  have counted := (Suma.getBloqueLibre asked).desde (.sumaBloques (x := x) d1)
  have mapped := counted.trans (.pedirIndirecciones inner levels)
  simpa only [Nat.add_zero] using mapped.trans (.asignar d2 slot b)

theorem Suma.quitarBloque (run : quitarBloque sb d x k = some d') :
    Suma sb x (1 + indirecciones sb k) d' d := by
  simp only [Rfs.quitarBloque, Option.bind_eq_bind, Option.bind_eq_some_iff] at run
  obtain ⟨slot, -, d1, freed, run⟩ := run
  have data : Suma sb x 1 (restaBloques sb d1 x) d := by
    have same : Suma sb x 0 d d1 := .liberarBloque freed
    simp only [Suma, restaBloques, Disco.ponInodo, ↓reduceIte, unidad] at same ⊢
    simp [same]
  rw [Nat.add_comm]
  exact (Suma.liberarIndirecciones run).trans data

/-! ### Growing and shrinking -/

/-- The inode `x` counts the blocks of a file of `n` logical blocks. -/
def Contado (sb : Superblock) (d : Disco) (x n : Nat) : Prop :=
  (d.inodo x).nrBlocks = unidad sb * .ofNat (cuenta sb n)

theorem Contado.suma (count : Contado sb d x n) (more : Suma sb x (1 + indirecciones sb n) d d') :
    Contado sb d' x (n + 1) := by
  rw [Contado] at *
  rw [more, count, cuenta, UInt32.ofNat_add (cuenta sb n), UInt32.mul_add]

theorem Contado.resta (count : Contado sb d x (n + 1))
    (less : Suma sb x (1 + indirecciones sb n) d' d) : Contado sb d' x n := by
  rw [Contado] at *
  rw [less, cuenta, UInt32.ofNat_add (cuenta sb n), UInt32.mul_add] at count
  exact (UInt32.add_left_inj _).mp count

theorem Contado.of_eq (count : Contado sb d x n)
    (same : (d'.inodo x).nrBlocks = (d.inodo x).nrBlocks) : Contado sb d' x n := same.trans count

/-- Growth within the direct blocks, or beyond them, is counted in full. -/
theorem contado_agrandar (geo : Geometria sb) (fuel : Nat) {eof falta eof' : Nat}
    (bound : eof + falta < 2 ^ 32) (run : agrandar sb fuel d x eof falta = some (d', eof'))
    (inner : ¬(bloquesDe sb eof ≤ 12 ∧ 12 < bloquesDe sb (eof + falta)))
    (count : Contado sb d x (bloquesDe sb eof)) :
    eof' = eof + falta ∧ Contado sb d' x (bloquesDe sb (eof + falta)) := by
  induction fuel generalizing d eof falta with
  | zero => cases run
  | succ fuel ih =>
    simp only [Rfs.agrandar] at run
    split at run
    · rename_i zero
      cases run
      rw [zero, Nat.add_zero]
      exact ⟨rfl, count⟩
    simp only [Option.bind_eq_bind, Option.bind_eq_some_iff] at run
    obtain ⟨d1, mapped, d2, filled, run⟩ := run
    have low := Nat.mod_lt eof geo.tamanio_pos
    obtain ⟨m, amount⟩ : ∃ m, (if tamanioDeBloque sb - desplazamientoDentroDelBloque sb eof ≥ falta
      then falta else tamanioDeBloque sb - desplazamientoDentroDelBloque sb eof) = m := ⟨_, rfl⟩
    rw [amount] at filled run
    have some_bytes : 0 < m ∧ m ≤ falta ∧ m ≤ tamanioDeBloque sb - eof % tamanioDeBloque sb := by
      split at amount <;> rw [desplazamientoDentroDelBloque] at * <;> omega
    have parts := Nat.div_add_mod' eof (tamanioDeBloque sb)
    have after : bloquesDe sb (eof + m) = eof / tamanioDeBloque sb + 1 := by
      apply bloquesDe_between
      · omega
      · rw [Nat.add_mul]
        omega
    have total : bloquesDe sb (eof + m) ≤ bloquesDe sb (eof + falta) := bloquesDe_mono (by omega)
    have step : Contado sb d1 x (bloquesDe sb (eof + m)) := by
      rw [agregarBloqueSi] at mapped
      split at mapped
      · rename_i full
        rw [decide_eq_true_eq, desplazamientoDentroDelBloque] at full
        have before : bloquesDe sb eof = eof / tamanioDeBloque sb := by
          have exact_size : eof = eof / tamanioDeBloque sb * tamanioDeBloque sb := by omega
          rw [exact_size, bloquesDe_mul, ← exact_size]
        rw [before] at count inner
        rw [after]
        exact count.suma (.agregarBloque (by omega) mapped)
      · rename_i within
        rw [decide_eq_true_eq, desplazamientoDentroDelBloque] at within
        cases mapped
        have before : bloquesDe sb eof = eof / tamanioDeBloque sb + 1 := by
          apply bloquesDe_between
          · omega
          · rw [Nat.add_mul]
            omega
        rwa [after, ← before]
    have wrote : (d2.inodo x).nrBlocks = (d1.inodo x).nrBlocks := by
      simp only [completarBloque, Option.bind_eq_bind, Option.bind_eq_some_iff,
        Option.some.injEq] at filled
      obtain ⟨ptr, -, rfl⟩ := filled
      rfl
    have later : bloquesDe sb eof ≤ bloquesDe sb (eof + m) := bloquesDe_mono (by omega)
    have whole : eof + m + (falta - m) = eof + falta := by omega
    rw [Nat.mod_eq_of_lt (by omega : eof + m < 2 ^ 32)] at run
    have rest := ih (by omega) run (by rw [whole]; omega) (step.of_eq wrote)
    rwa [whole] at rest

theorem contado_achicar (geo : Geometria sb) (fuel : Nat) {eof falta eof' : Nat}
    (enough : falta ≤ eof) (run : achicar sb fuel d x eof falta = some (d', eof'))
    (count : Contado sb d x (bloquesDe sb eof)) :
    eof' = eof - falta ∧ Contado sb d' x (bloquesDe sb (eof - falta)) := by
  induction fuel generalizing d eof falta with
  | zero => cases run
  | succ fuel ih =>
    simp only [achicar] at run
    split at run
    · rename_i zero
      cases run
      rw [zero, Nat.sub_zero]
      exact ⟨rfl, count⟩
    have last : bloquesDe sb eof = (eof - 1) / tamanioDeBloque sb + 1 :=
      bloquesDe_pos (by omega)
    have parts := Nat.div_add_mod' (eof - 1) (tamanioDeBloque sb)
    have low := Nat.mod_lt (eof - 1) geo.tamanio_pos
    rw [desplazamientoDentroDelBloque] at run
    split at run
    · -- the whole of the last block goes
      rename_i whole
      simp only [Option.bind_eq_bind, Option.bind_eq_some_iff] at run
      obtain ⟨d1, removed, run⟩ := run
      rw [nroBloqueDentroDelInodo] at removed
      have left : eof - ((eof - 1) % tamanioDeBloque sb + 1) =
          (eof - 1) / tamanioDeBloque sb * tamanioDeBloque sb := by omega
      rw [last] at count
      have step := count.resta (.quitarBloque removed)
      have rest := ih (by omega) run (by rwa [left, bloquesDe_mul])
      rwa [show eof - ((eof - 1) % tamanioDeBloque sb + 1) -
        (falta - ((eof - 1) % tamanioDeBloque sb + 1)) = eof - falta by omega] at rest
    · rename_i some_left
      have same : bloquesDe sb (eof - falta) = bloquesDe sb eof := by
        rw [last]
        apply bloquesDe_between
        · omega
        · rw [Nat.add_mul]
          omega
      have rest := ih (Nat.zero_le _) run (by rwa [same])
      rwa [Nat.sub_zero] at rest

/-! ### Every allocated inode -/

section
variable (sb)

/-- What is not to be in the trace if the counts are to be kept. That no block is missing is
asked for as well. -/
def CuentaBien : Hecho → Prop
  | .pide b => b ≠ 0
  | .crece eof offset => ¬(bloquesDe sb eof ≤ 12 ∧ 12 < bloquesDe sb offset)
  | .ensancha _ => False
  | _ => True

def Contados (d : Disco) : Prop :=
  ∀ x, asignado sb d x → Contado sb d x (bloquesDe sb (d.inodo x).size.toNat)

end

theorem Contados.of_inodos (counts : Contados sb d) (inodes : d'.inodo = d.inodo)
    (bits : d'.bitmapInodos = d.bitmapInodos) : Contados sb d' := by
  intro z allocated
  rw [asignado, bits] at allocated
  have count := counts z allocated
  rwa [Contado, ← inodes] at count

theorem contado_truncarInodo (geo : Geometria sb) {offset code : Nat} (limit : offset < 2 ^ 32)
    (run : truncarInodo sb d x offset = some (code, d')) (meets : Cumple sb d')
    (counted : ∀ h ∈ d'.hechos, CuentaBien sb h)
    (count : Contado sb d x (bloquesDe sb (d.inodo x).size.toNat)) :
    Contado sb d' x (bloquesDe sb (d'.inodo x).size.toNat) := by
  have width : (d.inodo x).size.toNat < 2 ^ 32 := (d.inodo x).size.toNat_lt
  rcases truncarInodo_some limit run meets.grown rfl with
    ⟨-, rfl⟩ | ⟨rfl, d1, eof', rfl, ⟨smaller, shrunk⟩ | ⟨larger, logged, grew⟩⟩
  · exact count
  all_goals
    rw [ponSize_size, if_pos rfl]
    have same : ((ponSize d1 x eof').inodo x).nrBlocks = (d1.inodo x).nrBlocks := by
      simp [ponSize, Disco.ponInodo]
    generalize (d.inodo x).size.toNat = eof at *
  · obtain ⟨rfl, after⟩ := contado_achicar geo _ (by omega) shrunk count
    rw [Nat.mod_eq_of_lt (by omega)]
    exact after.of_eq same
  · have inner : CuentaBien sb (.crece eof offset) := counted _ logged
    rw [CuentaBien, ← Nat.add_sub_cancel' larger] at inner
    obtain ⟨rfl, after⟩ := contado_agrandar geo _ (by omega) grew inner count
    rw [Nat.mod_eq_of_lt (by omega)]
    exact after.of_eq same

theorem contados_truncarInodo (geo : Geometria sb) (valid : esInodo sb x) (owner : Duenio sb d)
    {offset code : Nat} (limit : offset < 2 ^ 32)
    (run : truncarInodo sb d x offset = some (code, d')) (meets : Cumple sb d')
    (counted : ∀ h ∈ d'.hechos, CuentaBien sb h) (counts : Contados sb d) : Contados sb d' := by
  rcases truncarInodo_marco geo valid owner limit run meets with
    ⟨-, rfl⟩ | ⟨-, bits, -, others, -⟩
  · exact counts
  intro z allocated
  rw [asignado, bits] at allocated
  have count := counts z allocated
  by_cases here : z = x
  · subst here
    exact contado_truncarInodo geo limit run meets counted count
  · rw [Contado, others z here]
    exact count

theorem contados_truncarArchivo (geo : Geometria sb) (owner : Duenio sb d) {path : Cadena}
    {offset code : Nat} (limit : offset < 2 ^ 32)
    (run : truncarArchivo sb d path offset = some (code, d')) (meets : Cumple sb d')
    (counted : ∀ h ∈ d'.hechos, CuentaBien sb h) (counts : Contados sb d) : Contados sb d' := by
  simp only [truncarArchivo, Option.bind_eq_bind, Option.bind_eq_some_iff] at run
  obtain ⟨nro, -, run⟩ := run
  split at run
  · simp only [Option.bind_eq_some_iff] at run
    obtain ⟨nro', -, run⟩ := run
    split at run
    · simp only [Option.bind_eq_some_iff] at run
      obtain ⟨node, here, y, present, run⟩ := run
      exact contados_truncarInodo geo (getInodo_some here present).2 owner limit run meets counted
        counts
    · cases run
      exact counts
  · cases run
    exact counts

/-! ### An inode that goes -/

theorem liberarBloques_libera {ks : List Nat} (filled : ks ≠ [])
    (run : liberarBloques sb d x ks = some d') : ∃ b, Hecho.libera b ∈ d'.hechos := by
  cases ks with
  | nil => exact absurd rfl filled
  | cons k ks =>
    simp only [liberarBloques, Option.bind_eq_bind, Option.bind_eq_some_iff] at run
    obtain ⟨slot, -, d1, freed, run⟩ := run
    obtain ⟨b, member⟩ := liberarBloque_libera freed
    exact ⟨b, (liberarBloques_deriva run).mem_hechos member⟩

/-- An inode that still had blocks when it was released is not allocated any more. -/
theorem liberarInodo_libre (few : Numerable sb)
    (run : liberarInodo sb d x = some d') (meets : Cumple sb d') (filled : (d.inodo x).size ≠ 0) :
    ¬asignado sb d' x := by
  have released := liberarInodo_some few run
  simp only [liberarInodo, Option.bind_eq_bind, Option.bind_eq_some_iff] at run
  obtain ⟨node, found, y, present, run⟩ := run
  obtain ⟨rfl, valid⟩ := getInodo_some found present
  split at run
  · simp only [Option.bind_eq_some_iff, Option.some.injEq] at run
    obtain ⟨d1, freed, grupo, -, rfl⟩ := run
    have bytes : 0 < (d.inodo y).size.toNat := by
      rw [Nat.pos_iff_ne_zero]
      exact fun zero => filled (UInt32.toNat_inj.mp zero)
    have some_blocks : List.range (bloquesDe sb (d.inodo y).size.toNat) ≠ [] := by
      rw [bloquesDe_pos bytes]
      simp
    obtain ⟨b, logged⟩ := liberarBloques_libera some_blocks freed
    have group : resta32 y sb.firstDataBlock / sb.inodesPerGroup = (y - 1) / sb.inodesPerGroup := by
      rw [meets.freed b logged, resta32_of_le valid.1 (esInodo_lt few valid)]
    rw [released.libre group]
    exact fun still => still.2 rfl
  · cases run

theorem contados_liberarInodo (few : Numerable sb)
    (run : liberarInodo sb d x = some d') (meets : Cumple sb d') (counts : Contados sb d) :
    Contados sb d' := by
  have released := liberarInodo_some few run
  intro z allocated
  have count := counts z (released.asignado z allocated)
  by_cases here : z = x
  · subst here
    by_cases empty : (d.inodo z).size = 0
    · rw [released.propio.2.1, ← empty]
      exact count.of_eq (released.nrBlocks z)
    · exact absurd allocated (liberarInodo_libre few run meets empty)
  · rw [(released.otros z here).2.1]
    exact count.of_eq (released.nrBlocks z)

theorem eliminarEntradaDirectorio_inodos {nombre : Cadena} (meets : Cumple sb d')
    (run : eliminarEntradaDirectorio sb d x nombre = some d') :
    d'.inodo = d.inodo ∧ d'.bitmapInodos = d.bitmapInodos := by
  obtain ⟨k, desp, anterior, e, -, -, ⟨-, freed⟩ | ⟨-, previa, -, rfl⟩⟩ :=
    eliminarEntradaDirectorio_some run
  · exact (meets _ ((liberarBloque_deriva freed).mem_hechos (List.mem_cons_self ..))).elim
  · exact ⟨rfl, rfl⟩

/-! ### A new inode -/

theorem getBloqueLibre_pide {b : Nat} (run : getBloqueLibre sb d = some (b, d')) :
    Hecho.pide b ∈ d'.hechos := by
  simp only [getBloqueLibre, Option.bind_eq_bind, Option.bind_eq_some_iff] at run
  obtain ⟨⟨nro, lleno⟩, -, run⟩ := run
  split at run
  · cases run
    exact List.mem_cons_self ..
  · simp only [Option.bind_eq_some_iff, Option.some.injEq] at run
    obtain ⟨d1, -, run⟩ := run
    cases run
    exact List.mem_cons_self ..

section
variable {nombre : Cadena} {code : Nat}

/-- In a directory that has room the entry is written, or there was no inode for it. -/
theorem agregarEntradaDirectorio_conLugar (few : Numerable sb)
    (run : agregarEntradaDirectorio sb d x nombre = some (code, d'))
    (counted : ∀ h ∈ d'.hechos, CuentaBien sb h) :
    code ≠ 0 ∧ d' = d ∨ code = 0 ∧ ∃ k desp anterior e y d1,
      buscarEntrada sb d x (conLugar nombre) = some (some (k, desp, anterior, e)) ∧
      k < alcance sb ∧ getInodoLibre sb d = some (y, d1) ∧ y ≠ 0 ∧
      d' = conEntrada d1 (posicionarInicioBloque sb (bloqueLogico sb d x k)) desp e y nombre := by
  have whole := run
  simp only [agregarEntradaDirectorio, Option.bind_eq_bind, Option.bind_eq_some_iff] at run
  obtain ⟨hallada, found, run⟩ := run
  cases hallada with
  | some entrada =>
    obtain ⟨k, desp, anterior, e⟩ := entrada
    rcases agregarEntradaDirectorio_hallada few found whole with
      failed | ⟨rfl, bound, y, d1, asked, nonzero, rfl⟩
    · exact .inl failed
    · exact .inr ⟨rfl, k, desp, anterior, e, y, d1, found, bound, asked, nonzero, rfl⟩
  | none =>
    simp only [Option.bind_eq_some_iff] at run
    obtain ⟨⟨b, d1⟩, asked, run⟩ := run
    have wider : ∀ d2 : Disco, Deriva (d1.anota (.ensancha (bloquesDe sb (d.inodo x).size.toNat))) d2 →
        Deriva d2 d' → False := fun d2 first second =>
      counted _ ((first.trans second).mem_hechos (List.mem_cons_self ..))
    split at run
    · rename_i zero
      cases run
      exact absurd zero (counted _ (getBloqueLibre_pide asked))
    simp only [Option.bind_eq_some_iff] at run
    obtain ⟨d2, stores, inicio, place, ⟨error, d3⟩, wrote, run⟩ := run
    refine (wider d3 ((agregarAInodo_deriva stores).trans (agregarNuevaEntrada_deriva wrote)) ?_).elim
    split at run
    · cases run
      exact .of_eq rfl rfl
    · cases run
      exact .refl _

end

section
variable (sb)

/-- A creation that goes as far as a new entry. -/
def Nace (d : Disco) (path : Cadena) : Prop :=
  getNroInodoDeLaDireccionDelPath sb d (separarPathParaNewDirEntry path).1 ≠ some 0 ∧
    getNroInodoDeLaDireccionDelPath sb d path = some 0

/-- Directories can be read, and the inode that is next counts what the new one is to count. -/
def Recibe (d : Disco) (path : Cadena) (count : UInt32) : Prop := Nace sb d path →
  Legibles sb d ∧ ∀ y d1, getInodoLibre sb d = some (y, d1) → y ≠ 0 → (d.inodo y).nrBlocks = count

end

section
variable {desp anterior : Nat} {e : DirEntry} {d1 d2 : Disco} {path nombre : Cadena}

/-- The path of a new entry leads to its inode. -/
theorem conEntrada_path (geo : Geometria sb) (few : Numerable sb) (valid : esInodo sb x)
    (owner : Duenio sb d) (readable : Legibles sb d)
    (run : buscarEntrada sb d x (conLugar nombre) = some (some (k, desp, anterior, e)))
    (bound : k < alcance sb) (asked : getInodoLibre sb d = some (y, d1)) (nonzero : y ≠ 0)
    (same : d2 = conEntrada d1 (posicionarInicioBloque sb (bloqueLogico sb d x k)) desp e y nombre)
    (meets : Cumple sb d2) (missing : getNroInodoDeLaDireccionDelPath sb d path = some 0)
    {r z : Nat} (found : getNroInodoDeLaDireccionDelPath sb d2 path = some r)
    (node : getInodo sb r = some (some z)) : z = y := by
  subst same
  obtain ⟨E, obra⟩ := owner
  have earlier : Cumple sb (grabarEntrada d1 (posicionarInicioBloque sb (bloqueLogico sb d x k))
      (desp + e.minimo) (entradaNueva d1 y e.resto nombre)) := meets.antes (grabarEntrada_deriva ..)
  have edit := Edita.dosEntradas geo obra (deTamanio_vivo valid) bound (buscarEntrada_some run).1 rfl
    asked (earlier _ (List.mem_cons_self ..)) (meets _ (List.mem_cons_self ..))
  have added := agrega_conEntrada geo few valid obra readable run bound asked nonzero edit
  exact added.inodo missing found node

/-- Only the new inode has its count in question. -/
theorem contados_conEntrada (few : Numerable sb) {inicio : Int}
    (asked : getInodoLibre sb d = some (y, d1)) (nonzero : y ≠ 0) (counts : Contados sb d)
    (same : d2 = conEntrada d1 inicio desp e y nombre) :
    (∀ z, z ≠ y → asignado sb d2 z → Contado sb d2 z (bloquesDe sb (d2.inodo z).size.toNat)) ∧
      (d2.inodo y).nrBlocks = (d.inodo y).nrBlocks := by
  subst same
  obtain ⟨-, -, inodes⟩ := getInodoLibre_solo asked
  refine ⟨fun z other allocated => ?_, by rw [conEntrada_inodo_self, inodes]⟩
  rw [asignado, conEntrada_bitmapInodos, ← asignado] at allocated
  have before : asignado sb d z := by
    rcases getInodoLibre_asigna few asked with ⟨zero, -⟩ | ⟨-, -, -, bits⟩
    · exact absurd zero nonzero
    · exact ((bits z).mp allocated).resolve_right other
  rw [Contado, conEntrada_inodo _ _ _ _ _ other, inodes]
  exact counts z before

/-- A new file has no blocks. -/
theorem contados_crearArchivo (geo : Geometria sb) (few : Numerable sb) (owner : Duenio sb d)
    {mode : UInt32} {code : Nat} (run : crearArchivo sb d path mode = some (code, d'))
    (meets : Cumple sb d') (counted : ∀ h ∈ d'.hechos, CuentaBien sb h)
    (fresh : Recibe sb d path 0) (counts : Contados sb d) : Contados sb d' := by
  simp only [crearArchivo, Option.bind_eq_bind, Option.bind_eq_some_iff] at run
  obtain ⟨nro, parent, run⟩ := run
  split at run
  · rename_i there
    simp only [Option.bind_eq_some_iff] at run
    obtain ⟨node, here, x, present, found, absent, run⟩ := run
    obtain ⟨-, valid⟩ := getInodo_some here present
    split at run
    · rename_i missing
      subst missing
      simp only [Option.bind_eq_some_iff] at run
      obtain ⟨⟨error, d1⟩, added, run⟩ := run
      split at run
      · rename_i zero
        subst zero
        simp only [Option.bind_eq_some_iff] at run
        obtain ⟨r, led, node', here', z, present', run⟩ := run
        subst present'
        have derives := setearInodo_deriva run
        have meets1 := meets.antes derives
        rcases agregarEntradaDirectorio_conLugar few added
          fun h member => counted h (derives.mem_hechos member) with
          ⟨failed, -⟩ | ⟨-, k, desp, anterior, e, y, d2, hit, bound, asked, nonzero, same⟩
        · exact absurd rfl failed
        obtain ⟨readable, stale⟩ := fresh ⟨by simpa [parent] using there, absent⟩
        obtain rfl := conEntrada_path geo few valid owner readable hit bound asked nonzero same meets1
          absent led here'
        obtain ⟨others, own⟩ := contados_conEntrada few asked nonzero counts same
        obtain ⟨-, rfl⟩ := setearInodo_archivo run
        intro w allocated
        by_cases new : w = z
        · subst new
          simp only [Contado, Disco.ponInodo, ↓reduceIte]
          rw [own, stale w d2 asked nonzero, show (0 : UInt32).toNat = 0 from rfl, bloquesDe_zero]
          simp [cuenta]
        · have count := others w new allocated
          simpa only [Contado, Disco.ponInodo, new, ↓reduceIte] using count
      · cases run
        rename_i failed
        rcases agregarEntradaDirectorio_conLugar few added counted with ⟨-, rfl⟩ | ⟨done, -⟩
        · exact counts
        · exact absurd done failed
    · cases run
      exact counts
  · cases run
    exact counts

theorem cuenta_one : cuenta sb 1 = 1 := by
  have low : ¬(inicioDoble sb ≤ 0) := by simp [inicioDoble]
  simp [cuenta, indirecciones, esIndireccionSimple, esIndireccionDoble, esIndireccionTriple,
    inicioTriple, low]

/-- A new directory that counts one block before it has any counts right. -/
theorem contados_setearInodo (geo : Geometria sb) {mode : UInt16} {code : Nat}
    (kind : mode &&& 0xF000 = S_IFDIR) (run : setearInodo sb d y mode = some (code, d'))
    (counted : ∀ h ∈ d'.hechos, CuentaBien sb h)
    (others : ∀ z, z ≠ y → asignado sb d z → Contado sb d z (bloquesDe sb (d.inodo z).size.toNat))
    (own : (d.inodo y).nrBlocks = unidad sb) : Contados sb d' := by
  rw [setearInodo, if_pos kind] at run
  simp only [Option.bind_eq_bind, Option.bind_eq_some_iff] at run
  obtain ⟨⟨b, d1⟩, asked, run⟩ := run
  have solo := getBloqueLibre_solo asked
  split at run
  · rename_i zero
    cases run
    exact absurd zero (counted _ (getBloqueLibre_pide asked))
  · cases run
    have same := SoloPunteros.grabarSlot d1 (.inodo y 0) b
    intro z allocated
    have before : asignado sb d z := by
      rw [asignado, ← show d1.bitmapInodos = d.bitmapInodos from solo.bitmapInodos]
      exact allocated
    by_cases here : z = y
    · subst here
      have size : bloquesDe sb (tamanioDeBloque sb % 2 ^ 32) = 1 := by
        have wide := geo.tamanio_lt
        rw [Nat.mod_eq_of_lt (by omega)]
        simpa using bloquesDe_mul (k := 1)
      rw [ponSize_size, if_pos rfl, size, Contado, cuenta_one]
      have kept : ((ponSize (asignar d1 (.inodo z 0) b) z (tamanioDeBloque sb)).inodo z).nrBlocks =
          (d1.inodo z).nrBlocks := by
        simp [ponSize, asignar, Disco.anota, Disco.ponInodo, same.nrBlocks]
      rw [kept, solo.inodo]
      simpa [Disco.ponInodo] using own
    · have kept : (ponSize (asignar d1 (.inodo y 0) b) y (tamanioDeBloque sb)).inodo z =
          d.inodo z := by
        simp [ponSize, asignar, grabarSlot, Disco.anota, Disco.ponInodo, here, solo.inodo]
      rw [Contado, kept]
      exact others z here before

/-- A directory is set up on an inode that counts its one block already. -/
theorem contados_iniciarDirectorio (geo : Geometria sb) {ruta : Cadena} {mode : UInt32}
    {code : Nat} (kind : (mode.toUInt16 ||| S_IFDIR) &&& 0xF000 = S_IFDIR)
    (run : iniciarDirectorio sb d path ruta mode = some (code, d'))
    (counted : ∀ h ∈ d'.hechos, CuentaBien sb h)
    (leads : ∀ r z, getNroInodoDeLaDireccionDelPath sb d path = some r →
      getInodo sb r = some (some z) → z = y)
    (others : ∀ z, z ≠ y → asignado sb d z → Contado sb d z (bloquesDe sb (d.inodo z).size.toNat))
    (own : (d.inodo y).nrBlocks = unidad sb) : Contados sb d' := by
  simp only [iniciarDirectorio, Option.bind_eq_bind, Option.bind_eq_some_iff] at run
  obtain ⟨r, led, node, here, z, rfl, ⟨error, d1⟩, set, run⟩ := run
  obtain rfl := leads r z led here
  split at run
  · simp only [Option.bind_eq_some_iff] at run
    obtain ⟨nueva, -, padre, -, d2, wrote, d3, tallied, run⟩ := run
    cases run
    have derives := (inicializarEntradasNuevoDir_deriva wrote).trans (contarDirectorio_deriva tallied)
    have counts := contados_setearInodo geo kind set
      (fun h member => counted h (derives.mem_hechos member)) others own
    simp only [inicializarEntradasNuevoDir, Option.bind_eq_bind, Option.bind_eq_some_iff,
      Option.some.injEq] at wrote
    obtain ⟨inicio, -, inicio', -, rfl⟩ := wrote
    simp only [contarDirectorio, Option.bind_eq_bind, Option.bind_eq_some_iff,
      Option.some.injEq] at tallied
    obtain ⟨grupo, -, rfl⟩ := tallied
    exact counts.of_inodos rfl rfl
  · cases run
    exact contados_setearInodo geo kind set counted others own

theorem contados_crearDirectorio (geo : Geometria sb) (few : Numerable sb) (owner : Duenio sb d)
    {mode : UInt32} {code : Nat} (kind : (mode.toUInt16 ||| S_IFDIR) &&& 0xF000 = S_IFDIR)
    (run : crearDirectorio sb d path mode = some (code, d'))
    (meets : Cumple sb d') (counted : ∀ h ∈ d'.hechos, CuentaBien sb h)
    (fresh : Recibe sb d path (unidad sb)) (counts : Contados sb d) : Contados sb d' := by
  simp only [crearDirectorio, Option.bind_eq_bind, Option.bind_eq_some_iff] at run
  obtain ⟨nro, parent, node, here, run⟩ := run
  split at run
  · rename_i there
    simp only [Option.bind_eq_some_iff] at run
    obtain ⟨found, absent, run⟩ := run
    split at run
    · rename_i missing
      subst missing
      simp only [Option.bind_eq_some_iff] at run
      obtain ⟨x, present, ⟨error, d1⟩, added, run⟩ := run
      have valid := (getInodo_some here present).2
      split at run
      · rename_i zero
        subst zero
        have derives := iniciarDirectorio_deriva run
        have meets1 := meets.antes derives
        rcases agregarEntradaDirectorio_conLugar few added
          fun h member => counted h (derives.mem_hechos member) with
          ⟨failed, -⟩ | ⟨-, k, desp, anterior, e, y, d2, hit, bound, asked, nonzero, same⟩
        · exact absurd rfl failed
        obtain ⟨readable, stale⟩ := fresh ⟨by simpa [parent] using there, absent⟩
        obtain ⟨others, own⟩ := contados_conEntrada few asked nonzero counts same
        rw [stale y d2 asked nonzero] at own
        exact contados_iniciarDirectorio geo kind run counted (fun r z led there =>
          conEntrada_path geo few valid owner readable hit bound asked nonzero same meets1 absent
            led there) others own
      · cases run
        rename_i failed
        rcases agregarEntradaDirectorio_conLugar few added counted with ⟨-, rfl⟩ | ⟨done, -⟩
        · exact counts
        · exact absurd done failed
    · cases run
      exact counts
  · cases run
    exact counts

/-! ### The other three -/

theorem contados_eliminarArchivo (geo : Geometria sb) (few : Numerable sb) (owner : Duenio sb d)
    {code : Nat} (run : eliminarArchivo sb d path = some (code, d')) (meets : Cumple sb d')
    (counted : ∀ h ∈ d'.hechos, CuentaBien sb h) (counts : Contados sb d) : Contados sb d' := by
  simp only [eliminarArchivo, Option.bind_eq_bind, Option.bind_eq_some_iff] at run
  obtain ⟨nro, -, node, here, run⟩ := run
  split at run
  · simp only [Option.bind_eq_some_iff] at run
    obtain ⟨nro', -, run⟩ := run
    split at run
    · simp only [Option.bind_eq_some_iff] at run
      obtain ⟨⟨error, d1⟩, cut, d2, gone, y, present, d3, dropped, run⟩ := run
      cases run
      have last := eliminarEntradaDirectorio_deriva dropped
      have middle := (liberarInodo_deriva gone).trans last
      have short := contados_truncarArchivo geo owner (by decide) cut (meets.antes middle)
        (fun h member => counted h (middle.mem_hechos member)) counts
      have freed := contados_liberarInodo few gone (meets.antes last) short
      obtain ⟨inodes, bits⟩ := eliminarEntradaDirectorio_inodos meets dropped
      exact freed.of_inodos inodes bits
    · cases run
      exact counts
  · cases run
    exact counts

theorem contados_eliminarDirectorio (few : Numerable sb) {code : Nat}
    (run : eliminarDirectorio sb d path = some (code, d')) (meets : Cumple sb d')
    (counts : Contados sb d) : Contados sb d' := by
  simp only [eliminarDirectorio, Option.bind_eq_bind, Option.bind_eq_some_iff] at run
  obtain ⟨nro, -, node, here, run⟩ := run
  split at run
  · simp only [Option.bind_eq_some_iff] at run
    obtain ⟨nro', -, run⟩ := run
    split at run
    · simp only [Option.bind_eq_some_iff] at run
      obtain ⟨vacio, -, run⟩ := run
      split at run
      · simp only [Option.bind_eq_some_iff] at run
        obtain ⟨y, present, d1, dropped, d2, gone, d3, tallied, run⟩ := run
        cases run
        have meets2 := meets.antes (contarDirectorio_deriva tallied)
        have meets1 := meets2.antes (liberarInodo_deriva gone)
        obtain ⟨inodes, bits⟩ := eliminarEntradaDirectorio_inodos meets1 dropped
        have freed := contados_liberarInodo few gone meets2 (counts.of_inodos inodes bits)
        simp only [contarDirectorio, Option.bind_eq_bind, Option.bind_eq_some_iff,
          Option.some.injEq] at tallied
        obtain ⟨grupo, -, rfl⟩ := tallied
        exact freed.of_inodos rfl rfl
      · cases run
        exact counts
    · cases run
      exact counts
  · cases run
    exact counts

end

end LosAltos.Rfs
