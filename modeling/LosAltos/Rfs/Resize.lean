import LosAltos.Rfs.Growth

/-!
# The loops of truncation

The two loops of `truncarArchivo` (`funciones_rfs.c:516-629`) and the one of
`liberarInodo` (`:1206-1213`), by induction over their rounds: the file owns the positions
of `bloquesDe eof` logical blocks at every turn.
-/
namespace LosAltos.Rfs

open Lib

variable {sb : Superblock} {S : Nat → List Nat → Prop} {E : Nat → Prop} {d d' : Disco}
  {x k n eof falta : Nat}

/-- `S`, with the positions of `k` blocks for `x`. -/
def conBloques (sb : Superblock) (S : Nat → List Nat → Prop) (x k : Nat) : Nat → List Nat → Prop :=
  fun y q => y ≠ x ∧ S y q ∨ y = x ∧ Vivo (ptrsPorBloque sb) k q

theorem conBloques_self (q : List Nat) : conBloques sb S x k x q ↔ Vivo (ptrsPorBloque sb) k q := by
  simp [conBloques]

theorem conBloques_succ (y : Nat) (q : List Nat) : conBloques sb S x (k + 1) y q ↔
    conBloques sb S x k y q ∨ y = x ∧ Inicia (ptrsPorBloque sb) k q := by
  rw [conBloques, conBloques, vivo_succ]
  constructor
  · rintro (other | ⟨here, old | new⟩)
    · exact .inl (.inl other)
    · exact .inl (.inr ⟨here, old⟩)
    · exact .inr ⟨here, new⟩
  · rintro ((other | ⟨here, old⟩) | ⟨here, new⟩)
    · exact .inl other
    · exact .inr ⟨here, .inl old⟩
    · exact .inr ⟨here, .inr new⟩

theorem conBloques_pred (y : Nat) (q : List Nat) : conBloques sb S x k y q ↔
    conBloques sb S x (k + 1) y q ∧ ¬(y = x ∧ Inicia (ptrsPorBloque sb) k q) := by
  rw [conBloques_succ]
  constructor
  · intro member
    refine ⟨.inl member, ?_⟩
    rintro ⟨rfl, here⟩
    exact not_vivo_of_inicia here (Nat.le_refl k) ((conBloques_self q).mp member)
  · rintro ⟨member | gone, kept⟩
    · exact member
    · exact absurd gone kept

theorem conBloques_mono {k' : Nat} (le : k ≤ k') (y : Nat) (q : List Nat)
    (member : conBloques sb S x k y q) : conBloques sb S x k' y q := by
  rcases member with other | ⟨here, k'', below, starts⟩
  · exact .inl other
  · exact .inr ⟨here, k'', by omega, starts⟩

/-! ### Blocks of a size -/

theorem tamanioDeBloque_pos (sb : Superblock) : 0 < tamanioDeBloque sb := by
  rw [tamanioDeBloque, Nat.shiftLeft_eq]
  exact Nat.mul_pos (by decide) (Nat.two_pow_pos _)

theorem Geometria.tamanio_pos (_ : Geometria sb) : 0 < tamanioDeBloque sb := tamanioDeBloque_pos sb

/-- The last byte of a file of `n` bytes lies in its last block. -/
theorem bloquesDe_pos (positive : 0 < n) :
    bloquesDe sb n = (n - 1) / tamanioDeBloque sb + 1 := by
  rw [bloquesDe, show n + tamanioDeBloque sb - 1 = n - 1 + tamanioDeBloque sb by omega,
    Nat.add_div_right _ (tamanioDeBloque_pos sb)]

theorem bloquesDe_zero : bloquesDe sb 0 = 0 := by
  have positive := tamanioDeBloque_pos sb
  rw [bloquesDe]
  exact Nat.div_eq_of_lt (by omega)

theorem bloquesDe_mul : bloquesDe sb (k * tamanioDeBloque sb) = k := by
  have positive := tamanioDeBloque_pos sb
  rw [bloquesDe, show k * tamanioDeBloque sb + tamanioDeBloque sb - 1 =
    tamanioDeBloque sb * k + (tamanioDeBloque sb - 1) by rw [Nat.mul_comm]; omega,
    Nat.mul_add_div positive, Nat.div_eq_of_lt (by omega), Nat.add_zero]

/-- A size between two block boundaries. -/
theorem bloquesDe_between (low : k * tamanioDeBloque sb < n)
    (high : n ≤ (k + 1) * tamanioDeBloque sb) : bloquesDe sb n = k + 1 := by
  have positive := tamanioDeBloque_pos sb
  rw [bloquesDe_pos (by omega)]
  congr 1
  apply Nat.div_eq_of_lt_le <;> omega

theorem bloquesDe_mono (le : n ≤ k) : bloquesDe sb n ≤ bloquesDe sb k :=
  Nat.div_le_div_right (by omega)

theorem le_bloquesDe : n ≤ bloquesDe sb n * tamanioDeBloque sb := by
  have positive := tamanioDeBloque_pos sb
  have ceil := Nat.lt_mul_div_succ (n + tamanioDeBloque sb - 1) positive
  rw [bloquesDe, Nat.mul_comm]
  rw [Nat.mul_add, Nat.mul_one] at ceil
  omega

/-- A file of `n` bytes with a last block of its own. -/
theorem bloquesDe_add :
    bloquesDe sb (n + tamanioDeBloque sb) = bloquesDe sb n + 1 := by
  have positive := tamanioDeBloque_pos sb
  rw [bloquesDe, bloquesDe, show n + tamanioDeBloque sb + tamanioDeBloque sb - 1 =
    n + tamanioDeBloque sb - 1 + tamanioDeBloque sb by omega, Nat.add_div_right _ (tamanioDeBloque_pos sb)]

/-! ### Bytes of a data block -/

/-- What `posicionarme` finds for a block of the file. -/
theorem posicionarme_camino {desp : Nat} {ptr : Int}
    (run : posicionarme sb d x k desp = some ptr) :
    k < 12 + ptrsPorBloque sb + ptrsPorBloque sb * ptrsPorBloque sb +
      ptrsPorBloque sb * ptrsPorBloque sb * ptrsPorBloque sb ∧
    ptr = desplazarme sb ((punteros sb d).valor x (camino (ptrsPorBloque sb) k)) desp := by
  simp only [posicionarme, Option.bind_eq_bind, Option.bind_eq_some_iff, Option.some.injEq] at run
  obtain ⟨slot, found, rfl⟩ := run
  have bound := getPtr_some d x found
  rw [getPtr_camino d x bound] at found
  cases found
  obtain ⟨i, p, shape⟩ := List.exists_cons_of_ne_nil (inicia_camino bound).ne_nil
  exact ⟨bound, by rw [shape, leerSlot_slotDe]⟩

/-- Bytes written inside a data block of `x`. -/
theorem Paso.bloque (geo : Geometria sb) (obra : Obra sb S E d)
    (vivos : ∀ q, S x q ↔ Vivo (ptrsPorBloque sb) n q)
    (bound : k < 12 + ptrsPorBloque sb + ptrsPorBloque sb * ptrsPorBloque sb +
      ptrsPorBloque sb * ptrsPorBloque sb * ptrsPorBloque sb)
    (owned : k < n) {desp : Nat} {bytes : List UInt8}
    (inside : desp + bytes.length ≤ tamanioDeBloque sb) :
    Paso sb x S S E d (d.copia (desplazarme sb
      ((punteros sb d).valor x (camino (ptrsPorBloque sb) k)) desp) bytes) := by
  refine .datos geo obra ((vivos _).mpr ⟨k, owned, inicia_camino bound⟩) ?_ inside
  intro j member
  obtain ⟨k', -, slot⟩ := (vivos _).mp member
  exact camino_leaf bound slot

theorem Paso.completarBloque (geo : Geometria sb) (obra : Obra sb S E d)
    (vivos : ∀ q, S x q ↔ Vivo (ptrsPorBloque sb) n q) {offset size : Nat}
    (owned : offset / tamanioDeBloque sb < n)
    (inside : offset % tamanioDeBloque sb + size ≤ tamanioDeBloque sb)
    (run : completarBloque sb d x offset size = some d') : Paso sb x S S E d d' := by
  simp only [Rfs.completarBloque, Option.bind_eq_bind, Option.bind_eq_some_iff,
    Option.some.injEq] at run
  obtain ⟨ptr, found, rfl⟩ := run
  obtain ⟨bound, rfl⟩ := posicionarme_camino found
  exact .bloque geo obra vivos bound owned (by simpa [desplazamientoDentroDelBloque] using inside)

/-! ### Growing -/

/-- One round of the grow loop. -/
theorem Paso.ronda (geo : Geometria sb) (obra : Obra sb (conBloques sb S x (bloquesDe sb eof)) E d)
    {d1 : Disco} {condicion : Bool} (positive : 0 < n)
    (fits : n ≤ tamanioDeBloque sb - eof % tamanioDeBloque sb)
    (boundary : condicion = true ↔ eof % tamanioDeBloque sb = 0)
    (mapped : agregarBloqueSi sb condicion d x (eof / tamanioDeBloque sb) = some d1)
    (filled : Rfs.completarBloque sb d1 x eof n = some d') (stored : Hecho.asigna 0 ∉ d'.hechos) :
    Paso sb x (conBloques sb S x (bloquesDe sb eof)) (conBloques sb S x (bloquesDe sb (eof + n)))
      E d d' := by
  have size := geo.tamanio_pos
  have parts := Nat.div_add_mod' eof (tamanioDeBloque sb)
  have low := Nat.mod_lt eof size
  have after : bloquesDe sb (eof + n) = eof / tamanioDeBloque sb + 1 := by
    apply bloquesDe_between
    · omega
    · rw [Nat.add_mul]
      omega
  have mapping : Paso sb x (conBloques sb S x (bloquesDe sb eof))
      (conBloques sb S x (eof / tamanioDeBloque sb + 1)) E d d1 := by
    rw [agregarBloqueSi] at mapped
    split at mapped
    · rename_i full
      have zero := boundary.mp full
      have before : bloquesDe sb eof = eof / tamanioDeBloque sb := by
        have exact_size : eof = eof / tamanioDeBloque sb * tamanioDeBloque sb := by omega
        calc
          bloquesDe sb eof = bloquesDe sb (eof / tamanioDeBloque sb * tamanioDeBloque sb) := by
            rw [← exact_size]
          _ = eof / tamanioDeBloque sb := bloquesDe_mul
      rw [before] at obra ⊢
      have stored1 := fun member => stored ((completarBloque_deriva filled).mem_hechos member)
      exact (Paso.agregarBloque geo obra conBloques_self mapped stored1).of_iff conBloques_succ
    · rename_i partial_block
      cases mapped
      have nonzero : eof % tamanioDeBloque sb ≠ 0 := fun zero => partial_block (boundary.mpr zero)
      have before : bloquesDe sb eof = eof / tamanioDeBloque sb + 1 := by
        apply bloquesDe_between
        · omega
        · rw [Nat.add_mul]
          omega
      rw [before] at obra ⊢
      exact .refl obra
  have filling := Paso.completarBloque geo mapping.obra conBloques_self (Nat.lt_succ_self _)
    (by omega) filled
  rw [after]
  refine mapping.crecer filling (conBloques_mono ?_) fun _ _ => id
  rw [← after]
  exact bloquesDe_mono (by omega)

theorem Paso.agrandar (geo : Geometria sb) (fuel : Nat) {eof' : Nat}
    (obra : Obra sb (conBloques sb S x (bloquesDe sb eof)) E d) (bound : eof + falta < 2 ^ 32)
    (run : agrandar sb fuel d x eof falta = some (d', eof')) (stored : Hecho.asigna 0 ∉ d'.hechos) :
    eof' = eof + falta ∧ Paso sb x (conBloques sb S x (bloquesDe sb eof))
      (conBloques sb S x (bloquesDe sb (eof + falta))) E d d' := by
  induction fuel generalizing d eof falta with
  | zero => cases run
  | succ fuel ih =>
    simp only [Rfs.agrandar] at run
    split at run
    · rename_i zero
      cases run
      subst zero
      exact ⟨rfl, .refl obra⟩
    rename_i positive
    simp only [Option.bind_eq_bind, Option.bind_eq_some_iff] at run
    obtain ⟨d1, mapped, d2, filled, run⟩ := run
    have low := Nat.mod_lt eof geo.tamanio_pos
    obtain ⟨m, amount⟩ : ∃ m, (if tamanioDeBloque sb - desplazamientoDentroDelBloque sb eof ≥ falta
      then falta else tamanioDeBloque sb - desplazamientoDentroDelBloque sb eof) = m := ⟨_, rfl⟩
    rw [amount] at filled run
    have some_bytes : 0 < m ∧ m ≤ falta ∧ m ≤ tamanioDeBloque sb - eof % tamanioDeBloque sb := by
      split at amount <;> rw [desplazamientoDentroDelBloque] at * <;> omega
    have stored2 := fun member => stored ((agrandar_deriva fuel run).mem_hechos member)
    have boundary : decide (tamanioDeBloque sb - desplazamientoDentroDelBloque sb eof =
        tamanioDeBloque sb) = true ↔ eof % tamanioDeBloque sb = 0 := by
      rw [decide_eq_true_iff, desplazamientoDentroDelBloque]
      omega
    have round := Paso.ronda geo obra some_bytes.1 some_bytes.2.2 boundary mapped filled stored2
    rw [Nat.mod_eq_of_lt (by omega : eof + m < 2 ^ 32)] at run
    obtain ⟨final, rest⟩ := ih round.obra (by omega) run
    rw [show eof + m + (falta - m) = eof + falta by omega] at final rest
    refine ⟨final, round.crecer rest ?_ ?_⟩
    · exact conBloques_mono (bloquesDe_mono (by omega))
    · exact conBloques_mono (bloquesDe_mono (by omega))

/-! ### Shrinking -/

theorem Paso.achicar (geo : Geometria sb) (fuel : Nat) {eof' : Nat}
    (obra : Obra sb (conBloques sb S x (bloquesDe sb eof)) E d) (enough : falta ≤ eof)
    (run : achicar sb fuel d x eof falta = some (d', eof'))
    (freed : ∀ b, Hecho.libera b ∈ d'.hechos → sb.firstDataBlock = 1) :
    eof' = eof - falta ∧ Paso sb x (conBloques sb S x (bloquesDe sb eof))
      (conBloques sb S x (bloquesDe sb (eof - falta))) E d d' := by
  induction fuel generalizing d eof falta with
  | zero => cases run
  | succ fuel ih =>
    simp only [Rfs.achicar] at run
    split at run
    · rename_i zero
      cases run
      subst zero
      exact ⟨rfl, .refl obra⟩
    rename_i positive
    have last : bloquesDe sb eof = (eof - 1) / tamanioDeBloque sb + 1 :=
      bloquesDe_pos (by omega)
    have parts := Nat.div_add_mod' (eof - 1) (tamanioDeBloque sb)
    have low := Nat.mod_lt (eof - 1) geo.tamanio_pos
    split at run
    · -- the whole of the last block goes
      rename_i whole
      simp only [Option.bind_eq_bind, Option.bind_eq_some_iff] at run
      obtain ⟨d1, removed, run⟩ := run
      rw [desplazamientoDentroDelBloque] at whole run
      rw [nroBloqueDentroDelInodo] at removed
      have first : sb.firstDataBlock = 1 := by
        have logged := quitarBloque_libera removed
        obtain ⟨b, member⟩ := logged
        exact freed b ((achicar_deriva fuel run).mem_hechos member)
      have before := obra
      rw [last] at before
      have step := (Paso.quitarBloque geo first before conBloques_self removed).of_iff
        conBloques_pred
      have left : eof - ((eof - 1) % tamanioDeBloque sb + 1) =
          (eof - 1) / tamanioDeBloque sb * tamanioDeBloque sb := by omega
      have rest : bloquesDe sb (eof - ((eof - 1) % tamanioDeBloque sb + 1)) =
          (eof - 1) / tamanioDeBloque sb := by
        rw [left]
        exact bloquesDe_mul
      obtain ⟨final, more⟩ := ih (by rw [rest]; exact step.obra) (by omega) run
      rw [show eof - ((eof - 1) % tamanioDeBloque sb + 1) -
        (falta - ((eof - 1) % tamanioDeBloque sb + 1)) = eof - falta by omega] at final more
      rw [← last] at step
      rw [rest] at more
      refine ⟨final, step.menguar more (conBloques_mono (by omega)) (conBloques_mono ?_)⟩
      rw [← rest]
      exact bloquesDe_mono (by omega)
    · -- the last block stays, with fewer bytes in use
      rename_i some_left
      rw [desplazamientoDentroDelBloque] at some_left
      have same : bloquesDe sb (eof - falta) = bloquesDe sb eof := by
        rw [last]
        apply bloquesDe_between
        · omega
        · rw [Nat.add_mul]
          omega
      obtain ⟨final, more⟩ := ih (by rw [same]; exact obra) (by omega) run
      rw [same] at more ⊢
      rw [Nat.sub_zero, same] at more
      exact ⟨by omega, more⟩

/-- A truncation fails and does nothing, or goes through one of the two loops. -/
theorem truncarInodo_some {offset code : Nat} (limit : offset < 2 ^ 32)
    (run : truncarInodo sb d x offset = some (code, d'))
    (grown : ∀ eof n, Hecho.crece eof n ∈ d'.hechos → eof ≤ n)
    (size : eof = (d.inodo x).size.toNat) :
    code ≠ 0 ∧ d' = d ∨ code = 0 ∧ ∃ d1 eof', d' = ponSize d1 x eof' ∧
      (offset ≤ eof ∧ achicar sb (eof - offset + 1) d x eof (eof - offset) = some (d1, eof') ∨
        eof ≤ offset ∧ Hecho.crece eof offset ∈ d'.hechos ∧
          agrandar sb (offset - eof + 1) (d.anota (.crece eof offset)) x eof (offset - eof) =
            some (d1, eof')) := by
  have width : (d.inodo x).size.toNat < 2 ^ 32 := (d.inodo x).size.toNat_lt
  simp only [truncarInodo, ← size] at run
  split at run
  · rename_i negative
    split at run
    · cases run
      exact .inl ⟨by decide, rfl⟩
    rename_i enough
    simp only [Option.bind_eq_bind, Option.bind_eq_some_iff] at run
    obtain ⟨⟨d1, eof'⟩, shrunk, run⟩ := run
    cases run
    have amount : (diferencia offset eof).natAbs = eof - offset ∧ offset ≤ eof := by
      rw [diferencia, resta32] at *
      split at negative <;> rename_i small <;> simp only [small, ↓reduceIte] at * <;> omega
    rw [amount.1] at shrunk
    exact .inr ⟨rfl, d1, eof', rfl, .inl ⟨amount.2, shrunk⟩⟩
  split at run
  · rename_i nonnegative enough
    simp only [Option.bind_eq_bind, Option.bind_eq_some_iff] at run
    obtain ⟨⟨d1, eof'⟩, grew, run⟩ := run
    cases run
    have logged : Hecho.crece eof offset ∈ (ponSize d1 x eof').hechos :=
      (agrandar_deriva _ grew).mem_hechos (List.mem_cons_self ..)
    have larger : eof ≤ offset := grown eof offset logged
    have amount : (diferencia offset eof).toNat = offset - eof := by
      rw [diferencia, resta32] at *
      split at nonnegative <;> rename_i small <;> simp only [small, ↓reduceIte] at * <;> omega
    rw [amount] at grew
    exact .inr ⟨rfl, d1, eof', rfl, .inr ⟨larger, logged, grew⟩⟩
  · cases run
    exact .inl ⟨by decide, rfl⟩

/-- `truncarArchivo` on an inode fails and does nothing, or leaves it with the blocks of
the size asked for. -/
theorem Paso.truncarInodo (geo : Geometria sb) {offset code : Nat} (limit : offset < 2 ^ 32)
    (obra : Obra sb (conBloques sb S x (bloquesDe sb (d.inodo x).size.toNat)) E d)
    (run : truncarInodo sb d x offset = some (code, d'))
    (stored : Hecho.asigna 0 ∉ d'.hechos)
    (freed : ∀ b, Hecho.libera b ∈ d'.hechos → sb.firstDataBlock = 1)
    (grown : ∀ eof n, Hecho.crece eof n ∈ d'.hechos → eof ≤ n) :
    code ≠ 0 ∧ d' = d ∨ code = 0 ∧ ∃ d1, d' = ponSize d1 x offset ∧
      Paso sb x (conBloques sb S x (bloquesDe sb (d.inodo x).size.toNat))
        (conBloques sb S x (bloquesDe sb offset)) E d d1 := by
  have width : (d.inodo x).size.toNat < 2 ^ 32 := (d.inodo x).size.toNat_lt
  rcases truncarInodo_some limit run grown rfl with
    failed | ⟨rfl, d1, eof', rfl, ⟨smaller, shrunk⟩ | ⟨larger, -, grew⟩⟩
  · exact .inl failed
  · generalize (d.inodo x).size.toNat = eof at *
    obtain ⟨final, step⟩ := Paso.achicar geo _ obra (by omega) shrunk freed
    obtain rfl : eof' = offset := by omega
    rw [show eof - (eof - eof') = eof' by omega] at step
    exact .inr ⟨rfl, d1, rfl, step⟩
  · generalize (d.inodo x).size.toNat = eof at *
    have noted : Paso sb x _ _ E d (d.anota (.crece eof offset)) := .anota obra _
    obtain ⟨final, step⟩ := Paso.agrandar geo _ noted.obra (by omega) grew stored
    obtain rfl : eof' = offset := by omega
    rw [show eof + (eof' - eof) = eof' by omega] at step
    refine .inr ⟨rfl, d1, rfl, noted.crecer step (fun _ _ => id) (conBloques_mono ?_)⟩
    exact bloquesDe_mono larger

/-! ### Releasing the data of an inode -/

/-- `S`, without the data of the first `j` blocks of `x`. -/
def sinDatos (sb : Superblock) (S : Nat → List Nat → Prop) (x j : Nat) : Nat → List Nat → Prop :=
  fun y q => S y q ∧ ¬(y = x ∧ ∃ k < j, q = camino (ptrsPorBloque sb) k)

theorem sinDatos_succ {j : Nat} (y : Nat) (q : List Nat) : sinDatos sb S x (j + 1) y q ↔
    sinDatos sb S x j y q ∧ ¬(y = x ∧ q = camino (ptrsPorBloque sb) j) := by
  constructor
  · rintro ⟨old, kept⟩
    refine ⟨⟨old, ?_⟩, ?_⟩
    · rintro ⟨rfl, k, below, rfl⟩
      exact kept ⟨rfl, k, by omega, rfl⟩
    · rintro ⟨rfl, rfl⟩
      exact kept ⟨rfl, j, by omega, rfl⟩
  · rintro ⟨⟨old, kept⟩, other⟩
    refine ⟨old, ?_⟩
    rintro ⟨rfl, k, below, rfl⟩
    rcases Nat.lt_succ_iff_lt_or_eq.mp below with less | rfl
    · exact kept ⟨rfl, k, less, rfl⟩
    · exact other ⟨rfl, rfl⟩

theorem Paso.liberarBloques (geo : Geometria sb) (m : Nat) {j : Nat}
    (obra : Obra sb (sinDatos sb S x j) E d)
    (vivos : ∀ q, S x q ↔ Vivo (ptrsPorBloque sb) n q) (range : j + m ≤ n)
    (run : liberarBloques sb d x (List.range' j m) = some d')
    (freed : ∀ b, Hecho.libera b ∈ d'.hechos → sb.firstDataBlock = 1) :
    Paso sb x (sinDatos sb S x j) (sinDatos sb S x (j + m)) E d d' := by
  induction m generalizing d j with
  | zero =>
    cases run
    exact .refl obra
  | succ m ih =>
    simp only [List.range'_succ, Rfs.liberarBloques, Option.bind_eq_bind,
      Option.bind_eq_some_iff] at run
    obtain ⟨slot, found, d1, gone, run⟩ := run
    have first : sb.firstDataBlock = 1 := by
      obtain ⟨b, member⟩ := liberarBloque_libera gone
      exact freed b ((liberarBloques_deriva run).mem_hechos member)
    have bound := getPtr_some d x found
    rw [getPtr_camino d x bound] at found
    cases found
    have starts := inicia_camino bound
    obtain ⟨i, p, shape⟩ := List.exists_cons_of_ne_nil starts.ne_nil
    have member : sinDatos sb S x j x (camino (ptrsPorBloque sb) j) := by
      refine ⟨(vivos _).mpr ⟨j, by omega, starts⟩, ?_⟩
      rintro ⟨-, k, below, same⟩
      have earlier : k < 12 + ptrsPorBloque sb + ptrsPorBloque sb * ptrsPorBloque sb +
        ptrsPorBloque sb * ptrsPorBloque sb * ptrsPorBloque sb := by omega
      have again := inicia_camino earlier
      rw [← same] at again
      have := starts.unique again
      omega
    have leaf : ∀ i, ¬sinDatos sb S x j x (i :: camino (ptrsPorBloque sb) j) := by
      rintro i ⟨old, -⟩
      obtain ⟨k', -, inside⟩ := (vivos _).mp old
      exact camino_leaf bound inside
    rw [shape] at member leaf gone
    have step : Paso sb x (sinDatos sb S x j) (sinDatos sb S x (j + 1)) E d d1 :=
      (Paso.liberar geo first obra member leaf gone).of_iff fun y q => by
        rw [sinDatos_succ, shape]
    have rest := ih step.obra (by omega) run
    rw [show j + 1 + m = j + (m + 1) by omega] at rest
    refine step.menguar rest (fun y q inside => ((sinDatos_succ y q).mp inside).1) ?_
    rintro y q ⟨old, kept⟩
    refine ⟨old, fun before => kept ?_⟩
    obtain ⟨here, k, below, same⟩ := before
    exact ⟨here, k, by omega, same⟩

end LosAltos.Rfs
