import LosAltos.Rfs.Allocation
import LosAltos.Rfs.Shrink

/-!
# What a truncation adds

The grow branch of `truncarArchivo` (`funciones_rfs.c:560-634`) with `completarBloque` (`:794`)
and the check it starts with, `hayEspacioSuficiente` (`:1334`). Each turn of the loop asks for the
blocks of the positions that start at its logical block; the check counts bytes.
-/
namespace LosAltos.Rfs

open Lib

/-- The blocks of the positions of a list are asked for one after another. The simple indirection
block is not counted in `nr_blocks`. -/
def pedirPosiciones (sb : Superblock) (d : Disco) (x : Nat) : List (List Nat) → Option Disco
  | [] => some d
  | q :: qs => do
    let (b, d') ← getBloqueLibre sb d
    let d' := asignar d' (slotDe sb d x q) b
    pedirPosiciones sb (if q = [12] then d' else sumaBloques sb d' x) x qs

variable {sb : Superblock} {d d' d1 : Disco} {x k n m b eof falta fuel : Nat} {q : List Nat}
  {T : List Nat → Prop} {bs cs : List Nat} {qs : List (List Nat)}

theorem pedirSi_false (slot : Slot) : pedirSi sb false d slot = some d := rfl

theorem pedirContadoSi_false (slot : Slot) : pedirContadoSi sb false d x slot = some d := rfl

theorem pedirSi_true (slot : Slot) : pedirSi sb true d slot =
    (getBloqueLibre sb d).bind fun r => some (asignar r.2 slot r.1) := rfl

theorem pedirContadoSi_true (slot : Slot) : pedirContadoSi sb true d x slot =
    (getBloqueLibre sb d).bind fun r => some (sumaBloques sb (asignar r.2 slot r.1) x) := by
  rw [pedirContadoSi, pedirSi_true]
  simp only [Option.bind_eq_bind, Option.bind_assoc, Option.bind_some, ↓reduceIte]

theorem pedirPosiciones_cons (other : q ≠ [12]) : pedirPosiciones sb d x (q :: qs) =
    (getBloqueLibre sb d).bind fun r =>
      pedirPosiciones sb (sumaBloques sb (asignar r.2 (slotDe sb d x q) r.1) x) x qs := by
  simp only [pedirPosiciones, other, ↓reduceIte]
  rfl

theorem pedirIndirecciones_posiciones (bound : k < alcance sb) :
    pedirIndirecciones sb d x k =
      pedirPosiciones sb d x (nuevas (ptrsPorBloque sb) k).tail.reverse := by
  rw [nuevas]
  cases region bound with
  | directo h =>
    rw [pedirIndirecciones_directo d x h, camino_directo h]
    rfl
  | @simple a ha =>
    rw [pedirIndirecciones_simple d x ha, camino_simple ha]
    by_cases zero : a = 0
    · simp only [zero, decide_true, pedirSi_true, iniciadas, ↓reduceIte]
      rfl
    · simp only [zero, decide_false, pedirSi_false, iniciadas, ↓reduceIte]
      rfl
  | @doble a b ha hb =>
    rw [pedirIndirecciones_doble d x ha hb, camino_doble ha hb]
    by_cases zero : b = 0
    · by_cases zero' : a = 0
      · simp only [zero, zero', and_self, decide_true, pedirContadoSi_true, iniciadas, ↓reduceIte,
          List.tail_cons, List.reverse_cons, List.reverse_nil, List.nil_append, List.cons_append,
          Option.bind_eq_bind, Option.bind_assoc, Option.bind_some]
        rfl
      · simp only [zero, zero', false_and, decide_true, decide_false, pedirContadoSi_true,
          pedirContadoSi_false, iniciadas, ↓reduceIte, List.tail_cons, List.reverse_cons,
          List.reverse_nil, List.nil_append, Option.bind_eq_bind, Option.bind_some]
        rw [pedirPosiciones_cons (by simp)]
        rfl
    · simp only [zero, and_false, decide_false, pedirContadoSi_false, iniciadas, ↓reduceIte,
        Option.bind_eq_bind, Option.bind_some]
      rfl
  | @triple a b c ha hb hc =>
    rw [pedirIndirecciones_triple d x ha hb hc, camino_triple hb hc]
    by_cases zero : c = 0
    · by_cases zero' : b = 0
      · by_cases zero'' : a = 0
        · simp only [zero, zero', zero'', and_self, decide_true, pedirContadoSi_true, iniciadas,
            ↓reduceIte, List.tail_cons, List.reverse_cons, List.reverse_nil, List.nil_append,
            List.cons_append, Option.bind_eq_bind, Option.bind_assoc, Option.bind_some]
          rfl
        · simp only [zero, zero', zero'', false_and, and_self, decide_true, decide_false,
            pedirContadoSi_true, pedirContadoSi_false, iniciadas, ↓reduceIte, List.tail_cons,
            List.reverse_cons, List.reverse_nil, List.nil_append, List.cons_append,
            Option.bind_eq_bind, Option.bind_assoc, Option.bind_some]
          rw [pedirPosiciones_cons (by simp)]
          refine Option.bind_congr fun r _ => ?_
          rw [pedirPosiciones_cons (by simp)]
          rfl
      · simp only [zero, zero', false_and, and_false, decide_true, decide_false,
          pedirContadoSi_true, pedirContadoSi_false, iniciadas, ↓reduceIte, List.tail_cons,
          List.reverse_cons, List.reverse_nil, List.nil_append, Option.bind_eq_bind,
          Option.bind_some]
        rw [pedirPosiciones_cons (by simp)]
        rfl
    · simp only [zero, and_false, decide_false, pedirContadoSi_false, iniciadas, ↓reduceIte,
        Option.bind_eq_bind, Option.bind_some]
      rfl

/-! ### No call answers 0 -/

/-- Since `d` no call of `getBloqueLibre` has answered 0 and no block number 0 was stored. -/
def SinCero (d d' : Disco) : Prop :=
  ∃ hs, d'.hechos = hs ++ d.hechos ∧ ∀ h ∈ hs, h ≠ .pide 0 ∧ h ≠ .asigna 0

namespace SinCero

theorem refl (d : Disco) : SinCero d d := ⟨[], rfl, fun _ member => nomatch member⟩

theorem trans {d'' : Disco} (first : SinCero d d') (second : SinCero d' d'') : SinCero d d'' := by
  obtain ⟨hs, trace, clean⟩ := first
  obtain ⟨hs', trace', clean'⟩ := second
  refine ⟨hs' ++ hs, by rw [trace', trace, List.append_assoc], fun h member => ?_⟩
  rcases List.mem_append.mp member with late | early
  · exact clean' h late
  · exact clean h early

theorem cons {h : Hecho} (trace : d'.hechos = h :: d.hechos)
    (clean : h ≠ .pide 0 ∧ h ≠ .asigna 0) : SinCero d d' := by
  refine ⟨[h], trace, fun g member => ?_⟩
  obtain rfl := List.mem_singleton.mp member
  exact clean

theorem asignar (d : Disco) (slot : Slot) (nonzero : b ≠ 0) : SinCero d (asignar d slot b) := by
  have number : Hecho.asigna b ≠ .asigna 0 := fun same => nonzero (Hecho.asigna.inj same)
  cases slot with
  | inodo y i => exact cons rfl ⟨nofun, number⟩
  | disco dir =>
    have written : SinCero d (grabarSlot d (.disco dir) b) := cons rfl ⟨nofun, nofun⟩
    exact written.trans (cons rfl ⟨nofun, number⟩)

theorem sumaBloques (d : Disco) (x : Nat) : SinCero d (sumaBloques sb d x) := refl d

end SinCero

theorem getBloqueLibre_hechos (run : getBloqueLibre sb d = some (b, d')) :
    d'.hechos = .pide b :: d.hechos := by
  simp only [getBloqueLibre, Option.bind_eq_bind, Option.bind_eq_some_iff] at run
  obtain ⟨⟨g, lleno⟩, -, run⟩ := run
  cases lleno with
  | true =>
    cases run
    rfl
  | false =>
    simp only [Bool.false_eq_true, ↓reduceIte, actualizarEstructurasCuandoPidoBloque,
      Option.bind_eq_bind, Option.bind_eq_some_iff] at run
    obtain ⟨after, ⟨grupo, -, taken⟩, run⟩ := run
    cases taken
    cases run
    rfl

theorem getBloqueLibre_sinCero (run : getBloqueLibre sb d = some (b, d')) (nonzero : b ≠ 0) :
    SinCero d d' :=
  .cons (getBloqueLibre_hechos run) ⟨fun same => nonzero (Hecho.pide.inj same), nofun⟩

/-! ### The calls of a turn -/

/-- The disk after one position of a list is filled. -/
def conPosicion (sb : Superblock) (d : Disco) (x : Nat) (q : List Nat) (b : Nat) (d1 : Disco) :
    Disco :=
  if q = [12] then asignar d1 (slotDe sb d x q) b
  else sumaBloques sb (asignar d1 (slotDe sb d x q) b) x

theorem conPosicion_reparto (d : Disco) (x : Nat) (q : List Nat) (b : Nat) (d1 : Disco) :
    MismoReparto d1 (conPosicion sb d x q b d1) := by
  rw [conPosicion]
  split
  · exact .asignar _ _ _
  · exact (MismoReparto.asignar _ _ _).trans (.sumaBloques _ _)

theorem conPosicion_sinCero (nonzero : b ≠ 0) : SinCero d1 (conPosicion sb d x q b d1) := by
  rw [conPosicion]
  split
  · exact .asignar _ _ nonzero
  · exact (SinCero.asignar _ _ nonzero).trans (.sumaBloques _ _)

theorem pedirPosiciones_reparte (row : Reparte sb d (bs ++ cs)) (length : bs.length = qs.length)
    (nonzero : ∀ b ∈ bs, b ≠ 0) :
    ∃ d', pedirPosiciones sb d x qs = some d' ∧ Reparte sb d' cs ∧ SinCero d d' := by
  induction qs generalizing d bs with
  | nil =>
    obtain rfl := List.length_eq_zero_iff.mp length
    exact ⟨d, rfl, row, .refl d⟩
  | cons q qs ih =>
    match bs with
    | b :: bs =>
      obtain ⟨d1, run, rest⟩ := row
      have full := nonzero b List.mem_cons_self
      obtain ⟨d', done, later, clean⟩ := ih (rest.congr (conPosicion_reparto d x q b d1))
        (Nat.succ.inj length) fun c member => nonzero c (List.mem_cons_of_mem b member)
      refine ⟨d', Option.bind_eq_some_iff.mpr ⟨(b, d1), run, done⟩, later, ?_⟩
      exact ((getBloqueLibre_sinCero run full).trans (conPosicion_sinCero full)).trans clean

/-- A turn that maps logical block `k`: the data block is asked for first and stored last. -/
theorem agregarBloque_posiciones (bound : k < alcance sb)
    (asked : getBloqueLibre sb d = some (b, d1)) {d2 : Disco}
    (levels : pedirPosiciones sb (sumaBloques sb d1 x) x
      (nuevas (ptrsPorBloque sb) k).tail.reverse = some d2) :
    agregarBloque sb d x k =
      some (asignar d2 (slotDe sb d2 x (camino (ptrsPorBloque sb) k)) b) := by
  refine Option.bind_eq_some_iff.mpr ⟨(b, d1), asked, Option.bind_eq_some_iff.mpr ⟨d2, ?_, ?_⟩⟩
  · rw [pedirIndirecciones_posiciones bound, levels]
  · rw [agregarAInodo, getPtr_camino d2 x bound]
    rfl

/-- It asks for as many blocks as positions start there. -/
theorem agregarBloque_reparte (bound : k < alcance sb) (row : Reparte sb d (bs ++ cs))
    (length : bs.length = (nuevas (ptrsPorBloque sb) k).length) (nonzero : ∀ b ∈ bs, b ≠ 0) :
    ∃ d', agregarBloque sb d x k = some d' ∧ Reparte sb d' cs ∧ SinCero d d' := by
  rw [nuevas_cons bound, List.length_cons] at length
  match bs with
  | b :: bs =>
    obtain ⟨d1, asked, rest⟩ := row
    have full := nonzero b List.mem_cons_self
    have many : bs.length = (nuevas (ptrsPorBloque sb) k).tail.reverse.length := by
      rw [List.length_reverse]
      exact Nat.succ.inj length
    obtain ⟨d2, levels, later, clean⟩ := pedirPosiciones_reparte (x := x)
      (rest.congr (.sumaBloques d1 x)) many fun c member =>
        nonzero c (List.mem_cons_of_mem b member)
    refine ⟨_, agregarBloque_posiciones bound asked levels, later.congr (.asignar _ _ _), ?_⟩
    exact (((getBloqueLibre_sinCero asked full).trans (.sumaBloques d1 x)).trans clean).trans
      (.asignar _ _ full)

/-! ### The loop -/

theorem completarBloque_eq (bound : eof / tamanioDeBloque sb < alcance sb) (n : Nat) :
    completarBloque sb d x eof n = some (d.copia (desplazarme sb
      (bloqueLogico sb d x (eof / tamanioDeBloque sb)) (eof % tamanioDeBloque sb))
        (List.replicate n 0)) := by
  obtain ⟨i, p, shape⟩ := List.exists_cons_of_ne_nil (inicia_camino bound).ne_nil
  simp only [completarBloque, posicionarme, nroBloqueDentroDelInodo, desplazamientoDentroDelBloque,
    getPtr_camino d x bound, Option.bind_eq_bind, Option.bind_some, bloqueLogico, shape,
    leerSlot_slotDe]

/-- The rule of the grow loop. `I` holds between turns and `J` once the block of the turn is
mapped. -/
theorem agrandar_regla {fin : Nat} (positive : 0 < tamanioDeBloque sb) (I J : Nat → Disco → Prop)
    (mapea : ∀ eof d, eof < fin → eof % tamanioDeBloque sb = 0 → I eof d →
      ∃ d', agregarBloque sb d x (eof / tamanioDeBloque sb) = some d' ∧ J eof d')
    (sigue : ∀ eof d, eof < fin → eof % tamanioDeBloque sb ≠ 0 → I eof d → J eof d)
    (completa : ∀ eof n d, 0 < n → eof % tamanioDeBloque sb + n ≤ tamanioDeBloque sb →
      eof + n ≤ fin → J eof d → ∃ d', completarBloque sb d x eof n = some d' ∧ I (eof + n) d')
    (limit : fin < 2 ^ 32) (total : eof + falta = fin) (rounds : falta < fuel) (start : I eof d) :
    ∃ d', agrandar sb fuel d x eof falta = some (d', fin) ∧ I fin d' := by
  induction fuel generalizing d eof falta with
  | zero => omega
  | succ fuel ih =>
    rw [agrandar]
    by_cases done : falta = 0
    · obtain rfl : eof = fin := by omega
      exact ⟨d, if_pos done, start⟩
    rw [if_neg done]
    have low := Nat.mod_lt eof positive
    simp only [nroBloqueDentroDelInodo, Option.bind_eq_bind]
    obtain ⟨r, rest_of⟩ : ∃ r, desplazamientoDentroDelBloque sb eof = r := ⟨_, rfl⟩
    rw [rest_of]
    rw [desplazamientoDentroDelBloque] at rest_of
    generalize amount : (if tamanioDeBloque sb - r ≥ falta then falta
      else tamanioDeBloque sb - r) = n
    have some_bytes : 0 < n ∧ n ≤ falta ∧ eof % tamanioDeBloque sb + n ≤ tamanioDeBloque sb := by
      split at amount <;> omega
    obtain ⟨d1, mapped, ready⟩ : ∃ d1, agregarBloqueSi sb (tamanioDeBloque sb - r =
        tamanioDeBloque sb) d x (eof / tamanioDeBloque sb) = some d1 ∧ J eof d1 := by
      by_cases boundary : eof % tamanioDeBloque sb = 0
      · have full : decide (tamanioDeBloque sb - r = tamanioDeBloque sb) = true :=
          decide_eq_true (by omega)
        rw [full]
        exact mapea eof d (by omega) boundary start
      · have inner : decide (tamanioDeBloque sb - r = tamanioDeBloque sb) = false :=
          decide_eq_false (by omega)
        rw [inner]
        exact ⟨d, rfl, sigue eof d (by omega) boundary start⟩
    obtain ⟨d2, filled, next⟩ := completa eof n d1 some_bytes.1 some_bytes.2.2 (by omega) ready
    have left : eof + n + (falta - n) = fin := by omega
    obtain ⟨d', rest, final⟩ := ih left (by omega) next
    refine ⟨d', ?_, final⟩
    rw [mapped, Option.bind_some, filled, Option.bind_some, Nat.mod_eq_of_lt (by omega)]
    exact rest

/-! ### How many blocks a growth needs -/

/-- The data and indirection blocks a file of `m` bytes lacks to have `n`. -/
def faltantes (sb : Superblock) (m n : Nat) : Nat :=
  cuenta sb (bloquesDe sb n) - cuenta sb (bloquesDe sb m)

theorem cuenta_mono (le : m ≤ n) : cuenta sb m ≤ cuenta sb n := by
  induction n, le using Nat.le_induction with
  | base => exact Nat.le_refl _
  | succ n _ ih =>
    rw [cuenta]
    omega

/-- The blocks mapped so far, at a block boundary. -/
theorem bloquesDe_borde (boundary : eof % tamanioDeBloque sb = 0) :
    bloquesDe sb eof = eof / tamanioDeBloque sb := by
  have whole : eof = eof / tamanioDeBloque sb * tamanioDeBloque sb := by
    have parts := Nat.div_add_mod' eof (tamanioDeBloque sb)
    omega
  calc
    bloquesDe sb eof = bloquesDe sb (eof / tamanioDeBloque sb * tamanioDeBloque sb) := by
      rw [← whole]
    _ = eof / tamanioDeBloque sb := bloquesDe_mul

/-- The blocks of a file that ends in the block of `eof`. -/
theorem bloquesDe_dentro (some_bytes : 0 < eof % tamanioDeBloque sb + n)
    (inside : eof % tamanioDeBloque sb + n ≤ tamanioDeBloque sb) :
    bloquesDe sb (eof + n) = eof / tamanioDeBloque sb + 1 := by
  have parts := Nat.div_add_mod' eof (tamanioDeBloque sb)
  apply bloquesDe_between
  · omega
  · rw [Nat.add_mul]
    omega

/-- The blocks of the turn come off the row of those the growth needs. -/
theorem fila_del_turno (log : sb.logBlockSize ≤ 2) (limit : n < 2 ^ 32) (before : eof < n)
    (boundary : eof % tamanioDeBloque sb = 0)
    (length : cs.length = cuenta sb (bloquesDe sb n) - cuenta sb (bloquesDe sb eof)) :
    eof / tamanioDeBloque sb < alcance sb ∧ ∃ now later, cs = now ++ later ∧
      now.length = (nuevas (ptrsPorBloque sb) (eof / tamanioDeBloque sb)).length ∧
      later.length = cuenta sb (bloquesDe sb n) - cuenta sb (eof / tamanioDeBloque sb + 1) := by
  rw [bloquesDe_borde boundary] at length
  have reach := bloquesDe_alcance log limit
  have inner : eof / tamanioDeBloque sb < bloquesDe sb n := by
    have next : bloquesDe sb (eof + 1) = eof / tamanioDeBloque sb + 1 :=
      bloquesDe_dentro (by omega) (by have := tamanioDeBloque_pos sb; omega)
    have some_more : bloquesDe sb (eof + 1) ≤ bloquesDe sb n := bloquesDe_mono before
    omega
  have bound : eof / tamanioDeBloque sb < alcance sb := by omega
  have size := nuevas_length bound
  have more : cuenta sb (eof / tamanioDeBloque sb + 1) ≤ cuenta sb (bloquesDe sb n) :=
    cuenta_mono inner
  rw [cuenta] at more
  refine ⟨bound, _, _, (List.take_append_drop
    (nuevas (ptrsPorBloque sb) (eof / tamanioDeBloque sb)).length cs).symm, ?_, ?_⟩
  · rw [List.length_take]
    omega
  · rw [List.length_drop, cuenta]
    omega

/-- A turn that does not start at a block boundary is in a block that is there. -/
theorem bloquesDe_interior (inner : eof % tamanioDeBloque sb ≠ 0) :
    bloquesDe sb eof = eof / tamanioDeBloque sb + 1 := by
  have same : bloquesDe sb (eof + 0) = _ := bloquesDe_dentro (by omega)
    (Nat.mod_lt eof (tamanioDeBloque_pos sb)).le
  rwa [Nat.add_zero] at same

/-- The grow loop asks for the blocks the growth needs and no more. -/
theorem agrandar_reparte (log : sb.logBlockSize ≤ 2) (le : m ≤ n) (limit : n < 2 ^ 32)
    (row : Reparte sb d bs) (length : bs.length = faltantes sb m n) (nonzero : ∀ b ∈ bs, b ≠ 0) :
    ∃ d', agrandar sb (n - m + 1) d x m (n - m) = some (d', n) ∧ SinCero d d' := by
  let I (k : Nat) (d' : Disco) : Prop := ∃ cs, Reparte sb d' cs ∧
    cs.length = cuenta sb (bloquesDe sb n) - cuenta sb k ∧ (∀ b ∈ cs, b ≠ 0) ∧ SinCero d d'
  suffices final : ∃ d', agrandar sb (n - m + 1) d x m (n - m) = some (d', n) ∧
      I (bloquesDe sb n) d' by
    obtain ⟨d', run, -, -, -, -, clean⟩ := final
    exact ⟨d', run, clean⟩
  refine agrandar_regla (tamanioDeBloque_pos sb) (fun eof => I (bloquesDe sb eof))
    (fun eof => I (eof / tamanioDeBloque sb + 1)) ?_ ?_ ?_ limit (by omega) (Nat.lt_succ_self _)
    ⟨bs, row, length, nonzero, .refl d⟩
  · -- the block of the turn and its indirection blocks come off the row
    rintro eof d1 before boundary ⟨cs, row, length, nonzero, clean⟩
    obtain ⟨bound, now, later, rfl, many, left⟩ := fila_del_turno log limit before boundary length
    obtain ⟨d2, run, next, clean'⟩ := agregarBloque_reparte (x := x) bound row many fun b member =>
      nonzero b (List.mem_append_left later member)
    exact ⟨d2, run, later, next, left, fun b member => nonzero b (List.mem_append_right now member),
      clean.trans clean'⟩
  · rintro eof d1 before inner state
    rwa [bloquesDe_interior inner] at state
  · rintro eof l d1 positive inside ends ⟨cs, row, length, nonzero, clean⟩
    have same : bloquesDe sb (eof + l) = _ := bloquesDe_dentro (by omega) inside
    have bound : eof / tamanioDeBloque sb < alcance sb :=
      nroBloque_lt_alcance log (by omega)
    refine ⟨_, completarBloque_eq bound l, cs, row.congr (.copia _ _ _), ?_, nonzero,
      clean.trans (.cons rfl ⟨nofun, nofun⟩)⟩
    rw [same]
    exact length

/-! ### Blocks against bytes -/

/-- Few logical blocks start an indirection block. -/
theorem indirecciones_le (bound : k < alcance sb) : indirecciones sb k ≤ 3 ∧
    (k < 12 ∨ (k - 12) % ptrsPorBloque sb ≠ 0 → indirecciones sb k = 0) := by
  have size := nuevas_length bound
  constructor
  · have short : (camino (ptrsPorBloque sb) k).length ≤ 4 := by
      cases region bound with
      | directo h => simp [camino_directo h]
      | simple ha => simp [camino_simple ha]
      | doble ha hb => simp [camino_doble ha hb]
      | triple ha hb hc => simp [camino_triple hb hc]
    have count : (nuevas (ptrsPorBloque sb) k).length ≤ _ := iniciadas_count _
    omega
  · intro inner
    have one : (nuevas (ptrsPorBloque sb) k).length ≤ 1 := by
      have same : ∀ q ∈ nuevas (ptrsPorBloque sb) k, q = camino (ptrsPorBloque sb) k :=
        fun q member => inicia_solo bound inner ((mem_nuevas bound).mp member)
      have alone : nuevas (ptrsPorBloque sb) k ⊆ [camino (ptrsPorBloque sb) k] := fun q member =>
        List.mem_singleton.mpr (same q member)
      exact ((podable_nuevas bound).nodup.subperm alone).length_le
    omega

/-- The logical blocks below `k` that start an indirection block, at most. -/
def inicios (p k : Nat) : Nat := (k - 12 + (p - 1)) / p

theorem inicios_succ (bound : k < alcance sb) (words : 0 < ptrsPorBloque sb) :
    indirecciones sb k + 3 * inicios (ptrsPorBloque sb) k ≤
      3 * inicios (ptrsPorBloque sb) (k + 1) := by
  obtain ⟨few, none_there⟩ := indirecciones_le bound
  generalize ptrsPorBloque sb = p at *
  have more : inicios p k ≤ inicios p (k + 1) := Nat.div_le_div_right (by omega)
  by_cases inner : k < 12 ∨ (k - 12) % p ≠ 0
  · rw [none_there inner]
    omega
  · obtain ⟨late, multiple⟩ := not_or.mp inner
    have whole := Nat.div_add_mod (k - 12) p
    have here : inicios p k = (k - 12) / p := by
      rw [inicios]
      apply Nat.div_eq_of_lt_le
      · rw [Nat.mul_comm]
        omega
      · rw [Nat.succ_mul, Nat.mul_comm]
        omega
    have next : inicios p (k + 1) = (k - 12) / p + 1 := by
      rw [inicios, show k + 1 - 12 + (p - 1) = k - 12 + p by omega, Nat.add_div_right _ words]
    omega

theorem cuenta_le (words : 0 < ptrsPorBloque sb) (le : m ≤ n) (bound : n ≤ alcance sb) :
    cuenta sb n + 3 * inicios (ptrsPorBloque sb) m ≤
      cuenta sb m + (n - m) + 3 * inicios (ptrsPorBloque sb) n := by
  induction n, le using Nat.le_induction with
  | base => omega
  | succ n le ih =>
    have before := ih (by omega)
    have step := inicios_succ (k := n) (by omega) words
    rw [cuenta]
    omega

/-- A growth of less than 2 GiB needs fewer blocks than there are in 4 GiB. -/
theorem faltantes_le (log : sb.logBlockSize ≤ 2) (le : m ≤ n) (near : n < m + 2 ^ 31)
    (limit : n < 2 ^ 32) : faltantes sb m n * tamanioDeBloque sb ≤ 2 ^ 32 := by
  have count := cuenta_le (ptrsPorBloque_pos log) (bloquesDe_mono le) (bloquesDe_alcance log limit)
  rw [faltantes]
  generalize cuenta sb (bloquesDe sb n) = total at *
  generalize cuenta sb (bloquesDe sb m) = before at *
  rcases tamanioDeBloque_cases log with block | block | block <;>
  · simp only [inicios, ptrsPorBloque, bloquesDe, block] at *
    omega

/-- `hayEspacioSuficiente` multiplies in 32 bits. -/
theorem hayEspacioSuficiente_iff {size : Nat} : hayEspacioSuficiente sb d size = true ↔
    size ≤ d.freeBlocks.toNat * tamanioDeBloque sb % 2 ^ 32 := by
  rw [hayEspacioSuficiente, decide_eq_true_eq, Nat.mul_comm]

theorem bloquesDe_le_iff : bloquesDe sb n ≤ k ↔ n ≤ k * tamanioDeBloque sb := by
  constructor
  · intro few
    calc
      n ≤ bloquesDe sb n * tamanioDeBloque sb := le_bloquesDe
      _ ≤ k * tamanioDeBloque sb := Nat.mul_le_mul_right _ few
  · intro fits
    calc
      bloquesDe sb n ≤ bloquesDe sb (k * tamanioDeBloque sb) := bloquesDe_mono fits
      _ = k := bloquesDe_mul

/-- The free blocks are not between the blocks that `n - m` bytes fill and those the growth needs;
or the bytes of the free blocks are more than 32 bits hold, and what is left of them is enough. -/
def EspacioJusto (sb : Superblock) (libres m n : Nat) : Prop :=
  if libres * tamanioDeBloque sb < 2 ^ 32 then
    ¬(min (bloquesDe sb (n - m)) (faltantes sb m n) ≤ libres ∧
      libres < max (bloquesDe sb (n - m)) (faltantes sb m n))
  else n - m ≤ libres * tamanioDeBloque sb % 2 ^ 32

instance (libres m n : Nat) : Decidable (EspacioJusto sb libres m n) := by
  unfold EspacioJusto
  infer_instance

/-- The check is true exactly when the growth has its blocks. Once it passes no call of
`getBloqueLibre` answers 0 and no block 0 is stored, and when it fails nothing changes. -/
structure ChequeoExacto (sb : Superblock) (d : Disco) (path : Cadena) (m n : Nat) : Prop where
  exacto : hayEspacioSuficiente sb d (n - m) = true ↔ faltantes sb m n ≤ d.freeBlocks.toNat
  pasa : hayEspacioSuficiente sb d (n - m) = true →
    ∃ d', truncarArchivo sb d path n = some (0, d') ∧ SinCero d d'
  falla : hayEspacioSuficiente sb d (n - m) = false →
    truncarArchivo sb d path n = some (ENOSPC, d)

theorem chequeo_bloques (log : sb.logBlockSize ≤ 2) (le : m ≤ n) (near : n < m + 2 ^ 31)
    (limit : n < 2 ^ 32) : (hayEspacioSuficiente sb d (n - m) = true ↔
      faltantes sb m n ≤ d.freeBlocks.toNat) ↔ EspacioJusto sb d.freeBlocks.toNat m n := by
  rw [hayEspacioSuficiente_iff, EspacioJusto]
  split
  · rename_i small
    rw [Nat.mod_eq_of_lt small, ← bloquesDe_le_iff]
    omega
  · rename_i large
    have few := faltantes_le log le near limit
    have enough : faltantes sb m n ≤ d.freeBlocks.toNat :=
      Nat.le_of_mul_le_mul_right (few.trans (Nat.le_of_not_lt large)) (tamanioDeBloque_pos sb)
    exact iff_true_right enough

/-- The grow branch of a growth is taken for less than 2 GiB more. -/
theorem ramaDe_agranda (limit : n < 2 ^ 32) (grows : m < n) (branch : ramaDe m n = .agranda) :
    n < m + 2 ^ 31 ∧ (diferencia n m).toNat = n - m := by
  rcases diferencia_cases (grows.trans limit) limit with ⟨less, -⟩ | ⟨-, near, -, amount⟩ |
    ⟨far, -⟩ | ⟨-, other⟩
  · omega
  · exact ⟨near, amount⟩
  · omega
  · rw [branch] at other
    cases other

/-- The space check is right for a growth exactly where bytes and blocks do not disagree. -/
theorem chequeo_exacto (image : BloquesConsistentes sb d) (cursor : d.nroDeGrupo < 2 ^ 32)
    {path : Cadena} (named : Nombra sb d path x) (size : (d.inodo x).size.toNat = m)
    (limit : n < 2 ^ 32) (grows : m < n) (branch : ramaDe m n = .agranda) :
    ChequeoExacto sb d path m n ↔ EspacioJusto sb d.freeBlocks.toNat m n := by
  obtain ⟨near, amount⟩ := ramaDe_agranda limit grows branch
  have decided := chequeo_bloques (d := d) image.bloque grows.le near limit
  have step : truncarInodo sb d x n = _ := truncarInodo_agranda size branch
  rw [amount, ← named.truncarArchivo n] at step
  rw [← decided]
  refine ⟨ChequeoExacto.exacto, fun right => ⟨right, fun passes => ?_, fun fails => ?_⟩⟩
  · have some_group : 0 < cantidadDeGrupos sb := lt_of_le_of_lt (Nat.zero_le _) named.valido.2
    obtain ⟨bs, length, row, -, fresh⟩ := reparte_libres image cursor some_group _
      (right.mp passes)
    obtain ⟨d', run, clean⟩ := agrandar_reparte (x := x) image.bloque grows.le limit
      (row.congr (.anota d (.crece m n))) length fun b member => (fresh b member).1
    refine ⟨ponSize d' x n, ?_, ?_⟩
    · rw [step, if_pos passes, run, Option.map_some]
    · have noted : SinCero d (d.anota (.crece m n)) := .cons rfl ⟨nofun, nofun⟩
      exact noted.trans clean
  · rw [step, fails, if_neg Bool.false_ne_true]

/-- The 1900 bytes fill two blocks and one is needed; twenty are free. -/
theorem chequeo_exacto_tercero : ChequeoExacto (volumen 0) imagenArchivoLargo [47, 97] 1100 3000 :=
  (chequeo_exacto (by decide +kernel) (by decide) imagenArchivoLargo_nombra rfl (by decide)
    (by decide) (by decide)).mpr (by decide +kernel)

/-- A volume that ends with block 23. -/
def volumenJusto : Superblock := { volumen 0 with blocks := 24 }

/-- The file `/a` has the twelve direct blocks 11 to 22, and block 23 is free. -/
def imagenUnBloque : Disco :=
  { imagenConArchivo 0 with
    freeBlocks := 1
    grupo := fun _ => ⟨1, 5, 1⟩
    bitmapBloques := fun _ i => i + 1 ≠ 23
    inodo := fun x =>
      if x = 11 then ⟨S_IFREG, 12288, 1, 24, fun i => if i < 12 then .ofNat (11 + i) else 0⟩
      else (imagenConArchivo 0).inodo x }

/-- A thirteenth block needs an indirection block too. -/
theorem chequeo_corto : ¬∀ (sb : Superblock) (d : Disco) (path : Cadena) (x m n : Nat),
    BloquesConsistentes sb d → d.nroDeGrupo < 2 ^ 32 → Nombra sb d path x →
    (d.inodo x).size.toNat = m → n < 2 ^ 32 → m < n → ramaDe m n = .agranda →
    ChequeoExacto sb d path m n := by
  intro all
  have named : Nombra volumenJusto imagenUnBloque [47, 97] 11 :=
    ⟨⟨2, by decide +kernel, by decide⟩, by decide +kernel, ⟨by decide, by decide⟩⟩
  have right := all volumenJusto imagenUnBloque [47, 97] 11 12288 12289 (by decide +kernel)
    (by decide) named rfl (by decide) (by decide) (by decide)
  have wrong : ¬faltantes volumenJusto 12288 12289 ≤ 1 := by decide +kernel
  exact wrong (right.exacto.mp (by decide))

end LosAltos.Rfs
