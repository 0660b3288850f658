import LosAltos.Rfs.FreeBlocks

/-!
# A row of blocks

The answers of successive calls of `getBloqueLibre` (`funciones_rfs.c:728-752`). They depend on
the tables of blocks and on the static cursor alone, so that what a caller writes between two
calls does not change them; from consistent tables there are as many as free blocks.
-/
namespace LosAltos.Rfs

open Lib

/-- The disks do not differ in what `getBloqueLibre` reads. -/
structure MismoReparto (d d' : Disco) : Prop where
  grupo : d'.grupo = d.grupo
  bitmapBloques : d'.bitmapBloques = d.bitmapBloques
  freeBlocks : d'.freeBlocks = d.freeBlocks
  nroDeGrupo : d'.nroDeGrupo = d.nroDeGrupo

/-- The next calls answer the blocks of the list, in this order. -/
def Reparte (sb : Superblock) : Disco → List Nat → Prop
  | _, [] => True
  | d, b :: bs => ∃ d', getBloqueLibre sb d = some (b, d') ∧ Reparte sb d' bs

variable {sb : Superblock} {d d' d'' d1 : Disco} {b g n nro : Nat} {bs cs : List Nat}

namespace MismoReparto

theorem refl (d : Disco) : MismoReparto d d := ⟨rfl, rfl, rfl, rfl⟩

theorem trans (first : MismoReparto d d') (second : MismoReparto d' d'') : MismoReparto d d'' :=
  ⟨second.grupo.trans first.grupo, second.bitmapBloques.trans first.bitmapBloques,
    second.freeBlocks.trans first.freeBlocks, second.nroDeGrupo.trans first.nroDeGrupo⟩

theorem anota (d : Disco) (h : Hecho) : MismoReparto d (d.anota h) := ⟨rfl, rfl, rfl, rfl⟩

theorem anotados (same : MismoReparto d d') (h h' : Hecho) :
    MismoReparto (d.anota h) (d'.anota h') :=
  ⟨same.grupo, same.bitmapBloques, same.freeBlocks, same.nroDeGrupo⟩

theorem grabarSlot (d : Disco) (slot : Slot) (n : Nat) : MismoReparto d (grabarSlot d slot n) := by
  cases slot <;> exact ⟨rfl, rfl, rfl, rfl⟩

theorem asignar (d : Disco) (slot : Slot) (n : Nat) : MismoReparto d (asignar d slot n) :=
  (grabarSlot d slot n).trans (anota _ _)

theorem sumaBloques (d : Disco) (x : Nat) : MismoReparto d (sumaBloques sb d x) :=
  ⟨rfl, rfl, rfl, rfl⟩

theorem copia (d : Disco) (dir : Int) (bytes : List UInt8) : MismoReparto d (d.copia dir bytes) :=
  ⟨rfl, rfl, rfl, rfl⟩

theorem libresDe (same : MismoReparto d d') (g : Nat) : libresDe sb d' g = libresDe sb d g := by
  simp only [Rfs.libresDe, same.bitmapBloques]

theorem usado (same : MismoReparto d d') : usado sb d' = usado sb d := by
  funext b
  simp only [Rfs.usado, same.bitmapBloques]

theorem consistentes (same : MismoReparto d d') (image : BloquesConsistentes sb d) :
    BloquesConsistentes sb d' where
  bloque := image.bloque
  primero := image.primero
  bloques := image.bloques
  inodos := image.inodos
  inicio := by
    rw [same.bitmapBloques]
    exact image.inicio
  dentro := by
    rw [same.bitmapBloques]
    exact image.dentro
  cuentaGrupo g bound := by
    rw [same.grupo, same.libresDe]
    exact image.cuentaGrupo g bound
  cuentaTotal := by
    simp only [same.freeBlocks, same.libresDe]
    exact image.cuentaTotal

theorem ocupar (same : MismoReparto d d') (g i : Nat) :
    MismoReparto (d.ocupar g i) (d'.ocupar g i) := by
  constructor
  · simp only [Disco.ocupar, Disco.ponGrupo, Disco.ponBitBloque, same.grupo]
  · simp only [Disco.ocupar, Disco.ponGrupo, Disco.ponBitBloque, same.bitmapBloques]
  · simp only [Disco.ocupar, Disco.ponGrupo, Disco.ponBitBloque, same.freeBlocks]
  · exact same.nroDeGrupo

end MismoReparto

theorem buscarGrupo_congr (same : d'.grupo = d.grupo) (fuel nro : Nat) (vuelta : Bool) :
    buscarGrupo sb d' fuel nro vuelta = buscarGrupo sb d fuel nro vuelta := by
  induction fuel generalizing nro vuelta with
  | zero => rfl
  | succ fuel ih => simp only [buscarGrupo, same, ih]

theorem getBloqueLibre_congr (same : MismoReparto d d')
    (run : getBloqueLibre sb d = some (b, d1)) :
    ∃ d1', getBloqueLibre sb d' = some (b, d1') ∧ MismoReparto d1 d1' := by
  simp only [getBloqueLibre, Option.bind_eq_bind, Option.bind_eq_some_iff] at run
  obtain ⟨⟨g, lleno⟩, searched, run⟩ := run
  have again : buscarGrupo sb d' (2 ^ 34) d'.nroDeGrupo false = some (g, lleno) := by
    rw [buscarGrupo_congr same.grupo, same.nroDeGrupo]
    exact searched
  have moved : MismoReparto { d with nroDeGrupo := g } { d' with nroDeGrupo := g } :=
    ⟨same.grupo, same.bitmapBloques, same.freeBlocks, rfl⟩
  cases lleno with
  | true =>
    cases run
    exact ⟨_, Option.bind_eq_some_iff.mpr ⟨_, again, rfl⟩, moved.anotados _ _⟩
  | false =>
    simp only [Bool.false_eq_true, ↓reduceIte, Option.bind_eq_some_iff] at run
    obtain ⟨after, taken, run⟩ := run
    have number : getBloqueLibreDelBitmap sb { d' with nroDeGrupo := g } g =
        getBloqueLibreDelBitmap sb { d with nroDeGrupo := g } g := by
      simp only [getBloqueLibreDelBitmap, same.bitmapBloques]
    generalize getBloqueLibreDelBitmap sb { d with nroDeGrupo := g } g = c at *
    cases run
    simp only [actualizarEstructurasCuandoPidoBloque, Option.bind_eq_bind, Option.bind_eq_some_iff,
      Option.some.injEq, leerGroupDescriptor] at taken
    obtain ⟨grupo, there, rfl⟩ := taken
    have inside : resta32 b sb.firstDataBlock / sb.blocksPerGroup < cantidadDeGrupos sb := by
      by_contra outside
      rw [if_neg outside] at there
      cases there
    have taken : actualizarEstructurasCuandoPidoBloque sb { d' with nroDeGrupo := g } b = some
        (Disco.ocupar { d' with nroDeGrupo := g } (resta32 b sb.firstDataBlock / sb.blocksPerGroup)
          (resta32 (reducir b sb.blocksPerGroup) sb.firstDataBlock)) :=
      Option.bind_eq_some_iff.mpr ⟨_, if_pos inside, rfl⟩
    refine ⟨_, Option.bind_eq_some_iff.mpr ⟨_, again, Option.bind_eq_some_iff.mpr
      ⟨_, number ▸ taken, by rw [number]⟩⟩, ?_⟩
    exact (moved.ocupar _ _).anotados _ _

theorem Reparte.congr (same : MismoReparto d d') (row : Reparte sb d bs) : Reparte sb d' bs := by
  induction bs generalizing d d' with
  | nil => trivial
  | cons b bs ih =>
    obtain ⟨d1, run, rest⟩ := row
    obtain ⟨d1', run', same'⟩ := getBloqueLibre_congr same run
    exact ⟨d1', run', ih same' rest⟩

theorem Reparte.of_append (row : Reparte sb d (bs ++ cs)) : Reparte sb d bs := by
  induction bs generalizing d with
  | nil => trivial
  | cons b bs ih =>
    obtain ⟨d1, asked, rest⟩ := row
    exact ⟨d1, asked, ih rest⟩

/-! ### The search ends -/

/-- The search ends from any cursor: one past the groups goes round the 32 bits first. -/
theorem buscarGrupo_vuelve (few : cantidadDeGrupos sb < 2 ^ 32)
    (some_group : 0 < cantidadDeGrupos sb) (fuel : Nat)
    (word : nro < 2 ^ 32) (enough : 2 ^ 32 + 2 * cantidadDeGrupos sb ≤ nro + fuel) :
    (buscarGrupo sb d fuel nro false).isSome := by
  by_cases valid : nro < cantidadDeGrupos sb
  · refine buscarGrupo_isSome few fuel valid ?_
    rw [if_neg Bool.false_ne_true]
    omega
  induction fuel generalizing nro with
  | zero => omega
  | succ fuel ih =>
    have outside : ¬(nro < cantidadDeGrupos sb ∧ (d.grupo nro).freeBlocksCount ≠ 0) :=
      fun both => valid both.1
    rw [buscarGrupo, if_neg outside]
    simp only
    rcases Nat.lt_or_ge (nro + 1) (2 ^ 32) with more | last
    · rw [Nat.mod_eq_of_lt more, if_neg (by omega)]
      exact ih more (by omega) (by omega)
    · -- the cursor wraps to the first group
      obtain rfl : nro = 2 ^ 32 - 1 := by omega
      rw [show (2 ^ 32 - 1 + 1) % 2 ^ 32 = 0 by decide, if_neg (by omega)]
      refine buscarGrupo_isSome few fuel some_group ?_
      rw [if_neg Bool.false_ne_true]
      omega

/-! ### A call on consistent tables -/

/-- One block is taken from consistent tables. -/
theorem BloquesConsistentes.ocupar (image : BloquesConsistentes sb d)
    (hg : g < cantidadDeGrupos sb) {i : Nat} (hi : i < sb.blocksPerGroup)
    (clear : d.bitmapBloques g i = false) (count : (d.grupo g).freeBlocksCount ≠ 0)
    (nro : Nat) (h : Hecho) :
    BloquesConsistentes sb ((Disco.ocupar { d with nroDeGrupo := nro } g i).anota h) := by
  have taken := tomado_ocupar image hg hi clear count nro h
  obtain ⟨group, -⟩ := grupoDe_bitDe (g := g) hi
  have here : libresDe sb d g =
      libresDe sb ((Disco.ocupar { d with nroDeGrupo := nro } g i).anota h) g + 1 :=
    libresDe_ocupar (d := { d with nroDeGrupo := nro }) hi clear
  have others : ∀ k, k ≠ g → libresDe sb d k =
      libresDe sb ((Disco.ocupar { d with nroDeGrupo := nro } g i).anota h) k := by
    intro k other
    simp [libresDe, Disco.anota, ocupar_bit, other]
  constructor
  case bloque => exact image.bloque
  case primero => exact image.primero
  case bloques => exact image.bloques
  case inodos => exact image.inodos
  case inicio =>
    intro k bound
    refine (ocupar_bit k 0).trans ?_
    split
    · rfl
    · exact image.inicio k bound
  case dentro =>
    intro k bound j small unset
    have before : d.bitmapBloques k j = false := by
      have bit := (ocupar_bit (d := { d with nroDeGrupo := nro }) (g := g) (i := i) k j).symm.trans
        unset
      split at bit
      · cases bit
      · exact bit
    exact image.dentro k bound j small before
  case cuentaGrupo =>
    intro k bound
    by_cases same : k = g
    · subst same
      have less := taken.cuentaGrupo
      rw [group, image.cuentaGrupo k bound] at less
      omega
    · rw [taken.otrosGrupos k (by rw [group]; exact same), image.cuentaGrupo k bound, others k same]
  case cuentaTotal =>
    have less := taken.cuentaTotal
    rw [image.cuentaTotal, sum_succ_at hg others here] at less
    omega

section
variable (image : BloquesConsistentes sb d) (cursor : d.nroDeGrupo < 2 ^ 32)
  (some_group : 0 < cantidadDeGrupos sb)
include image cursor some_group

theorem buscarGrupo_consistente :
    ∃ outcome, buscarGrupo sb d (2 ^ 34) d.nroDeGrupo false = some outcome := by
  have few := image.pocos
  exact Option.isSome_iff_exists.mp (buscarGrupo_vuelve few some_group _ cursor (by omega))

/-- With free blocks a call answers one of them and leaves consistent tables. -/
theorem getBloqueLibre_uno (some_free : d.freeBlocks.toNat ≠ 0) :
    ∃ b d', getBloqueLibre sb d = some (b, d') ∧ b ≠ 0 ∧ b < sb.blocks ∧ ¬usado sb d b ∧
      (∀ c, usado sb d' c ↔ c = b ∨ usado sb d c) ∧ BloquesConsistentes sb d' ∧
      d'.nroDeGrupo < 2 ^ 32 ∧ d'.freeBlocks.toNat + 1 = d.freeBlocks.toNat := by
  obtain ⟨⟨g, lleno⟩, searched⟩ := buscarGrupo_consistente image cursor some_group
  cases lleno with
  | true =>
    have full := buscarGrupo_lleno searched
    refine absurd ?_ some_free
    rw [image.cuentaTotal]
    refine Finset.sum_eq_zero fun g member => ?_
    have bound := Finset.mem_range.mp member
    rw [← image.cuentaGrupo g bound, full g bound (.inr rfl)]
    rfl
  | false =>
    obtain ⟨hg, count⟩ := buscarGrupo_libre searched
    obtain ⟨i, hi, clear, inside, nonzero, taken⟩ :=
      image.tablas.getBloqueLibre_libre image.bloques image.primero_le searched
    have marks := usado_ocupar (d := { d with nroDeGrupo := g }) image.primero_le rfl hi nonzero
    refine ⟨_, _, taken, nonzero, inside, ?_, marks, image.ocupar hg hi clear count _ _,
      lt_trans hg image.pocos, (tomado_ocupar image hg hi clear count _ _).cuentaTotal⟩
    obtain ⟨group, bit⟩ := (coords image.primero_le rfl hi nonzero).mpr rfl
    rw [usado, group, bit, clear]
    simp

/-- Without them it answers 0 and leaves the tables alone. -/
theorem getBloqueLibre_ninguno (full : d.freeBlocks.toNat = 0) :
    ∃ d', getBloqueLibre sb d = some (0, d') ∧ BloquesConsistentes sb d' ∧
      d'.nroDeGrupo < 2 ^ 32 ∧ d'.freeBlocks.toNat = 0 := by
  obtain ⟨⟨g, lleno⟩, searched⟩ := buscarGrupo_consistente image cursor some_group
  cases lleno with
  | true =>
    refine ⟨_, getBloqueLibre_lleno searched, ?_, ?_, full⟩
    · exact ⟨image.bloque, image.primero, image.bloques, image.inodos, image.inicio, image.dentro,
        image.cuentaGrupo, image.cuentaTotal⟩
    · change g < 2 ^ 32
      rw [buscarGrupo_cursor searched]
      exact image.pocos
  | false =>
    obtain ⟨hg, count⟩ := buscarGrupo_libre searched
    refine absurd ?_ count
    have none_there : libresDe sb d g = 0 := by
      rw [image.cuentaTotal, Finset.sum_eq_zero_iff] at full
      exact full g (Finset.mem_range.mpr hg)
    rw [← image.cuentaGrupo g hg] at none_there
    exact UInt16.toNat_inj.mp none_there

/-- As many calls as there are free blocks answer blocks that were free, each another one. -/
theorem reparte_libres (n : Nat) (enough : n ≤ d.freeBlocks.toNat) :
    ∃ bs, bs.length = n ∧ Reparte sb d bs ∧ bs.Nodup ∧
      ∀ b ∈ bs, b ≠ 0 ∧ b < sb.blocks ∧ ¬usado sb d b := by
  induction n generalizing d with
  | zero => exact ⟨[], rfl, trivial, List.nodup_nil, fun b member => nomatch member⟩
  | succ n ih =>
    obtain ⟨b, d1, run, nonzero, inside, free, marks, next, cursor', less⟩ :=
      getBloqueLibre_uno image cursor some_group (by omega)
    obtain ⟨bs, length, row, distinct, fresh⟩ := ih next cursor' (by omega)
    refine ⟨b :: bs, by rw [List.length_cons, length], ⟨d1, run, row⟩, ?_, ?_⟩
    · refine List.nodup_cons.mpr ⟨fun member => ?_, distinct⟩
      exact (fresh b member).2.2 ((marks b).mpr (.inl rfl))
    · intro c member
      rcases List.mem_cons.mp member with rfl | later
      · exact ⟨nonzero, inside, free⟩
      · obtain ⟨nonzero', inside', free'⟩ := fresh c later
        exact ⟨nonzero', inside', fun used => free' ((marks c).mpr (.inr used))⟩

end

end LosAltos.Rfs
