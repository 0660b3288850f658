import LosAltos.Rfs.Expand
import LosAltos.Rfs.WriteGrowth

/-!
# Writes that run out of blocks

The loop of `serve_write` that adds blocks (`main_rfs.c:322-326`), with `agregarBloqueNuevo`
(`funciones_rfs.c:1543-1557`) and the reply (`main_rfs.c:363-368`), whatever blocks are free. The
code of `agregarBloqueNuevo` is not looked at: a turn without a free block changes nothing and is
taken again.
-/
namespace LosAltos.Rfs

open Lib

/-- The calls of `getBloqueLibre` so far that answered 0. -/
def faltas (d : Disco) : Nat := d.hechos.count (.pide 0)

/-- The tables are consistent with `f` free blocks, and `x` counts `c` blocks and `r` bytes. -/
structure Saldo (sb : Superblock) (x r c f : Nat) (d : Disco) : Prop where
  image : BloquesConsistentes sb d
  cursor : d.nroDeGrupo < 2 ^ 32
  libres : d.freeBlocks.toNat = f
  bloques : (d.inodo x).nrBlocks.toNat * 512 % 2 ^ 32 = c * tamanioDeBloque sb + r
  resto : r < tamanioDeBloque sb

/-- Of `f` blocks, `j` were asked for: they were all there, or there was none left at the end. -/
def Pedidos (sb : Superblock) (x r c f j : Nat) (d : Disco) (sigue : Bool) (d' : Disco) : Prop :=
  if sigue then j ≤ f ∧ Saldo sb x r (c + j) (f - j) d' ∧ faltas d' = faltas d
  else f < j ∧ Saldo sb x r (c + f) 0 d' ∧ faltas d < faltas d'

variable {sb : Superblock} {d d' d1 : Disco} {x r c f j k n b final fuel : Nat} {sigue : Bool}

theorem Saldo.cantidad (state : Saldo sb x r c f d) : cantidadDeBloques sb (d.inodo x) = c := by
  have positive := tamanioDeBloque_pos sb
  rw [cantidadDeBloques, state.bloques, Nat.mul_comm, Nat.mul_add_div positive,
    Nat.div_eq_of_lt state.resto, Nat.add_zero]

theorem Saldo.congr (state : Saldo sb x r c f d) (same : MismoReparto d d')
    (count : (d'.inodo x).nrBlocks = (d.inodo x).nrBlocks) : Saldo sb x r c f d' where
  image := same.consistentes state.image
  cursor := by rw [same.nroDeGrupo]; exact state.cursor
  libres := by rw [same.freeBlocks]; exact state.libres
  bloques := by rw [count]; exact state.bloques
  resto := state.resto

theorem asignar_nrBlocks (d : Disco) (slot : Slot) (b y : Nat) :
    ((asignar d slot b).inodo y).nrBlocks = (d.inodo y).nrBlocks := by
  cases slot with
  | disco dir => rfl
  | inodo z i =>
    by_cases here : y = z <;>
      simp [asignar, grabarSlot, Disco.anota, Disco.ponInodo, INode.ponBloque, here]

/-- A block more is `B / 512` units more, unless the bytes they say go past 32 bits. -/
theorem unidades_mas_un_bloque {B w : Nat} (block : B = 1024 ∨ B = 2048 ∨ B = 4096)
    (before : w * 512 % 2 ^ 32 = c * B + r) (room : (c + 1) * B + r < 2 ^ 32) :
    (w + B / 512) % 2 ^ 32 * 512 % 2 ^ 32 = (c + 1) * B + r := by
  have whole : B / 512 * 512 = B := by omega
  rw [Nat.add_mul] at room
  calc
    (w + B / 512) % 2 ^ 32 * 512 % 2 ^ 32 = (w * 512 + B) % 2 ^ 32 := by
      rw [Nat.mod_mul_mod, Nat.add_mul, whole]
    _ = (c * B + r + B) % 2 ^ 32 := by rw [← Nat.mod_add_mod, before]
    _ = c * B + r + B := Nat.mod_eq_of_lt (by omega)
    _ = (c + 1) * B + r := by
      rw [Nat.add_mul]
      omega

/-- A block is stored and counted. -/
theorem Saldo.suma (state : Saldo sb x r c f d) (slot : Slot) (b : Nat)
    (room : (c + 1) * tamanioDeBloque sb + r < 2 ^ 32) :
    Saldo sb x r (c + 1) f (sumaBloques sb (asignar d slot b) x) where
  image := ((MismoReparto.asignar d slot b).trans (.sumaBloques _ x)).consistentes state.image
  cursor := by
    rw [((MismoReparto.asignar d slot b).trans (.sumaBloques _ x)).nroDeGrupo]
    exact state.cursor
  libres := by
    rw [((MismoReparto.asignar d slot b).trans (.sumaBloques _ x)).freeBlocks]
    exact state.libres
  bloques := by
    have before := state.bloques
    have value : ((sumaBloques sb (asignar d slot b) x).inodo x).nrBlocks.toNat =
        ((d.inodo x).nrBlocks.toNat + tamanioDeBloque sb / 512) % 2 ^ 32 := by
      rw [← asignar_nrBlocks d slot b x]
      rcases tamanioDeBloque_cases state.image.bloque with block | block | block <;>
        simp [sumaBloques, Disco.ponInodo, UInt32.toNat_add, block]
    rw [value]
    exact unidades_mas_un_bloque (tamanioDeBloque_cases state.image.bloque) before room
  resto := state.resto

theorem faltas_asignar (d : Disco) (slot : Slot) (b : Nat) : faltas (asignar d slot b) = faltas d := by
  cases slot <;> simp [faltas, asignar, grabarSlot, Disco.anota, Disco.copia, Disco.ponInodo]

theorem faltas_sumaBloques (d : Disco) (x : Nat) : faltas (sumaBloques sb d x) = faltas d := rfl

theorem getBloqueLibre_faltas (run : getBloqueLibre sb d = some (b, d')) :
    faltas d' = faltas d + if b = 0 then 1 else 0 := by
  rw [faltas, getBloqueLibre_hechos run, List.count_cons, faltas]
  congr 1
  by_cases zero : b = 0 <;> simp [zero]

section
variable (some_group : 0 < cantidadDeGrupos sb)
include some_group

theorem Saldo.pide (state : Saldo sb x r c (f + 1) d) :
    ∃ b d', getBloqueLibre sb d = some (b, d') ∧ b ≠ 0 ∧ Saldo sb x r c f d' ∧
      faltas d' = faltas d := by
  obtain ⟨b, d', run, nonzero, -, -, -, image, cursor, less⟩ :=
    getBloqueLibre_uno state.image state.cursor some_group (by rw [state.libres]; omega)
  refine ⟨b, d', run, nonzero, ⟨image, cursor, ?_, ?_, state.resto⟩, ?_⟩
  · have := state.libres
    omega
  · rw [(getBloqueLibre_solo run).inodo]
    exact state.bloques
  · rw [getBloqueLibre_faltas run, if_neg nonzero, Nat.add_zero]

theorem Saldo.falta (state : Saldo sb x r c 0 d) :
    ∃ d', getBloqueLibre sb d = some (0, d') ∧ Saldo sb x r c 0 d' ∧ faltas d < faltas d' := by
  obtain ⟨d', run, image, cursor, none_left⟩ :=
    getBloqueLibre_ninguno state.image state.cursor some_group state.libres
  refine ⟨d', run, ⟨image, cursor, none_left, ?_, state.resto⟩, ?_⟩
  · rw [(getBloqueLibre_solo run).inodo]
    exact state.bloques
  · rw [getBloqueLibre_faltas run, if_pos rfl]
    omega

/-- One more block is asked for, unless one was missing already. -/
theorem Pedidos.uno (asked : Pedidos sb x r c f j d sigue d1) (condicion : Bool) (slot : Slot)
    (le : j + condicion.toNat ≤ n) (room : (c + n) * tamanioDeBloque sb + r < 2 ^ 32) :
    ∃ sigue' d', (if sigue then pedirParaAgregar sb condicion d1 x slot else some (false, d1)) =
        some (sigue', d') ∧ Pedidos sb x r c f (j + condicion.toNat) d sigue' d' := by
  cases sigue with
  | false =>
    obtain ⟨less, state, more⟩ := asked
    exact ⟨false, d1, rfl, by omega, state, more⟩
  | true =>
    obtain ⟨few, state, same⟩ := asked
    cases condicion with
    | false => exact ⟨true, d1, rfl, few, state, same⟩
    | true =>
      have fits : (c + j + 1) * tamanioDeBloque sb ≤ (c + n) * tamanioDeBloque sb :=
        Nat.mul_le_mul_right _ (by simpa [Nat.add_assoc] using le)
      rcases Nat.lt_or_eq_of_le few with less | rfl
      · rw [show f - j = f - (j + 1) + 1 by omega] at state
        obtain ⟨b, d2, run, nonzero, next, clean⟩ := state.pide some_group
        refine ⟨true, sumaBloques sb (asignar d2 slot b) x, ?_, less, next.suma slot b (by omega), ?_⟩
        · refine Option.bind_eq_some_iff.mpr ⟨(b, d2), run, ?_⟩
          exact if_neg nonzero
        · rw [faltas_sumaBloques, faltas_asignar, clean, same]
      · rw [Nat.sub_self] at state
        obtain ⟨d2, run, next, more⟩ := state.falta some_group
        refine ⟨false, d2, Option.bind_eq_some_iff.mpr ⟨(0, d2), run, rfl⟩, ?_, next, by omega⟩
        exact Nat.lt_succ_self j

/-- The last one is asked for only if none was missing, and what it answers is not looked at. -/
theorem Pedidos.ultimo (asked : Pedidos sb x r c f j d sigue d1) (condicion : Bool) (slot : Slot)
    (le : j + condicion.toNat ≤ n) (room : (c + n) * tamanioDeBloque sb + r < 2 ^ 32) :
    ∃ sigue' d', pedirParaAgregar sb (sigue && condicion) d1 x slot = some (sigue', d') ∧
      ∃ sigue'', Pedidos sb x r c f (j + condicion.toNat) d sigue'' d' := by
  obtain ⟨sigue', d', run, asked'⟩ := asked.uno some_group condicion slot le room
  cases sigue with
  | false =>
    cases run
    exact ⟨true, d1, rfl, false, asked'⟩
  | true => exact ⟨sigue', d', run, sigue', asked'⟩

/-! ### One turn -/

theorem manejar_pedidos (state : Saldo sb x r c f d)
    (room : (c + indirecciones sb k) * tamanioDeBloque sb + r < 2 ^ 32) :
    ∃ sigue d', manejarBloquesIndireccionesParaAgregar sb d x k = some d' ∧
      Pedidos sb x r c f (indirecciones sb k) d sigue d' := by
  have start : Pedidos sb x r c f 0 d true d := ⟨Nat.zero_le f, state, rfl⟩
  rw [indirecciones] at room ⊢
  rw [manejarBloquesIndireccionesParaAgregar]
  split_ifs at room ⊢ with simple double triple
  · obtain ⟨sigue, d1, run, asked⟩ := start.uno some_group (decide (k = 12)) (.inodo x 12)
      (by omega) room
    refine ⟨sigue, d1, Option.bind_eq_some_iff.mpr ⟨(sigue, d1), run, rfl⟩, ?_⟩
    rwa [Nat.zero_add] at asked
  · obtain ⟨sigue, d1, run, asked⟩ := start.uno some_group (decide (k = inicioDoble sb))
      (.inodo x 13) (by omega) room
    obtain ⟨sigue', d2, run', asked'⟩ := asked.ultimo some_group
      (decide ((k - 12) % ptrsPorBloque sb = 0))
      (slotDeBloque sb (leerSlot d1 (.inodo x 13)) ((k - inicioDoble sb) / ptrsPorBloque sb))
      (by omega) room
    rw [Nat.zero_add, Nat.add_comm] at asked'
    obtain ⟨outcome, asked'⟩ := asked'
    refine ⟨outcome, d2, ?_, asked'⟩
    exact Option.bind_eq_some_iff.mpr ⟨(sigue, d1), run,
      Option.bind_eq_some_iff.mpr ⟨(sigue', d2), run', rfl⟩⟩
  · obtain ⟨sigue, d1, run, asked⟩ := start.uno some_group (decide (k = inicioTriple sb))
      (.inodo x 14) (by omega) room
    obtain ⟨sigue', d2, run', asked'⟩ := asked.uno some_group
      (decide ((k - inicioTriple sb) % (ptrsPorBloque sb * ptrsPorBloque sb) = 0))
      (slotDeBloque sb (leerSlot d1 (.inodo x 14))
        ((k - inicioTriple sb) / (ptrsPorBloque sb * ptrsPorBloque sb))) (by omega) room
    obtain ⟨sigue'', d3, run'', asked''⟩ := asked'.ultimo some_group
      (decide ((k - inicioTriple sb) % ptrsPorBloque sb = 0))
      (slotDeBloque sb
        (leerSlot d2 (getPtrBloqueIndTriple sb (leerSlot d2 (.inodo x 14)) k))
        ((k - inicioTriple sb) % (ptrsPorBloque sb * ptrsPorBloque sb) / ptrsPorBloque sb))
      (by omega) room
    obtain ⟨outcome, asked''⟩ := asked''
    refine ⟨outcome, d3, Option.bind_eq_some_iff.mpr ⟨(sigue, d1), run, ?_⟩, ?_⟩
    · cases sigue with
      | false =>
        cases run'
        cases run''
        rfl
      | true =>
        refine Option.bind_eq_some_iff.mpr ⟨(sigue', d2), run', ?_⟩
        exact Option.bind_eq_some_iff.mpr ⟨(sigue'', d3), run'', rfl⟩
    · have order : ∀ a b c : Nat, a + b + c = 0 + c + b + a := by omega
      rwa [order]
  · exact ⟨true, d, rfl, start⟩

/-- A turn takes its blocks, or those that are left and no more. -/
theorem agregarBloqueNuevo_saldo (state : Saldo sb x r c f d)
    (bound : c + indirecciones sb c < alcance sb)
    (room : (c + (indirecciones sb c + 1)) * tamanioDeBloque sb + r < 2 ^ 32) :
    ∃ d', agregarBloqueNuevo sb d x = some d' ∧
      ∃ sigue, Pedidos sb x r c f (indirecciones sb c + 1) d sigue d' := by
  have less : (c + indirecciones sb c) * tamanioDeBloque sb ≤
      (c + (indirecciones sb c + 1)) * tamanioDeBloque sb :=
    Nat.mul_le_mul_right _ (by omega)
  obtain ⟨sigue, d1, run, asked⟩ := manejar_pedidos (k := c) some_group state (by omega)
  rw [agregarBloqueNuevo, state.cantidad]
  cases sigue with
  | true =>
    obtain ⟨le, state1, same⟩ := asked
    rcases Nat.lt_or_eq_of_le le with more | last
    · rw [show f - indirecciones sb c = f - (indirecciones sb c + 1) + 1 by omega] at state1
      obtain ⟨b, d2, taken, nonzero, next, clean⟩ := state1.pide some_group
      refine ⟨_, Option.bind_eq_some_iff.mpr ⟨d1, run, Option.bind_eq_some_iff.mpr
        ⟨(b, d2), taken, ?_⟩⟩, true, more, next.suma (slotDe sb d2 x
          (camino (ptrsPorBloque sb) (c + indirecciones sb c))) b room, ?_⟩
      · simp only [nonzero, ↓reduceIte]
        rw [next.cantidad, getPtr_camino d2 x bound]
        rfl
      · rw [faltas_sumaBloques, faltas_asignar, clean, same]
    · rw [last, Nat.sub_self] at state1
      obtain ⟨d2, taken, next, more⟩ := state1.falta some_group
      refine ⟨d2, Option.bind_eq_some_iff.mpr ⟨d1, run, Option.bind_eq_some_iff.mpr
        ⟨(0, d2), taken, rfl⟩⟩, false, by omega, next, by omega⟩
  | false =>
    obtain ⟨less, state1, more⟩ := asked
    obtain ⟨d2, taken, next, more'⟩ := state1.falta some_group
    exact ⟨d2, Option.bind_eq_some_iff.mpr ⟨d1, run, Option.bind_eq_some_iff.mpr
      ⟨(0, d2), taken, rfl⟩⟩, false, by omega, next, by omega⟩

end

/-! ### The loop -/

/-- The blocks the loop asks for in `fuel` turns from a count of `c` on. -/
def pedidosHasta (sb : Superblock) (final : Nat) : Nat → Nat → Nat
  | 0, _ => 0
  | fuel + 1, c =>
    if c ≤ final then
      indirecciones sb c + 1 + pedidosHasta sb final fuel (c + (indirecciones sb c + 1))
    else 0

/-- No count of blocks goes past what 32 bits of bytes hold. -/
theorem cantidadDeBloques_le (node : INode) :
    cantidadDeBloques sb node ≤ (2 ^ 32 - 1) / tamanioDeBloque sb :=
  Nat.div_le_div_right (Nat.le_sub_one_of_lt (Nat.mod_lt _ (by decide)))

/-- The blocks of a turn fit in the count: none near the end starts an indirection block. -/
theorem turno_cabe (log : sb.logBlockSize ≤ 2) (before : c < (2 ^ 32 - 1) / tamanioDeBloque sb)
    (rest : r < tamanioDeBloque sb) : c + indirecciones sb c < alcance sb ∧
      (c + (indirecciones sb c + 1)) * tamanioDeBloque sb + r < 2 ^ 32 := by
  have inner : c < alcance sb := by
    have reach : (2 ^ 32 - 1) / tamanioDeBloque sb < alcance sb :=
      nroBloque_lt_alcance log (by decide)
    omega
  obtain ⟨few, none_there⟩ := indirecciones_le inner
  rw [alcance] at inner ⊢
  by_cases flat : c < 12 ∨ (c - 12) % ptrsPorBloque sb ≠ 0
  · rw [none_there flat]
    refine ⟨inner, ?_⟩
    rcases tamanioDeBloque_cases log with block | block | block <;>
    · rw [block] at before rest ⊢
      omega
  · generalize indirecciones sb c = i at *
    obtain ⟨late, multiple⟩ := not_or.mp flat
    rcases tamanioDeBloque_cases log with block | block | block <;>
    · rw [ptrsPorBloque, block] at multiple ⊢
      rw [block] at before rest
      constructor <;> omega

theorem agregarHasta_cota (far : (2 ^ 32 - 1) / tamanioDeBloque sb ≤ final) (fuel : Nat)
    (d : Disco) (x : Nat) : agregarHasta sb final fuel d x = none := by
  induction fuel generalizing d with
  | zero => rfl
  | succ fuel ih =>
    rw [agregarHasta, if_pos ((cantidadDeBloques_le _).trans far)]
    cases agregarBloqueNuevo sb d x with
    | none => rfl
    | some d' => exact ih d'

section
variable (some_group : 0 < cantidadDeGrupos sb) (limit : final < (2 ^ 32 - 1) / tamanioDeBloque sb)
include some_group limit

theorem turno (state : Saldo sb x r c f d) (more : c ≤ final) : ∃ d',
    agregarBloqueNuevo sb d x = some d' ∧
      (∀ fuel, agregarHasta sb final (fuel + 1) d x = agregarHasta sb final fuel d' x) ∧
      ∃ sigue, Pedidos sb x r c f (indirecciones sb c + 1) d sigue d' := by
  obtain ⟨bound, room⟩ := turno_cabe state.image.bloque (more.trans_lt limit) state.resto
  obtain ⟨d', run, asked⟩ := agregarBloqueNuevo_saldo some_group state bound room
  refine ⟨d', run, fun fuel => ?_, asked⟩
  rw [agregarHasta, state.cantidad, if_pos more, run]
  rfl

/-- With the blocks it asks for, the loop ends and no call answers 0. -/
theorem agregarHasta_alcanza (state : Saldo sb x r c f d) (enough : final < c + n)
    (turns : n < fuel) (few : pedidosHasta sb final n c ≤ f) :
    ∃ d', agregarHasta sb final fuel d x = some d' ∧ faltas d' = faltas d := by
  induction n generalizing c f d fuel with
  | zero =>
    obtain ⟨fuel, rfl⟩ := Nat.exists_eq_add_of_lt turns
    exact ⟨d, agregarHasta_fin (by rw [state.cantidad]; omega), rfl⟩
  | succ n ih =>
    obtain ⟨fuel, rfl⟩ : ∃ m, fuel = m + 1 := ⟨fuel - 1, by omega⟩
    rw [pedidosHasta] at few
    split at few
    · rename_i more
      obtain ⟨d1, -, next, sigue, asked⟩ := turno some_group limit state more
      cases sigue with
      | false => exact absurd asked.1 (by omega)
      | true =>
        obtain ⟨le, state1, same⟩ := asked
        have fewer : n < fuel := by omega
        obtain ⟨d', run, clean⟩ := ih state1 (by omega) fewer (by omega)
        exact ⟨d', by rw [next, run], clean.trans same⟩
    · exact ⟨d, agregarHasta_fin (by rw [state.cantidad]; omega), rfl⟩

/-- Without them it ends where those there are take the count past the end. -/
theorem agregarHasta_agota (state : Saldo sb x r c f d) (past : final < c + f)
    (turns : n < fuel) (short : f < pedidosHasta sb final n c) :
    ∃ d', agregarHasta sb final fuel d x = some d' ∧ faltas d < faltas d' := by
  induction n generalizing c f d fuel with
  | zero => exact absurd short (Nat.not_lt_zero f)
  | succ n ih =>
    obtain ⟨fuel, rfl⟩ : ∃ m, fuel = m + 2 := ⟨fuel - 2, by omega⟩
    rw [pedidosHasta] at short
    split at short
    · rename_i more
      obtain ⟨d1, -, next, sigue, asked⟩ := turno some_group limit state more
      cases sigue with
      | false =>
        obtain ⟨-, state1, missed⟩ := asked
        refine ⟨d1, ?_, missed⟩
        rw [next, agregarHasta_fin (by rw [state1.cantidad]; exact past)]
      | true =>
        obtain ⟨le, state1, same⟩ := asked
        have fewer : n < fuel + 1 := by omega
        obtain ⟨d', run, missed⟩ := ih state1 (by omega) fewer (by omega)
        exact ⟨d', by rw [next, run], by omega⟩
    · exact absurd short (Nat.not_lt_zero f)

/-- And it does not end where they do not. -/
theorem agregarHasta_nunca (state : Saldo sb x r c f d) (inside : c + f ≤ final) (fuel : Nat) :
    agregarHasta sb final fuel d x = none := by
  induction fuel generalizing c f d with
  | zero => rfl
  | succ fuel ih =>
    obtain ⟨d1, -, next, sigue, asked⟩ := turno some_group limit state (by omega)
    rw [next]
    cases sigue with
    | false => exact ih asked.2.1 (by omega)
    | true =>
      obtain ⟨le, state1, -⟩ := asked
      exact ih state1 (by omega)

end

/-! ### The reply -/

/-- How many bytes are written once the next block is done. -/
def avanza (sb : Superblock) (size offset escritos : Nat) : Nat :=
  let libre := tamanioDeBloque sb - (offset + escritos) % 2 ^ 32 % tamanioDeBloque sb
  (escritos + if (escritos + libre) % 2 ^ 32 > size then resta32 size escritos else libre) % 2 ^ 32

/-- What the loop over the blocks counts depends on how many they are alone. -/
theorem escribirBloques_cuenta (cacheActive : Bool) (data : List UInt8) (size offset : Nat)
    (s : Servidor) (escritos : Nat) (bs : List Nat) :
    (escribirBloques sb cacheActive data size offset s escritos bs).2 =
        (avanza sb size offset)^[bs.length] escritos ∧
      faltas (escribirBloques sb cacheActive data size offset s escritos bs).1.disco =
        faltas s.disco := by
  induction bs generalizing s escritos with
  | nil => exact ⟨rfl, rfl⟩
  | cons b bs ih =>
    rw [escribirBloques]
    refine ⟨(ih _ _).1, (ih _ _).2.trans ?_⟩
    rw [grabarBloque, guardarBloque]
    cases cacheActive <;> rfl

section
variable {size offset : Nat}

theorem avanza_medio {e : Nat} (inside : offset + size < 2 ^ 32) (left : e < size)
    (earlier : (offset + e) / tamanioDeBloque sb < (offset + size - 1) / tamanioDeBloque sb) :
    avanza sb size offset e < size ∧
      (offset + avanza sb size offset e) / tamanioDeBloque sb =
        (offset + e) / tamanioDeBloque sb + 1 := by
  have positive := tamanioDeBloque_pos sb
  have low := Nat.mod_lt (offset + e) positive
  have parts := Nat.div_add_mod' (offset + e) (tamanioDeBloque sb)
  have last := Nat.div_mul_le_self (offset + size - 1) (tamanioDeBloque sb)
  have whole := Nat.mul_le_mul_right (tamanioDeBloque sb) earlier
  rw [Nat.succ_mul] at whole
  have value : avanza sb size offset e =
      e + (tamanioDeBloque sb - (offset + e) % tamanioDeBloque sb) := by
    rw [avanza, Nat.mod_eq_of_lt (show offset + e < 2 ^ 32 by omega)]
    have small : e + (tamanioDeBloque sb - (offset + e) % tamanioDeBloque sb) < 2 ^ 32 := by omega
    rw [Nat.mod_eq_of_lt small, if_neg (by omega), Nat.mod_eq_of_lt small]
  refine ⟨by omega, ?_⟩
  apply Nat.div_eq_of_lt_le
  · rw [Nat.add_mul]
    omega
  · rw [Nat.succ_mul, Nat.add_mul]
    omega

theorem avanza_final {e : Nat} (limit : (offset + size - 1) / tamanioDeBloque sb <
      (2 ^ 32 - 1) / tamanioDeBloque sb) (inside : offset + size < 2 ^ 32) (left : e < size)
    (last : (offset + e) / tamanioDeBloque sb = (offset + size - 1) / tamanioDeBloque sb) :
    avanza sb size offset e = size := by
  have positive := tamanioDeBloque_pos sb
  have low := Nat.mod_lt (offset + e) positive
  have parts := Nat.div_add_mod' (offset + e) (tamanioDeBloque sb)
  have low' := Nat.mod_lt (offset + size - 1) positive
  have parts' := Nat.div_add_mod' (offset + size - 1) (tamanioDeBloque sb)
  have whole := Nat.mul_le_mul_right (tamanioDeBloque sb) limit
  rw [Nat.succ_mul] at whole
  have top := Nat.div_mul_le_self (2 ^ 32 - 1) (tamanioDeBloque sb)
  rw [last] at parts
  rw [avanza, Nat.mod_eq_of_lt (show offset + e < 2 ^ 32 by omega)]
  rw [Nat.mod_eq_of_lt (show e + (tamanioDeBloque sb - (offset + e) % tamanioDeBloque sb) < 2 ^ 32
    by omega)]
  split
  · rw [resta32]
    omega
  · omega

/-- A request within 32 bits is written whole. -/
theorem avanza_todo (limit : (offset + size - 1) / tamanioDeBloque sb <
      (2 ^ 32 - 1) / tamanioDeBloque sb) (inside : offset + size < 2 ^ 32) {e : Nat}
    (left : e < size)
    (blocks : (offset + e) / tamanioDeBloque sb + n =
      (offset + size - 1) / tamanioDeBloque sb + 1) :
    (avanza sb size offset)^[n] e = size := by
  have le : (offset + e) / tamanioDeBloque sb ≤ (offset + size - 1) / tamanioDeBloque sb :=
    Nat.div_le_div_right (by omega)
  induction n generalizing e with
  | zero => omega
  | succ n ih =>
    rw [Function.iterate_succ_apply]
    rcases Nat.lt_or_eq_of_le le with earlier | last
    · obtain ⟨less, next⟩ := avanza_medio inside left earlier
      exact ih less (by omega) (by omega)
    · rw [avanza_final limit inside left last]
      obtain rfl : n = 0 := by omega
      rfl

/-- The reply is an error just where the end of the request does not fit in 32 bits. -/
theorem error_iff_no_cabe (length : size < 2 ^ 32) (start : offset < 2 ^ 32)
    (limit : resta32 (offset + size) 1 / tamanioDeBloque sb <
      (2 ^ 32 - 1) / tamanioDeBloque sb) (log : sb.logBlockSize ≤ 2) :
    (avanza sb size offset)^[resta32 (offset + size) 1 / tamanioDeBloque sb + 1 -
      offset / tamanioDeBloque sb] 0 ≠ size ↔ 2 ^ 32 < offset + size := by
  have positive := tamanioDeBloque_pos sb
  have low := Nat.mod_lt offset positive
  rcases Nat.eq_zero_or_pos size with rfl | some_bytes
  · have fixed : Function.IsFixedPt (avanza sb 0 offset) 0 := by
      have word := Nat.mod_lt (offset % 2 ^ 32) positive
      rcases tamanioDeBloque_cases log with block | block | block <;>
      · rw [block] at word
        simp only [Function.IsFixedPt, avanza, Nat.add_zero, Nat.zero_add, block, resta32]
        split <;> omega
    rw [fixed.iterate]
    omega
  rcases Nat.lt_trichotomy (offset + size) (2 ^ 32) with inside | exact_end | wraps
  · have value : resta32 (offset + size) 1 = offset + size - 1 := by
      rw [resta32]
      omega
    rw [value] at limit ⊢
    have le : offset / tamanioDeBloque sb ≤ (offset + size - 1) / tamanioDeBloque sb :=
      Nat.div_le_div_right (by omega)
    rw [avanza_todo limit inside some_bytes (by rw [Nat.add_zero]; omega)]
    omega
  · rw [exact_end, show resta32 (2 ^ 32) 1 = 2 ^ 32 - 1 by decide] at limit
    exact absurd limit (lt_irrefl _)
  · refine iff_of_true ?_ wraps
    have value : resta32 (offset + size) 1 = offset + size - 2 ^ 32 - 1 := by
      rw [resta32]
      omega
    rw [value]
    have le : (offset + size - 2 ^ 32 - 1) / tamanioDeBloque sb ≤ offset / tamanioDeBloque sb :=
      Nat.div_le_div_right (by omega)
    rcases Nat.lt_or_eq_of_le le with none_there | one
    · rw [show (offset + size - 2 ^ 32 - 1) / tamanioDeBloque sb + 1 -
        offset / tamanioDeBloque sb = 0 by omega]
      exact fun same => absurd same.symm (by simpa using some_bytes.ne')
    · rw [one, Nat.add_sub_cancel_left, Function.iterate_one]
      have parts := Nat.div_add_mod' offset (tamanioDeBloque sb)
      have parts' := Nat.div_add_mod' (offset + size - 2 ^ 32 - 1) (tamanioDeBloque sb)
      rw [one] at parts'
      rcases tamanioDeBloque_cases log with block | block | block <;>
      · rw [block] at low parts parts'
        simp only [avanza, Nat.add_zero, Nat.zero_add, Nat.mod_eq_of_lt start, block]
        split <;> omega

end

/-! ### The whole write -/

/-- The count goes past the last block of the request, or the loop gets it there with the free
blocks; short of one block it also ends if the indirection blocks alone do, and then the reply
tells only where the end of the request does not fit in 32 bits. -/
def Alcanzan (sb : Superblock) (d : Disco) (x offset size : Nat) : Prop :=
  let final := resta32 (offset + size) 1 / tamanioDeBloque sb
  let cuentan := cantidadDeBloques sb (d.inodo x)
  final < cuentan ∨ final < (2 ^ 32 - 1) / tamanioDeBloque sb ∧
    (pedidosHasta sb final (final + 1) cuentan ≤ d.freeBlocks.toNat ∨
      2 ^ 32 < offset + size ∧ final < cuentan + d.freeBlocks.toNat)

instance (d : Disco) (x offset size : Nat) : Decidable (Alcanzan sb d x offset size) := by
  unfold Alcanzan
  infer_instance

/-- The loop of a write ends, the client gets a reply, and an error where a block was missing. -/
structure EscrituraTermina (sb : Superblock) (cacheActive : Bool) (s : Servidor) (path : Cadena)
    (data : List UInt8) (size offset x : Nat) : Prop where
  bucle : ∃ fuel d', agregarHasta sb (resta32 (offset + size) 1 / tamanioDeBloque sb) fuel
    s.disco x = some d'
  respuesta : ∃ s' r, serveWrite sb cacheActive s path data size offset = some (s', [r]) ∧
    (faltas s.disco < faltas s'.disco → r = .error (-1))

section
variable {s : Servidor} {path : Cadena} {size offset : Nat}

/-- Once the loop has ended the reply depends on the request alone. -/
theorem serveWrite_responde (cacheActive : Bool) (data : List UInt8) (log : sb.logBlockSize ≤ 2)
    (found : getNroInodoDeLaDireccionDelPath sb s.disco path = some x) (valid : esInodo sb x)
    (length : size < 2 ^ 32) (start : offset < 2 ^ 32)
    (limit : resta32 (offset + size) 1 / tamanioDeBloque sb < (2 ^ 32 - 1) / tamanioDeBloque sb)
    (run : agregarHasta sb (resta32 (offset + size) 1 / tamanioDeBloque sb) vueltasMaximas s.disco
      x = some d') :
    ∃ s', serveWrite sb cacheActive s path data size offset =
        some (s', [if 2 ^ 32 < offset + size then .error (-1) else .ok]) ∧
      faltas s'.disco = faltas d' := by
  obtain ⟨bs, numbers, count⟩ : ∃ bs, numerosDeBloques sb d' x offset size = some bs ∧ bs.length =
      resta32 (offset + size) 1 / tamanioDeBloque sb + 1 - offset / tamanioDeBloque sb := by
    refine ⟨_, numerosDeBloques_eq log, ?_⟩
    rw [List.length_map, List.length_range']
  cases outcome : escribirBloques sb cacheActive data size offset ((s.bloquear x).ponDisco d') 0 bs with
  | mk s1 escritos =>
    obtain ⟨written, kept⟩ := escribirBloques_cuenta cacheActive data size offset
      ((s.bloquear x).ponDisco d') 0 bs
    rw [outcome] at written kept
    rw [count] at written
    have reply := error_iff_no_cabe length start limit log
    refine ⟨s1.bloquear x, ?_, kept⟩
    apply Option.bind_eq_some_iff.mpr ⟨x, found, ?_⟩
    apply Option.bind_eq_some_iff.mpr ⟨some x, getInodo_of_esInodo valid, ?_⟩
    apply Option.bind_eq_some_iff.mpr ⟨x, rfl, ?_⟩
    apply Option.bind_eq_some_iff.mpr ⟨d', run, ?_⟩
    apply Option.bind_eq_some_iff.mpr ⟨bs, numbers, ?_⟩
    rw [outcome]
    simp only at written ⊢
    rw [← written] at reply
    by_cases wraps : 2 ^ 32 < offset + size
    · rw [if_pos wraps, if_neg (reply.mpr wraps)]
    · rw [if_neg wraps, if_pos (not_not.mp fun other => wraps (reply.mp other))]

end

/-- No block is free. -/
def imagenSinBloques : Disco :=
  { imagenArchivoLargo with
    freeBlocks := 0
    grupo := fun _ => ⟨0, 5, 1⟩
    bitmapBloques := fun _ _ => true }

end LosAltos.Rfs
