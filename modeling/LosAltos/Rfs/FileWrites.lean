import LosAltos.Rfs.FileBytes
import Mathlib.Order.Interval.Finset.Nat

/-!
# Writing over a file

`serve_write` (`main_rfs.c:309-373`) where the file has all the blocks of the request, with
the cache off: each block is read, patched and written back whole, or made anew where the
request covers it. The blocks are told apart by `Copiado` of `Lib.Memory`; that the file
keeps its blocks follows from its indirection blocks not being data blocks.
-/
namespace LosAltos.Rfs

open Lib

variable {sb : Superblock} {d d' : Disco} {x k offset size n m : Nat} {data : List UInt8}

/-! ### One block -/

theorem ponerEnBloque_getD {base bytes : List UInt8} {pos j : Nat}
    (fits : pos + bytes.length ≤ base.length) :
    (ponerEnBloque base pos bytes).getD j 0 =
      if pos ≤ j ∧ j < pos + bytes.length then bytes.getD (j - pos) 0 else base.getD j 0 := by
  have front : (base.take pos).length = pos := by
    simp
    omega
  simp only [ponerEnBloque, List.getD_eq_getElem?_getD, List.append_assoc, List.getElem?_append,
    front]
  by_cases before : j < pos
  · simp [before, Nat.not_le.mpr before]
  · by_cases inside : j < pos + bytes.length
    · simp [before, inside, Nat.le_of_not_lt before, show j - pos < bytes.length by omega]
    · simp [before, inside, show ¬j - pos < bytes.length by omega,
        show pos + bytes.length + (j - pos - bytes.length) = j by omega]

/-- The bytes that go into a block, and the rest of it as it was. -/
theorem escribir_parche {mem : Memoria} {inicio : Int} {B pos : Nat} {bytes base : List UInt8}
    (fits : pos + bytes.length ≤ B)
    (kept : base = leer mem inicio B ∨ base.length = B ∧ pos = 0 ∧ bytes.length = B) :
    escribir mem inicio ((ponerEnBloque base pos bytes).take B) =
      escribir mem (inicio + pos) bytes := by
  have full : base.length = B := by
    rcases kept with rfl | ⟨same, -⟩
    · simp
    · exact same
  have length : (ponerEnBloque base pos bytes).length = B := by
    simp [ponerEnBloque]
    omega
  rw [List.take_of_length_le length.le]
  funext a
  rw [escribir, escribir, length]
  by_cases inside : inicio ≤ a ∧ a < inicio + B
  · obtain ⟨j, rfl⟩ : ∃ j : Nat, a = inicio + j := ⟨(a - inicio).toNat, by omega⟩
    rw [if_pos inside, show (inicio + j - inicio).toNat = j by omega,
      ponerEnBloque_getD (by omega)]
    by_cases patched : pos ≤ j ∧ j < pos + bytes.length
    · rw [if_pos patched, if_pos (by omega), show (inicio + j - (inicio + pos)).toNat = j - pos by
        omega]
    · rw [if_neg patched, if_neg (by omega)]
      rcases kept with rfl | ⟨-, rfl, all⟩
      · have below : j < B := by omega
        simp [leer, List.getD_eq_getElem?_getD, below]
      · omega
  · rw [if_neg inside, if_neg (by omega)]

theorem copiado_escribir {f : Nat → Int} {mem : Memoria} {inicio : Int} {w : Nat}
    (place : ∀ j < n, f (w + j) = inicio + j) (long : w + n ≤ data.length) :
    Copiado f (fun i => data.getD i 0) w (w + n) mem
      (escribir mem inicio ((data.drop w).take n)) := by
  have length : ((data.drop w).take n).length = n := by
    simp
    omega
  constructor
  · intro i late below
    obtain ⟨j, rfl⟩ := Nat.exists_eq_add_of_le late
    have short : j < n := by omega
    rw [place j short, escribir, length, if_pos (by omega),
      show (inicio + j - inicio).toNat = j by omega]
    simp [List.getD_eq_getElem?_getD, short]
  · intro a outside
    rw [escribir, length]
    split
    · rename_i inside
      obtain ⟨j, rfl⟩ : ∃ j : Nat, a = inicio + j := ⟨(a - inicio).toNat, by omega⟩
      have short : j < n := by omega
      exact absurd (place j short).symm (outside (w + j) (by omega) (by omega))
    · rfl

/-! ### The loop over the blocks -/

/-- Where byte `i` of a file goes whose logical blocks are the blocks `f`. -/
def lugarDe (sb : Superblock) (f : Nat → Nat) (i : Nat) : Int :=
  (f (i / tamanioDeBloque sb) * tamanioDeBloque sb + i % tamanioDeBloque sb : Nat)

theorem lugarDe_ne {f : Nat → Nat} {i j : Nat} (positive : 0 < tamanioDeBloque sb)
    (other : f (i / tamanioDeBloque sb) ≠ f (j / tamanioDeBloque sb)) :
    lugarDe sb f i ≠ lugarDe sb f j := by
  intro same
  rw [lugarDe, lugarDe, Nat.cast_inj] at same
  exact other (digits_unique (Nat.mod_lt _ positive) (Nat.mod_lt _ positive) same).1

/-- The bytes of a write go where the blocks are; the rest of the server is as it was. -/
structure Escrito (sb : Superblock) (f : Nat → Nat) (data : List UInt8) (offset lo hi : Nat)
    (s s' : Servidor) : Prop where
  copiado : Copiado (fun i => lugarDe sb f (offset + i)) (fun i => data.getD i 0) lo hi
    s.disco.mem s'.disco.mem
  resto : s' = s.ponDisco { s.disco with mem := s'.disco.mem }

theorem Escrito.trans {f : Nat → Nat} {lo mid hi : Nat} {s s' s'' : Servidor}
    (first : Escrito sb f data offset lo mid s s') (second : Escrito sb f data offset mid hi s' s'')
    (left : lo ≤ mid) (right : mid ≤ hi)
    (apart : ∀ i j, lo ≤ i → i < mid → mid ≤ j → j < hi →
      lugarDe sb f (offset + i) ≠ lugarDe sb f (offset + j)) :
    Escrito sb f data offset lo hi s s'' := by
  refine ⟨first.copiado.trans second.copiado left right apart, ?_⟩
  rw [second.resto, first.resto]
  rfl

/-- One turn: `n` bytes go into block `k`. -/
theorem escrito_turno {f : Nat → Nat} {s : Servidor} {w : Nat} (geo : Geometria sb)
    (block : (offset + w) / tamanioDeBloque sb = k) (bound : f k < sb.blocks)
    (fits : (offset + w) % tamanioDeBloque sb + n ≤ tamanioDeBloque sb)
    (long : w + n ≤ data.length) {base : List UInt8}
    (kept : base = traerBloque sb false s (f k) ∨ base.length = tamanioDeBloque sb ∧
      (offset + w) % tamanioDeBloque sb = 0 ∧ n = tamanioDeBloque sb) :
    Escrito sb f data offset w (w + n) s (grabarBloque sb false s (f k)
      (ponerEnBloque base ((offset + w) % tamanioDeBloque sb) ((data.drop w).take n))) := by
  have length : ((data.drop w).take n).length = n := by
    simp
    omega
  refine ⟨?_, rfl⟩
  change Copiado _ _ _ _ s.disco.mem (escribir s.disco.mem (posicionarInicioBloque sb (f k)) _)
  rw [escribir_parche (by rw [length]; exact fits) (by rwa [length])]
  apply copiado_escribir _ long
  intro j below
  have whole := Nat.div_add_mod (offset + w) (tamanioDeBloque sb)
  have inner : (offset + w) % tamanioDeBloque sb + j < tamanioDeBloque sb := by omega
  have split : offset + (w + j) =
      tamanioDeBloque sb * k + ((offset + w) % tamanioDeBloque sb + j) := by
    rw [block] at whole
    omega
  rw [lugarDe, split, Nat.mul_add_div (by omega), Nat.mul_add_mod, Nat.div_eq_of_lt inner,
    Nat.mod_eq_of_lt inner, Nat.add_zero, geo.inicio bound]
  push_cast
  omega

/-- How a turn ends: in the last block with the request, or at the end of its block. -/
theorem turno_cases {B w : Nat} (positive : 0 < B) (left : w < size)
    (small : (offset + size - 1) / B * B + B - offset < 2 ^ 32) :
    ∃ n, (if (w + (B - (offset + w) % B)) % 2 ^ 32 > size then resta32 size w
        else B - (offset + w) % B) = n ∧ (offset + w) % B + n ≤ B ∧ 0 < n ∧
      (w + n = size ∧ (offset + w) / B = (offset + size - 1) / B ∨
        w + n < size ∧ (offset + (w + n)) / B = (offset + w) / B + 1 ∧
          (offset + w) / B < (offset + size - 1) / B) := by
  have whole := Nat.div_add_mod (offset + w) B
  have inner := Nat.mod_lt (offset + w) positive
  have order : (offset + w) / B ≤ (offset + size - 1) / B := Nat.div_le_div_right (by omega)
  have scaled : B * ((offset + w) / B) ≤ (offset + size - 1) / B * B := by
    rw [Nat.mul_comm]
    exact Nat.mul_le_mul_right B order
  have last := Nat.lt_mul_div_succ (offset + size - 1) positive
  rw [Nat.mul_add, Nat.mul_one, Nat.mul_comm B] at last
  rw [Nat.mod_eq_of_lt (show w + (B - (offset + w) % B) < 2 ^ 32 by omega)]
  generalize (offset + w) % B = r at *
  generalize (offset + w) / B = k at *
  by_cases short : w + (B - r) > size
  · refine ⟨size - w, ?_, by omega, by omega, .inl ⟨by omega, ?_⟩⟩
    · rw [if_pos short, resta32_of_le left.le (by omega)]
    · rw [show offset + size - 1 = B * k + (r + (size - w) - 1) by omega,
        Nat.mul_add_div positive, Nat.div_eq_of_lt (by omega), Nat.add_zero]
  · refine ⟨B - r, by rw [if_neg short], by omega, by omega, ?_⟩
    by_cases done : w + (B - r) = size
    · refine .inl ⟨done, ?_⟩
      rw [show offset + size - 1 = B * k + (B - 1) by omega, Nat.mul_add_div positive,
        Nat.div_eq_of_lt (by omega), Nat.add_zero]
    · have next : offset + (w + (B - r)) = B * (k + 1) := by
        rw [Nat.mul_add]
        omega
      refine .inr ⟨by omega, ?_, ?_⟩
      · rw [next, Nat.mul_div_cancel_left _ positive]
      · rw [Nat.lt_iff_add_one_le, Nat.le_div_iff_mul_le positive, Nat.mul_comm, ← next]
        omega

theorem escribirBloques_turno {f : Nat → Nat} {s : Servidor} {w : Nat} (geo : Geometria sb)
    (length : data.length = size) (limit : offset + size < 2 ^ 32) (left : w < size)
    (block : (offset + w) / tamanioDeBloque sb = k) (bound : f k < sb.blocks)
    (taken : (if (w + (tamanioDeBloque sb - (offset + w) % tamanioDeBloque sb)) % 2 ^ 32 > size
      then resta32 size w else tamanioDeBloque sb - (offset + w) % tamanioDeBloque sb) = n)
    (fits : (offset + w) % tamanioDeBloque sb + n ≤ tamanioDeBloque sb) (inside : w + n ≤ size) :
    ∃ s', Escrito sb f data offset w (w + n) s s' ∧
      ∀ bs, escribirBloques sb false data size offset s w (f k :: bs) =
        escribirBloques sb false data size offset s' (w + n) bs := by
  obtain ⟨base, same⟩ : ∃ base, base = if (offset + w) % tamanioDeBloque sb ≠ 0 ∨
    n ≠ tamanioDeBloque sb then traerBloque sb false s (f k)
    else List.replicate (tamanioDeBloque sb) 0 := ⟨_, rfl⟩
  have kept : base = traerBloque sb false s (f k) ∨ base.length = tamanioDeBloque sb ∧
      (offset + w) % tamanioDeBloque sb = 0 ∧ n = tamanioDeBloque sb := by
    rw [same]
    split
    · exact .inl rfl
    · rename_i covered
      exact .inr ⟨by simp, by omega, by omega⟩
  refine ⟨_, escrito_turno geo block bound fits (by omega) kept, fun bs => ?_⟩
  rw [escribirBloques, Nat.mod_eq_of_lt (show offset + w < 2 ^ 32 by omega),
    desplazamientoDentroDelBloque, taken, Nat.mod_eq_of_lt (show w + n < 2 ^ 32 by omega), same]

/-- The loop, from byte `w` of the request in block `k` to the last block. -/
theorem escribirBloques_escrito {f : Nat → Nat} {s : Servidor} {w : Nat} (geo : Geometria sb)
    (length : data.length = size) (limit : offset + size < 2 ^ 32)
    (small : (offset + size - 1) / tamanioDeBloque sb * tamanioDeBloque sb + tamanioDeBloque sb -
      offset < 2 ^ 32)
    (bound : ∀ l, offset / tamanioDeBloque sb ≤ l → l ≤ (offset + size - 1) / tamanioDeBloque sb →
      f l < sb.blocks)
    (distinct : ∀ l r, offset / tamanioDeBloque sb ≤ l → l < r →
      r ≤ (offset + size - 1) / tamanioDeBloque sb → f l ≠ f r)
    (block : (offset + w) / tamanioDeBloque sb = k) (left : w < size)
    (last : k + m = (offset + size - 1) / tamanioDeBloque sb) :
    ∃ s', escribirBloques sb false data size offset s w ((List.range' k (m + 1)).map f) =
      (s', size) ∧ Escrito sb f data offset w size s s' := by
  have positive : 0 < tamanioDeBloque sb := by
    rcases geo.tamanio with block | block | block <;> omega
  induction m generalizing k w s with
  | zero =>
    obtain ⟨n, taken, fits, -, ends⟩ := turno_cases positive left small
    obtain ⟨done, -⟩ | ⟨-, -, later⟩ := ends
    · have first : offset / tamanioDeBloque sb ≤ k := by
        rw [← block]
        exact Nat.div_le_div_right (by omega)
      obtain ⟨s', written, turn⟩ := escribirBloques_turno (s := s) geo length limit left block
        (bound k first last.le) taken fits done.le
      refine ⟨s', ?_, by rwa [done] at written⟩
      simp [turn, done, escribirBloques]
    · omega
  | succ m ih =>
    obtain ⟨n, taken, fits, -, ends⟩ := turno_cases positive left small
    obtain ⟨-, same⟩ | ⟨more, next, -⟩ := ends
    · omega
    · have first : offset / tamanioDeBloque sb ≤ k := by
        rw [← block]
        exact Nat.div_le_div_right (by omega)
      obtain ⟨s1, written, turn⟩ := escribirBloques_turno (s := s) geo length limit left block
        (bound k first (by omega)) taken fits more.le
      obtain ⟨s', rest, others⟩ := ih (s := s1) (by rw [next, block]) more (by omega)
      refine ⟨s', ?_, written.trans others (by omega) more.le ?_⟩
      · rw [List.range'_succ, List.map_cons, turn, rest]
      · intro i j late early after below
        have here : (offset + i) / tamanioDeBloque sb < k + 1 := by
          apply Nat.div_lt_of_lt_mul
          have whole := Nat.div_add_mod (offset + w) (tamanioDeBloque sb)
          rw [block] at whole
          rw [Nat.mul_add]
          omega
        have there : k + 1 ≤ (offset + j) / tamanioDeBloque sb := by
          rw [← block, ← next]
          exact Nat.div_le_div_right (by omega)
        exact lugarDe_ne positive (distinct _ _ (Nat.div_le_div_right (by omega))
          (by omega) (Nat.div_le_div_right (by omega)))

/-! ### The blocks of the file -/

section
variable (sb : Superblock) (d : Disco) (x : Nat)

/-- None of the block numbers that lead to a position is 0. -/
def Mapeada : List Nat → Prop
  | [] => True
  | i :: p => Mapeada p ∧ (punteros sb d).valor x (i :: p) ≠ 0

/-- The mapped blocks among the first `n` of a file, and their indirection blocks, are
blocks of the image, each another one. -/
structure BloquesDistintos (n : Nat) : Prop where
  rango : ∀ q, Vivo (ptrsPorBloque sb) n q → Mapeada sb d x q →
    (punteros sb d).valor x q < sb.blocks
  distintos : ∀ q r, Vivo (ptrsPorBloque sb) n q → Vivo (ptrsPorBloque sb) n r →
    Mapeada sb d x q → Mapeada sb d x r →
    (punteros sb d).valor x q = (punteros sb d).valor x r → q = r

end

/-- The bytes that differ are in mapped data blocks of the file. -/
structure SoloDatos (sb : Superblock) (x n : Nat) (d d' : Disco) : Prop where
  inodos : d'.inodo = d.inodo
  marco : ∀ b < sb.blocks, (∀ k < n, Mapeada sb d x (camino (ptrsPorBloque sb) k) →
    bloqueLogico sb d x k ≠ b) → ∀ j < tamanioDeBloque sb,
      d'.mem (posicionarInicioBloque sb b + (j : Nat)) = d.mem (posicionarInicioBloque sb b + (j : Nat))

/-- An indirection block of the file is none of its data blocks. -/
theorem palabra_soloDatos (geo : Geometria sb) (reach : n ≤ alcance sb)
    (distinct : BloquesDistintos sb d x n) (only : SoloDatos sb x n d d') {i j : Nat}
    {p : List Nat} (alive : Vivo (ptrsPorBloque sb) n (i :: j :: p))
    (mapped : Mapeada sb d x (j :: p)) :
    (punteros sb d').palabra ((punteros sb d).valor x (j :: p)) i =
      (punteros sb d).palabra ((punteros sb d).valor x (j :: p)) i := by
  have parent := alive.parent
  obtain ⟨k', -, starts⟩ := alive
  have apart : ∀ k < n, Mapeada sb d x (camino (ptrsPorBloque sb) k) →
      bloqueLogico sb d x k ≠ (punteros sb d).valor x (j :: p) := by
    intro k below there same
    have inside : k < alcance sb := by omega
    have leaf := distinct.distintos _ _ ⟨k, below, inicia_camino inside⟩ parent there mapped same
    rw [← leaf] at starts
    exact camino_leaf inside starts
  have kept := only.marco _ (distinct.rango _ parent mapped) apart
  have width := starts.parent.1
  have four := geo.ptrs
  change leer32 d' _ = leer32 d _
  rw [leer32, leer32, leer_congr]
  intro byte below
  have same := kept (i * 4 + byte) (by omega)
  rw [Nat.cast_add, ← Int.add_assoc] at same
  exact same

/-- A write into data blocks leaves the block numbers alone. -/
theorem mapeada_soloDatos (geo : Geometria sb) (reach : n ≤ alcance sb)
    (distinct : BloquesDistintos sb d x n) (only : SoloDatos sb x n d d') {q : List Nat}
    (alive : Vivo (ptrsPorBloque sb) n q) :
    (Mapeada sb d' x q ↔ Mapeada sb d x q) ∧
      (Mapeada sb d x q.tail → (punteros sb d').valor x q = (punteros sb d).valor x q) := by
  induction q with
  | nil => exact ⟨Iff.rfl, fun _ => rfl⟩
  | cons i p ih =>
    have value : Mapeada sb d x p →
        (punteros sb d').valor x (i :: p) = (punteros sb d).valor x (i :: p) := by
      intro mapped
      cases p with
      | nil =>
        change ((d'.inodo x).blocks i).toNat = ((d.inodo x).blocks i).toNat
        rw [only.inodos]
      | cons j p =>
        have parent := (ih alive.parent).2 mapped.1
        rw [Punteros.valor, parent, palabra_soloDatos geo reach distinct only alive mapped,
          Punteros.valor]
    refine ⟨?_, value⟩
    have above : Mapeada sb d' x p ↔ Mapeada sb d x p := by
      cases p with
      | nil => exact Iff.rfl
      | cons j p => exact (ih alive.parent).1
    rw [Mapeada, Mapeada, above]
    exact and_congr_right fun mapped => by rw [value mapped]

/-! ### Exact writes -/

/-- The file `x` of `n` logical blocks has `data` at `offset`; every other byte of it,
every other block and the tables are as they were. -/
structure EscribeSolo (sb : Superblock) (x n : Nat) (data : List UInt8) (offset : Nat)
    (d d' : Disco) : Prop where
  escrito : ∀ i < data.length, byteDe sb d' x (offset + i) = data.getD i 0
  resto : ∀ i, i / tamanioDeBloque sb < n →
    Mapeada sb d x (camino (ptrsPorBloque sb) (i / tamanioDeBloque sb)) →
    i < offset ∨ offset + data.length ≤ i → byteDe sb d' x i = byteDe sb d x i
  huecos : ∀ k < n, Mapeada sb d' x (camino (ptrsPorBloque sb) k) ↔
    Mapeada sb d x (camino (ptrsPorBloque sb) k)
  bloques : ∀ b < sb.blocks,
    (∀ i < data.length, bloqueLogico sb d x ((offset + i) / tamanioDeBloque sb) ≠ b) →
    ∀ j < tamanioDeBloque sb,
      d'.mem (b * tamanioDeBloque sb + j : Nat) = d.mem (b * tamanioDeBloque sb + j : Nat)
  tablas : d' = { d with mem := d'.mem }

namespace BloquesDistintos

theorem lt (distinct : BloquesDistintos sb d x n) (reach : n ≤ alcance sb) (below : k < n)
    (mapped : Mapeada sb d x (camino (ptrsPorBloque sb) k)) : bloqueLogico sb d x k < sb.blocks :=
  distinct.rango _ ⟨k, below, inicia_camino (lt_of_lt_of_le below reach)⟩ mapped

theorem ne {l : Nat} (distinct : BloquesDistintos sb d x n) (reach : n ≤ alcance sb)
    (below : k < n) (bound : l < n) (mapped : Mapeada sb d x (camino (ptrsPorBloque sb) k))
    (there : Mapeada sb d x (camino (ptrsPorBloque sb) l)) (other : k ≠ l) :
    bloqueLogico sb d x k ≠ bloqueLogico sb d x l := by
  intro same
  have here : k < alcance sb := lt_of_lt_of_le below reach
  have far : l < alcance sb := lt_of_lt_of_le bound reach
  have path := distinct.distintos _ _ ⟨k, below, inicia_camino here⟩ ⟨l, bound, inicia_camino far⟩
    mapped there same
  exact other (camino_inj far here path)

end BloquesDistintos

theorem Mapeada.tail {q : List Nat} (mapped : Mapeada sb d x q) : Mapeada sb d x q.tail := by
  cases q with
  | nil => exact mapped
  | cons i p => exact mapped.1

theorem Mapeada.ne_zero (bound : k < alcance sb)
    (mapped : Mapeada sb d x (camino (ptrsPorBloque sb) k)) : bloqueLogico sb d x k ≠ 0 := by
  obtain ⟨i, p, shape⟩ := List.exists_cons_of_ne_nil (inicia_camino bound).ne_nil
  rw [bloqueLogico, shape]
  rw [shape] at mapped
  exact mapped.2

/-- The image has no room for a write that reaches the end of the 32-bit offsets from 0 on. -/
theorem sin_vuelta (geo : Geometria sb) (some_bytes : 0 < size) (limit : offset + size < 2 ^ 32)
    (reach : n ≤ alcance sb) (inside : (offset + size - 1) / tamanioDeBloque sb < n)
    (distinct : BloquesDistintos sb d x n)
    (mapped : ∀ k, offset / tamanioDeBloque sb ≤ k →
      k ≤ (offset + size - 1) / tamanioDeBloque sb →
      Mapeada sb d x (camino (ptrsPorBloque sb) k)) :
    (offset + size - 1) / tamanioDeBloque sb * tamanioDeBloque sb + tamanioDeBloque sb - offset <
      2 ^ 32 := by
  have whole : (offset + size - 1) / tamanioDeBloque sb * tamanioDeBloque sb +
      tamanioDeBloque sb ≤ 2 ^ 32 := by
    rcases geo.tamanio with block | block | block <;> rw [block] <;> omega
  by_contra wraps
  obtain rfl : offset = 0 := by omega
  generalize (0 + size - 1) / tamanioDeBloque sb = last at *
  have positive : 0 < tamanioDeBloque sb := by
    rcases geo.tamanio with block | block | block <;> omega
  have few : sb.blocks ≤ last + 1 := by
    apply Nat.le_of_mul_le_mul_right _ positive
    rw [Nat.succ_mul]
    exact geo.chica.trans (by omega)
  have each : ∀ k ∈ Finset.range (last + 1), Mapeada sb d x (camino (ptrsPorBloque sb) k) :=
    fun k member => mapped k (by simp) (by simpa [Nat.lt_succ_iff] using member)
  have image : ∀ k ∈ Finset.range (last + 1), bloqueLogico sb d x k ∈ Finset.Ico 1 (last + 1) := by
    intro k member
    have below := Finset.mem_range.mp member
    have held := distinct.lt reach (by omega) (each k member)
    have nonzero := (each k member).ne_zero (by omega)
    rw [Finset.mem_Ico]
    omega
  obtain ⟨k, first, l, second, other, same⟩ :=
    Finset.exists_ne_map_eq_of_card_lt_of_maps_to (by simp) image
  have below := Finset.mem_range.mp first
  have bound := Finset.mem_range.mp second
  exact distinct.ne reach (by omega) (by omega) (each k first) (each l second) other same

theorem agregarHasta_fin {final fuel : Nat} (enough : final < cantidadDeBloques sb (d.inodo x)) :
    agregarHasta sb final (fuel + 1) d x = some d := by
  rw [agregarHasta, if_neg (Nat.not_le.mpr enough)]

theorem vueltasMaximas_succ : vueltasMaximas = (2 ^ 33 - 1) + 1 := by decide

/-- A block that the request does not touch. -/
theorem Escrito.bloque {f : Nat → Nat} {s s' : Servidor} (positive : 0 < tamanioDeBloque sb)
    (written : Escrito sb f data offset 0 size s s') {b j : Nat}
    (apart : ∀ i < size, f ((offset + i) / tamanioDeBloque sb) ≠ b)
    (below : j < tamanioDeBloque sb) :
    s'.disco.mem (b * tamanioDeBloque sb + j : Nat) =
      s.disco.mem (b * tamanioDeBloque sb + j : Nat) := by
  apply written.copiado.marco
  intro i _ short same
  rw [lugarDe, Nat.cast_inj] at same
  exact apart i short (digits_unique below (Nat.mod_lt _ positive) same).1.symm

theorem Escrito.soloDatos {s s' : Servidor} (geo : Geometria sb)
    (written : Escrito sb (bloqueLogico sb s.disco x) data offset 0 size s s')
    (inside : ∀ i < size, (offset + i) / tamanioDeBloque sb < n)
    (mapped : ∀ i < size, Mapeada sb s.disco x
      (camino (ptrsPorBloque sb) ((offset + i) / tamanioDeBloque sb))) :
    SoloDatos sb x n s.disco s'.disco := by
  constructor
  · rw [written.resto]
    rfl
  · intro b bound apart j below
    rw [geo.inicio bound]
    have kept := written.bloque (by omega) (b := b) (j := j)
      (fun i short => apart _ (inside i short) (mapped i short)) below
    exact_mod_cast kept

theorem escribeSolo (geo : Geometria sb) {s s' : Servidor} (length : data.length = size)
    (reach : n ≤ alcance sb) (distinct : BloquesDistintos sb s.disco x n)
    (inside : ∀ i < size, (offset + i) / tamanioDeBloque sb < n)
    (mapped : ∀ i < size, Mapeada sb s.disco x
      (camino (ptrsPorBloque sb) ((offset + i) / tamanioDeBloque sb)))
    (written : Escrito sb (bloqueLogico sb s.disco x) data offset 0 size s s') :
    EscribeSolo sb x n data offset s.disco s'.disco := by
  have positive : 0 < tamanioDeBloque sb := by
    rcases geo.tamanio with block | block | block <;> omega
  have only := written.soloDatos geo inside mapped
  have leaf : ∀ k < n, Vivo (ptrsPorBloque sb) n (camino (ptrsPorBloque sb) k) :=
    fun k below => ⟨k, below, inicia_camino (lt_of_lt_of_le below reach)⟩
  have same : ∀ k < n, Mapeada sb s.disco x (camino (ptrsPorBloque sb) k) →
      bloqueLogico sb s'.disco x k = bloqueLogico sb s.disco x k := by
    intro k below there
    exact (mapeada_soloDatos geo reach distinct only (leaf k below)).2 there.tail
  refine ⟨fun i short => ?_, fun i below there outside => ?_, fun k below => ?_, ?_, ?_⟩
  · rw [length] at short
    rw [byteDe, same _ (inside i short) (mapped i short)]
    exact written.copiado.copia i (Nat.zero_le i) short
  · rw [byteDe, byteDe, same _ below there]
    apply written.copiado.marco
    intro j _ short same
    rw [lugarDe, Nat.cast_inj] at same
    obtain ⟨block, byte⟩ := digits_unique (Nat.mod_lt _ positive) (Nat.mod_lt _ positive) same
    have here : i / tamanioDeBloque sb = (offset + j) / tamanioDeBloque sb := by
      by_contra other
      exact distinct.ne reach below (inside j short) there (mapped j short) other block
    have left := Nat.div_add_mod i (tamanioDeBloque sb)
    have right := Nat.div_add_mod (offset + j) (tamanioDeBloque sb)
    rw [here, byte] at left
    omega
  · exact (mapeada_soloDatos geo reach distinct only (leaf k below)).1
  · rw [length]
    exact fun b _ apart j below => written.bloque positive apart below
  · rw [written.resto]
    rfl

/-- A write into blocks the file already has stores its data and nothing else. -/
theorem escritura_exacta {s : Servidor} {path : Cadena} (geo : Geometria sb)
    (found : getNroInodoDeLaDireccionDelPath sb s.disco path = some x) (valid : esInodo sb x)
    (length : data.length = size) (some_bytes : 0 < size) (limit : offset + size < 2 ^ 32)
    (counted : (offset + size - 1) / tamanioDeBloque sb < cantidadDeBloques sb (s.disco.inodo x))
    (reach : n ≤ alcance sb) (inside : (offset + size - 1) / tamanioDeBloque sb < n)
    (distinct : BloquesDistintos sb s.disco x n)
    (mapped : ∀ k, offset / tamanioDeBloque sb ≤ k →
      k ≤ (offset + size - 1) / tamanioDeBloque sb →
      Mapeada sb s.disco x (camino (ptrsPorBloque sb) k)) :
    ∃ s', serveWrite sb false s path data size offset = some (s', [.ok]) ∧
      EscribeSolo sb x n data offset s.disco s'.disco := by
  have node : getInodo sb x = some (some x) := by
    simp [getInodo, valid.2, Nat.not_lt.mpr valid.1]
  have last : resta32 (offset + size) 1 = offset + size - 1 := resta32_uno (by omega) (by omega)
  have order : offset / tamanioDeBloque sb ≤ (offset + size - 1) / tamanioDeBloque sb :=
    Nat.div_le_div_right (by omega)
  have blocks : ∀ i < size, offset / tamanioDeBloque sb ≤ (offset + i) / tamanioDeBloque sb ∧
      (offset + i) / tamanioDeBloque sb ≤ (offset + size - 1) / tamanioDeBloque sb :=
    fun i below => ⟨Nat.div_le_div_right (by omega), Nat.div_le_div_right (by omega)⟩
  have small := sin_vuelta geo some_bytes limit reach inside distinct mapped
  obtain ⟨s', run, written⟩ := escribirBloques_escrito (f := bloqueLogico sb s.disco x)
    (s := s.bloquear x) (w := 0)
    (m := (offset + size - 1) / tamanioDeBloque sb - offset / tamanioDeBloque sb) geo length limit
    small (fun l first bound => distinct.lt reach (by omega) (mapped l first bound))
    (fun l r first less bound => distinct.ne reach (by omega) (by omega) (mapped l first (by omega))
      (mapped r (by omega) bound) (by omega)) rfl some_bytes (Nat.add_sub_cancel' order)
  refine ⟨s'.bloquear x, ?_, ?_⟩
  · apply Option.bind_eq_some_iff.mpr ⟨x, found, ?_⟩
    apply Option.bind_eq_some_iff.mpr ⟨some x, node, ?_⟩
    apply Option.bind_eq_some_iff.mpr ⟨x, rfl, ?_⟩
    apply Option.bind_eq_some_iff.mpr ⟨s.disco, ?_, ?_⟩
    · rw [last, nroBloqueDentroDelInodo, vueltasMaximas_succ]
      exact agregarHasta_fin counted
    apply Option.bind_eq_some_iff.mpr ⟨_, numerosDeBloques_eq geo.bloque, ?_⟩
    rw [last, Nat.sub_add_comm order]
    rw [Nat.add_zero] at run
    rw [show (s.bloquear x).ponDisco s.disco = s.bloquear x from rfl, run]
    simp
  · change EscribeSolo sb x n data offset (s.bloquear x).disco s'.disco
    exact escribeSolo geo length reach distinct
      (fun i below => lt_of_le_of_lt (blocks i below).2 inside)
      (fun i below => mapped _ (blocks i below).1 (blocks i below).2) written

theorem imagenArchivoLargo_distintos : BloquesDistintos (volumen 0) imagenArchivoLargo 11 2 := by
  have alive : ∀ q, Vivo (ptrsPorBloque (volumen 0)) 2 q → q = [0] ∨ q = [1] := by
    rintro q ⟨k, below, starts⟩
    have path := (inicia_directo (by omega)).mp starts
    obtain rfl | rfl : k = 0 ∨ k = 1 := by omega
    · exact .inl path
    · exact .inr path
  constructor
  · intro q here _
    rcases alive q here with rfl | rfl <;> decide
  · intro q r here there _ _ same
    rcases alive q here with rfl | rfl <;> rcases alive r there with rfl | rfl <;>
      first | rfl | exact absurd same (by decide)

/-- Two bytes over the boundary of the two blocks. -/
theorem escritura_exacta_dos :
    ∃ s', serveWrite (volumen 0) false (servidorDe imagenArchivoLargo) [47, 97] [1, 2] 2 1023 =
        some (s', [.ok]) ∧
      EscribeSolo (volumen 0) 11 2 [1, 2] 1023 imagenArchivoLargo s'.disco := by
  apply escritura_exacta (s := servidorDe imagenArchivoLargo) ⟨by decide, by decide, by decide⟩
    imagenArchivoLargo_path ⟨by decide, by decide⟩ rfl (by decide) (by decide) (by decide)
    (by decide) (by decide) imagenArchivoLargo_distintos
  intro k first last
  have bound : k ≤ 1 := last
  obtain rfl | rfl : k = 0 ∨ k = 1 := by omega
  · exact ⟨trivial, by decide⟩
  · exact ⟨trivial, by decide⟩

end LosAltos.Rfs
