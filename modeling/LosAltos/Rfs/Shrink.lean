import LosAltos.Rfs.BlockAccounts
import LosAltos.Rfs.FileTree
import LosAltos.Rfs.Translation

/-!
# What a truncation frees

The shrink branch of `truncarArchivo` (`funciones_rfs.c:501-559`) and the choice of the branch
(`:494-510`). The loop is also run with a `liberarBloque` that leaves any bytes in the block it
frees: nothing it does depends on them.
-/
namespace LosAltos.Rfs

open Lib

/-! ### The shrink branch, with `liberar` in the place of `liberarBloque` -/

section
variable (sb : Superblock) (liberar : Disco → Slot → Option Disco)

def quitarBloqueCon (d : Disco) (x k : Nat) : Option Disco := do
  let slot ← getPtrNroBloqueLogicoDentroInodo sb d x k
  let d ← liberar d slot
  liberarIndireccionesCon sb liberar (restaBloques sb d x) x k

def achicarCon : Nat → Disco → Nat → Nat → Nat → Option (Disco × Nat)
  | 0, _, _, _, _ => none
  | fuel + 1, d, x, eof, falta =>
    if falta = 0 then some (d, eof)
    else
      let desplazamiento := desplazamientoDentroDelBloque sb (eof - 1) + 1
      if desplazamiento ≤ falta then do
        let d ← quitarBloqueCon sb liberar d x (nroBloqueDentroDelInodo sb (eof - 1))
        achicarCon fuel d x (eof - desplazamiento) (falta - desplazamiento)
      else achicarCon fuel d x (eof - falta) 0

/-- The blocks of the positions of a list, one after another. -/
def liberarPosiciones (d : Disco) (x : Nat) : List (List Nat) → Option Disco
  | [] => some d
  | q :: qs => do
    let d ← liberar d (slotDe sb d x q)
    liberarPosiciones (restaBloques sb d x) x qs

end

variable {sb : Superblock} {liberar : Disco → Slot → Option Disco} {d d' : Disco}
  {x k n m eof falta : Nat} {q : List Nat} {T : List Nat → Prop}

theorem achicarCon_liberarBloque (fuel : Nat) :
    achicarCon sb (liberarBloque sb) fuel d x eof falta = achicar sb fuel d x eof falta := by
  induction fuel generalizing d eof falta with
  | zero => rfl
  | succ fuel ih =>
    simp only [achicarCon, achicar, ih]
    rfl

theorem liberarPosiciones_append (qs rs : List (List Nat)) :
    liberarPosiciones sb liberar d x (qs ++ rs) =
      (liberarPosiciones sb liberar d x qs).bind fun d => liberarPosiciones sb liberar d x rs := by
  induction qs generalizing d with
  | nil => rfl
  | cons q qs ih =>
    simp only [List.cons_append, liberarPosiciones, ih, Option.bind_eq_bind, Option.bind_assoc]

/-- What the loop needs of `liberar`: a slot outside the inodes leaves them alone. -/
def SinInodos (liberar : Disco → Slot → Option Disco) : Prop :=
  ∀ d dir d', liberar d (.disco dir) = some d' → d'.inodo = d.inodo

theorem liberarYPisar_sinInodos (f : Disco → Memoria) : SinInodos (liberarYPisar sb f) := by
  intro d dir d' run
  obtain ⟨d1, freed, rfl⟩ := Option.map_eq_some_iff.mp run
  obtain ⟨d0, solo, rfl⟩ := liberarBloque_solo freed
  exact solo.inodo

theorem punteros_restaBloques (d : Disco) (x : Nat) :
    punteros sb (restaBloques sb d x) = punteros sb d :=
  punteros_congr rfl (ponInodo_blocks fun _ => rfl)

theorem restaBloques_slotDe (d : Disco) (x y : Nat) (q : List Nat) :
    slotDe sb (restaBloques sb d x) y q = slotDe sb d y q := by
  match q with
  | [] => rfl
  | [_] => rfl
  | _ :: _ :: _ => rw [slotDe, slotDe, punteros_restaBloques]

theorem liberarSiCon_false (slot : Slot) : liberarSiCon sb liberar false d x slot = some d := rfl

theorem liberarSiCon_true (slot : Slot) : liberarSiCon sb liberar true d x slot =
    (liberar d slot).bind fun d => some (restaBloques sb d x) := rfl

/-- The slot inside the triple block that is computed before the inner block goes. -/
theorem slotDe_triple (calm : SinInodos liberar) {a b : Nat}
    (freed : liberar d (slotDe sb d x [b, a, 14]) = some d') :
    slotDe sb d x [a, 14] = slotDe sb (restaBloques sb d' x) x [a, 14] := by
  have inodes := calm d _ d' freed
  rw [restaBloques_slotDe]
  simp only [slotDe, Punteros.valor, punteros, leerSlot, inodes]

/-- A whole block goes: the positions that start at it, the data first. -/
theorem quitarBloqueCon_posiciones (calm : SinInodos liberar) (bound : k < alcance sb) :
    quitarBloqueCon sb liberar d x k =
      liberarPosiciones sb liberar d x (nuevas (ptrsPorBloque sb) k) := by
  rw [quitarBloqueCon, nuevas, getPtr_camino d x bound]
  simp only [Option.bind_eq_bind, Option.bind_some]
  cases region bound with
  | directo h =>
    simp only [camino_directo h, liberarIndireccionesCon_directo _ _ _ h]
    rfl
  | @simple a ha =>
    simp only [camino_simple ha, liberarIndireccionesCon_simple _ _ _ ha]
    by_cases zero : a = 0
    · simp only [zero, decide_true, liberarSiCon_true, iniciadas, ↓reduceIte]
      rfl
    · simp only [zero, decide_false, liberarSiCon_false, iniciadas, ↓reduceIte]
      rfl
  | @doble a b ha hb =>
    simp only [camino_doble ha hb, liberarIndireccionesCon_doble _ _ _ ha hb]
    by_cases zero : b = 0
    · by_cases zero' : a = 0
      · simp only [zero, zero', and_self, decide_true, liberarSiCon_true, iniciadas, ↓reduceIte,
          liberarPosiciones, Option.bind_eq_bind, Option.bind_assoc, Option.bind_some]
      · simp only [zero, zero', false_and, decide_true, decide_false, liberarSiCon_true,
          liberarSiCon_false, iniciadas, ↓reduceIte, liberarPosiciones, Option.bind_eq_bind,
          Option.bind_assoc, Option.bind_some]
    · simp only [zero, and_false, decide_false, liberarSiCon_false, iniciadas, ↓reduceIte,
        liberarPosiciones, Option.bind_eq_bind, Option.bind_some]
  | @triple a b c ha hb hc =>
    simp only [camino_triple hb hc, liberarIndireccionesCon_triple _ _ _ ha hb hc]
    by_cases zero : c = 0
    · subst zero
      simp only [and_true, decide_true, liberarSiCon_true, iniciadas, ↓reduceIte,
        liberarPosiciones, Option.bind_eq_bind, Option.bind_assoc, Option.bind_some]
      refine Option.bind_congr fun d1 _ => Option.bind_congr fun d2 freed => ?_
      rw [slotDe_triple calm freed]
      by_cases zero' : b = 0
      · by_cases zero'' : a = 0
        · simp only [zero', zero'', and_self, decide_true, liberarSiCon_true, ↓reduceIte,
            liberarPosiciones, Option.bind_eq_bind, Option.bind_assoc, Option.bind_some]
        · simp only [zero', zero'', false_and, decide_true, decide_false, liberarSiCon_true,
            liberarSiCon_false, ↓reduceIte, liberarPosiciones, Option.bind_eq_bind,
            Option.bind_assoc, Option.bind_some]
      · simp only [zero', and_false, decide_false, liberarSiCon_false, ↓reduceIte,
          liberarPosiciones, Option.bind_some]
    · simp only [zero, and_false, decide_false, liberarSiCon_false, iniciadas, ↓reduceIte,
        liberarPosiciones, Option.bind_eq_bind, Option.bind_some]

/-! ### A list of leaves goes -/

/-- The positions of the list are freed in its order, and the rest of the tree stays. -/
structure Podado (sb : Superblock) (x : Nat) (T : List Nat → Prop) (qs : List (List Nat))
    (d d' : Disco) : Prop where
  valor : ∀ r, T r → r ∉ qs → (punteros sb d').valor x r = (punteros sb d).valor x r
  liberados : liberados d' = (qs.map ((punteros sb d).valor x)).reverse ++ liberados d
  size : ∀ y, (d'.inodo y).size = (d.inodo y).size

theorem restaBloques_size (d : Disco) (x y : Nat) :
    ((restaBloques sb d x).inodo y).size = (d.inodo y).size := by
  by_cases here : y = x <;> simp [restaBloques, Disco.ponInodo, here]

theorem Arbol.podar (geo : Geometria sb) (covered : Cubierta sb) (f : Disco → Memoria)
    {qs : List (List Nat)} (tree : Arbol sb d x T) (prunable : Podable T qs) :
    ∃ d', liberarPosiciones sb (liberarYPisar sb f) d x qs = some d' ∧
      Podado sb x T qs d d' := by
  induction qs generalizing d T with
  | nil => exact ⟨d, rfl, fun _ _ _ => rfl, rfl, fun _ => rfl⟩
  | cons q qs ih =>
    obtain ⟨member, leaf, rest⟩ := prunable
    obtain ⟨d1, freed, same, trace, sizes⟩ := tree.liberar geo covered member leaf f
    have words : punteros sb (restaBloques sb d1 x) = _ := punteros_restaBloques d1 x
    have pruned : Arbol sb (restaBloques sb d1 x) x fun r => T r ∧ r ≠ q := by
      refine tree.of_valor (fun _ => And.left) (tree.cerrado_leaf leaf) fun r kept => ?_
      rw [words, same r kept.1 kept.2]
    obtain ⟨d', run, done⟩ := ih pruned rest
    refine ⟨d', Option.bind_eq_some_iff.mpr ⟨d1, freed, run⟩, fun r old kept => ?_, ?_, fun y => ?_⟩
    · obtain ⟨other, later⟩ := not_or.mp (fun inner => kept (List.mem_cons.mpr inner))
      rw [done.valor r ⟨old, other⟩ later, words, same r old other]
    · have values : qs.map ((punteros sb d1).valor x) = qs.map ((punteros sb d).valor x) := by
        apply List.map_congr_left
        intro r inner
        have inside := rest.mem inner
        exact same r inside.1 inside.2
      have kept : Rfs.liberados (restaBloques sb d1 x) = Rfs.liberados d1 := rfl
      rw [done.liberados, words, values, kept, trace, List.map_cons, List.reverse_cons,
        List.append_assoc, List.singleton_append]
    · rw [done.size, restaBloques_size, sizes]

/-! ### The loop -/

/-- The blocks the loop frees on its way from `eof` down by `falta` bytes. -/
theorem achicarCon_posiciones (geo : Geometria sb) (calm : SinInodos liberar) (fuel : Nat)
    (enough : falta ≤ eof) (rounds : falta < fuel) (width : eof < 2 ^ 32) :
    achicarCon sb liberar fuel d x eof falta =
      (liberarPosiciones sb liberar d x (bajada (ptrsPorBloque sb) (bloquesDe sb (eof - falta))
        (bloquesDe sb eof - bloquesDe sb (eof - falta)))).map (·, eof - falta) := by
  induction fuel generalizing d eof falta with
  | zero => omega
  | succ fuel ih =>
    rw [achicarCon]
    by_cases zero : falta = 0
    · subst zero
      rw [if_pos rfl, Nat.sub_zero, Nat.sub_self]
      rfl
    rw [if_neg zero]
    have last : bloquesDe sb eof = (eof - 1) / tamanioDeBloque sb + 1 :=
      bloquesDe_pos (by omega)
    have parts := Nat.div_add_mod' (eof - 1) (tamanioDeBloque sb)
    have low := Nat.mod_lt (eof - 1) geo.tamanio_pos
    simp only [nroBloqueDentroDelInodo]
    by_cases whole : desplazamientoDentroDelBloque sb (eof - 1) + 1 ≤ falta
    · rw [if_pos whole]
      rw [desplazamientoDentroDelBloque] at whole ⊢
      have bound : (eof - 1) / tamanioDeBloque sb < alcance sb :=
        nroBloque_lt_alcance geo.bloque (by omega)
      have left : eof - ((eof - 1) % tamanioDeBloque sb + 1) =
          (eof - 1) / tamanioDeBloque sb * tamanioDeBloque sb := by omega
      have rest : bloquesDe sb (eof - ((eof - 1) % tamanioDeBloque sb + 1)) =
          (eof - 1) / tamanioDeBloque sb := by
        rw [left]
        exact bloquesDe_mul
      have ends : eof - ((eof - 1) % tamanioDeBloque sb + 1) -
          (falta - ((eof - 1) % tamanioDeBloque sb + 1)) = eof - falta := by omega
      have fewer : bloquesDe sb (eof - falta) ≤ (eof - 1) / tamanioDeBloque sb := by
        rw [← rest]
        exact bloquesDe_mono (by omega)
      have steps : bloquesDe sb eof - bloquesDe sb (eof - falta) =
          (eof - 1) / tamanioDeBloque sb - bloquesDe sb (eof - falta) + 1 := by omega
      have top : bloquesDe sb (eof - falta) +
          ((eof - 1) / tamanioDeBloque sb - bloquesDe sb (eof - falta)) =
            (eof - 1) / tamanioDeBloque sb := by omega
      rw [steps, bajada, top, liberarPosiciones_append, quitarBloqueCon_posiciones calm bound]
      simp only [Option.bind_eq_bind, Option.map_bind]
      refine Option.bind_congr fun d1 _ => ?_
      rw [ih (by omega) (by omega) (by omega), ends, rest]
      rfl
    · -- the last block stays, with fewer bytes in use
      rw [if_neg whole]
      rw [desplazamientoDentroDelBloque] at whole
      have same : bloquesDe sb (eof - falta) = bloquesDe sb eof := by
        rw [last]
        apply bloquesDe_between
        · omega
        · rw [Nat.add_mul]
          omega
      rw [ih (Nat.zero_le _) (by omega) (by omega), Nat.sub_zero, same, Nat.sub_self]

/-! ### Data and indirection blocks -/

/-- The indirection blocks of a file of `n` logical blocks. -/
def deIndireccion (sb : Superblock) (n : Nat) (q : List Nat) : Prop :=
  ∃ k < n, q ∈ indirectos sb k

/-- A slot of an indirection block leads to the data. -/
theorem indirectos_slot (bound : k < alcance sb) (member : q ∈ indirectos sb k) :
    q ≠ [] ∧ ∃ j l, l ≤ k ∧ Inicia (ptrsPorBloque sb) l (j :: q) := by
  rw [indirectos] at member
  have starts := inicia_camino bound
  cases region bound with
  | directo h =>
    rw [camino_directo h] at member
    simp [List.tails] at member
  | @simple a ha =>
    rw [camino_simple ha] at member starts
    simp only [List.tail_cons, List.tails, List.dropLast_cons_cons, List.dropLast_singleton,
      List.mem_singleton] at member
    subst member
    exact ⟨by simp, a, _, Nat.le_refl _, starts⟩
  | @doble a b ha hb =>
    rw [camino_doble ha hb] at member starts
    obtain ⟨-, l, earlier, up⟩ := starts.parent
    simp only [List.tail_cons, List.tails, List.dropLast_cons_cons, List.dropLast_singleton,
      List.mem_cons, List.not_mem_nil, or_false] at member
    rcases member with rfl | rfl
    · exact ⟨by simp, b, _, Nat.le_refl _, starts⟩
    · exact ⟨by simp, a, l, earlier, up⟩
  | @triple a b c ha hb hc =>
    rw [camino_triple hb hc] at member starts
    obtain ⟨-, l, earlier, up⟩ := starts.parent
    obtain ⟨-, l', earlier', up'⟩ := up.parent
    simp only [List.tail_cons, List.tails, List.dropLast_cons_cons, List.dropLast_singleton,
      List.mem_cons, List.not_mem_nil, or_false] at member
    rcases member with rfl | rfl | rfl
    · exact ⟨by simp, c, _, Nat.le_refl _, starts⟩
    · exact ⟨by simp, b, l, earlier, up⟩
    · exact ⟨by simp, a, l', earlier'.trans earlier, up'⟩

theorem inicia_indirectos (bound : k < alcance sb) (starts : Inicia (ptrsPorBloque sb) k q) :
    q = camino (ptrsPorBloque sb) k ∨ q ∈ indirectos sb k := by
  rw [indirectos]
  cases region bound with
  | directo h =>
    rw [camino_directo h]
    exact .inl ((inicia_directo h).mp starts)
  | simple ha =>
    rw [camino_simple ha]
    rcases (inicia_simple ha).mp starts with rfl | ⟨-, rfl⟩ <;> simp [List.tails]
  | doble ha hb =>
    rw [camino_doble ha hb]
    rcases (inicia_doble ha hb).mp starts with rfl | ⟨-, rfl⟩ | ⟨-, rfl⟩ <;> simp [List.tails]
  | triple ha hb hc =>
    rw [camino_triple hb hc]
    rcases (inicia_triple ha hb hc).mp starts with rfl | ⟨-, rfl⟩ | ⟨-, rfl⟩ | ⟨-, rfl⟩ <;>
      simp [List.tails]

theorem vivo_iff (bound : n ≤ alcance sb) : Vivo (ptrsPorBloque sb) n q ↔
    (∃ k < n, q = camino (ptrsPorBloque sb) k) ∨ deIndireccion sb n q := by
  constructor
  · rintro ⟨k, below, starts⟩
    rcases inicia_indirectos (by omega) starts with data | inner
    · exact .inl ⟨k, below, data⟩
    · exact .inr ⟨k, below, inner⟩
  · rintro (⟨k, below, rfl⟩ | ⟨k, below, member⟩)
    · have inside : k < alcance sb := by omega
      exact ⟨k, below, inicia_camino inside⟩
    · obtain ⟨filled, j, l, earlier, starts⟩ := indirectos_slot (by omega) member
      obtain ⟨i, r, rfl⟩ := List.exists_cons_of_ne_nil filled
      exact Vivo.parent ⟨l, by omega, starts⟩

/-- What a file of `m` blocks has and one of `n` has not. -/
theorem vivo_diff (bound : m ≤ alcance sb) (le : n ≤ m) :
    Vivo (ptrsPorBloque sb) m q ∧ ¬Vivo (ptrsPorBloque sb) n q ↔
      (∃ k, n ≤ k ∧ k < m ∧ q = camino (ptrsPorBloque sb) k) ∨
        deIndireccion sb m q ∧ ¬deIndireccion sb n q := by
  have no_data : deIndireccion sb m q → ∀ k < m, q ≠ camino (ptrsPorBloque sb) k := by
    rintro ⟨l, below, member⟩ k inside rfl
    obtain ⟨-, j, l', -, slot⟩ := indirectos_slot (by omega) member
    have reach : k < alcance sb := by omega
    exact camino_leaf reach slot
  rw [vivo_iff bound, vivo_iff (le.trans bound)]
  constructor
  · rintro ⟨⟨k, below, rfl⟩ | indirect, gone⟩
    · refine .inl ⟨k, Nat.le_of_not_lt fun early => gone (.inl ⟨k, early, rfl⟩), below, rfl⟩
    · exact .inr ⟨indirect, fun kept => gone (.inr kept)⟩
  · rintro (⟨k, late, below, rfl⟩ | ⟨indirect, gone⟩)
    · refine ⟨.inl ⟨k, below, rfl⟩, ?_⟩
      rintro (⟨l, early, same⟩ | ⟨l, early, member⟩)
      · have inner : k < alcance sb := below.trans_le bound
        have equal := camino_inj inner (by omega) same.symm
        omega
      · exact no_data ⟨l, by omega, member⟩ k below rfl
    · refine ⟨.inr indirect, ?_⟩
      rintro (⟨l, early, same⟩ | kept)
      · exact no_data indirect l (by omega) same
      · exact gone kept

/-! ### Which branch is taken -/

inductive Rama where
  | invalida
  | achica
  | agranda
  deriving DecidableEq

/-- The branch for a file of `eof` bytes and the size `offset`. -/
def ramaDe (eof offset : Nat) : Rama :=
  if diferencia offset eof < 0 then
    if eof < (diferencia offset eof).natAbs then .invalida else .achica
  else .agranda

theorem truncarInodo_invalida {offset : Nat} (eq : (d.inodo x).size.toNat = eof)
    (branch : ramaDe eof offset = .invalida) :
    truncarInodo sb d x offset = some (EINVAL, d) := by
  subst eq
  rw [ramaDe] at branch
  split at branch
  · split at branch
    · rename_i negative beyond
      simp only [truncarInodo, negative, beyond, ↓reduceIte]
    · cases branch
  · cases branch

theorem truncarInodo_achica {offset : Nat} (eq : (d.inodo x).size.toNat = eof)
    (branch : ramaDe eof offset = .achica) :
    truncarInodo sb d x offset =
      (achicar sb ((diferencia offset eof).natAbs + 1) d x eof (diferencia offset eof).natAbs).map
        fun r => (0, ponSize r.1 x r.2) := by
  subst eq
  rw [ramaDe] at branch
  split at branch
  · split at branch
    · cases branch
    · rename_i negative inside
      simp only [truncarInodo, negative, inside, ↓reduceIte, Option.map_eq_bind]
      rfl
  · cases branch

theorem truncarInodo_agranda {offset : Nat} (eq : (d.inodo x).size.toNat = eof)
    (branch : ramaDe eof offset = .agranda) :
    truncarInodo sb d x offset =
      if hayEspacioSuficiente sb d (diferencia offset eof).toNat then
        (agrandar sb ((diferencia offset eof).toNat + 1) (d.anota (.crece eof offset)) x eof
          (diferencia offset eof).toNat).map fun r => (0, ponSize r.1 x r.2)
      else some (ENOSPC, d) := by
  subst eq
  rw [ramaDe] at branch
  split at branch
  · split at branch <;> cases branch
  · rename_i positive
    simp only [truncarInodo, positive, ↓reduceIte, Option.map_eq_bind]
    rfl

section
variable {offset : Nat} (size : eof < 2 ^ 32) (limit : offset < 2 ^ 32)
include size limit

/-- The difference is a 32-bit number: the wrong half of the sizes goes the other way. -/
theorem diferencia_cases :
    offset < eof ∧ eof ≤ offset + 2 ^ 31 ∧ ramaDe eof offset = .achica ∧
        (diferencia offset eof).natAbs = eof - offset ∨
      eof ≤ offset ∧ offset < eof + 2 ^ 31 ∧ ramaDe eof offset = .agranda ∧
        (diferencia offset eof).toNat = offset - eof ∨
      offset + 2 ^ 31 < eof ∧ ramaDe eof offset = .agranda ∧
        (diferencia offset eof).toNat = offset + 2 ^ 32 - eof ∨
      eof + 2 ^ 31 ≤ offset ∧ ramaDe eof offset = .invalida := by
  rcases Nat.lt_or_ge offset eof with less | more
  · have word : resta32 offset eof = offset + 2 ^ 32 - eof := by
      rw [resta32]
      omega
    by_cases near : eof ≤ offset + 2 ^ 31
    · have value : diferencia offset eof = (offset : Int) - eof := by
        rw [diferencia, word, if_neg (by omega)]
        omega
      refine .inl ⟨less, near, ?_, by omega⟩
      rw [ramaDe, if_pos (by omega), if_neg (by omega)]
    · have value : diferencia offset eof = (offset : Int) + 2 ^ 32 - eof := by
        rw [diferencia, word, if_pos (by omega)]
        omega
      refine .inr (.inr (.inl ⟨by omega, ?_, by omega⟩))
      rw [ramaDe, if_neg (by omega)]
  · have word : resta32 offset eof = offset - eof := by
      rw [resta32]
      omega
    by_cases near : offset < eof + 2 ^ 31
    · have value : diferencia offset eof = (offset : Int) - eof := by
        rw [diferencia, word, if_pos (by omega)]
        omega
      refine .inr (.inl ⟨more, near, ?_, by omega⟩)
      rw [ramaDe, if_neg (by omega)]
    · have value : diferencia offset eof = (offset : Int) - eof - 2 ^ 32 := by
        rw [diferencia, word, if_neg (by omega)]
        omega
      refine .inr (.inr (.inr ⟨by omega, ?_⟩))
      rw [ramaDe, if_pos (by omega), if_pos (by omega)]

end

/-! ### The whole truncation -/

/-- The block number found through `getPtrNroBloqueLogicoDentroInodo`. -/
def bloqueResuelto (sb : Superblock) (d : Disco) (x k : Nat) : Option Nat :=
  (getPtrNroBloqueLogicoDentroInodo sb d x k).map (leerSlot d)

theorem bloqueResuelto_eq (bound : k < alcance sb) :
    bloqueResuelto sb d x k = some (bloqueLogico sb d x k) := by
  obtain ⟨i, p, shape⟩ := List.exists_cons_of_ne_nil (inicia_camino bound).ne_nil
  rw [bloqueResuelto, getPtr_camino d x bound, Option.map_some, bloqueLogico, shape, leerSlot_slotDe]

/-- The path and the directory it is in lead to inodes. -/
structure Nombra (sb : Superblock) (d : Disco) (path : Cadena) (x : Nat) : Prop where
  ruta : ∃ p, getNroInodoDeLaDireccionDelPath sb d (separarPathParaNewDirEntry path).1 = some p ∧
    p ≠ 0
  inodo : getNroInodoDeLaDireccionDelPath sb d path = some x
  valido : esInodo sb x

theorem Nombra.truncarArchivo {path : Cadena} (named : Nombra sb d path x) (offset : Nat) :
    truncarArchivo sb d path offset = truncarInodo sb d x offset := by
  obtain ⟨p, parent, nonzero⟩ := named.ruta
  have present : x ≠ 0 := by
    have := named.valido.1
    omega
  rw [Rfs.truncarArchivo]
  simp only [parent, Option.bind_eq_bind, Option.bind_some]
  rw [if_pos nonzero, named.inodo, Option.bind_some, if_pos present,
    getInodo_of_esInodo named.valido, Option.bind_some, Option.bind_some]

/-- The tail of the file `x` from `n` logical blocks on was freed, of the `m` it had. -/
structure Recortado (sb : Superblock) (x n m : Nat) (d d' : Disco) : Prop where
  liberados : ∃ bs, liberados d' = bs ++ liberados d ∧ bs.Nodup ∧ ∀ b, b ∈ bs ↔
    (∃ k, n ≤ k ∧ k < m ∧ bloqueResuelto sb d x k = some b) ∨
      ∃ q, deIndireccion sb m q ∧ ¬deIndireccion sb n q ∧ (punteros sb d).valor x q = b
  resto : ∀ k < n, bloqueResuelto sb d' x k = bloqueResuelto sb d x k

theorem recortado (geo : Geometria sb) (covered : Cubierta sb) (mapped : Mapeado sb d x m)
    (le : n ≤ m) (bound : m ≤ alcance sb) (f : Disco → Memoria) :
    ∃ d', liberarPosiciones sb (liberarYPisar sb f) d x (bajada (ptrsPorBloque sb) n (m - n)) =
        some d' ∧ Recortado sb x n m d d' ∧
      Rfs.liberados d' = ((bajada (ptrsPorBloque sb) n (m - n)).map
        ((punteros sb d).valor x)).reverse ++ Rfs.liberados d := by
  have total : n + (m - n) = m := by omega
  have reach : n + (m - n) ≤ alcance sb := by omega
  have prunable := podable_bajada reach
  have members := fun q => mem_bajada (q := q) reach
  rw [total] at prunable members
  obtain ⟨d', run, done⟩ := mapped.arbol.podar geo covered f prunable
  refine ⟨d', run, ⟨⟨_, done.liberados, ?_, fun b => ?_⟩, fun k kept => ?_⟩, done.liberados⟩
  · rw [List.nodup_reverse]
    refine List.Nodup.map_on (fun q first r second same => ?_) prunable.nodup
    exact mapped.inyectivo q r (prunable.mem first) (prunable.mem second) same
  · rw [List.mem_reverse, List.mem_map]
    constructor
    · rintro ⟨q, member, rfl⟩
      rcases (vivo_diff bound le).mp ((members q).mp member) with ⟨k, late, below, rfl⟩ | ⟨has, not⟩
      · exact .inl ⟨k, late, below, bloqueResuelto_eq (by omega)⟩
      · exact .inr ⟨q, has, not, rfl⟩
    · rintro (⟨k, late, below, value⟩ | ⟨q, has, not, rfl⟩)
      · rw [bloqueResuelto_eq (by omega), Option.some.injEq] at value
        exact ⟨_, (members _).mpr ((vivo_diff bound le).mpr (.inl ⟨k, late, below, rfl⟩)), value⟩
      · exact ⟨q, (members q).mpr ((vivo_diff bound le).mpr (.inr ⟨has, not⟩)), rfl⟩
  · have early : Vivo (ptrsPorBloque sb) n (camino (ptrsPorBloque sb) k) :=
      (vivo_iff (le.trans bound)).mpr (.inl ⟨k, kept, rfl⟩)
    have inside : Vivo (ptrsPorBloque sb) m (camino (ptrsPorBloque sb) k) :=
      (vivo_iff bound).mpr (.inl ⟨k, by omega, rfl⟩)
    rw [bloqueResuelto_eq (by omega), bloqueResuelto_eq (by omega), bloqueLogico, bloqueLogico,
      done.valor _ inside fun member => ((members _).mp member).2 early]

theorem Recortado.congr {d'' : Disco} (cut : Recortado sb x n m d d') (bound : n ≤ alcance sb)
    (words : punteros sb d'' = punteros sb d')
    (trace : Rfs.liberados d'' = Rfs.liberados d') : Recortado sb x n m d d'' where
  liberados := by
    rw [trace]
    exact cut.liberados
  resto k kept := by
    rw [← cut.resto k kept, bloqueResuelto_eq (by omega), bloqueResuelto_eq (by omega),
      bloqueLogico, bloqueLogico, words]

section
variable (geo : Geometria sb) (covered : Cubierta sb)
include geo covered

theorem achicarCon_recorta (mapped : Mapeado sb d x (bloquesDe sb m)) (less : n ≤ m)
    (width : m < 2 ^ 32) (f : Disco → Memoria) :
    ∃ d', achicarCon sb (liberarYPisar sb f) (m - n + 1) d x m (m - n) = some (d', n) ∧
      Recortado sb x (bloquesDe sb n) (bloquesDe sb m) d d' ∧
      liberados d' = ((bajada (ptrsPorBloque sb) (bloquesDe sb n) (bloquesDe sb m -
        bloquesDe sb n)).map ((punteros sb d).valor x)).reverse ++ liberados d := by
  obtain ⟨d', freed, cut, trace⟩ := recortado geo covered mapped (bloquesDe_mono less)
    (bloquesDe_alcance geo.bloque width) f
  refine ⟨d', ?_, cut, trace⟩
  rw [achicarCon_posiciones geo (liberarYPisar_sinInodos f) _ (by omega) (by omega) width,
    show m - (m - n) = n by omega, freed, Option.map_some]

variable {path : Cadena} (named : Nombra sb d path x) (size : (d.inodo x).size.toNat = m)
  (mapped : Mapeado sb d x (bloquesDe sb m))
include named size mapped

theorem truncarArchivo_recorta (less : n < m) (near : m ≤ n + 2 ^ 31) :
    ∃ d', truncarArchivo sb d path n = some (0, d') ∧ (d'.inodo x).size.toNat = n ∧
      Recortado sb x (bloquesDe sb n) (bloquesDe sb m) d d' ∧
      liberados d' = ((bajada (ptrsPorBloque sb) (bloquesDe sb n) (bloquesDe sb m -
        bloquesDe sb n)).map ((punteros sb d).valor x)).reverse ++ liberados d := by
  have width : m < 2 ^ 32 := by
    rw [← size]
    exact (d.inodo x).size.toNat_lt
  obtain ⟨branch, amount⟩ : ramaDe m n = .achica ∧ (diferencia n m).natAbs = m - n := by
    rcases diferencia_cases width (less.trans width) with ⟨-, -, branch⟩ | ⟨le, -⟩ | ⟨far, -⟩ |
      ⟨far, -⟩
    · exact branch
    all_goals omega
  obtain ⟨d1, run, cut, trace⟩ := achicarCon_recorta geo covered mapped less.le width Disco.mem
  rw [liberarYPisar_mem, achicarCon_liberarBloque] at run
  have bound : bloquesDe sb n ≤ alcance sb :=
    (bloquesDe_mono less.le).trans (bloquesDe_alcance geo.bloque width)
  refine ⟨ponSize d1 x n, ?_, ?_, cut.congr bound (punteros_ponSize ..) rfl, trace⟩
  · rw [named.truncarArchivo, truncarInodo_achica size branch, amount, run, Option.map_some]
  · rw [ponSize_size, if_pos rfl]
    exact Nat.mod_eq_of_lt (less.trans width)

/-- A truncation to fewer bytes frees the tail of the file and nothing else, each block once,
whatever becomes of the bytes of the blocks it has freed. -/
theorem recorte_libera_la_cola (limit : n < 2 ^ 32) (branch : ramaDe m n = .achica) :
    ∃ d', truncarArchivo sb d path n = some (0, d') ∧ (d'.inodo x).size.toNat = n ∧
      Recortado sb x (bloquesDe sb n) (bloquesDe sb m) d d' ∧
      ∀ f, ∃ d'', achicarCon sb (liberarYPisar sb f) (m - n + 1) d x m (m - n) = some (d'', n) ∧
        Recortado sb x (bloquesDe sb n) (bloquesDe sb m) d d'' ∧
        liberados d'' = liberados d' := by
  have width : m < 2 ^ 32 := by
    rw [← size]
    exact (d.inodo x).size.toNat_lt
  obtain ⟨less, near⟩ : n < m ∧ m ≤ n + 2 ^ 31 := by
    rcases diferencia_cases width limit with ⟨less, near, -⟩ | ⟨-, -, other, -⟩ | ⟨-, other, -⟩ |
      ⟨-, other⟩
    · exact ⟨less, near⟩
    all_goals
      rw [branch] at other
      cases other
  obtain ⟨d', run, short, cut, trace⟩ :=
    truncarArchivo_recorta geo covered named size mapped less near
  refine ⟨d', run, short, cut, fun f => ?_⟩
  obtain ⟨d'', again, cut', trace'⟩ := achicarCon_recorta geo covered mapped less.le width f
  exact ⟨d'', again, cut', trace'.trans trace.symm⟩

end

theorem vivo_dos {p : Nat} (alive : Vivo p 2 q) : q = [0] ∨ q = [1] := by
  obtain ⟨k, below, starts⟩ := alive
  obtain rfl := (inicia_directo (by omega)).mp starts
  rcases (by omega : k = 0 ∨ k = 1) with rfl | rfl
  · exact .inl rfl
  · exact .inr rfl

theorem imagenArchivoLargo_mapeado : Mapeado (volumen 0) imagenArchivoLargo 11 2 := by
  constructor
  · intro q here
    rcases vivo_dos here with rfl | rfl <;> decide
  · intro q here
    rcases vivo_dos here with rfl | rfl <;> decide
  · intro q r here there
    rcases vivo_dos here with rfl | rfl <;> rcases vivo_dos there with rfl | rfl <;> decide

theorem imagenArchivoLargo_nombra : Nombra (volumen 0) imagenArchivoLargo [47, 97] 11 where
  ruta := ⟨2, by decide +kernel, by decide⟩
  inodo := imagenArchivoLargo_path
  valido := ⟨by decide, by decide⟩

/-- Of the two blocks of `/a` the second one goes. -/
theorem recorte_libera_la_cola_siete :
    ∃ d', truncarArchivo (volumen 0) imagenArchivoLargo [47, 97] 7 = some (0, d') ∧
      (d'.inodo 11).size.toNat = 7 ∧ Recortado (volumen 0) 11 1 2 imagenArchivoLargo d' := by
  obtain ⟨d', run, size, cut, -⟩ := recorte_libera_la_cola (n := 7)
    ⟨by decide, by decide, by decide⟩ (by decide) imagenArchivoLargo_nombra rfl
    imagenArchivoLargo_mapeado (by decide) (by decide)
  exact ⟨d', run, size, cut⟩

/-! ### The direction of a truncation -/

/-- Every block of `x` is among those `liberarBloque` was given since `d`. -/
def EntregaTodo (sb : Superblock) (d d' : Disco) (x n : Nat) : Prop :=
  ∃ bs, liberados d' = bs ++ liberados d ∧
    ∀ q, Vivo (ptrsPorBloque sb) n q → (punteros sb d).valor x q ∈ bs

theorem EntregaTodo.sigue {d'' : Disco} (all : EntregaTodo sb d d' x n) (later : Deriva d' d'') :
    EntregaTodo sb d d'' x n := by
  obtain ⟨bs, trace, every⟩ := all
  obtain ⟨hs, more, -⟩ := later
  refine ⟨hs.filterMap Hecho.liberado ++ bs, ?_, fun q here =>
    List.mem_append_right _ (every q here)⟩
  rw [liberados] at trace
  rw [liberados, more, List.filterMap_append, trace, List.append_assoc]

/-- The shrink loop runs for the smaller sizes and no other, the grow branch is not for them, and
the truncation `eliminarArchivo` starts with hands over every block. -/
structure EligeBien (sb : Superblock) (d : Disco) (path : Cadena) (x offset : Nat) : Prop where
  achica : ramaDe (d.inodo x).size.toNat offset = .achica ↔ offset < (d.inodo x).size.toNat
  agranda : ramaDe (d.inodo x).size.toNat offset = .agranda → (d.inodo x).size.toNat ≤ offset
  elimina : offset = 0 → Mapeado sb d x (bloquesDe sb (d.inodo x).size.toNat) →
    (∃ d', truncarArchivo sb d path 0 = some (0, d') ∧
      EntregaTodo sb d d' x (bloquesDe sb (d.inodo x).size.toNat)) ∧
    ∀ code d', eliminarArchivo sb d path = some (code, d') →
      EntregaTodo sb d d' x (bloquesDe sb (d.inodo x).size.toNat)

section
variable (geo : Geometria sb) (covered : Cubierta sb) {path : Cadena}
  (named : Nombra sb d path x)
include geo covered named

theorem truncarArchivo_vacia (size : (d.inodo x).size.toNat = m)
    (mapped : Mapeado sb d x (bloquesDe sb m)) (half : m ≤ 2 ^ 31) :
    ∃ d', truncarArchivo sb d path 0 = some (0, d') ∧ EntregaTodo sb d d' x (bloquesDe sb m) := by
  rcases Nat.eq_zero_or_pos m with rfl | positive
  · have branch : ramaDe 0 0 = .agranda := by decide
    refine ⟨ponSize (d.anota (.crece 0 0)) x 0, ?_, [], rfl, fun q here => ?_⟩
    · rw [named.truncarArchivo, truncarInodo_agranda size branch]
      simp [diferencia, resta32, hayEspacioSuficiente, agrandar]
    · rw [bloquesDe_zero] at here
      exact absurd here not_vivo_zero
  · obtain ⟨d', run, -, cut, -⟩ := truncarArchivo_recorta (n := 0) geo covered named size mapped
      positive (by omega)
    obtain ⟨bs, trace, -, members⟩ := cut.liberados
    refine ⟨d', run, bs, trace, fun q here => (members _).mpr ?_⟩
    have bound := bloquesDe_alcance geo.bloque (show m < 2 ^ 32 by omega)
    rw [bloquesDe_zero]
    rcases (vivo_diff bound (Nat.zero_le _)).mp ⟨here, not_vivo_zero⟩ with
      ⟨k, -, below, rfl⟩ | ⟨has, not⟩
    · exact .inl ⟨k, Nat.zero_le k, below, bloqueResuelto_eq (by omega)⟩
    · exact .inr ⟨q, has, not, rfl⟩

theorem eliminarArchivo_entrega (size : (d.inodo x).size.toNat = m)
    (mapped : Mapeado sb d x (bloquesDe sb m)) (half : m ≤ 2 ^ 31) {code : Nat}
    (run : eliminarArchivo sb d path = some (code, d')) :
    EntregaTodo sb d d' x (bloquesDe sb m) := by
  obtain ⟨d1, cut, all⟩ := truncarArchivo_vacia geo covered named size mapped half
  obtain ⟨p, parent, nonzero⟩ := named.ruta
  have present : x ≠ 0 := by
    have := named.valido.1
    omega
  rw [eliminarArchivo] at run
  simp only [parent, Option.bind_eq_bind, Option.bind_some, Option.bind_eq_some_iff] at run
  obtain ⟨node, -, run⟩ := run
  rw [if_pos nonzero, named.inodo, Option.bind_some, if_pos present, cut, Option.bind_some] at run
  simp only [Option.bind_eq_some_iff] at run
  obtain ⟨d2, gone, y, -, d3, dropped, run⟩ := run
  cases run
  exact all.sigue ((liberarInodo_deriva gone).trans (eliminarEntradaDirectorio_deriva dropped))

/-- The direction is right exactly when the size does not drop by more than 2 GiB. -/
theorem direccion_del_truncado (limit : n < 2 ^ 32) :
    EligeBien sb d path x n ↔ (d.inodo x).size.toNat ≤ n + 2 ^ 31 := by
  have width := (d.inodo x).size.toNat_lt
  constructor
  · intro right
    rcases diferencia_cases width limit with ⟨-, near, -⟩ | ⟨le, -⟩ | ⟨far, branch, -⟩ | ⟨le, -⟩
    · exact near
    · omega
    · have up := right.agranda branch
      omega
    · omega
  · intro near
    refine ⟨?_, ?_, ?_⟩
    · rcases diferencia_cases width limit with ⟨less, -, branch, -⟩ | ⟨le, -, branch, -⟩ |
        ⟨far, -⟩ | ⟨le, branch⟩
      · exact ⟨fun _ => less, fun _ => branch⟩
      · rw [branch]
        exact ⟨fun other => (nomatch other), fun less => absurd less (by omega)⟩
      · omega
      · rw [branch]
        exact ⟨fun other => (nomatch other), fun less => absurd less (by omega)⟩
    · intro branch
      rcases diferencia_cases width limit with ⟨-, -, other, -⟩ | ⟨le, -⟩ | ⟨far, -⟩ | ⟨le, -⟩
      · rw [branch] at other
        cases other
      · exact le
      · omega
      · omega
    · rintro rfl mapped
      refine ⟨truncarArchivo_vacia geo covered named rfl mapped (by omega), fun code d' run => ?_⟩
      exact eliminarArchivo_entrega geo covered named rfl mapped (by omega) run

end

/-- Both blocks of `/a` are handed over when it is deleted. -/
theorem direccion_del_truncado_a : EligeBien (volumen 0) imagenArchivoLargo [47, 97] 11 0 :=
  (direccion_del_truncado ⟨by decide, by decide, by decide⟩ (by decide) imagenArchivoLargo_nombra
    (by decide)).mpr (by decide)

/-- The file `/a` ends past 2 GiB, after a hole. -/
def imagenArchivoEnorme : Disco :=
  ponSize imagenArchivoLargo 11 (2 ^ 31 + 1)

/-- A file past 2 GiB is taken to grow when it is emptied. -/
theorem vaciado_que_agranda : ¬∀ (sb : Superblock) (d : Disco) (path : Cadena) (x n : Nat),
    Geometria sb → Cubierta sb → Nombra sb d path x → n < 2 ^ 32 → EligeBien sb d path x n := by
  intro all
  have named : Nombra (volumen 0) imagenArchivoEnorme [47, 97] 11 :=
    ⟨⟨2, by decide +kernel, by decide⟩, by decide +kernel, ⟨by decide, by decide⟩⟩
  have right := all (volumen 0) imagenArchivoEnorme [47, 97] 11 0
    ⟨by decide, by decide, by decide⟩ (by decide) named (by decide)
  exact absurd (right.agranda (by decide)) (by decide)

end LosAltos.Rfs
