import LosAltos.Rfs.Expand

/-!
# The file a growth builds

The grow branch of `truncarArchivo` (`funciones_rfs.c:560-629`) on the tree of the file: the
indirection blocks of a logical block are stored from the inode outwards and its data last, so
that each number goes into a block the file already holds; then the data is filled with zeros
(`agregarAInodo`, `completarBloque` and `escribirBloque`, `:777-797`).
-/
namespace LosAltos.Rfs

open Lib

variable {sb : Superblock} {d d' d1 : Disco} {x k n m b i eof : Nat} {q : List Nat}
  {T : List Nat → Prop} {bs cs : List Nat} {qs : List (List Nat)}

/-- Blocks of the image that the tree does not hold, no two the same. -/
structure Frescos (sb : Superblock) (d : Disco) (x : Nat) (T : List Nat → Prop) (bs : List Nat) :
    Prop where
  nodup : bs.Nodup
  lleno : ∀ b ∈ bs, b ≠ 0
  rango : ∀ b ∈ bs, b < sb.blocks
  ajeno : ∀ b ∈ bs, ∀ r, T r → (punteros sb d).valor x r ≠ b

/-- The positions of the list were filled with blocks of `bs`, and the tree stays. -/
structure Sembrado (sb : Superblock) (x : Nat) (T : List Nat → Prop) (qs : List (List Nat))
    (bs : List Nat) (d d' : Disco) : Prop where
  arbol : Arbol sb d' x fun r => T r ∨ r ∈ qs
  valor : ∀ r, T r → (punteros sb d').valor x r = (punteros sb d).valor x r
  nuevo : ∀ r ∈ qs, (punteros sb d').valor x r ∈ bs
  bytes : ∀ r, T r → (∀ q ∈ qs, q.tail ≠ r) → MismosBytes sb ((punteros sb d).valor x r) d d'
  size : ∀ y, (d'.inodo y).size = (d.inodo y).size

/-- Only the tables of blocks and the counts of the inodes differ. -/
structure MismosArchivos (sb : Superblock) (d d' : Disco) : Prop where
  punteros : punteros sb d' = punteros sb d
  mem : d'.mem = d.mem
  size : ∀ y, (d'.inodo y).size = (d.inodo y).size

theorem SoloBloques.mismosArchivos (solo : SoloBloques d d') : MismosArchivos sb d d' :=
  ⟨solo.punteros, solo.mem, fun y => by rw [solo.inodo]⟩

theorem mismosArchivos_sumaBloques (d : Disco) (x : Nat) :
    MismosArchivos sb d (sumaBloques sb d x) :=
  ⟨punteros_congr rfl (ponInodo_blocks fun _ => rfl), rfl, fun y => by
    by_cases here : y = x <;> simp [sumaBloques, Disco.ponInodo, here]⟩

theorem Arbol.congr (tree : Arbol sb d x T) (same : MismosArchivos sb d d') : Arbol sb d' x T :=
  tree.of_valor (fun _ => id) tree.cerrado fun r _ => by rw [same.punteros]

theorem Frescos.congr (fresh : Frescos sb d x T bs) (same : MismosArchivos sb d d') :
    Frescos sb d' x T bs :=
  { fresh with ajeno := by rw [same.punteros]; exact fresh.ajeno }

theorem Frescos.mono (fresh : Frescos sb d x T bs) (sub : cs.Sublist bs) : Frescos sb d x T cs where
  nodup := fresh.nodup.sublist sub
  lleno c member := fresh.lleno c (sub.subset member)
  rango c member := fresh.rango c (sub.subset member)
  ajeno c member := fresh.ajeno c (sub.subset member)

/-- What is left of the blocks is fresh for what was built with the others. -/
theorem Frescos.despues (fresh : Frescos sb d x T (bs ++ cs)) (grown : Sembrado sb x T qs bs d d') :
    Frescos sb d' x (fun r => T r ∨ r ∈ qs) cs where
  nodup := (List.nodup_append.mp fresh.nodup).2.1
  lleno c member := fresh.lleno c (List.mem_append_right bs member)
  rango c member := fresh.rango c (List.mem_append_right bs member)
  ajeno c member r here := by
    rcases here with old | new
    · rw [grown.valor r old]
      exact fresh.ajeno c (List.mem_append_right bs member) r old
    · exact (List.nodup_append.mp fresh.nodup).2.2 _ (grown.nuevo r new) c member

namespace Sembrado

variable {d'' : Disco} {rs : List (List Nat)}

theorem refl (tree : Arbol sb d x T) : Sembrado sb x T [] [] d d := by
  refine ⟨tree.of_iff fun r => ?_, fun _ _ => rfl, fun r member => ?_, fun _ _ _ _ _ => rfl,
    fun _ => rfl⟩
  · simp
  · exact absurd member List.not_mem_nil

theorem trans (first : Sembrado sb x T qs bs d d')
    (second : Sembrado sb x (fun r => T r ∨ r ∈ qs) rs cs d' d'') :
    Sembrado sb x T (qs ++ rs) (bs ++ cs) d d'' where
  arbol := second.arbol.of_iff fun r => by rw [List.mem_append, or_assoc]
  valor r old := by rw [second.valor r (.inl old), first.valor r old]
  nuevo r member := by
    rcases List.mem_append.mp member with early | late
    · rw [second.valor r (.inr early)]
      exact List.mem_append_left cs (first.nuevo r early)
    · exact List.mem_append_right bs (second.nuevo r late)
  bytes r old leaf := by
    have early := first.bytes r old fun q member => leaf q (List.mem_append_left rs member)
    have late := second.bytes r (.inl old) fun q member => leaf q (List.mem_append_right qs member)
    rw [first.valor r old] at late
    exact early.trans late
  size y := by rw [second.size y, first.size y]

theorem of_mem (grown : Sembrado sb x T qs bs d d') (positions : ∀ q, q ∈ rs ↔ q ∈ qs)
    (blocks : ∀ b ∈ bs, b ∈ cs) : Sembrado sb x T rs cs d d' where
  arbol := grown.arbol.of_iff fun r => by rw [positions]
  valor := grown.valor
  nuevo r member := blocks _ (grown.nuevo r ((positions r).mp member))
  bytes r old leaf := grown.bytes r old fun q member => leaf q ((positions q).mpr member)
  size := grown.size

theorem desde (same : MismosArchivos sb d d1) (grown : Sembrado sb x T qs bs d1 d') :
    Sembrado sb x T qs bs d d' where
  arbol := grown.arbol
  valor r old := by rw [grown.valor r old, same.punteros]
  nuevo := grown.nuevo
  bytes r old leaf j below := by
    have kept := grown.bytes r old leaf j
    rw [same.punteros, same.mem] at kept
    exact kept below
  size y := by rw [grown.size y, same.size y]

theorem hasta (grown : Sembrado sb x T qs bs d d') (same : MismosArchivos sb d' d'') :
    Sembrado sb x T qs bs d d'' where
  arbol := grown.arbol.congr same
  valor r old := by rw [same.punteros, grown.valor r old]
  nuevo r member := by
    rw [same.punteros]
    exact grown.nuevo r member
  bytes r old leaf j below := by
    rw [same.mem]
    exact grown.bytes r old leaf j below
  size y := by rw [same.size y, grown.size y]

/-- One position is filled. -/
theorem asignar (geo : Geometria sb) (tree : Arbol sb d x T)
    (parent : q.tail ≠ [] → T q.tail ∧ q.headD 0 < ptrsPorBloque sb) (filled : q ≠ [])
    (out : ¬T q) (fresh : Frescos sb d x T [b]) :
    Sembrado sb x T [q] [b] d (Rfs.asignar d (slotDe sb d x q) b) := by
  have here : b ∈ [b] := List.mem_singleton_self b
  obtain ⟨grown, same, self, bytes⟩ := tree.asignar geo parent filled out (fresh.lleno b here)
    (fresh.rango b here) (fresh.ajeno b here)
  refine ⟨grown.of_iff fun r => by rw [List.mem_singleton], same, fun r member => ?_,
    fun r old leaf => ?_, grabarSlot_size d _ b⟩
  · obtain rfl := List.mem_singleton.mp member
    rw [self]
    exact here
  · exact bytes r old fun equal => leaf q (List.mem_singleton_self q) equal.symm

/-- A position is filled with the block that was asked for. -/
theorem conPosicion (geo : Geometria sb) (tree : Arbol sb d x T)
    (parent : q.tail ≠ [] → T q.tail ∧ q.headD 0 < ptrsPorBloque sb) (filled : q ≠ [])
    (out : ¬T q) (fresh : Frescos sb d x T [b]) (asked : getBloqueLibre sb d = some (b, d1)) :
    Sembrado sb x T [q] [b] d (Rfs.conPosicion sb d x q b d1) := by
  have solo := getBloqueLibre_solo asked
  have same : MismosArchivos sb d d1 := solo.mismosArchivos
  have stored := (asignar geo (tree.congr same) parent filled out (fresh.congr same)).desde same
  rw [solo.slotDe] at stored
  rw [Rfs.conPosicion]
  split
  · exact stored
  · exact stored.hasta (mismosArchivos_sumaBloques _ _)

/-- A list of positions is filled, each lying in a block that is there by then. -/
theorem pedirPosiciones (geo : Geometria sb) (tree : Arbol sb d x T)
    (plantable : Plantable (ptrsPorBloque sb) T qs) (row : Reparte sb d bs)
    (length : bs.length = qs.length) (fresh : Frescos sb d x T bs)
    (run : pedirPosiciones sb d x qs = some d') : Sembrado sb x T qs bs d d' := by
  induction qs generalizing d T bs with
  | nil =>
    obtain rfl := List.length_eq_zero_iff.mp length
    cases run
    exact .refl tree
  | cons q qs ih =>
    match bs with
    | b :: bs =>
      obtain ⟨d1, asked, rest⟩ := row
      obtain ⟨parent, filled, out, later⟩ := plantable
      obtain ⟨⟨c, d1'⟩, again, run⟩ := Option.bind_eq_some_iff.mp run
      rw [asked] at again
      cases again
      have first := conPosicion geo tree parent filled out
        (fresh.mono (List.singleton_sublist.mpr List.mem_cons_self)) asked
      have next : (fun r => T r ∨ r = q) = fun r => T r ∨ r ∈ [q] := by
        funext r
        rw [List.mem_singleton]
      rw [next] at later
      exact first.trans (ih first.arbol later (rest.congr (conPosicion_reparto d x q b d1))
        (Nat.succ.inj length) (Frescos.despues fresh first) run)

/-- A turn of the grow loop fills the positions of its logical block. -/
theorem agregarBloque (geo : Geometria sb) (bound : k < alcance sb)
    (mapped : Mapeado sb d x k) (row : Reparte sb d bs)
    (length : bs.length = (nuevas (ptrsPorBloque sb) k).length)
    (fresh : Frescos sb d x (Vivo (ptrsPorBloque sb) k) bs)
    (run : agregarBloque sb d x k = some d') :
    Sembrado sb x (Vivo (ptrsPorBloque sb) k) (nuevas (ptrsPorBloque sb) k) bs d d' := by
  have shape := nuevas_cons bound
  have plantable := plantable_nuevas bound
  rw [shape, List.reverse_cons] at plantable
  obtain ⟨levels, parent, filled, out, -⟩ := plantable.of_append
  rw [shape, List.length_cons] at length
  match bs with
  | b :: bs =>
    obtain ⟨d1, asked, rest⟩ := row
    have many : bs.length = (nuevas (ptrsPorBloque sb) k).tail.reverse.length := by
      rw [List.length_reverse]
      exact Nat.succ.inj length
    have same : MismosArchivos sb d (sumaBloques sb d1 x) := by
      have first : MismosArchivos sb d d1 := (getBloqueLibre_solo asked).mismosArchivos
      have second : MismosArchivos sb d1 _ := mismosArchivos_sumaBloques d1 x
      exact ⟨second.punteros.trans first.punteros, second.mem.trans first.mem, fun y =>
        (second.size y).trans (first.size y)⟩
    have row' : Reparte sb (sumaBloques sb d1 x) (bs ++ []) := by
      rw [List.append_nil]
      exact rest.congr (.sumaBloques d1 x)
    obtain ⟨d2, asked', -, -⟩ := pedirPosiciones_reparte (x := x) row' many fun c member =>
      fresh.lleno c (List.mem_cons_of_mem b member)
    rw [agregarBloque_posiciones bound asked asked'] at run
    cases run
    have swapped : Frescos sb d x (Vivo (ptrsPorBloque sb) k) (bs ++ [b]) :=
      { fresh with
        nodup := (List.perm_append_singleton b bs).nodup_iff.mpr fresh.nodup
        lleno := fun c member => fresh.lleno c (by simpa [or_comm] using member)
        rango := fun c member => fresh.rango c (by simpa [or_comm] using member)
        ajeno := fun c member => fresh.ajeno c (by simpa [or_comm] using member) }
    have indirect := (pedirPosiciones geo (mapped.arbol.congr same) levels
      (rest.congr (.sumaBloques d1 x)) many
      ((swapped.mono (List.sublist_append_left bs [b])).congr same) asked').desde same
    have data := asignar geo indirect.arbol parent filled out (swapped.despues indirect)
    refine (indirect.trans data).of_mem (fun q => ?_) fun c member => ?_
    · rw [shape, List.mem_append, List.mem_reverse, List.mem_singleton, List.mem_cons, or_comm,
        List.tail_cons]
    · simpa [or_comm] using member

end Sembrado

/-! ### The bytes of the file -/

theorem byteDe_eq (geo : Geometria sb)
    (bound : bloqueLogico sb d x (i / tamanioDeBloque sb) < sb.blocks) :
    byteDe sb d x i = d.mem (posicionarInicioBloque sb
      (bloqueLogico sb d x (i / tamanioDeBloque sb)) + (i % tamanioDeBloque sb : Nat)) := by
  rw [byteDe, geo.inicio bound]
  push_cast
  rfl

/-- A byte stays when its block is the same and the bytes of the block are. -/
theorem byteDe_conserva (geo : Geometria sb)
    (bound : bloqueLogico sb d x (i / tamanioDeBloque sb) < sb.blocks)
    (same : bloqueLogico sb d' x (i / tamanioDeBloque sb) =
      bloqueLogico sb d x (i / tamanioDeBloque sb))
    (bytes : MismosBytes sb (bloqueLogico sb d x (i / tamanioDeBloque sb)) d d') :
    byteDe sb d' x i = byteDe sb d x i := by
  rw [byteDe_eq geo bound, byteDe_eq geo (by rw [same]; exact bound), same]
  exact bytes _ (Nat.mod_lt i (tamanioDeBloque_pos sb))

/-- The file `x` had `m` bytes, and has now `k` blocks and `eof` bytes: those past `m` are zero. -/
structure Crecido (sb : Superblock) (x m : Nat) (d : Disco) (k eof : Nat) (d' : Disco) : Prop where
  desde : m ≤ eof
  mapa : Mapeado sb d' x k
  viejos : ∀ q, Vivo (ptrsPorBloque sb) (bloquesDe sb m) q →
    (punteros sb d').valor x q = (punteros sb d).valor x q
  bytes : ∀ i < eof, byteDe sb d' x i = if i < m then byteDe sb d x i else 0
  size : ∀ y, (d'.inodo y).size = (d.inodo y).size

/-- Logical block `eof / tamanioDeBloque` after `n` zeros are written from `eof` on. -/
def conCeros (sb : Superblock) (d : Disco) (x eof n : Nat) : Disco :=
  d.copia (desplazarme sb (bloqueLogico sb d x (eof / tamanioDeBloque sb))
    (eof % tamanioDeBloque sb)) (List.replicate n 0)

theorem Mapeado.vivo (reach : n ≤ alcance sb) (below : k < n) :
    Vivo (ptrsPorBloque sb) n (camino (ptrsPorBloque sb) k) :=
  ⟨k, below, inicia_camino (below.trans_le reach)⟩

/-- A block more is mapped: the bytes so far are in the blocks before it. -/
theorem Crecido.agrega (geo : Geometria sb) {d2 : Disco}
    (bound : eof / tamanioDeBloque sb < alcance sb) (boundary : eof % tamanioDeBloque sb = 0)
    (grown : Crecido sb x m d (eof / tamanioDeBloque sb) eof d1)
    (more : Sembrado sb x (Vivo (ptrsPorBloque sb) (eof / tamanioDeBloque sb))
      (nuevas (ptrsPorBloque sb) (eof / tamanioDeBloque sb)) bs d1 d2) :
    Crecido sb x m d (eof / tamanioDeBloque sb + 1) eof d2 where
  desde := grown.desde
  mapa := by
    refine Arbol.mapeado (more.arbol.of_iff fun r => ?_)
    rw [vivo_succ, mem_nuevas bound]
  viejos q old := by
    obtain ⟨k, below, starts⟩ := old
    have le : bloquesDe sb m ≤ bloquesDe sb eof := bloquesDe_mono grown.desde
    rw [bloquesDe_borde boundary] at le
    rw [more.valor q ⟨k, by omega, starts⟩]
    exact grown.viejos q ⟨k, below, starts⟩
  bytes i before := by
    have earlier : i / tamanioDeBloque sb < eof / tamanioDeBloque sb := by
      rw [Nat.div_lt_iff_lt_mul (tamanioDeBloque_pos sb)]
      have parts := Nat.div_add_mod' eof (tamanioDeBloque sb)
      omega
    have alive := Mapeado.vivo bound.le earlier
    rw [← grown.bytes i before]
    refine byteDe_conserva geo (grown.mapa.rango _ alive) (more.valor _ alive)
      (more.bytes _ alive fun q member equal => ?_)
    have starts := (mem_nuevas bound).mp member
    match q, starts.ne_nil with
    | j :: r, _ =>
      rw [List.tail_cons] at equal
      subst equal
      exact camino_leaf (earlier.trans bound) starts
  size y := by rw [more.size y, grown.size y]

section
variable (geo : Geometria sb) (bound : eof / tamanioDeBloque sb < alcance sb)
  (mapped : Mapeado sb d x (eof / tamanioDeBloque sb + 1))
  (inside : eof % tamanioDeBloque sb + n ≤ tamanioDeBloque sb)
include geo bound mapped inside

/-- The blocks of the file do not change when its last one is filled. -/
theorem valor_conCeros (q : List Nat)
    (alive : Vivo (ptrsPorBloque sb) (eof / tamanioDeBloque sb + 1) q) :
    (punteros sb (conCeros sb d x eof n)).valor x q = (punteros sb d).valor x q := by
  refine mapped.arbol.copia geo (Mapeado.vivo bound (Nat.lt_succ_self _)) ?_ ?_ q alive
  · rintro j ⟨l, -, starts⟩
    exact camino_leaf bound starts
  · rwa [List.length_replicate]

theorem byteDe_conCeros (before : i < eof + n) :
    byteDe sb (conCeros sb d x eof n) x i = if i < eof then byteDe sb d x i else 0 := by
  have positive := tamanioDeBloque_pos sb
  have same := valor_conCeros geo bound mapped inside
  have parts := Nat.div_add_mod' eof (tamanioDeBloque sb)
  have parts' := Nat.div_add_mod' i (tamanioDeBloque sb)
  have le : i / tamanioDeBloque sb ≤ eof / tamanioDeBloque sb := by
    rw [← Nat.lt_succ_iff, Nat.div_lt_iff_lt_mul positive, Nat.succ_mul]
    omega
  have alive := Mapeado.vivo bound (Nat.lt_succ_of_le le)
  have here := Mapeado.vivo bound (Nat.lt_succ_self (eof / tamanioDeBloque sb))
  have small := mapped.rango _ alive
  rcases Nat.lt_or_eq_of_le le with earlier | equal
  · have before : i < eof := by
      have := Nat.mod_lt i positive
      have := Nat.mul_le_mul_right (tamanioDeBloque sb) earlier
      rw [Nat.succ_mul] at this
      omega
    rw [if_pos before]
    refine byteDe_conserva geo small (same _ alive) (mismosBytes_copia geo (mapped.rango _ here)
      small (fun repeated => ?_) (by rwa [List.length_replicate]))
    have := camino_inj bound (earlier.trans bound) (mapped.inyectivo _ _ alive here repeated.symm)
    omega
  · have value : bloqueLogico sb (conCeros sb d x eof n) x (i / tamanioDeBloque sb) =
        bloqueLogico sb d x (i / tamanioDeBloque sb) := same _ alive
    rw [byteDe_eq geo (by rw [value]; exact small), byteDe_eq geo small, value, equal]
    rw [equal] at parts'
    simp only [conCeros, Disco.copia, escribir, desplazarme, List.length_replicate]
    by_cases old : i < eof
    · rw [if_pos old, if_neg (by omega)]
    · rw [if_neg old, if_pos (by omega)]
      rw [List.getD_eq_getElem?_getD, List.getElem?_replicate]
      split <;> rfl

end

/-- The rest of the block is filled with zeros. -/
theorem Crecido.completa (geo : Geometria sb) (bound : eof / tamanioDeBloque sb < alcance sb)
    (inside : eof % tamanioDeBloque sb + n ≤ tamanioDeBloque sb)
    (grown : Crecido sb x m d (eof / tamanioDeBloque sb + 1) eof d1) :
    Crecido sb x m d (eof / tamanioDeBloque sb + 1) (eof + n) (conCeros sb d1 x eof n) := by
  have same := valor_conCeros geo bound grown.mapa inside
  have since := grown.desde
  have le : bloquesDe sb m ≤ eof / tamanioDeBloque sb + 1 := by
    have parts := Nat.div_add_mod' eof (tamanioDeBloque sb)
    have := Nat.mod_lt eof (tamanioDeBloque_pos sb)
    rw [bloquesDe_le_iff, Nat.add_mul]
    omega
  refine ⟨by omega, ?_, fun q early => ?_, fun i before => ?_, grown.size⟩
  · exact Arbol.mapeado (grown.mapa.arbol.of_valor (fun _ => id) grown.mapa.arbol.cerrado same)
  · obtain ⟨k, below, starts⟩ := early
    rw [same q ⟨k, by omega, starts⟩, grown.viejos q ⟨k, below, starts⟩]
  · rw [byteDe_conCeros geo bound grown.mapa inside before]
    split
    · rename_i old
      exact grown.bytes i old
    · rw [if_neg (by omega)]

/-! ### The growth -/

/-- The file `x` of `m` bytes has `n`: its blocks stay, the new ones are others, and the new
bytes are zero. -/
structure Agrandado (sb : Superblock) (x m n : Nat) (d d' : Disco) : Prop where
  size : (d'.inodo x).size.toNat = n
  resuelve : ∀ k < bloquesDe sb n, ∃ b, bloqueResuelto sb d' x k = some b ∧ b ≠ 0
  viejos : ∀ k < bloquesDe sb m, bloqueResuelto sb d' x k = bloqueResuelto sb d x k
  mapa : Mapeado sb d' x (bloquesDe sb n)
  bytes : ∀ i < m, byteDe sb d' x i = byteDe sb d x i
  ceros : ∀ i, m ≤ i → i < n → byteDe sb d' x i = 0

/-- The loop builds the file, whatever fresh blocks the calls of `getBloqueLibre` answer. -/
theorem agrandar_crecido (geo : Geometria sb) (mapped : Mapeado sb d x (bloquesDe sb m))
    (le : m ≤ n) (limit : n < 2 ^ 32) (row : Reparte sb d bs)
    (length : bs.length = faltantes sb m n)
    (fresh : Frescos sb d x (Vivo (ptrsPorBloque sb) (bloquesDe sb m)) bs) :
    ∃ d', agrandar sb (n - m + 1) d x m (n - m) = some (d', n) ∧
      Crecido sb x m d (bloquesDe sb n) n d' := by
  let I (k eof : Nat) (d' : Disco) : Prop := ∃ cs, Reparte sb d' cs ∧
    cs.length = cuenta sb (bloquesDe sb n) - cuenta sb k ∧
    Frescos sb d' x (Vivo (ptrsPorBloque sb) k) cs ∧ Crecido sb x m d k eof d'
  have start : Crecido sb x m d (bloquesDe sb m) m d :=
    ⟨Nat.le_refl m, mapped, fun _ _ => rfl, fun i below => (if_pos below).symm, fun _ => rfl⟩
  suffices final : ∃ d', agrandar sb (n - m + 1) d x m (n - m) = some (d', n) ∧
      I (bloquesDe sb n) n d' by
    obtain ⟨d', run, -, -, -, -, grown⟩ := final
    exact ⟨d', run, grown⟩
  refine agrandar_regla (tamanioDeBloque_pos sb) (fun eof => I (bloquesDe sb eof) eof)
    (fun eof => I (eof / tamanioDeBloque sb + 1) eof) ?_ ?_ ?_ limit (by omega)
    (Nat.lt_succ_self _) ⟨bs, row, length, fresh, start⟩
  · rintro eof d1 before boundary ⟨cs, row, length, fresh, grown⟩
    obtain ⟨bound, now, later, rfl, many, left⟩ :=
      fila_del_turno geo.bloque limit before boundary length
    rw [bloquesDe_borde boundary] at fresh grown
    obtain ⟨d2, run, next, -⟩ := agregarBloque_reparte (x := x) bound row many fun b member =>
      fresh.lleno b (List.mem_append_left later member)
    have planted := Sembrado.agregarBloque geo bound grown.mapa row.of_append many
      (fresh.mono (List.sublist_append_left now later)) run
    have rest := fresh.despues planted
    have positions : (fun r => Vivo (ptrsPorBloque sb) (eof / tamanioDeBloque sb) r ∨
        r ∈ nuevas (ptrsPorBloque sb) (eof / tamanioDeBloque sb)) =
          Vivo (ptrsPorBloque sb) (eof / tamanioDeBloque sb + 1) := by
      funext r
      rw [mem_nuevas bound, vivo_succ]
    rw [positions] at rest
    exact ⟨d2, run, later, next, left, rest, grown.agrega geo bound boundary planted⟩
  · rintro eof d1 before inner state
    rwa [bloquesDe_interior inner] at state
  · rintro eof l d1 positive inside ends ⟨cs, row, length, fresh, grown⟩
    have same : bloquesDe sb (eof + l) = _ := bloquesDe_dentro (by omega) inside
    have bound : eof / tamanioDeBloque sb < alcance sb :=
      nroBloque_lt_alcance geo.bloque (by omega)
    refine ⟨_, completarBloque_eq bound l, ?_⟩
    rw [same]
    refine ⟨cs, row.congr (.copia _ _ _), length, ?_, grown.completa geo bound inside⟩
    refine { fresh with ajeno := fun b member r alive => ?_ }
    rw [← conCeros, valor_conCeros geo bound grown.mapa inside r alive]
    exact fresh.ajeno b member r alive

/-- A truncation to more bytes builds the file, if the calls of `getBloqueLibre` answer blocks
that the file does not have. -/
theorem agrandado_arma_el_archivo (geo : Geometria sb) {path : Cadena}
    (named : Nombra sb d path x) (size : (d.inodo x).size.toNat = m)
    (mapped : Mapeado sb d x (bloquesDe sb m)) (limit : n < 2 ^ 32) (grows : m < n)
    (branch : ramaDe m n = .agranda) (passes : hayEspacioSuficiente sb d (n - m) = true)
    (row : Reparte sb d bs) (length : bs.length = faltantes sb m n)
    (fresh : Frescos sb d x (Vivo (ptrsPorBloque sb) (bloquesDe sb m)) bs) :
    ∃ d', truncarArchivo sb d path n = some (0, d') ∧ Agrandado sb x m n d d' := by
  obtain ⟨-, amount⟩ := ramaDe_agranda limit grows branch
  have same : MismosArchivos sb d (d.anota (.crece m n)) := ⟨rfl, rfl, fun _ => rfl⟩
  obtain ⟨d1, run, grown⟩ := agrandar_crecido geo (mapped.arbol.congr same).mapeado grows.le limit
    (row.congr (.anota d (.crece m n))) length (fresh.congr same)
  have reach := bloquesDe_alcance geo.bloque limit
  have le : bloquesDe sb m ≤ bloquesDe sb n := bloquesDe_mono grows.le
  have bytes : ∀ i, byteDe sb (ponSize d1 x n) x i = byteDe sb d1 x i := fun i => by
    rw [byteDe, byteDe, bloqueLogico, bloqueLogico, punteros_ponSize]
    rfl
  refine ⟨ponSize d1 x n, ?_, ?_⟩
  · rw [named.truncarArchivo, truncarInodo_agranda size branch, amount, if_pos passes, run,
      Option.map_some]
  constructor
  · rw [ponSize_size, if_pos rfl]
    exact Nat.mod_eq_of_lt limit
  · intro k below
    refine ⟨_, bloqueResuelto_eq (by omega), ?_⟩
    rw [bloqueLogico, punteros_ponSize]
    exact grown.mapa.lleno _ (Mapeado.vivo reach below)
  · intro k below
    rw [bloqueResuelto_eq (by omega), bloqueResuelto_eq (by omega), bloqueLogico, bloqueLogico,
      punteros_ponSize]
    exact congrArg some (grown.viejos _ (Mapeado.vivo (by omega) below))
  · refine Arbol.mapeado (grown.mapa.arbol.of_valor (fun _ => id) grown.mapa.arbol.cerrado ?_)
    intro q _
    rw [punteros_ponSize]
  · intro i below
    rw [bytes, grown.bytes i (below.trans grows), if_pos below]
    rfl
  · intro i late below
    rw [bytes, grown.bytes i below, if_neg (by omega)]

/-- The third block of `/a` is block 13. -/
theorem agrandado_arma_el_archivo_tercero :
    ∃ d', truncarArchivo (volumen 0) imagenArchivoLargo [47, 97] 3000 = some (0, d') ∧
      Agrandado (volumen 0) 11 1100 3000 imagenArchivoLargo d' := by
  have asked : ∃ d1, getBloqueLibre (volumen 0) imagenArchivoLargo = some (13, d1) := by
    cases run : getBloqueLibre (volumen 0) imagenArchivoLargo with
    | none => exact absurd (congrArg Option.isSome run) (by decide +kernel)
    | some answer =>
      have number : (getBloqueLibre (volumen 0) imagenArchivoLargo).map Prod.fst = some 13 := by
        decide +kernel
      rw [run, Option.map_some, Option.some.injEq] at number
      exact ⟨answer.2, by rw [← number]⟩
  obtain ⟨d1, asked⟩ := asked
  have row : Reparte (volumen 0) imagenArchivoLargo [13] := ⟨d1, asked, trivial⟩
  refine agrandado_arma_el_archivo ⟨by decide, by decide, by decide⟩
    imagenArchivoLargo_nombra rfl imagenArchivoLargo_mapeado (by decide) (by decide) (by decide)
    (by decide) row (by decide +kernel) ?_
  refine ⟨by decide, by decide, by decide, fun b member r alive => ?_⟩
  obtain rfl := List.mem_singleton.mp member
  rcases vivo_dos alive with rfl | rfl <;> decide

end LosAltos.Rfs
