import LosAltos.Rfs.EntrySequence

/-!
# An entry leaves a directory

`eliminarEntradaDirectorio` (`funciones_rfs.c:1155-1199`) takes the length of the entry before the
one it removes from the walk, and that is 0 at the start of a block: the first entry of a block
that others share is taken for its own predecessor.
-/
namespace LosAltos.Rfs

open Lib

section
variable (sb : Superblock)

/-- The blocks below the size of `x` that it has. -/
def mapeados (d : Disco) (x : Nat) : List Nat :=
  (List.range (bloquesDe sb (d.inodo x).size.toNat)).filter fun k => bloqueLogico sb d x k ≠ 0

/-- What a walk through the mapped blocks of `x` sees, block by block. -/
def Vistas (d : Disco) (x : Nat) (ess : Nat → List DirEntry) : Prop :=
  ∀ k ∈ mapeados sb d x, (∀ e ∈ ess k, 0 < e.entryLen) ∧
    Entradas d (posicionarInicioBloque sb (bloqueLogico sb d x k)) 0 (tamanioDeBloque sb) (ess k)

/-- Every block of the image is in a group. -/
def Cubierta : Prop := sb.blocks ≤ sb.firstDataBlock + sb.blocksPerGroup * cantidadDeGrupos sb

instance : Decidable (Cubierta sb) := inferInstanceAs (Decidable (_ ≤ _))

/-- The sequence of `ess`, less the first entry called `nombre`. -/
def sinLaPrimera (d : Disco) (x : Nat) (ess : Nat → List DirEntry) (nombre : Cadena) :
    List (Cadena × Nat) :=
  (((mapeados sb d x).flatMap ess).eraseP (·.llamada nombre)).map DirEntry.par

/-- The walk after the removal sees all other entries and no more. -/
def QuitaUna (d d' : Disco) (x : Nat) (ess : Nat → List DirEntry) (nombre : Cadena) : Prop :=
  ∃ ess', Vistas sb d' x ess' ∧
    paresDe (mapeados sb d' x) ess' = sinLaPrimera sb d x ess nombre

end

variable {sb : Superblock} {S : Nat → List Nat → Prop} {E : Nat → Prop} {d d' : Disco}
  {x y k l n : Nat} {ess ess' : Nat → List DirEntry} {e : DirEntry} {us vs : List DirEntry}
  {nombre : Cadena}

theorem range_partido (inside : k < n) : ∃ rest, List.range n = List.range k ++ k :: rest ∧
    ∀ l ∈ rest, l ≠ k ∧ l < n := by
  obtain ⟨m, rfl⟩ := Nat.exists_eq_add_of_lt inside
  refine ⟨(List.range m).map (k + 1 + ·), ?_, ?_⟩
  · rw [Nat.add_assoc, Nat.add_comm m 1, ← Nat.add_assoc, List.range_add, List.range_succ]
    simp
  · intro l member
    obtain ⟨i, below, rfl⟩ := List.mem_map.mp member
    have := List.mem_range.mp below
    omega

/-- The whole sequence around the block `k`. -/
theorem flatMap_partido {rest : List Nat} (split : List.range n = List.range k ++ k :: rest)
    (ess : Nat → List DirEntry) : (List.range n).flatMap ess =
      (List.range k).flatMap ess ++ (ess k ++ rest.flatMap ess) := by
  rw [split, List.flatMap_append, List.flatMap_cons]

theorem mapeados_todos (every : ∀ k < bloquesDe sb (d.inodo x).size.toNat,
    bloqueLogico sb d x k ≠ 0) :
    mapeados sb d x = List.range (bloquesDe sb (d.inodo x).size.toNat) := by
  apply List.filter_eq_self.mpr
  intro k member
  exact decide_eq_true (every k (List.mem_range.mp member))

/-- Deleting the first entry of a name from the sequence. -/
theorem eraseP_primera {rest : List Nat}
    (first : PrimeraEn (fun e => e.llamada nombre = true) n ess k us e vs)
    (split : List.range n = List.range k ++ k :: rest) :
    ((List.range n).flatMap ess).eraseP (·.llamada nombre) =
      (List.range k).flatMap ess ++ (us ++ (vs ++ rest.flatMap ess)) := by
  have before : ∀ u ∈ (List.range k).flatMap ess ++ us, ¬u.llamada nombre = true := by
    intro u member
    rcases List.mem_append.mp member with earlier | here
    · obtain ⟨l, below, inner⟩ := List.mem_flatMap.mp earlier
      exact first.previos l (List.mem_range.mp below) u inner
    · exact first.antes u here
  have shape : (List.range n).flatMap ess =
      ((List.range k).flatMap ess ++ us) ++ e :: (vs ++ rest.flatMap ess) := by
    rw [flatMap_partido split, first.bloque]
    simp
  have here : e.llamada nombre = true := first.aqui
  rw [shape, List.eraseP_append_right _ before, List.eraseP_cons, here, cond_true,
    List.append_assoc]

/-! ### The block of the entry is written -/

section
variable (geo : Geometria sb) (valid : esInodo sb x) (obra : Obra sb (deTamanio sb d) E d)
  (chains : Cadenas sb d x (bloquesDe sb (d.inodo x).size.toNat) ess)

include valid chains in
theorem deTamanio_bloque (owned : k < bloquesDe sb (d.inodo x).size.toNat) :
    deTamanio sb d x (camino (ptrsPorBloque sb) k) :=
  (deTamanio_vivo valid _).mpr ⟨k, owned, inicia_camino (chains k owned).1⟩

include valid obra chains in
theorem mapeados_cadenas : mapeados sb d x = List.range (bloquesDe sb (d.inodo x).size.toNat) :=
  mapeados_todos fun _ owned => (obra.libro.usado_of_mem (deTamanio_bloque valid chains owned)).1

include valid obra chains in
/-- After an edit of the block of the entry, that block decides. -/
theorem quitaUna_edicion (edit : Edita sb (deTamanio sb d) E x k d d')
    (size : (d'.inodo x).size = (d.inodo x).size)
    (first : PrimeraEn (fun e => e.llamada nombre = true) (bloquesDe sb (d.inodo x).size.toNat) ess
      k us e vs) :
    QuitaUna sb d d' x ess nombre ↔ ∃ es, (∀ u ∈ es, 0 < u.entryLen) ∧
      Entradas d' (posicionarInicioBloque sb (bloqueLogico sb d x k)) 0 (tamanioDeBloque sb) es ∧
      es.map DirEntry.par = us.map DirEntry.par ++ vs.map DirEntry.par := by
  have bound := (chains k first.dentro).1
  have member := deTamanio_bloque valid chains first.dentro
  have place : ∀ l < bloquesDe sb (d.inodo x).size.toNat,
      bloqueLogico sb d' x l = bloqueLogico sb d x l := fun l owned =>
    edit.valor x _ (deTamanio_bloque valid chains owned)
  have before := mapeados_cadenas valid obra chains
  have after : mapeados sb d' x = List.range (bloquesDe sb (d.inodo x).size.toNat) := by
    rw [← size]
    refine mapeados_todos fun l owned => ?_
    rw [size] at owned
    rw [place l owned]
    exact (obra.libro.usado_of_mem (deTamanio_bloque valid chains owned)).1
  -- the other blocks are walked as before
  have others : ∀ l < bloquesDe sb (d.inodo x).size.toNat, l ≠ k →
      (∀ u ∈ ess l, 0 < u.entryLen) ∧ Entradas d'
        (posicionarInicioBloque sb (bloqueLogico sb d' x l)) 0 (tamanioDeBloque sb) (ess l) := by
    intro l owned other
    obtain ⟨limit, sound, chain⟩ := chains l owned
    refine ⟨fun u inner => (sound u inner).positive,
      (edit.conserva obra member bound).entradas ?_ sound chain⟩
    exact ⟨limit, deTamanio_bloque valid chains owned, fun same => other same.2⟩
  obtain ⟨rest, split, later⟩ := range_partido first.dentro
  have earlier : ∀ l ∈ List.range k, l ≠ k ∧ l < bloquesDe sb (d.inodo x).size.toNat := by
    intro l below
    have := List.mem_range.mp below
    have := first.dentro
    omega
  rw [QuitaUna, sinLaPrimera, before, after, eraseP_primera first split]
  constructor
  · rintro ⟨ess', seen, pairs⟩
    have same : ∀ ls : List Nat, (∀ l ∈ ls, l ≠ k ∧ l < bloquesDe sb (d.inodo x).size.toNat) →
        ls.flatMap ess' = ls.flatMap ess := by
      intro ls inner
      refine List.flatMap_congr fun l listed => ?_
      obtain ⟨other, owned⟩ := inner l listed
      obtain ⟨positive, chain⟩ := seen l (after ▸ List.mem_range.mpr owned)
      obtain ⟨positive', chain'⟩ := others l owned other
      exact chain.unico chain' positive positive'
    obtain ⟨positive, chain⟩ := seen k (after ▸ List.mem_range.mpr first.dentro)
    rw [place k first.dentro] at chain
    refine ⟨ess' k, positive, chain, ?_⟩
    rw [paresDe, flatMap_partido split, same _ earlier, same _ later] at pairs
    simp only [List.map_append] at pairs
    have tail := List.append_cancel_left pairs
    rw [← List.append_assoc] at tail
    exact List.append_cancel_right tail
  · rintro ⟨es, positive, chain, pairs⟩
    refine ⟨fun l => if l = k then es else ess l, ?_, ?_⟩
    · intro l listed
      rw [after] at listed
      have owned := List.mem_range.mp listed
      by_cases here : l = k
      · subst here
        simp only [↓reduceIte]
        rw [place l owned]
        exact ⟨positive, chain⟩
      · simp only [here, ↓reduceIte]
        exact others l owned here
    · have same : ∀ ls : List Nat, (∀ l ∈ ls, l ≠ k ∧ l < bloquesDe sb (d.inodo x).size.toNat) →
          ls.flatMap (fun l => if l = k then es else ess l) = ls.flatMap ess := fun ls inner =>
        List.flatMap_congr fun l listed => if_neg (inner l listed).1
      rw [paresDe, flatMap_partido split, same _ earlier, same _ later, if_pos rfl]
      simp only [List.map_append, pairs, List.append_assoc]

/-! ### The block of the entry is freed -/

include geo in
theorem liberarBloque_vuelve (covered : Cubierta sb) {slot : Slot} (nonzero : leerSlot d slot ≠ 0)
    (inside : leerSlot d slot < sb.blocks) : ∃ d', liberarBloque sb d slot = some d' := by
  have start := geo.primero_le
  have small := geo.blocks_lt
  have group : resta32 (leerSlot d slot) sb.firstDataBlock / sb.blocksPerGroup <
      cantidadDeGrupos sb := by
    rw [resta32_of_le (by omega) (by omega)]
    apply Nat.div_lt_of_lt_mul
    rw [Cubierta] at covered
    omega
  have there : leerGroupDescriptor sb d
      (resta32 (leerSlot d slot) sb.firstDataBlock / sb.blocksPerGroup) =
        some (d.grupo (resta32 (leerSlot d slot) sb.firstDataBlock / sb.blocksPerGroup)) :=
    if_pos group
  exact ⟨_, Option.bind_eq_some_iff.mpr ⟨_, there, rfl⟩⟩

/-- Every other block of the directory is where it was, and the one freed is not mapped. -/
theorem liberarBloque_bloques (geo : Geometria sb) (valid : esInodo sb x)
    (obra : Obra sb (deTamanio sb d) E d)
    (chains : Cadenas sb d x (bloquesDe sb (d.inodo x).size.toNat) ess)
    (owned : k < bloquesDe sb (d.inodo x).size.toNat)
    (run : liberarBloque sb d (slotDe sb d x (camino (ptrsPorBloque sb) k)) = some d') :
    bloqueLogico sb d' x k = 0 ∧ (d'.inodo x).size = (d.inodo x).size ∧
      Conserva sb (fun y l => y = x ∧ l < bloquesDe sb (d.inodo x).size.toNat ∧ l ≠ k) d d' := by
  have bound := (chains k owned).1
  have member := deTamanio_bloque valid chains owned
  have starts := inicia_camino bound
  have leaf : ∀ j, ¬deTamanio sb d x (j :: camino (ptrsPorBloque sb) k) := by
    intro j inner
    obtain ⟨m, -, inside⟩ := ((deTamanio_vivo valid _).mp inner)
    exact camino_leaf bound inside
  obtain ⟨i, p, shape⟩ := List.exists_cons_of_ne_nil starts.ne_nil
  rw [bloqueLogico, shape]
  rw [shape] at member leaf run starts
  obtain ⟨zero, size⟩ := liberarBloque_cero geo obra member leaf run
  obtain ⟨d1, solo, rfl⟩ := liberarBloque_solo run
  have pointers : punteros sb d1 = punteros sb d := solo.punteros
  refine ⟨zero, size, ?_, ?_⟩
  · rintro y l ⟨rfl, inside, other⟩
    have libro := obra.libro
    rw [← pointers] at libro
    rw [← solo.slotDe]
    have pone := pone_grabarSlot geo d1
      (fun filled => libro.rango y p (libro.parent_of_mem member filled))
      (libro.width_of_mem member) (show 0 < 2 ^ 32 by omega)
    have kept := libro.valor_leaf pone member leaf y (camino (ptrsPorBloque sb) l)
      ⟨deTamanio_bloque valid chains inside, fun same =>
        other (camino_inj bound (chains l inside).1 (by rw [shape]; exact same.2))⟩
    rw [bloqueLogico, bloqueLogico, kept, pointers]
  · rintro y l ⟨rfl, inside, other⟩ j below
    have bytes : (grabarSlot d1 (slotDe sb d y (i :: p)) 0).mem =
        (grabarSlot d (slotDe sb d y (i :: p)) 0).mem := by
      cases slotDe sb d y (i :: p) with
      | inodo z t => exact solo.mem
      | disco dir => simp only [grabarSlot, Disco.copia, solo.mem]
    rw [bytes]
    exact grabarSlot_datos geo obra (fun filled => ⟨obra.libro.parent_of_mem member filled,
      obra.libro.width_of_mem member filled⟩) starts (chains l inside).1
      (deTamanio_bloque valid chains inside) below

include geo valid obra chains in
/-- An entry alone in its block goes with it. -/
theorem quitaUna_sola
    (first : PrimeraEn (fun e => e.llamada nombre = true) (bloquesDe sb (d.inodo x).size.toNat) ess
      k [] e [])
    (run : liberarBloque sb d (slotDe sb d x (camino (ptrsPorBloque sb) k)) = some d') :
    QuitaUna sb d d' x ess nombre := by
  obtain ⟨zero, size, kept⟩ := liberarBloque_bloques geo valid obra chains first.dentro run
  have others : ∀ l < bloquesDe sb (d.inodo x).size.toNat, l ≠ k → bloqueLogico sb d' x l ≠ 0 := by
    intro l owned other
    rw [kept.lugar x l ⟨rfl, owned, other⟩]
    exact (obra.libro.usado_of_mem (deTamanio_bloque valid chains owned)).1
  obtain ⟨rest, split, later⟩ := range_partido first.dentro
  have earlier : ∀ l ∈ List.range k, l ≠ k ∧ l < bloquesDe sb (d.inodo x).size.toNat := by
    intro l below
    have := List.mem_range.mp below
    have := first.dentro
    omega
  have after : mapeados sb d' x = List.range k ++ rest := by
    have keep : ∀ ls : List Nat, (∀ l ∈ ls, l ≠ k ∧ l < bloquesDe sb (d.inodo x).size.toNat) →
        (ls.filter fun l => bloqueLogico sb d' x l ≠ 0) = ls := fun ls inner =>
      List.filter_eq_self.mpr fun l listed =>
        decide_eq_true (others l (inner l listed).2 (inner l listed).1)
    rw [mapeados, size, split, List.filter_append, List.filter_cons, keep _ earlier, keep _ later]
    simp [zero]
  refine ⟨ess, fun l listed => ?_, ?_⟩
  · rw [after] at listed
    obtain ⟨other, owned⟩ := (List.mem_append.mp listed).elim (earlier l) (later l)
    obtain ⟨-, sound, chain⟩ := chains l owned
    exact ⟨fun u inner => (sound u inner).positive, kept.entradas ⟨rfl, owned, other⟩ sound chain⟩
  · rw [paresDe, after, sinLaPrimera, mapeados_cadenas valid obra chains,
      eraseP_primera first split, List.flatMap_append]
    rfl

/-! ### The three cases -/

/-- A walk that starts at twice the length of the first entry of a block sees, behind the pair of
that entry, what the block had behind it. -/
def SeRepite (sb : Superblock) (d : Disco) (x k : Nat) (e : DirEntry) (vs : List DirEntry) : Prop :=
  ∃ ws, (∀ w ∈ ws, 0 < w.entryLen) ∧
    Entradas d (posicionarInicioBloque sb (bloqueLogico sb d x k)) (e.entryLen + e.entryLen)
      (tamanioDeBloque sb) ws ∧
    e.par :: ws.map DirEntry.par = vs.map DirEntry.par

theorem append_primera {p : DirEntry → Prop} {us' vs' : List DirEntry} {e' : DirEntry}
    (same : us ++ e :: vs = us' ++ e' :: vs') (before : ∀ u ∈ us, ¬p u) (here : p e)
    (before' : ∀ u ∈ us', ¬p u) (here' : p e') : us = us' ∧ e = e' ∧ vs = vs' := by
  induction us generalizing us' with
  | nil =>
    cases us' with
    | nil =>
      obtain ⟨rfl, rfl⟩ := List.cons.inj same
      exact ⟨rfl, rfl, rfl⟩
    | cons u us' =>
      obtain ⟨rfl, -⟩ := List.cons.inj same
      exact absurd here (before' e (List.mem_cons_self ..))
  | cons u us ih =>
    cases us' with
    | nil =>
      obtain ⟨rfl, -⟩ := List.cons.inj same
      exact absurd here' (before u (List.mem_cons_self ..))
    | cons u' us' =>
      obtain ⟨rfl, rest⟩ := List.cons.inj same
      obtain ⟨rfl, rfl, rfl⟩ := ih rest (fun w member => before w (List.mem_cons_of_mem _ member))
        fun w member => before' w (List.mem_cons_of_mem _ member)
      exact ⟨rfl, rfl, rfl⟩

theorem PrimeraEn.unica {p : DirEntry → Prop} {k' : Nat} {us' vs' : List DirEntry} {e' : DirEntry}
    (one : PrimeraEn p n ess k us e vs) (other : PrimeraEn p n ess k' us' e' vs') :
    k = k' ∧ us = us' ∧ e = e' ∧ vs = vs' := by
  have memberE : e ∈ ess k := by simp [one.bloque]
  have memberE' : e' ∈ ess k' := by simp [other.bloque]
  rcases Nat.lt_trichotomy k k' with less | rfl | more
  · exact absurd one.aqui (other.previos k less e memberE)
  · exact ⟨rfl, append_primera (one.bloque.symm.trans other.bloque) one.antes one.aqui other.antes
      other.aqui⟩
  · exact absurd other.aqui (one.previos k' more e' memberE')

include geo chains in
/-- The search answers the first entry of the name. -/
theorem buscarEntrada_primera
    (first : PrimeraEn (fun e => e.llamada nombre = true) (bloquesDe sb (d.inodo x).size.toNat) ess
      k us e vs) :
    ∃ desp anterior, buscarEntrada sb d x (·.llamada nombre) = some (some (k, desp, anterior, e)) ∧
      Hallada sb d (posicionarInicioBloque sb (bloqueLogico sb d x k)) desp e us vs ∧
      (us = [] ∧ anterior = 0 ∨ ∃ ws w, us = ws ++ [w] ∧ anterior = w.entryLen) := by
  obtain ⟨k', desp, anterior, e', search⟩ := buscarEntrada_encuentra geo chains
    (p := fun e => DirEntry.llamada e nombre) ⟨k, first.dentro, e, by simp [first.bloque], first.aqui⟩
  obtain ⟨owned, found, before⟩ := buscarEntrada_cadenas geo chains search
  obtain ⟨-, sound, chain⟩ := chains k' owned
  obtain ⟨us', vs', shape, holds, others, ahead, here, behind, last⟩ := primera_entradas chain found
  have again : PrimeraEn (fun e => e.llamada nombre = true) (bloquesDe sb (d.inodo x).size.toNat) ess
      k' us' e' vs' := ⟨owned, shape, before, others, holds⟩
  obtain ⟨rfl, rfl, rfl, rfl⟩ := first.unica again
  exact ⟨desp, anterior, search, ⟨ahead, here, behind, shape ▸ sound⟩, last⟩

end

/-- An entry as long as the block is alone in it. -/
theorem Hallada.sola {inicio : Int} {desp : Nat} (found : Hallada sb d inicio desp e us vs)
    (alone : e.entryLen = tamanioDeBloque sb) : us = [] ∧ vs = [] := by
  have inside := found.inside
  have before := found.antes.length_le fun u member => (found.sanas u (by simp [member])).positive
  have after := found.despues.length_le fun u member => (found.sanas u (by simp [member])).positive
  exact ⟨List.eq_nil_of_length_eq_zero (by omega), List.eq_nil_of_length_eq_zero (by omega)⟩

/-- The removal of an entry removes that entry only, unless it is the first of a block that it
shares: then it stays and hides the next ones. -/
theorem quitar_una_entrada (geo : Geometria sb) (covered : Cubierta sb) (owner : Duenio sb d)
    (valid : esInodo sb x) (chains : Cadenas sb d x (bloquesDe sb (d.inodo x).size.toNat) ess)
    (first : PrimeraEn (fun e => e.llamada nombre = true) (bloquesDe sb (d.inodo x).size.toNat) ess
      k us e vs) :
    ∃ d', eliminarEntradaDirectorio sb d x nombre = some d' ∧
      (QuitaUna sb d d' x ess nombre ↔
        us ≠ [] ∨ e.entryLen = tamanioDeBloque sb ∨ SeRepite sb d x k e vs) := by
  obtain ⟨E, obra⟩ := owner
  obtain ⟨desp, anterior, search, found, last⟩ := buscarEntrada_primera geo chains first
  have bound := (chains k first.dentro).1
  have member := deTamanio_bloque valid chains first.dentro
  have inside := found.inside
  by_cases alone : e.entryLen = tamanioDeBloque sb
  · -- nothing else fits in the block
    obtain ⟨rfl, rfl⟩ : us = [] ∧ vs = [] := found.sola alone
    have noted : Obra sb (deTamanio sb (d.anota .vacia)) E (d.anota .vacia) :=
      obra.con_libro (.anota d .vacia) obra.libro
    obtain ⟨i, p, shape⟩ := List.exists_cons_of_ne_nil (inicia_camino bound).ne_nil
    have word : leerSlot (d.anota .vacia) (slotDe sb d x (camino (ptrsPorBloque sb) k)) =
        (punteros sb d).valor x (camino (ptrsPorBloque sb) k) := by
      rw [shape]
      exact leerSlot_slotDe sb d x i p
    obtain ⟨d', freed⟩ := liberarBloque_vuelve geo covered
      (word ▸ (obra.libro.usado_of_mem member).1) (word ▸ obra.libro.rango x _ member)
    have gone : QuitaUna sb (d.anota .vacia) d' x ess nombre :=
      quitaUna_sola geo valid noted chains first freed
    refine ⟨d', ?_, iff_of_true gone (.inr (.inl alone))⟩
    refine Option.bind_eq_some_iff.mpr ⟨_, search, (if_pos alone).trans ?_⟩
    exact Option.bind_eq_some_iff.mpr ⟨_, getPtr_camino d x bound, freed⟩
  · have place := posicionarme_iff.mpr
      (⟨bound, rfl⟩ : k < alcance sb ∧ _ = posicionarInicioBloque sb (bloqueLogico sb d x k))
    have run : ∀ {previa}, entradaEn d (posicionarInicioBloque sb (bloqueLogico sb d x k))
        (desp - anterior) = previa → eliminarEntradaDirectorio sb d x nombre =
          some (grabarEntrada d (posicionarInicioBloque sb (bloqueLogico sb d x k)) (desp - anterior)
            { previa with entryLen := previa.entryLen + e.entryLen }) := by
      rintro previa rfl
      refine Option.bind_eq_some_iff.mpr ⟨_, search, (if_neg alone).trans ?_⟩
      exact Option.bind_eq_some_iff.mpr ⟨_, place, rfl⟩
    rcases last with ⟨rfl, rfl⟩ | ⟨ws, w, rfl, rfl⟩
    · obtain rfl := Tramo.nil_iff.mp found.antes
      refine ⟨_, run found.aqui, ?_⟩
      have edit := Edita.alarga geo obra (deTamanio_vivo valid) bound first.dentro
        (e.entryLen + e.entryLen) found.aqui found.sana inside
      rw [quitaUna_edicion valid obra chains edit rfl first, or_iff_right (not_not.mpr rfl),
        or_iff_right alone, SeRepite]
      constructor
      · rintro ⟨es, positive, chain, pairs⟩
        obtain ⟨ws, rfl, rest⟩ := (entradas_doblada_iff geo found es).mp chain
        exact ⟨ws, fun w listed => positive w (List.mem_cons_of_mem _ listed), rest, pairs⟩
      · rintro ⟨ws, positive, rest, pairs⟩
        refine ⟨_, fun u listed => ?_, (entradas_doblada_iff geo found _).mpr ⟨ws, rfl, rest⟩, pairs⟩
        rcases List.mem_cons.mp listed with rfl | later
        · exact Nat.add_pos_left found.sana.positive _
        · exact positive u later
    · obtain ⟨here, after, nonzero, sound, chain⟩ := entradas_unida geo found
      have edit := Edita.alarga geo obra (deTamanio_vivo valid) bound first.dentro
        (w.entryLen + e.entryLen) here (found.sanas w (by simp)) (by omega)
      refine ⟨_, run here, ?_⟩
      rw [quitaUna_edicion valid obra chains edit rfl first]
      refine iff_of_true ⟨_, fun u listed => (sound u listed).positive, chain, ?_⟩ (.inl (by simp))
      simp [DirEntry.par]

/-- The entry of `/a` goes to the one of `..` before it. -/
theorem quitar_una_entrada_a : ∃ d',
    eliminarEntradaDirectorio (volumen 0) (imagenConArchivo 0) 2 [97] = some d' ∧
      QuitaUna (volumen 0) (imagenConArchivo 0) d' 2
        (fun _ => [⟨2, 12, 1, 0, [46]⟩, ⟨2, 12, 2, 0, [46, 46]⟩, ⟨11, 1000, 1, 0, [97]⟩]) [97] := by
  have start := imagenConArchivo_consistente (.inl rfl)
  have first : PrimeraEn (fun e => e.llamada [97] = true)
      (bloquesDe (volumen 0) ((imagenConArchivo 0).inodo 2).size.toNat)
      (fun _ => [⟨2, 12, 1, 0, [46]⟩, ⟨2, 12, 2, 0, [46, 46]⟩, ⟨11, 1000, 1, 0, [97]⟩]) 0
      [⟨2, 12, 1, 0, [46]⟩, ⟨2, 12, 2, 0, [46, 46]⟩] ⟨11, 1000, 1, 0, [97]⟩ [] :=
    ⟨by decide, rfl, fun l below => absurd below (Nat.not_lt_zero l), by decide, by decide⟩
  obtain ⟨d', run, exact_iff⟩ := quitar_una_entrada (start.geometria (by decide)) (by decide)
    start.duenio ⟨by decide, by decide⟩ imagenConArchivo_cadenas first
  exact ⟨d', run, exact_iff.mpr (.inl (by decide))⟩

/-- The second block of the root directory of `imagenDosBloques` has two entries, `b` and `c`. -/
def imagenBloqueCompartido : Disco :=
  { imagenDosBloques with
    mem := escribir imagenDosBloques.mem (posicionarInicioBloque (volumen 0) 12)
      (DirEntry.bytes ⟨12, 12, 1, 0, [98]⟩ ++ [0, 0, 0] ++ DirEntry.bytes ⟨12, 1012, 1, 0, [99]⟩) }

theorem imagenBloqueCompartido_consistente : Consistente (volumen 0) imagenBloqueCompartido :=
  imagenDosBloques_consistente.otra_memoria _ fun _ _ reached => by
    rcases alcanza_imagenDosBloques reached with ⟨-, rfl | rfl⟩ | ⟨-, rfl⟩
    exacts [⟨0, rfl⟩, ⟨1, rfl⟩, ⟨0, rfl⟩]

/-- The entries of the root directory of `imagenBloqueCompartido`. -/
def entradasCompartidas (k : Nat) : List DirEntry :=
  if k = 0 then [⟨2, 12, 1, 0, [46]⟩, ⟨2, 12, 2, 0, [46, 46]⟩, ⟨11, 1000, 1, 0, [97]⟩]
  else [⟨12, 12, 1, 0, [98]⟩, ⟨12, 1012, 1, 0, [99]⟩]

theorem imagenBloqueCompartido_cadenas : Cadenas (volumen 0) imagenBloqueCompartido 2
    (bloquesDe (volumen 0) (imagenBloqueCompartido.inodo 2).size.toNat) entradasCompartidas := by
  intro k below
  have size : bloquesDe (volumen 0) (imagenBloqueCompartido.inodo 2).size.toNat = 2 := rfl
  rcases (by omega : k = 0 ∨ k = 1) with rfl | rfl
  all_goals exact ⟨by decide, by decide, by decide +kernel⟩

/-- Removing `b` makes it twice as long: `c` is lost and the walk does not end. -/
theorem entrada_doblada : ¬∀ (sb : Superblock) (d : Disco) (x : Nat) (ess : Nat → List DirEntry)
    (nombre : Cadena), Consistente sb d → sb.blocks * tamanioDeBloque sb < 2 ^ 32 → Cubierta sb →
    asignado sb d x → Cadenas sb d x (bloquesDe sb (d.inodo x).size.toNat) ess →
    (∃ k < bloquesDe sb (d.inodo x).size.toNat, ∃ e ∈ ess k, e.llamada nombre = true) →
    ∃ d', eliminarEntradaDirectorio sb d x nombre = some d' ∧ QuitaUna sb d d' x ess nombre := by
  intro all
  obtain ⟨d', run, ess', seen, -⟩ := all (volumen 0) imagenBloqueCompartido 2 entradasCompartidas
    [98] imagenBloqueCompartido_consistente (by decide) (by decide) ⟨⟨by decide, by decide⟩, rfl⟩
    imagenBloqueCompartido_cadenas ⟨1, by decide, by decide⟩
  have lengths : (eliminarEntradaDirectorio (volumen 0) imagenBloqueCompartido 2 [98]).map (fun d =>
      (mapeados (volumen 0) d 2, bloqueLogico (volumen 0) d 2 1, [0, 24].map fun desp =>
        (entradaEn d (posicionarInicioBloque (volumen 0) 12) desp).entryLen)) =
      some ([0, 1], 12, [24, 0]) := by decide +kernel
  rw [run] at lengths
  simp only [Option.map_some, Option.some.injEq, Prod.mk.injEq, List.map_cons, List.map_nil,
    List.cons.injEq, and_true] at lengths
  obtain ⟨blocks, place, first, last⟩ := lengths
  obtain ⟨-, chain⟩ := seen 1 (blocks ▸ by decide)
  rw [place] at chain
  obtain ⟨es, chain⟩ := chain.avanza (by decide)
  rw [first] at chain
  exact absurd (chain.sin_avance last) (by decide)

end LosAltos.Rfs
