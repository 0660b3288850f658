import LosAltos.Commons.ListView

/-!
# Lists filled from others

The loops of `list_add_all`, `list_filter`, `list_map`, `list_take` and `list_take_and_remove`. A
loop over a list goes on well while its elements stay in their place; one that adds to the list it
goes over never ends.
-/
namespace LosAltos.Commons

open Lib

variable {α : Type} {celdas : Nat → List (Nat × Option α)} {m m' : Memoria α} {v : Vista α} {k l n : Nat}
  {xs ys : List (Option α)} {c pre suf : List (Nat × Option α)} {e : Nat × Option α} {a : Nat}
  {x : Option α} {condition : Option α → Bool}

/-! ### Loops that add to a list -/

/-- A loop over the elements of a list, whose turns keep them in their place. -/
theorem listIterateFrom_invariante {β : Type} {closure : Option α → Memoria α → Option (Memoria α)}
    (P : β → Memoria α → Prop) (paso : β → Option α → β) {z : β}
    (enlazada : ∀ z m, P z m → Linked m.elementos none c)
    (turno : ∀ x z m, P z m → ∃ m', closure x m = some m' ∧ P (paso z x) m')
    (parts : c = pre ++ suf) (turns : suf.length ≤ k) (holds : P z m) :
    ∃ m', Memoria.listIterateFrom closure k (first suf none) m = some m' ∧
      P ((suf.map Prod.snd).foldl paso z) m' := by
  induction suf generalizing pre k m z with
  | nil => exact ⟨m, by cases k <;> rfl, holds⟩
  | cons e suf ih =>
    rw [List.length_cons] at turns
    obtain ⟨j, rfl⟩ : ∃ j, k = j + 1 := ⟨k - 1, by omega⟩
    obtain ⟨m1, closed, kept⟩ := turno e.2 z m holds
    have before := enlazada z m holds
    have behind := enlazada _ m1 kept
    rw [parts] at before behind
    have parts : c = (pre ++ [e]) ++ suf := by rw [parts, List.append_cons]
    have shorter : suf.length ≤ j := by omega
    obtain ⟨m', iterated, last⟩ := ih parts shorter kept
    refine ⟨m', ?_, last⟩
    rw [first, Memoria.listIterateFrom]
    simp only [before.cell, Option.bind_eq_bind, Option.bind_some, closed, behind.cell]
    exact iterated

/-- The closure adds some data to the list `l`, wherever it is called. -/
def Agrega (l : Nat) (closure : Option α → Memoria α → Option (Memoria α))
    (nuevos : Option α → List (Option α)) : Prop :=
  ∀ x celdas m v zs, Sostiene celdas m v → v.listas l = some zs → ∃ c m',
    closure x m = some m' ∧ Sostiene (Function.update celdas l c) m' (v.pon l (zs ++ nuevos x))

theorem agrega_listAdd (l : Nat) (f : Option α → Option α) :
    Agrega l (fun x m => (m.listAdd l (f x)).map Prod.snd) (fun x => [f x]) := by
  intro x celdas m v zs s viva
  obtain ⟨m', added, kept⟩ := listAdd_sostiene s viva (f x)
  refine ⟨_, m', ?_, kept⟩
  dsimp only
  rw [added]
  rfl

theorem agrega_si (l : Nat) (condition : Option α → Bool) :
    Agrega l (fun x m => if condition x then (m.listAdd l x).map Prod.snd else some m)
      (fun x => if condition x then [x] else []) := by
  intro x celdas m v zs s viva
  dsimp only
  split
  · exact agrega_listAdd l id x celdas m v zs s viva
  · refine ⟨celdas l, m, rfl, ?_⟩
    rwa [Function.update_eq_self, List.append_nil, Vista.pon_mismo viva]

/-- A list `l` is filled from what another one holds. -/
theorem listIterate_llena {o : Nat} {zs : List (Option α)} (s : Sostiene celdas m v)
    (viva : v.listas o = some ys) (destino : v.listas l = some zs) (other : o ≠ l)
    (turns : ys.length ≤ k) {closure : Option α → Memoria α → Option (Memoria α)}
    {nuevos : Option α → List (Option α)} (agrega : Agrega l closure nuevos) :
    ∃ m', m.listIterate k o closure = some m' ∧
      Representa m' (v.pon l (zs ++ ys.flatMap nuevos)) := by
  have size := s.largo viva
  have enlazada : ∀ zs m, (∃ celdas', Sostiene celdas' m (v.pon l zs) ∧ celdas' o = celdas o) →
      Linked m.elementos none (celdas o) := by
    rintro zs m ⟨celdas', kept, same⟩
    rw [← same]
    exact kept.cadenas.linked o
  have vuelta : ∀ x zs m, (∃ celdas', Sostiene celdas' m (v.pon l zs) ∧ celdas' o = celdas o) →
      ∃ m', closure x m = some m' ∧
        ∃ celdas', Sostiene celdas' m' (v.pon l (zs ++ nuevos x)) ∧ celdas' o = celdas o := by
    rintro x zs m ⟨celdas', kept, same⟩
    obtain ⟨c, m', closed, after⟩ := agrega x celdas' m _ zs kept Vista.listas_pon
    rw [Vista.pon_pon] at after
    exact ⟨m', closed, _, after, by rw [Function.update_of_ne other, same]⟩
  have parts : celdas o = [] ++ celdas o := rfl
  obtain ⟨m', iterated, celdas', kept, -⟩ := listIterateFrom_invariante _
    (fun zs x => zs ++ nuevos x) enlazada vuelta parts (by omega : _ ≤ k)
    ⟨celdas, by rwa [Vista.pon_mismo destino], rfl⟩
  rw [Memoria.listIterate, s.lista viva]
  refine ⟨m', iterated, celdas', ?_⟩
  rw [s.dato viva] at kept
  have filled : ∀ (ys zs : List (Option α)),
      ys.foldl (fun zs x => zs ++ nuevos x) zs = zs ++ ys.flatMap nuevos := by
    intro ys
    induction ys with
    | nil => simp
    | cons y ys ih =>
      intro zs
      rw [List.foldl_cons, ih, List.flatMap_cons, List.append_assoc]
  rwa [filled] at kept

theorem listAddAll_otra {o : Nat} (s : Sostiene celdas m v) (viva : v.listas l = some xs)
    (origen : v.listas o = some ys) (other : o ≠ l) (turns : ys.length ≤ k) :
    ∃ m', m.listAddAll k l o = some m' ∧ Representa m' (v.pon l (xs ++ ys)) := by
  obtain ⟨m', iterated, kept⟩ :=
    listIterate_llena s origen viva other turns (agrega_listAdd l id)
  have same : ys.flatMap (fun x => [id x]) = ys := List.flatMap_singleton' ys
  rw [same] at kept
  exact ⟨m', iterated, kept⟩

theorem listAddAll_vacia (s : Sostiene celdas m v) (origen : v.listas l = some []) {o : Nat} :
    m.listAddAll k o l = some m := by
  have empty : celdas l = [] := List.map_eq_nil_iff.mp (s.dato origen)
  rw [Memoria.listAddAll, Memoria.listIterate, s.lista origen, empty]
  cases k <;> rfl

/-- Each element added to the list it comes from is one more to add. -/
theorem listIterateFrom_misma (s : Sostiene celdas m v) (viva : v.listas l = some xs)
    (member : e ∈ celdas l) :
    Memoria.listIterateFrom (fun x m => (m.listAdd l x).map Prod.snd) k (some e.1) m = none := by
  induction k generalizing m v celdas xs e with
  | zero => rfl
  | succ k ih =>
    obtain ⟨pre, suf, parts⟩ := List.append_of_mem member
    obtain ⟨m1, added, kept⟩ := listAdd_sostiene s viva e.2
    have more : Function.update celdas l (celdas l ++ [(m.proximoElemento, e.2)]) l =
        pre ++ e :: (suf ++ [(m.proximoElemento, e.2)]) := by
      rw [Function.update_self, parts]
      simp
    have follows : ∃ d, first (suf ++ [(m.proximoElemento, e.2)]) none = some d.1 ∧
        d ∈ Function.update celdas l (celdas l ++ [(m.proximoElemento, e.2)]) l := by
      rw [more]
      cases suf with
      | nil => exact ⟨_, rfl, by simp⟩
      | cons d suf => exact ⟨d, rfl, by simp⟩
    obtain ⟨d, next, there⟩ := follows
    rw [Memoria.listIterateFrom, s.celda parts]
    simp only [Option.bind_eq_bind, Option.bind_some, added, Option.map_some, kept.celda more, next]
    exact ih kept Vista.listas_pon there

theorem listAddAll_misma (s : Sostiene celdas m v) (viva : v.listas l = some xs)
    (llena : xs ≠ []) : m.listAddAll k l l = none := by
  have data := s.dato viva
  rw [Memoria.listAddAll, Memoria.listIterate, s.lista viva]
  cases parts : celdas l with
  | nil =>
    rw [parts] at data
    exact absurd data.symm llena
  | cons e c => exact listIterateFrom_misma s viva (by rw [parts]; exact List.mem_cons_self)

theorem flatMap_filtra (xs : List (Option α)) (condition : Option α → Bool) :
    (xs.flatMap fun x => if condition x then [x] else []) = xs.filter condition := by
  induction xs with
  | nil => rfl
  | cons x xs ih =>
    rw [List.flatMap_cons, ih, List.filter_cons]
    split <;> rfl

theorem nueva_otra (s : Sostiene celdas m v) (viva : v.listas l = some xs) : l ≠ v.proxima := by
  rintro rfl
  rw [s.nuevas _ (Nat.le_refl _)] at viva
  cases viva

theorem listas_nueva (s : Sostiene celdas m v) (viva : v.listas l = some xs) :
    (v.nueva ys).listas l = some xs := by
  have other := nueva_otra s viva
  exact (Vista.listas_pon_otra other).trans viva

theorem listFilter_sostiene (s : Sostiene celdas m v) (viva : v.listas l = some xs)
    (turns : xs.length ≤ k) (condition : Option α → Bool) :
    ∃ m', m.listFilter k l condition = some (v.proxima, m') ∧
      Representa m' (v.nueva (xs.filter condition)) := by
  obtain ⟨place, -, s1⟩ := s.crea
  obtain ⟨m', iterated, kept⟩ := listIterate_llena s1 (listas_nueva s viva) Vista.listas_pon
    (nueva_otra s viva) turns (agrega_si v.proxima condition)
  rw [flatMap_filtra, List.nil_append, Vista.nueva_pon] at kept
  have unfolded : m.listFilter k l condition = (m.listCreate.2.listIterate k l fun x n =>
      if condition x then (n.listAdd m.listCreate.1 x).map Prod.snd else some n).map
        (m.listCreate.1, ·) := rfl
  rw [unfolded, place, iterated]
  exact ⟨m', rfl, kept⟩

theorem listMap_sostiene (s : Sostiene celdas m v) (viva : v.listas l = some xs)
    (turns : xs.length ≤ k) (transformer : Option α → Option α) :
    ∃ m', m.listMap k l transformer = some (v.proxima, m') ∧
      Representa m' (v.nueva (xs.map transformer)) := by
  obtain ⟨place, -, s1⟩ := s.crea
  obtain ⟨m', iterated, kept⟩ := listIterate_llena s1 (listas_nueva s viva) Vista.listas_pon
    (nueva_otra s viva) turns (agrega_listAdd v.proxima transformer)
  have mapped : xs.flatMap (fun x => [transformer x]) = xs.map transformer :=
    List.map_eq_flatMap.symm
  rw [mapped, List.nil_append, Vista.nueva_pon] at kept
  have unfolded : m.listMap k l transformer = (m.listCreate.2.listIterate k l fun x n =>
      (n.listAdd m.listCreate.1 (transformer x)).map Prod.snd).map (m.listCreate.1, ·) := rfl
  rw [unfolded, place, iterated]
  exact ⟨m', rfl, kept⟩

/-! ### Taking the first elements -/

theorem primeros_cons (x : Option α) (xs : List (Option α)) (n : Nat) :
    primeros (x :: xs) (n + 1) = x :: primeros xs n := by
  rw [primeros, primeros, List.take_succ_cons, List.length_cons, Nat.add_sub_add_right]
  rfl

theorem primeros_nil (n : Nat) :
    primeros ([] : List (Option α)) (n + 1) = none :: primeros [] n := by
  simp [primeros, List.replicate_succ]

theorem listTakeFrom_sostiene {o i : Nat} {zs : List (Option α)} (s : Sostiene celdas m v)
    (viva : v.listas o = some ys) (destino : v.listas l = some zs) (other : o ≠ l) :
    ∃ m', Memoria.listTakeFrom o l n i m = some m' ∧
      Representa m' (v.pon l (zs ++ primeros (ys.drop i) n)) := by
  induction n generalizing m v celdas i zs with
  | zero =>
    refine ⟨m, rfl, celdas, ?_⟩
    rw [primeros, List.take_zero, Nat.zero_sub, List.replicate_zero, List.append_nil,
      List.append_nil, Vista.pon_mismo destino]
    exact s
  | succ n ih =>
    obtain ⟨m1, added, s1⟩ := listAdd_sostiene s destino (enIndice ys i)
    have origen : (v.pon l (zs ++ [enIndice ys i])).listas o = some ys :=
      (Vista.listas_pon_otra other).trans viva
    obtain ⟨m', taken, kept⟩ := ih (i := i + 1) s1 origen Vista.listas_pon
    rw [Vista.pon_pon, List.append_assoc] at kept
    have next : [enIndice ys i] ++ primeros (ys.drop (i + 1)) n = primeros (ys.drop i) (n + 1) := by
      rw [enIndice, if_pos (Int.natCast_nonneg _), Int.toNat_natCast]
      rcases Nat.lt_or_ge i ys.length with inside | outside
      · rw [List.drop_eq_getElem_cons inside, primeros_cons, List.getElem?_eq_getElem inside]
        rfl
      · rw [List.drop_eq_nil_of_le outside, List.drop_eq_nil_of_le (by omega), primeros_nil,
          List.getElem?_eq_none outside]
        rfl
    rw [next] at kept
    refine ⟨m', ?_, kept⟩
    rw [Memoria.listTakeFrom, listGet_eq s viva]
    simp only [Option.bind_eq_bind, Option.bind_some, added]
    exact taken

theorem listTake_sostiene (s : Sostiene celdas m v) (viva : v.listas l = some xs) (count : Int) :
    ∃ m', m.listTake l count = some (v.proxima, m') ∧
      Representa m' (v.nueva (primeros xs count.toNat)) := by
  obtain ⟨place, -, s1⟩ := s.crea
  obtain ⟨m', taken, kept⟩ := listTakeFrom_sostiene (n := count.toNat) (i := 0) s1
    (listas_nueva s viva) Vista.listas_pon (nueva_otra s viva)
  rw [List.drop_zero, List.nil_append, Vista.nueva_pon] at kept
  have unfolded : m.listTake l count = (Memoria.listTakeFrom l m.listCreate.1 count.toNat 0
      m.listCreate.2).map (m.listCreate.1, ·) := rfl
  rw [unfolded, place, taken]
  exact ⟨m', rfl, kept⟩

theorem listTakeAndRemoveFrom_sostiene {o : Nat} {zs : List (Option α)} (s : Sostiene celdas m v)
    (viva : v.listas o = some ys) (destino : v.listas l = some zs) (other : o ≠ l) :
    ∃ m', Memoria.listTakeAndRemoveFrom o l n m = some m' ∧
      Representa m' ((v.pon o (ys.drop n)).pon l (zs ++ primeros ys n)) := by
  induction n generalizing m v celdas ys zs with
  | zero =>
    refine ⟨m, rfl, celdas, ?_⟩
    rw [primeros, List.take_zero, Nat.zero_sub, List.replicate_zero, List.append_nil,
      List.append_nil, List.drop_zero, Vista.pon_mismo viva, Vista.pon_mismo destino]
    exact s
  | succ n ih =>
    obtain ⟨m1, removed, celdas', s1⟩ := queuePop_sostiene s viva
    rw [← enIndice_cero, Memoria.queuePop] at removed
    rw [← List.drop_one] at s1
    have destino1 : (v.pon o (ys.drop 1)).listas l = some zs :=
      (Vista.listas_pon_otra other.symm).trans destino
    obtain ⟨m2, added, s2⟩ := listAdd_sostiene s1 destino1 (enIndice ys 0)
    have origen : ((v.pon o (ys.drop 1)).pon l (zs ++ [enIndice ys 0])).listas o =
        some (ys.drop 1) := (Vista.listas_pon_otra other).trans Vista.listas_pon
    obtain ⟨m', taken, kept⟩ := ih s2 origen Vista.listas_pon
    have next : enIndice ys 0 :: primeros (ys.drop 1) n = primeros ys (n + 1) := by
      cases ys with
      | nil => exact (primeros_nil n).symm
      | cons y ys => exact (primeros_cons y ys n).symm
    rw [Vista.pon_alternado other.symm, List.append_assoc, List.singleton_append, next,
      List.drop_drop] at kept
    refine ⟨m', ?_, ?_⟩
    · rw [Memoria.listTakeAndRemoveFrom, removed]
      simp only [Option.bind_eq_bind, Option.bind_some, added]
      exact taken
    · rwa [Nat.add_comm] at kept

theorem listTakeAndRemove_sostiene (s : Sostiene celdas m v) (viva : v.listas l = some xs)
    (count : Int) :
    ∃ m', m.listTakeAndRemove l count = some (v.proxima, m') ∧
      Representa m' ((v.pon l (xs.drop count.toNat)).nueva (primeros xs count.toNat)) := by
  obtain ⟨place, -, s1⟩ := s.crea
  have other := nueva_otra s viva
  obtain ⟨m', taken, kept⟩ := listTakeAndRemoveFrom_sostiene (n := count.toNat) s1
    (listas_nueva s viva) Vista.listas_pon other
  have same : ((v.nueva []).pon l (xs.drop count.toNat)).pon v.proxima (primeros xs count.toNat) =
      (v.pon l (xs.drop count.toNat)).nueva (primeros xs count.toNat) := by
    simp only [Vista.nueva, Vista.pon]
    rw [Function.update_comm other.symm, Function.update_idem]
  rw [List.nil_append, same] at kept
  have unfolded : m.listTakeAndRemove l count = (Memoria.listTakeAndRemoveFrom l m.listCreate.1
      count.toNat m.listCreate.2).map (m.listCreate.1, ·) := rfl
  rw [unfolded, place, taken]
  exact ⟨m', rfl, kept⟩

end LosAltos.Commons
