import Mathlib.Data.List.GetD
import Mathlib.Data.List.Nodup

/-!
# Tables of chains

A hash table with one chain of elements for each remainder of the hash. An element is found by
its hash alone: the first one of its chain that has it.
-/
namespace LosAltos.Lib

variable {α : Type}

abbrev ChainTable (α : Type) := List (List (Nat × α))

namespace ChainTable

def chain (t : ChainTable α) (h : Nat) : List (Nat × α) := t.getD (h % t.length) []

def lookup (t : ChainTable α) (h : Nat) : Option α :=
  ((t.chain h).find? (·.1 == h)).map Prod.snd

/-- A new element at the end of its chain. -/
def append (t : ChainTable α) (h : Nat) (v : α) : ChainTable α :=
  t.modify (h % t.length) (· ++ [(h, v)])

/-- The first element with the hash goes. -/
def erase (t : ChainTable α) (h : Nat) : ChainTable α :=
  t.modify (h % t.length) (List.eraseP (·.1 == h))

/-- The elements, chain by chain, go into a table of `m` chains. -/
def refill (t : ChainTable α) (m : Nat) : ChainTable α :=
  t.flatten.foldl (fun s e => s.append e.1 e.2) (List.replicate m [])

/-- Elements are in the chain of their hash, and no hash is there twice. -/
structure WellPlaced (t : ChainTable α) : Prop where
  positive : 0 < t.length
  placed : ∀ i < t.length, ∀ e ∈ t.getD i [], e.1 % t.length = i
  unique : ∀ i < t.length, ((t.getD i []).map Prod.fst).Nodup

variable {t : ChainTable α} {h h' m : Nat} {v : α}

@[simp] theorem append_length : (t.append h v).length = t.length := List.length_modify ..

@[simp] theorem erase_length : (t.erase h).length = t.length := List.length_modify ..

theorem getD_modify (f : List (Nat × α) → List (Nat × α)) (i j : Nat) (inside : j < t.length) :
    (t.modify i f).getD j [] = if i = j then f (t.getD j []) else t.getD j [] := by
  simp only [List.getD_eq_getElem?_getD, List.getElem?_modify, List.getElem?_eq_getElem inside]
  split <;> simp

theorem chain_append (positive : 0 < t.length) :
    (t.append h v).chain h' =
      if h % t.length = h' % t.length then t.chain h' ++ [(h, v)] else t.chain h' := by
  rw [chain, append_length, append, getD_modify _ _ _ (Nat.mod_lt _ positive)]
  rfl

/-- A new element is found unless its hash was there. -/
theorem lookup_append (positive : 0 < t.length) :
    (t.append h v).lookup h' = (t.lookup h').or (if h = h' then some v else none) := by
  rw [lookup, lookup, chain_append positive]
  by_cases same : h = h'
  · subst same
    rw [if_pos rfl, if_pos rfl, List.find?_append]
    cases (t.chain h).find? (·.1 == h) <;> simp
  · rw [if_neg same, Option.or_none]
    split
    · rw [List.find?_append]
      cases (t.chain h').find? (·.1 == h') <;> simp [same]
    · rfl

theorem WellPlaced.append (ok : t.WellPlaced) (new : t.lookup h = none) :
    (t.append h v).WellPlaced where
  positive := by rw [append_length]; exact ok.positive
  placed i inside e member := by
    rw [append_length] at inside ⊢
    rw [ChainTable.append, getD_modify _ _ _ inside] at member
    split at member
    · rename_i here
      rcases List.mem_append.mp member with old | new
      · exact ok.placed i inside e old
      · rw [List.mem_singleton.mp new, here]
    · exact ok.placed i inside e member
  unique i inside := by
    rw [append_length] at inside
    rw [ChainTable.append, getD_modify _ _ _ inside]
    split
    · rename_i here
      rw [List.map_append, List.nodup_append]
      refine ⟨ok.unique i inside, by simp, fun a old b last => ?_⟩
      obtain ⟨e, member, rfl⟩ := List.mem_map.mp old
      simp only [List.map_cons, List.map_nil, List.mem_singleton] at last
      subst last
      intro same
      rw [lookup, Option.map_eq_none_iff, List.find?_eq_none] at new
      have absent := new e (by rw [chain, here]; exact member)
      simp [same] at absent
    · exact ok.unique i inside

theorem find?_eraseP_self {l : List (Nat × α)} (unique : (l.map Prod.fst).Nodup) :
    (l.eraseP (·.1 == h)).find? (·.1 == h) = none := by
  induction l with
  | nil => rfl
  | cons e l ih =>
    rw [List.map_cons, List.nodup_cons] at unique
    by_cases here : e.1 = h
    · rw [List.eraseP_cons_of_pos (by simp [here]), List.find?_eq_none]
      intro e' member same
      apply unique.1
      rw [here, ← (beq_iff_eq.mp same : e'.1 = h)]
      exact List.mem_map_of_mem member
    · rw [List.eraseP_cons_of_neg (by simp [here]), List.find?_cons_of_neg (by simp [here]),
        ih unique.2]

theorem find?_eraseP_other {l : List (Nat × α)} (other : h ≠ h') :
    (l.eraseP (·.1 == h)).find? (·.1 == h') = l.find? (·.1 == h') := by
  induction l with
  | nil => rfl
  | cons e l ih =>
    by_cases here : e.1 = h
    · rw [List.eraseP_cons_of_pos (by simp [here]), List.find?_cons_of_neg (by simp [here, other])]
    · rw [List.eraseP_cons_of_neg (by simp [here]), List.find?_cons, List.find?_cons, ih]

theorem lookup_erase (ok : t.WellPlaced) :
    (t.erase h).lookup h' = if h = h' then none else t.lookup h' := by
  have inside := Nat.mod_lt h' ok.positive
  rw [lookup, lookup, chain, chain, erase_length, erase, getD_modify _ _ _ inside]
  by_cases same : h = h'
  · subst same
    rw [if_pos rfl, if_pos rfl, find?_eraseP_self (ok.unique _ inside)]
    rfl
  · rw [if_neg same]
    split
    · rw [find?_eraseP_other same]
    · rfl

theorem WellPlaced.erase (ok : t.WellPlaced) : (t.erase h).WellPlaced where
  positive := by rw [erase_length]; exact ok.positive
  placed i inside e member := by
    rw [erase_length] at inside ⊢
    rw [ChainTable.erase, getD_modify _ _ _ inside] at member
    split at member
    · exact ok.placed i inside e (List.mem_of_mem_eraseP member)
    · exact ok.placed i inside e member
  unique i inside := by
    rw [erase_length] at inside
    rw [ChainTable.erase, getD_modify _ _ _ inside]
    split
    · exact (ok.unique i inside).sublist (List.Sublist.map _ List.eraseP_sublist)
    · exact ok.unique i inside

/-! ### A table of another size -/

theorem getD_replicate_nil (i : Nat) :
    (List.replicate m ([] : List (Nat × α))).getD i [] = [] := by
  rw [List.getD_eq_getElem?_getD, List.getElem?_replicate]
  split <;> rfl

theorem wellPlaced_replicate (positive : 0 < m) :
    WellPlaced (List.replicate m ([] : List (Nat × α))) where
  positive := by rwa [List.length_replicate]
  placed i _ e member := by
    rw [getD_replicate_nil] at member
    cases member
  unique i _ := by
    rw [getD_replicate_nil]
    exact List.nodup_nil

theorem mem_flatten_iff {e : Nat × α} :
    e ∈ t.flatten ↔ ∃ i < t.length, e ∈ t.getD i [] := by
  rw [List.mem_flatten]
  constructor
  · rintro ⟨l, member, inside⟩
    obtain ⟨i, below, rfl⟩ := List.mem_iff_getElem.mp member
    refine ⟨i, below, ?_⟩
    rwa [List.getD_eq_getElem _ _ below]
  · rintro ⟨i, below, inside⟩
    rw [List.getD_eq_getElem _ _ below] at inside
    exact ⟨_, List.getElem_mem below, inside⟩

/-- No hash is twice in the whole table. -/
theorem WellPlaced.nodup (ok : t.WellPlaced) : (t.flatten.map Prod.fst).Nodup := by
  rw [List.map_flatten, List.nodup_flatten]
  constructor
  · intro l member
    obtain ⟨c, inside, rfl⟩ := List.mem_map.mp member
    obtain ⟨i, below, rfl⟩ := List.mem_iff_getElem.mp inside
    have chain := ok.unique i below
    rwa [List.getD_eq_getElem _ _ below] at chain
  · rw [List.pairwise_map, List.pairwise_iff_getElem]
    intro i j hi hj less a left right
    obtain ⟨e, inside, rfl⟩ := List.mem_map.mp left
    obtain ⟨e', inside', same⟩ := List.mem_map.mp right
    have first := ok.placed i hi e (by rwa [List.getD_eq_getElem _ _ hi])
    have second := ok.placed j hj e' (by rwa [List.getD_eq_getElem _ _ hj])
    rw [same, first] at second
    omega

theorem find?_eq_some_of_mem {l : List (Nat × α)} (unique : (l.map Prod.fst).Nodup)
    {e : Nat × α} (member : e ∈ l) : l.find? (·.1 == e.1) = some e := by
  induction l with
  | nil => cases member
  | cons a l ih =>
    rw [List.map_cons, List.nodup_cons] at unique
    rcases List.mem_cons.mp member with rfl | inner
    · exact List.find?_cons_of_pos (by simp)
    · have other : a.1 ≠ e.1 := fun same => unique.1 (same ▸ List.mem_map_of_mem inner)
      rw [List.find?_cons_of_neg (by simpa using other), ih unique.2 inner]

/-- A search through all the chains finds what the chain of the hash has. -/
theorem WellPlaced.find?_flatten (ok : t.WellPlaced) (h : Nat) :
    t.flatten.find? (·.1 == h) = (t.chain h).find? (·.1 == h) := by
  have inside := Nat.mod_lt h ok.positive
  cases found : (t.chain h).find? (·.1 == h) with
  | some e =>
    have member : e ∈ t.flatten :=
      mem_flatten_iff.mpr ⟨_, inside, List.mem_of_find?_eq_some found⟩
    have hash : e.1 = h := by simpa using List.find?_some found
    rw [← hash]
    exact find?_eq_some_of_mem ok.nodup member
  | none =>
    rw [List.find?_eq_none] at found ⊢
    intro e member same
    obtain ⟨i, below, there⟩ := mem_flatten_iff.mp member
    have place := ok.placed i below e there
    rw [beq_iff_eq.mp same] at place
    exact found e (by rw [chain, place]; exact there) same

section
variable {s : ChainTable α} {es : List (Nat × α)}

theorem lookup_foldl (positive : 0 < s.length) (h : Nat) :
    (es.foldl (fun s e => s.append e.1 e.2) s).lookup h =
      (s.lookup h).or ((es.find? (·.1 == h)).map Prod.snd) := by
  induction es generalizing s with
  | nil => simp
  | cons e es ih =>
    rw [List.foldl_cons, ih (by rwa [append_length]), lookup_append positive, Option.or_assoc]
    by_cases here : e.1 = h
    · rw [if_pos here, List.find?_cons_of_pos (by simp [here])]
      rfl
    · rw [if_neg here, List.find?_cons_of_neg (by simp [here]), Option.none_or]

theorem WellPlaced.foldl (ok : s.WellPlaced) (unique : (es.map Prod.fst).Nodup)
    (new : ∀ e ∈ es, s.lookup e.1 = none) :
    WellPlaced (es.foldl (fun s e => s.append e.1 e.2) s) := by
  induction es generalizing s with
  | nil => exact ok
  | cons e es ih =>
    rw [List.map_cons, List.nodup_cons] at unique
    refine ih (ok.append (new e List.mem_cons_self)) unique.2 fun e' member => ?_
    have other : e.1 ≠ e'.1 := fun same => unique.1 (same ▸ List.mem_map_of_mem member)
    rw [lookup_append ok.positive, new e' (List.mem_cons_of_mem e member), if_neg other]
    rfl

end

theorem lookup_refill (ok : t.WellPlaced) (positive : 0 < m) (h : Nat) :
    (t.refill m).lookup h = t.lookup h := by
  have empty : lookup (List.replicate m ([] : List (Nat × α))) h = none := by
    rw [lookup, chain, getD_replicate_nil]
    rfl
  rw [refill, lookup_foldl (by rwa [List.length_replicate]), empty, Option.none_or,
    ok.find?_flatten, lookup]

theorem WellPlaced.refill (ok : t.WellPlaced) (positive : 0 < m) : (t.refill m).WellPlaced := by
  refine (wellPlaced_replicate positive).foldl ok.nodup fun e _ => ?_
  rw [lookup, chain, getD_replicate_nil]
  rfl

end ChainTable

end LosAltos.Lib
