import LosAltos.Rfs.FileBytes

/-!
# The cached blocks of a removed file

`rfs/src/memcached_uses.c:29-56, 106-129`, called from `main_rfs.c:406-426`. The keys are the
numbers from the one of the first block of the file to the one of the last; the blocks in between
may be anywhere on the disk.
-/
namespace LosAltos.Rfs

open Lib

variable {sb : Superblock} {s : Servidor} {path : Cadena} {x k : Nat}

section
variable (sb : Superblock)

/-- The last logical block of a file that is not empty. -/
def ultimoBloque (d : Disco) (x : Nat) : Nat :=
  nroBloqueDentroDelInodo sb ((d.inodo x).size.toNat - 1)

/-- What an unlink expects: the call returns, and no block of the file is cached. -/
def Purga (s : Servidor) (path : Cadena) (x : Nat) : Prop :=
  ∃ s', deleteMemcached sb s path = some s' ∧
    ∀ k < bloquesDe sb (s.disco.inodo x).size.toNat, s'.cache (bloqueLogico sb s.disco x k) = none

end

theorem getInodoDeLaDireccionDelPath_eq
    (found : getNroInodoDeLaDireccionDelPath sb s.disco path = some x) (valid : esInodo sb x) :
    getInodoDeLaDireccionDelPath sb s.disco path = some (some x) := by
  have nonzero : x ≠ 0 := by
    have := valid.1
    omega
  rw [getInodoDeLaDireccionDelPath, found, Option.bind_eq_bind, Option.bind_some, if_neg nonzero,
    getInodo_of_esInodo valid]

theorem leerSlot_camino (bound : k < alcance sb) : ∃ slot,
    getPtrNroBloqueLogicoDentroInodo sb s.disco x k = some slot ∧
      leerSlot s.disco slot = bloqueLogico sb s.disco x k := by
  obtain ⟨i, p, shape⟩ := List.exists_cons_of_ne_nil (inicia_camino bound).ne_nil
  refine ⟨_, getPtr_camino s.disco x bound, ?_⟩
  rw [bloqueLogico, shape, leerSlot_slotDe]

theorem deleteMemcached_eq (log : sb.logBlockSize ≤ 2)
    (found : getNroInodoDeLaDireccionDelPath sb s.disco path = some x) (valid : esInodo sb x) :
    deleteMemcached sb s path =
      if (s.disco.inodo x).size = 0 ∨
          bloqueLogico sb s.disco x (ultimoBloque sb s.disco x) = 2 ^ 32 - 1 then none
      else some { s with
        cache := fun b =>
          if bloqueLogico sb s.disco x 0 ≤ b ∧
            b ≤ bloqueLogico sb s.disco x (ultimoBloque sb s.disco x) then none
          else s.cache b } := by
  have file : (s.disco.inodo x).size.toNat < 2 ^ 32 := UInt32.toNat_lt _
  have empty : (s.disco.inodo x).size.toNat = 0 ↔ (s.disco.inodo x).size = 0 := by
    rw [← UInt32.toNat_inj]
    rfl
  obtain ⟨first, start, initial⟩ := leerSlot_camino (s := s) (x := x)
    (nroBloque_lt_alcance log (k := 0) (by decide))
  have inside : ultimoBloque sb s.disco x < alcance sb := nroBloque_lt_alcance log (by omega)
  obtain ⟨last, finish, final⟩ := leerSlot_camino (s := s) (x := x) inside
  have last_eq : nroBloqueDentroDelInodo sb ((s.disco.inodo x).size.toNat - 1) =
    ultimoBloque sb s.disco x := rfl
  rw [Nat.zero_div] at start initial
  rw [deleteMemcached, getInodoDeLaDireccionDelPath_eq found valid]
  simp only [Option.bind_eq_bind, Option.bind_some, empty, last_eq, finish, final]
  simp only [nroBloqueDentroDelInodo, Nat.zero_div, start, initial, Option.bind_some]
  by_cases nothing : (s.disco.inodo x).size = 0
  · rw [if_pos nothing, if_pos (.inl nothing)]
  · rw [if_neg nothing]
    by_cases largest : bloqueLogico sb s.disco x (ultimoBloque sb s.disco x) = 2 ^ 32 - 1
    · rw [if_pos largest, if_pos (.inr largest)]
    · rw [if_neg largest, if_neg (not_or.mpr ⟨nothing, largest⟩)]

/-- The blocks of the file leave the cache exactly when it has one, the number of the last one is
not the largest `uint32_t`, and those in the cache are numbered between the first and the last. -/
theorem purga_iff (log : sb.logBlockSize ≤ 2)
    (found : getNroInodoDeLaDireccionDelPath sb s.disco path = some x) (valid : esInodo sb x) :
    Purga sb s path x ↔ (s.disco.inodo x).size ≠ 0 ∧
      bloqueLogico sb s.disco x (ultimoBloque sb s.disco x) ≠ 2 ^ 32 - 1 ∧
      ∀ k < bloquesDe sb (s.disco.inodo x).size.toNat,
        s.cache (bloqueLogico sb s.disco x k) ≠ none →
        bloqueLogico sb s.disco x 0 ≤ bloqueLogico sb s.disco x k ∧
          bloqueLogico sb s.disco x k ≤
            bloqueLogico sb s.disco x (ultimoBloque sb s.disco x) := by
  rw [Purga, deleteMemcached_eq log found valid]
  generalize bloqueLogico sb s.disco x (ultimoBloque sb s.disco x) = final
  constructor
  · rintro ⟨s', run, purged⟩
    split at run
    · cases run
    · rename_i returns
      obtain ⟨filled, smaller⟩ := not_or.mp returns
      cases run
      refine ⟨filled, smaller, fun k block cached => ?_⟩
      by_contra outside
      exact cached (by simpa [outside] using purged k block)
  · rintro ⟨filled, smaller, between⟩
    rw [if_neg (not_or.mpr ⟨filled, smaller⟩)]
    refine ⟨_, rfl, fun k block => ?_⟩
    by_cases cached : s.cache (bloqueLogico sb s.disco x k) = none
    · simp [cached]
    · exact if_pos (between k block cached)

/-- Every block is cached. -/
def servidorConCache (d : Disco) : Servidor := { servidorDe d with cache := fun _ => some [] }

/-- The file is in the blocks 11 and 12. -/
theorem purga_once_y_doce : Purga (volumen 0) (servidorConCache imagenArchivoLargo) [47, 97] 11 := by
  refine (purga_iff (by decide) imagenArchivoLargo_path ⟨by decide, by decide⟩).mpr
    ⟨by decide, by decide, fun k block _ => ?_⟩
  have two : k = 0 ∨ k = 1 := by
    have : k < 2 := block
    omega
  rcases two with rfl | rfl <;> decide

/-- The file `/a` is in blocks 12 and 11. -/
def imagenAlReves : Disco :=
  { imagenArchivoLargo with
    inodo := fun x =>
      if x = 11 then
        ⟨S_IFREG, 1100, 1, 4, fun i => if i = 0 then 12 else if i = 1 then 11 else 0⟩
      else imagenArchivoLargo.inodo x }

/-- Nothing is deleted for blocks 12 and 11, and there is no call that returns for an empty
file. -/
theorem bloques_que_quedan :
    (¬∀ (sb : Superblock) (s : Servidor) (path : Cadena) (x : Nat), sb.logBlockSize ≤ 2 →
      getNroInodoDeLaDireccionDelPath sb s.disco path = some x → esInodo sb x →
      (s.disco.inodo x).mode = S_IFREG → (s.disco.inodo x).size ≠ 0 → Purga sb s path x) ∧
    ¬∀ (sb : Superblock) (s : Servidor) (path : Cadena) (x : Nat), sb.logBlockSize ≤ 2 →
      getNroInodoDeLaDireccionDelPath sb s.disco path = some x → esInodo sb x →
      (s.disco.inodo x).mode = S_IFREG → (s.disco.inodo x).size = 0 → Purga sb s path x := by
  constructor
  · intro all
    have right := all (volumen 0) (servidorConCache imagenAlReves) [47, 97] 11 (by decide)
      (by decide +kernel) ⟨by decide, by decide⟩ rfl (by decide)
    obtain ⟨s', run, purged⟩ := right
    rw [deleteMemcached_eq (x := 11) (by decide) (by decide +kernel) ⟨by decide, by decide⟩,
      if_neg (by decide)] at run
    cases run
    exact absurd (purged 0 (by decide)) (by decide)
  · intro all
    obtain ⟨s', run, -⟩ := all (volumen 0) (servidorConCache (ponSize imagenArchivoLargo 11 0))
      [47, 97] 11 (by decide) (by decide +kernel) ⟨by decide, by decide⟩ rfl rfl
    rw [deleteMemcached_eq (x := 11) (by decide) (by decide +kernel) ⟨by decide, by decide⟩,
      if_pos (.inl rfl)] at run
    cases run

end LosAltos.Rfs
