import LosAltos.Rfs.FileWrites

/-!
# Blocks in the remote cache

`traerBloque`, `grabarBloque` and the loops of `serve_read` and `serve_write`
(`main_rfs.c:126-152, 234-373`, `funciones_rfs.c:1375-1413`) with the cache on or off. Where every
cached block is the block of the disk, a read takes the bytes of the disk, a write into blocks
the file has leaves the disk it leaves without the cache, and cached blocks stay those of the
disk.
-/
namespace LosAltos.Rfs

open Lib

/-- Every block the cache gives for the image is the one of the disk. -/
def Coherente (sb : Superblock) (cacheActive : Bool) (s : Servidor) : Prop :=
  ∀ b < sb.blocks, ∀ bloque, deCache cacheActive s b = some bloque →
    bloque = traerBloqueDeDisco sb s.disco b

variable {sb : Superblock} {x b offset size n w : Nat} {data : List UInt8}
  {cacheActive : Bool} {s t : Servidor}

namespace Coherente

theorem apagada (s : Servidor) : Coherente sb false s := by
  intro b bound bloque cached
  cases cached

theorem vacia (empty : ∀ b, s.cache b = none) : Coherente sb cacheActive s := by
  intro b bound bloque cached
  unfold deCache at cached
  rw [empty, ite_self] at cached
  cases cached

/-! ### Reads -/

theorem traerBloque (coherent : Coherente sb cacheActive s) (bound : b < sb.blocks) :
    Rfs.traerBloque sb cacheActive s b = traerBloqueDeDisco sb s.disco b := by
  unfold Rfs.traerBloque
  cases cached : deCache cacheActive s b with
  | none => rfl
  | some bloque => exact coherent b bound bloque cached

/-- A block of the disk goes into the cache. -/
theorem guardarBloque (coherent : Coherente sb cacheActive s) :
    Coherente sb cacheActive
      (Rfs.guardarBloque cacheActive s b (traerBloqueDeDisco sb s.disco b)) := by
  cases cacheActive with
  | false => exact apagada _
  | true =>
    intro c bound bloque cached
    change (if c = b then some (traerBloqueDeDisco sb s.disco b) else s.cache c) = some bloque
      at cached
    by_cases here : c = b
    · rw [if_pos here] at cached
      rw [← Option.some.inj cached, here]
      rfl
    · rw [if_neg here] at cached
      exact coherent c bound bloque cached

end Coherente

theorem guardarBloque_disco (cacheActive : Bool) (s : Servidor) (b : Nat) (bloque : List UInt8) :
    (guardarBloque cacheActive s b bloque).disco = s.disco := by
  unfold guardarBloque
  cases cacheActive <;> rfl

/-- The blocks of a read are those of the disk. -/
theorem Coherente.traerBloques (coherent : Coherente sb cacheActive s) (bs : List Nat)
    (bound : ∀ b ∈ bs, b < sb.blocks) :
    ∃ s', Rfs.traerBloques sb cacheActive s bs = (bs.map (traerBloqueDeDisco sb s.disco), s') ∧
      s'.disco = s.disco ∧ Coherente sb cacheActive s' := by
  induction bs generalizing s with
  | nil => exact ⟨s, rfl, rfl, coherent⟩
  | cons b bs ih =>
    have first : Rfs.traerBloque sb cacheActive s b = traerBloqueDeDisco sb s.disco b :=
      coherent.traerBloque (bound b (List.mem_cons_self ..))
    have others : ∀ c ∈ bs, c < sb.blocks := fun c member => bound c (List.mem_cons_of_mem _ member)
    unfold Rfs.traerBloques
    rw [first]
    by_cases there : (deCache cacheActive s b).isSome
    · obtain ⟨s', blocks, disk, kept⟩ := ih coherent others
      simp only [if_pos there, blocks]
      exact ⟨s', rfl, disk, kept⟩
    · have same := guardarBloque_disco cacheActive s b
        (traerBloqueDeDisco sb s.disco b)
      obtain ⟨s', blocks, disk, kept⟩ := ih (coherent.guardarBloque (b := b)) others
      rw [same] at blocks disk
      simp only [if_neg there, blocks]
      exact ⟨s', rfl, disk, kept⟩

/-- `serve_read` takes the bytes of the disk, from the cache or not. -/
theorem Coherente.serveRead {path : Cadena} (coherent : Coherente sb cacheActive s)
    (log : sb.logBlockSize ≤ 2)
    (found : getNroInodoDeLaDireccionDelPath sb s.disco path = some x) (valid : esInodo sb x)
    (same : bytesALeer (s.disco.inodo x).size.toNat offset size = n)
    (bound : n ≠ 0 → ∀ l, offset / tamanioDeBloque sb ≤ l →
      l ≤ resta32 (offset + n) 1 / tamanioDeBloque sb → bloqueLogico sb s.disco x l < sb.blocks)
    {out : List UInt8} (read : loLeido sb s.disco x size offset = some out) :
    ∃ s', Rfs.serveRead sb cacheActive s path size offset = some (s', [.readResponse out]) ∧
      s'.disco = s.disco ∧ Coherente sb cacheActive s' := by
  have node : getInodo sb x = some (some x) := by
    simp [getInodo, valid.2, Nat.not_lt.mpr valid.1]
  have disk : (s.bloquear x).disco = s.disco := rfl
  unfold loLeido at read
  simp only [Rfs.serveRead, found, node, Option.bind_eq_bind, Option.bind_some, disk, same]
  rw [same] at read
  by_cases nothing : n = 0
  · rw [tramo, if_pos (.inl nothing), Option.map_some] at read
    rw [if_pos nothing, ← Option.some.inj read]
    exact ⟨_, rfl, rfl, coherent⟩
  · have kept : Coherente sb cacheActive (s.bloquear x) := coherent
    obtain ⟨s', blocks, left, after⟩ := kept.traerBloques
      ((List.range' (offset / tamanioDeBloque sb) (resta32 (offset + n) 1 /
        tamanioDeBloque sb + 1 - offset / tamanioDeBloque sb)).map (bloqueLogico sb s.disco x))
      fun b member => by
        obtain ⟨l, listed, rfl⟩ := List.mem_map.mp member
        have ends := List.mem_range'_1.mp listed
        exact bound nothing l ends.1 (by omega)
    have copies := @juntarBloques_tramo sb s.disco x offset n log nothing
    rw [read] at copies
    rw [if_neg nothing, numerosDeBloques_eq log, Option.bind_some, blocks, disk, List.map_map,
      Function.comp_def, copies]
    exact ⟨s'.bloquear x, rfl, left, after⟩

/-! ### Writes -/

theorem leer_grabado {mem : Memoria} {inicio : Int} {bloque : List UInt8}
    (length : bloque.length = tamanioDeBloque sb) :
    leer (escribir mem inicio (bloque.take (tamanioDeBloque sb))) inicio (tamanioDeBloque sb) =
      bloque := by
  have back := leer_escribir_self mem inicio bloque
  rwa [List.take_of_length_le length.le, ← length]

/-- The block written is the cached one, and the others are not touched. -/
theorem Coherente.grabarBloque (coherent : Coherente sb cacheActive s) (geo : Geometria sb)
    (bound : b < sb.blocks) {bloque : List UInt8} (length : bloque.length = tamanioDeBloque sb) :
    Coherente sb cacheActive (Rfs.grabarBloque sb cacheActive s b bloque) := by
  cases cacheActive with
  | false => exact apagada _
  | true =>
    intro c below other cached
    change (if c = b then some bloque else s.cache c) = some other at cached
    change other = leer (escribir s.disco.mem (posicionarInicioBloque sb b)
      (bloque.take (tamanioDeBloque sb))) (posicionarInicioBloque sb c) (tamanioDeBloque sb)
    by_cases here : c = b
    · rw [if_pos here] at cached
      rw [here, leer_grabado length, Option.some.inj cached]
    · rw [if_neg here] at cached
      have far := geo.apart below bound here
      rw [leer_escribir_disjoint, coherent c below other cached]
      · rfl
      · rw [List.take_of_length_le length.le, length]
        exact far

theorem ponerEnBloque_length {base bytes : List UInt8} {pos : Nat}
    (fits : pos + bytes.length ≤ base.length) :
    (ponerEnBloque base pos bytes).length = base.length := by
  simp only [ponerEnBloque, List.length_append, List.length_take, List.length_drop]
  omega

/-- What goes into a block fits, also where the count wraps. -/
theorem trozo_entra {B pos : Nat} (inner : pos < B) :
    pos + min (if (w + (B - pos)) % 2 ^ 32 > size then resta32 size w else B - pos) (size - w) ≤
      B := by
  by_cases past : (w + (B - pos)) % 2 ^ 32 > size
  · rw [if_pos past]
    have unwrapped := Nat.mod_le (w + (B - pos)) (2 ^ 32)
    have short := Nat.min_le_right (resta32 size w) (size - w)
    omega
  · rw [if_neg past]
    have short := Nat.min_le_left (B - pos) (size - w)
    omega

/-- The loop of a write, with the cache and without. -/
theorem Coherente.escribirBloques {bs : List Nat} (coherent : Coherente sb cacheActive s)
    (geo : Geometria sb) (length : data.length = size) (bound : ∀ b ∈ bs, b < sb.blocks)
    (same : s.disco = t.disco) {t' : Servidor} {total : Nat}
    (run : Rfs.escribirBloques sb false data size offset t w bs = (t', total)) :
    ∃ s', Rfs.escribirBloques sb cacheActive data size offset s w bs = (s', total) ∧
      s'.disco = t'.disco ∧ Coherente sb cacheActive s' := by
  induction bs generalizing s t w with
  | nil =>
    cases run
    exact ⟨s, rfl, same, coherent⟩
  | cons b bs ih =>
    have here := bound b (List.mem_cons_self ..)
    have cached : Rfs.traerBloque sb cacheActive s b = traerBloqueDeDisco sb s.disco b :=
      coherent.traerBloque here
    have plain : Rfs.traerBloque sb false t b = traerBloqueDeDisco sb s.disco b := by
      rw [same]
      rfl
    unfold Rfs.escribirBloques at run ⊢
    dsimp only at run ⊢
    rw [plain] at run
    rw [cached]
    generalize pos_eq : desplazamientoDentroDelBloque sb ((offset + w) % 2 ^ 32) = pos at run ⊢
    generalize taken : (if (w + (tamanioDeBloque sb - pos)) % 2 ^ 32 > size then resta32 size w
      else tamanioDeBloque sb - pos) = n at run ⊢
    generalize base_eq : (if pos ≠ 0 ∨ n ≠ tamanioDeBloque sb then
      traerBloqueDeDisco sb s.disco b else List.replicate (tamanioDeBloque sb) 0) = base at run ⊢
    have whole : base.length = tamanioDeBloque sb := by
      rw [← base_eq]
      split <;> simp
    have inner : pos < tamanioDeBloque sb := by
      rw [← pos_eq]
      exact Nat.mod_lt _ (tamanioDeBloque_pos sb)
    have fits : pos + ((data.drop w).take n).length ≤ base.length := by
      rw [whole, List.length_take, List.length_drop, length, ← taken]
      exact trozo_entra inner
    have full := (ponerEnBloque_length fits).trans whole
    refine ih (coherent.grabarBloque geo here full)
      (fun c member => bound c (List.mem_cons_of_mem _ member)) ?_ run
    unfold Rfs.grabarBloque
    simp only [Servidor.ponDisco, guardarBloque_disco, same]

/-- A write into blocks the file already has, with the cache on or off. -/
theorem Coherente.serveWrite {path : Cadena} (coherent : Coherente sb cacheActive s)
    (geo : Geometria sb)
    (found : getNroInodoDeLaDireccionDelPath sb s.disco path = some x) (valid : esInodo sb x)
    (length : data.length = size) (some_bytes : 0 < size) (limit : offset + size < 2 ^ 32)
    (counted : (offset + size - 1) / tamanioDeBloque sb < cantidadDeBloques sb (s.disco.inodo x))
    (reach : n ≤ alcance sb) (inside : (offset + size - 1) / tamanioDeBloque sb < n)
    (distinct : BloquesDistintos sb s.disco x n)
    (mapped : ∀ k < n, Mapeada sb s.disco x (camino (ptrsPorBloque sb) k)) :
    ∃ s', Rfs.serveWrite sb cacheActive s path data size offset = some (s', [.ok]) ∧
      EscribeSolo sb x n data offset s.disco s'.disco ∧ Coherente sb cacheActive s' := by
  have node : getInodo sb x = some (some x) := by
    simp [getInodo, valid.2, Nat.not_lt.mpr valid.1]
  have last : resta32 (offset + size) 1 = offset + size - 1 := resta32_uno (by omega) (by omega)
  have order : offset / tamanioDeBloque sb ≤ (offset + size - 1) / tamanioDeBloque sb :=
    Nat.div_le_div_right (by omega)
  have touched : ∀ i < size, (offset + i) / tamanioDeBloque sb < n := fun i below =>
    lt_of_le_of_lt (Nat.div_le_div_right (by omega)) inside
  have small := sin_vuelta geo some_bytes limit reach inside distinct
    fun l _ ends => mapped l (by omega)
  obtain ⟨t', plain, written⟩ := escribirBloques_escrito (f := bloqueLogico sb s.disco x)
    (s := s.bloquear x) (w := 0)
    (m := (offset + size - 1) / tamanioDeBloque sb - offset / tamanioDeBloque sb) geo length limit
    small (fun l first ends => distinct.lt reach (by omega) (mapped l (by omega)))
    (fun l r first less ends => distinct.ne reach (by omega) (by omega) (mapped l (by omega))
      (mapped r (by omega)) (by omega)) rfl some_bytes (Nat.add_sub_cancel' order)
  rw [Nat.add_zero] at plain
  have kept : Coherente sb cacheActive (s.bloquear x) := coherent
  obtain ⟨s', run, disk, after⟩ := kept.escribirBloques geo length (fun b member => by
    obtain ⟨l, listed, rfl⟩ := List.mem_map.mp member
    have ends := List.mem_range'_1.mp listed
    exact distinct.lt reach (by omega) (mapped l (by omega))) rfl plain
  refine ⟨s'.bloquear x, ?_, ?_, after⟩
  · apply Option.bind_eq_some_iff.mpr ⟨x, found, ?_⟩
    apply Option.bind_eq_some_iff.mpr ⟨some x, node, ?_⟩
    apply Option.bind_eq_some_iff.mpr ⟨x, rfl, ?_⟩
    apply Option.bind_eq_some_iff.mpr ⟨s.disco, ?_, ?_⟩
    · rw [last, nroBloqueDentroDelInodo, vueltasMaximas_succ]
      exact agregarHasta_fin counted
    apply Option.bind_eq_some_iff.mpr ⟨_, numerosDeBloques_eq geo.bloque, ?_⟩
    rw [last, Nat.sub_add_comm order]
    rw [show (s.bloquear x).ponDisco s.disco = s.bloquear x from rfl, run]
    simp
  · change EscribeSolo sb x n data offset s.disco s'.disco
    rw [disk]
    exact escribeSolo (s := s.bloquear x) geo length reach distinct touched
      (fun i below => mapped _ (touched i below)) written

end LosAltos.Rfs
