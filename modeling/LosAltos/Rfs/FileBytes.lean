import LosAltos.Rfs.Directories
import LosAltos.Rfs.Sessions

/-!
# Reading a file

`serve_read` (`main_rfs.c:234-304`, `funciones_rfs.c:376-384, 1360-1373`) against the bytes of
the file, with the cache off. A read takes whole blocks and cuts the first and the last one:
the first one is cut from its front only, by as much as the offset lies inside it, and the
length of a full block is copied from there.
-/
namespace LosAltos.Rfs

open Lib

section
variable (sb : Superblock)

/-- Byte `i` of the file `x`: no position wraps here. -/
def byteDe (d : Disco) (x i : Nat) : UInt8 :=
  d.mem (bloqueLogico sb d x (i / tamanioDeBloque sb) * tamanioDeBloque sb +
    i % tamanioDeBloque sb : Nat)

/-- The `n` bytes of the file from `offset` on. -/
def bytesDe (d : Disco) (x offset n : Nat) : List UInt8 :=
  (List.range n).map fun i => byteDe sb d x (offset + i)

/-- Byte `i` of the file where the server looks for it. -/
def byteLeido (d : Disco) (x i : Nat) : UInt8 :=
  d.mem (posicionarInicioBloque sb (bloqueLogico sb d x (i / tamanioDeBloque sb)) +
    (i % tamanioDeBloque sb : Nat))

def bytesLeidos (d : Disco) (x offset n : Nat) : List UInt8 :=
  (List.range n).map fun i => byteLeido sb d x (offset + i)

end

variable {sb : Superblock} {d : Disco} {x k offset size n m : Nat}

/-- Every byte a 32-bit offset reaches has a logical block. -/
theorem nroBloque_lt_alcance (log : sb.logBlockSize ≤ 2) (bound : k < 2 ^ 32) :
    k / tamanioDeBloque sb < alcance sb := by
  rw [alcance, ptrsPorBloque]
  rcases tamanioDeBloque_cases log with block | block | block <;> rw [block] <;> omega

theorem leerNumeros_eq {ks : List Nat} (inside : ∀ k ∈ ks, k < alcance sb) :
    leerNumeros sb d x ks = some (ks.map (bloqueLogico sb d x)) := by
  induction ks with
  | nil => rfl
  | cons k ks ih =>
    have bound := inside k List.mem_cons_self
    have rest := ih fun l member => inside l (List.mem_cons_of_mem k member)
    obtain ⟨i, p, shape⟩ := List.exists_cons_of_ne_nil (inicia_camino bound).ne_nil
    simp only [leerNumeros, getPtr_camino d x bound, rest, shape, leerSlot_slotDe,
      Option.bind_eq_bind, Option.bind_some, List.map_cons, bloqueLogico]

/-- The logical blocks a request of `size` bytes at `offset` touches. -/
theorem numerosDeBloques_eq (log : sb.logBlockSize ≤ 2) :
    numerosDeBloques sb d x offset size =
      some ((List.range' (offset / tamanioDeBloque sb)
        (resta32 (offset + size) 1 / tamanioDeBloque sb + 1 - offset / tamanioDeBloque sb)).map
          (bloqueLogico sb d x)) := by
  apply leerNumeros_eq
  intro k member
  have last : resta32 (offset + size) 1 < 2 ^ 32 := Nat.mod_lt _ (by decide)
  have reach := nroBloque_lt_alcance log last
  have upper : k ≤ resta32 (offset + size) 1 / tamanioDeBloque sb := by
    have ends := List.mem_range'_1.mp member
    simp only [nroBloqueDentroDelInodo] at ends
    omega
  exact lt_of_le_of_lt upper reach

@[simp]
theorem traerBloqueDeDisco_length (b : Nat) :
    (traerBloqueDeDisco sb d b).length = tamanioDeBloque sb := by
  simp [traerBloqueDeDisco]

theorem traerBloques_disco (s : Servidor) (bs : List Nat) :
    traerBloques sb false s bs = (bs.map (traerBloqueDeDisco sb s.disco), s) := by
  induction bs with
  | nil => rfl
  | cons b bs ih => simp [traerBloques, traerBloque, deCache, guardarBloque, ih]

/-! ### The copies -/

theorem bytesLeidos_add (a b : Nat) : bytesLeidos sb d x offset (a + b) =
    bytesLeidos sb d x offset a ++ bytesLeidos sb d x (offset + a) b := by
  simp [bytesLeidos, List.range_add, Nat.add_assoc]

theorem byteLeido_bloque {r : Nat} (inner : r < tamanioDeBloque sb) :
    byteLeido sb d x (k * tamanioDeBloque sb + r) =
      d.mem (posicionarInicioBloque sb (bloqueLogico sb d x k) + (r : Nat)) := by
  have positive : 0 < tamanioDeBloque sb := by omega
  rw [byteLeido, Nat.mul_comm, Nat.mul_add_div positive, Nat.mul_add_mod,
    Nat.div_eq_of_lt inner, Nat.mod_eq_of_lt inner, Nat.add_zero]

/-- A piece of one block is a run of bytes of the file. -/
theorem bloque_bytes {r a : Nat} (fits : r + a ≤ tamanioDeBloque sb) :
    ((traerBloqueDeDisco sb d (bloqueLogico sb d x k)).drop r).take a =
      bytesLeidos sb d x (k * tamanioDeBloque sb + r) a := by
  apply List.ext_getElem
  · simp [traerBloqueDeDisco, bytesLeidos]
    omega
  · intro i left right
    have below : i < a := by simpa [bytesLeidos] using right
    have byte := byteLeido_bloque (d := d) (x := x) (k := k) (by omega : r + i < tamanioDeBloque sb)
    simp only [bytesLeidos, List.getElem_map, List.getElem_range, Nat.add_assoc, byte]
    simp [traerBloqueDeDisco, leer]

/-- From the start of a block, `m` whole ones and a part of the last. -/
theorem juntarBloques_alineados {ultimo : Nat} (short : ultimo ≤ tamanioDeBloque sb) :
    juntarBloques sb 0 ultimo ((List.range' k (m + 1)).map fun l =>
        traerBloqueDeDisco sb d (bloqueLogico sb d x l)) =
      some (bytesLeidos sb d x (k * tamanioDeBloque sb) (m * tamanioDeBloque sb + ultimo)) := by
  induction m generalizing k with
  | zero =>
    have piece := bloque_bytes (d := d) (x := x) (k := k)
      (by omega : 0 + ultimo ≤ tamanioDeBloque sb)
    simp only [List.drop_zero, Nat.add_zero] at piece
    simp [juntarBloques, piece, short]
  | succ m ih =>
    have piece := bloque_bytes (d := d) (x := x) (k := k)
      (by omega : 0 + tamanioDeBloque sb ≤ tamanioDeBloque sb)
    simp only [List.drop_zero, Nat.add_zero] at piece
    have split : (m + 1) * tamanioDeBloque sb + ultimo =
        tamanioDeBloque sb + (m * tamanioDeBloque sb + ultimo) := by ring
    rw [List.range'_succ, List.map_cons, juntarBloques, ih, split,
      bytesLeidos_add (tamanioDeBloque sb), ← piece]
    simp [Nat.succ_mul]

theorem juntarBloques_uno {r ultimo : Nat} (fits : r + ultimo ≤ tamanioDeBloque sb) :
    juntarBloques sb r ultimo [traerBloqueDeDisco sb d (bloqueLogico sb d x k)] =
      some (bytesLeidos sb d x (k * tamanioDeBloque sb + r) ultimo) := by
  simp [juntarBloques, fits, bloque_bytes fits]

/-! ### How much is read -/

section
variable (B : Nat)

/-- How many bytes come out of the blocks from `offset` on, for a request cut to `n`
bytes. No result where a copy runs past its block. -/
def tramo (offset n : Nat) : Option Nat :=
  let bloques := resta32 (offset + n) 1 / B + 1 - offset / B
  let ultimo := (n - 1) % B + 1
  if n = 0 ∨ bloques = 0 then some 0
  else if offset % B = 0 ∨ bloques = 1 ∧ offset % B + ultimo ≤ B then
    some ((bloques - 1) * B + ultimo)
  else none

/-- The bytes asked for and the file do not end past 4 GiB or before `offset`, and start
with a block or lie in one. Or there is nothing to read, and the last block is an earlier
one than the first. -/
def LeeBien (fileSize offset size : Nat) : Prop :=
  let fin := min fileSize ((offset + size) % 2 ^ 32)
  (offset + size < 2 ^ 32 ∧ offset ≤ fileSize ∧ (offset % B = 0 ∨ fin ≤ (offset / B + 1) * B)) ∨
    (fileSize ≤ offset ∧ (fileSize < offset ∨ 2 ^ 32 ≤ offset + size) ∧ 1 ≤ fin ∧
      (fin - 1) / B < offset / B)

end

/-- What `serve_read` puts in its answer. -/
def loLeido (sb : Superblock) (d : Disco) (x size offset : Nat) : Option (List UInt8) :=
  (tramo (tamanioDeBloque sb) offset (bytesALeer (d.inodo x).size.toNat offset size)).map
    (bytesLeidos sb d x offset)

theorem juntarBloques_tramo (log : sb.logBlockSize ≤ 2) (some_bytes : n ≠ 0) :
    juntarBloques sb (desplazamientoDentroDelBloque sb offset)
      (desplazamientoDentroDelBloque sb (n - 1) + 1)
      ((List.range' (offset / tamanioDeBloque sb)
        (resta32 (offset + n) 1 / tamanioDeBloque sb + 1 - offset / tamanioDeBloque sb)).map
          fun l => traerBloqueDeDisco sb d (bloqueLogico sb d x l)) =
      (tramo (tamanioDeBloque sb) offset n).map (bytesLeidos sb d x offset) := by
  have positive : 0 < tamanioDeBloque sb := by
    rcases tamanioDeBloque_cases log with block | block | block <;> omega
  have short : (n - 1) % tamanioDeBloque sb + 1 ≤ tamanioDeBloque sb := Nat.mod_lt _ positive
  have whole := Nat.div_add_mod' offset (tamanioDeBloque sb)
  simp only [tramo, desplazamientoDentroDelBloque, some_bytes, false_or]
  rcases resta32 (offset + n) 1 / tamanioDeBloque sb + 1 - offset / tamanioDeBloque sb with _ | m
  · simp [juntarBloques, bytesLeidos]
  · by_cases aligned : offset % tamanioDeBloque sb = 0
    · rw [aligned, Nat.add_zero] at whole
      rw [aligned, juntarBloques_alineados short, whole]
      simp
    · rcases m with _ | m
      · by_cases fits : offset % tamanioDeBloque sb + ((n - 1) % tamanioDeBloque sb + 1) ≤
          tamanioDeBloque sb
        · have one := juntarBloques_uno (d := d) (x := x) (k := offset / tamanioDeBloque sb) fits
          rw [whole] at one
          simp [one, fits]
        · simp [juntarBloques, fits, aligned]
      · simp [List.range'_succ, juntarBloques, aligned]

theorem serveRead_eq {s : Servidor} {path : Cadena} (log : sb.logBlockSize ≤ 2)
    (found : getNroInodoDeLaDireccionDelPath sb s.disco path = some x) (valid : esInodo sb x) :
    serveRead sb false s path size offset = (loLeido sb s.disco x size offset).map fun out =>
      ((s.bloquear x).bloquear x, [.readResponse out]) := by
  have node : getInodo sb x = some (some x) := by
    simp [getInodo, valid.2, Nat.not_lt.mpr valid.1]
  have same : (s.bloquear x).disco = s.disco := rfl
  simp only [serveRead, found, node, Option.bind_eq_bind, Option.bind_some, loLeido, same]
  generalize bytesALeer (s.disco.inodo x).size.toNat offset size = n
  by_cases nothing : n = 0
  · rw [if_pos nothing, tramo, if_pos (.inl nothing)]
    rfl
  · rw [if_neg nothing, numerosDeBloques_eq log, Option.bind_some, traerBloques_disco, same,
      List.map_map]
    simp only [Function.comp_def, juntarBloques_tramo log nothing]
    cases tramo (tamanioDeBloque sb) offset n <;> rfl

/-! ### The arithmetic of a read -/

section
variable {B F L : Nat}

theorem resta32_uno (some_bytes : 1 ≤ n) (bound : n ≤ 2 ^ 32) : resta32 n 1 = n - 1 := by
  rw [resta32]
  omega

theorem tramo_zero : tramo B offset n = some 0 ↔
    n = 0 ∨ resta32 (offset + n) 1 / B < offset / B := by
  rw [tramo]
  split_ifs with none_left starts
  · simp only [true_iff]
    omega
  · simp only [Option.some.injEq]
    omega
  · simp only [false_iff]
    omega

theorem tramo_exacto (block : B = 1024 ∨ B = 2048 ∨ B = 4096) (bound : offset + n < 2 ^ 32) :
    tramo B offset n = some n ↔ offset % B = 0 ∨ offset + n ≤ (offset / B + 1) * B := by
  by_cases nothing : n = 0
  · rw [nothing, tramo_zero]
    rcases block with rfl | rfl | rfl <;> omega
  · rw [tramo, resta32_uno (by omega) (by omega)]
    rcases block with rfl | rfl | rfl <;> split_ifs with none_left starts <;>
      simp only [Option.some.injEq, false_iff] <;> omega

theorem tramo_vuelta (block : B = 1024 ∨ B = 2048 ∨ B = 4096) (start : offset < 2 ^ 32)
    (length : size < 2 ^ 32) (wraps : 2 ^ 32 ≤ offset + size)
    (read : tramo B offset size = some L) : L = 0 ∨ 2 ^ 32 ≤ offset + L := by
  have last : resta32 (offset + size) 1 = if offset + size = 2 ^ 32 then 2 ^ 32 - 1 else
      offset + size - 2 ^ 32 - 1 := by
    rw [resta32]
    split_ifs <;> omega
  rw [tramo, last] at read
  rcases block with rfl | rfl | rfl <;> split_ifs at read with whole none_left starts none_left starts <;>
    simp only [Option.some.injEq] at read <;> omega

/-- The cut of `serve_read` leaves the right number of bytes. -/
theorem tramo_iff (block : B = 1024 ∨ B = 2048 ∨ B = 4096) (file : F < 2 ^ 32)
    (start : offset < 2 ^ 32) (length : size < 2 ^ 32) :
    tramo B offset (bytesALeer F offset size) = some (min (offset + size) F - offset) ↔
      LeeBien B F offset size := by
  have cut : bytesALeer F offset size =
      if F < (offset + size) % 2 ^ 32 then (F + 2 ^ 32 - offset) % 2 ^ 32 else size := by
    rw [bytesALeer, resta32, Nat.mod_eq_of_lt start]
  have positive : 0 < B := by omega
  by_cases past : F < offset
  · -- the subtraction wraps and the request ends before it starts
    have last : resta32 (offset + bytesALeer F offset size) 1 =
        (min F ((offset + size) % 2 ^ 32) + (2 ^ 32 - 1)) % 2 ^ 32 := by
      rw [cut, resta32]
      split_ifs <;> omega
    have some_bytes : bytesALeer F offset size ≠ 0 := by
      rw [cut]
      split_ifs <;> omega
    rw [show min (offset + size) F - offset = 0 by omega, tramo_zero, last, LeeBien]
    have small : min F ((offset + size) % 2 ^ 32) < 2 ^ 32 := by omega
    generalize min F ((offset + size) % 2 ^ 32) = fin at small ⊢
    by_cases empty : fin = 0
    · have late : offset / B ≤ (2 ^ 32 - 1) / B := Nat.div_le_div_right (by omega)
      rw [empty, show (0 + (2 ^ 32 - 1)) % 2 ^ 32 = 2 ^ 32 - 1 by decide]
      omega
    · rw [show (fin + (2 ^ 32 - 1)) % 2 ^ 32 = fin - 1 by omega]
      omega
  · by_cases wraps : 2 ^ 32 ≤ offset + size
    · rw [if_neg (by omega)] at cut
      rw [cut, LeeBien, show min (offset + size) F = F by omega]
      by_cases finished : F = offset
      · have last : resta32 (offset + size) 1 = (offset + size - 1) % 2 ^ 32 := by
          rw [resta32]
          omega
        rw [show F - offset = 0 by omega, tramo_zero, last]
        by_cases whole : offset + size = 2 ^ 32
        · have late : offset / B ≤ (2 ^ 32 - 1) / B := Nat.div_le_div_right (by omega)
          rw [whole, show (2 ^ 32 - 1) % 2 ^ 32 = 2 ^ 32 - 1 by decide]
          omega
        · rw [show (offset + size - 1) % 2 ^ 32 = min F ((offset + size) % 2 ^ 32) - 1 by omega]
          omega
      · constructor
        · intro read
          have wrong := tramo_vuelta block start length wraps read
          omega
        · intro ends
          omega
    · have exact : bytesALeer F offset size = min (offset + size) F - offset := by
        rw [cut]
        split_ifs <;> omega
      rw [exact, tramo_exacto block (by omega), LeeBien,
        show offset + (min (offset + size) F - offset) = min F ((offset + size) % 2 ^ 32) by omega]
      omega

end

/-! ### Exact reads -/

/-- A block that starts below 4 GiB is where it should be. -/
theorem byteLeido_eq (below : bloqueLogico sb d x (k / tamanioDeBloque sb) * tamanioDeBloque sb <
    2 ^ 32) : byteLeido sb d x k = byteDe sb d x k := by
  rw [byteLeido, byteDe, posicionarInicioBloque, Nat.mod_eq_of_lt below, Nat.cast_add]

theorem bytesLeidos_eq_iff : bytesLeidos sb d x offset n = bytesDe sb d x offset n ↔
    ∀ i < n, byteLeido sb d x (offset + i) = byteDe sb d x (offset + i) := by
  simp [bytesLeidos, bytesDe]

/-- The answer to a read holds the bytes of the file from `offset` on, up to the end of
the request or of the file, just where the cut is right and each byte is where its block is. -/
theorem lectura_exacta {s : Servidor} {path : Cadena} (log : sb.logBlockSize ≤ 2)
    (found : getNroInodoDeLaDireccionDelPath sb s.disco path = some x) (valid : esInodo sb x)
    (start : offset < 2 ^ 32) (length : size < 2 ^ 32) :
    (∃ s', serveRead sb false s path size offset = some (s', [.readResponse
        (bytesDe sb s.disco x offset
          (min (offset + size) (s.disco.inodo x).size.toNat - offset))])) ↔
      LeeBien (tamanioDeBloque sb) (s.disco.inodo x).size.toNat offset size ∧
        ∀ i < min (offset + size) (s.disco.inodo x).size.toNat - offset,
          byteLeido sb s.disco x (offset + i) = byteDe sb s.disco x (offset + i) := by
  have file : (s.disco.inodo x).size.toNat < 2 ^ 32 := UInt32.toNat_lt _
  have cut := tramo_iff (tamanioDeBloque_cases log) file start length
  rw [serveRead_eq log found valid, ← cut, ← bytesLeidos_eq_iff]
  generalize min (offset + size) (s.disco.inodo x).size.toNat - offset = n at cut ⊢
  rw [loLeido]
  constructor
  · rintro ⟨s', answer⟩
    obtain ⟨out, read, same⟩ := Option.map_eq_some_iff.mp answer
    obtain ⟨m, length, rfl⟩ := Option.map_eq_some_iff.mp read
    have bytes : bytesLeidos sb s.disco x offset m = bytesDe sb s.disco x offset n := by
      simpa using congrArg Prod.snd same
    obtain rfl : m = n := by simpa [bytesLeidos, bytesDe] using congrArg List.length bytes
    exact ⟨length, bytes⟩
  · rintro ⟨length, bytes⟩
    rw [length, Option.map_some, Option.map_some, bytes]
    exact ⟨_, rfl⟩

/-- The file `/a` has 1100 bytes, in blocks 11 and 12. -/
def imagenArchivoLargo : Disco :=
  { imagenConArchivo 0 with
    freeBlocks := 20
    grupo := fun _ => ⟨20, 5, 1⟩
    bitmapBloques := fun _ i => i + 1 ≤ 12
    inodo := fun x =>
      if x = 11 then
        ⟨S_IFREG, 1100, 1, 4, fun i => if i = 0 then 11 else if i = 1 then 12 else 0⟩
      else (imagenConArchivo 0).inodo x }

theorem imagenArchivoLargo_path :
    getNroInodoDeLaDireccionDelPath (volumen 0) imagenArchivoLargo [47, 97] = some 11 := by
  decide +kernel

theorem imagenArchivoLargo_bloques : bloqueLogico (volumen 0) imagenArchivoLargo 11 0 = 11 ∧
    bloqueLogico (volumen 0) imagenArchivoLargo 11 1 = 12 := by decide

/-- The 76 bytes from the second block on, of the 2000 asked for. -/
theorem lectura_exacta_final :
    ∃ s', serveRead (volumen 0) false (servidorDe imagenArchivoLargo) [47, 97] 2000 1024 =
      some (s', [.readResponse (bytesDe (volumen 0) imagenArchivoLargo 11 1024 76)]) := by
  apply (lectura_exacta (s := servidorDe imagenArchivoLargo) (by decide) imagenArchivoLargo_path
    ⟨by decide, by decide⟩ (by decide) (by decide)).mpr
  refine ⟨.inl ⟨by decide, by decide, .inl rfl⟩, fun i below => byteLeido_eq ?_⟩
  have short : i < 76 := below
  have second : (1024 + i) / tamanioDeBloque (volumen 0) = 1 := by
    rw [show tamanioDeBloque (volumen 0) = 1024 from rfl]
    omega
  rw [second, show (servidorDe imagenArchivoLargo).disco = imagenArchivoLargo from rfl,
    imagenArchivoLargo_bloques.2]
  decide

/-- A read that starts inside a block and goes on to the next one copies a whole block from
there. -/
theorem lectura_corrida : ¬∀ (sb : Superblock) (s : Servidor) (path : Cadena)
    (x size offset : Nat), sb.logBlockSize ≤ 2 →
    getNroInodoDeLaDireccionDelPath sb s.disco path = some x → esInodo sb x →
    (∀ k < bloquesDe sb (s.disco.inodo x).size.toNat,
      ∀ l < bloquesDe sb (s.disco.inodo x).size.toNat, k ≠ l →
      bloqueLogico sb s.disco x k ≠ bloqueLogico sb s.disco x l) →
    offset < 2 ^ 32 → size < 2 ^ 32 →
    ∃ s', serveRead sb false s path size offset = some (s', [.readResponse
      (bytesDe sb s.disco x offset
        (min (offset + size) (s.disco.inodo x).size.toNat - offset))]) := by
  intro all
  have distinct : ∀ k < 2, ∀ l < 2, k ≠ l →
      bloqueLogico (volumen 0) imagenArchivoLargo 11 k ≠
        bloqueLogico (volumen 0) imagenArchivoLargo 11 l := by decide
  obtain ⟨s', answer⟩ := all (volumen 0) (servidorDe imagenArchivoLargo) [47, 97] 11 1090 1
    (by decide) imagenArchivoLargo_path ⟨by decide, by decide⟩ distinct (by decide) (by decide)
  rw [serveRead_eq (by decide) imagenArchivoLargo_path ⟨by decide, by decide⟩] at answer
  have nothing : loLeido (volumen 0) (servidorDe imagenArchivoLargo).disco 11 1090 1 = none := by
    rw [loLeido, show tramo (tamanioDeBloque (volumen 0)) 1 (bytesALeer
      ((servidorDe imagenArchivoLargo).disco.inodo 11).size.toNat 1 1090) = none by decide +kernel]
    rfl
  rw [nothing] at answer
  exact absurd answer (by simp)

end LosAltos.Rfs
