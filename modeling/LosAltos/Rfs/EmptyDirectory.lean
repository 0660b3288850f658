import LosAltos.Rfs.EntryRemoval
import LosAltos.Rfs.FailedCreation
import LosAltos.Rfs.LinkCounts
import LosAltos.Rfs.Listing

/-!
# When a directory is empty

`directorioVacio` and `eliminarDirectorio` (`funciones_rfs.c:1115-1153, 1236-1254`). No entry is
counted: a directory is taken for empty by its size and by the length of the entry twelve bytes
into its first block.
-/
namespace LosAltos.Rfs

open Lib

section
variable (sb : Superblock) (d : Disco) (x : Nat)

/-- No entry in use other than `.` and `..`. -/
def SoloPuntos : Prop :=
  ∀ k < bloquesDe sb (d.inodo x).size.toNat, ∀ e ∈ entradasDe sb d x k, e.usada →
    cadena e.name = punto ∨ cadena e.name = puntoPunto

instance : Decidable (SoloPuntos sb d x) := inferInstanceAs (Decidable (∀ _ < _, _))

/-- The path leads to the inode `x` as an entry of the directory `p`. -/
structure Lleva (path : Cadena) (p : Nat) : Prop where
  padre : getNroInodoDeLaDireccionDelPath sb d (separarPathParaNewDirEntry path).1 = some p
  hay : p ≠ 0
  nombre : (separarPathParaNewDirEntry path).2 ≠ []
  destino : getNroInodoDeLaDireccionDelPath sb d path = some x

/-- The directory is told empty just if it is, and removed just then. -/
structure VacioBien : Prop where
  vacio : ∃ answer, directorioVacio sb d x = some answer ∧ (answer = true ↔ SoloPuntos sb d x)
  elimina : ∀ path p, Lleva sb d x path p → SoloPuntos sb d x →
    ∃ d', eliminarDirectorio sb d path = some (0, d')
  rechaza : ∀ path p, Lleva sb d x path p → ¬SoloPuntos sb d x →
    eliminarDirectorio sb d path = some (ENOTEMPTY, d)

end

/-- The entries of a directory in one block: `.` in twelve bytes, `..` and the others, all of them
in use. -/
structure Ordenadas (p q : DirEntry) (rest : List DirEntry) : Prop where
  punto : p.name = punto
  largo : p.entryLen = 12
  puntoPunto : q.name = puntoPunto
  usadas : ∀ e ∈ p :: q :: rest, e.usada ∧ 0 ∉ e.name
  otras : ∀ e ∈ rest, e.name ≠ Rfs.punto ∧ e.name ≠ Rfs.puntoPunto

/-- The directory `x` is one block of such entries. -/
structure EnUnBloque (sb : Superblock) (d : Disco) (x : Nat) (p q : DirEntry)
    (rest : List DirEntry) : Prop where
  asignado : asignado sb d x
  directorio : (d.inodo x).tieneModo S_IFDIR
  tamanio : (d.inodo x).size.toNat = tamanioDeBloque sb
  cadenas : Cadenas sb d x 1 fun _ => p :: q :: rest
  orden : Ordenadas p q rest

variable {sb : Superblock} {d d' d1 : Disco} {x y z k : Nat} {p q e : DirEntry}
  {us vs ws rest : List DirEntry} {nombre path : Cadena}

/-! ### Told by the second entry -/

theorem bloquesDe_uno : bloquesDe sb (tamanioDeBloque sb) = 1 := by
  have one : bloquesDe sb (1 * tamanioDeBloque sb) = 1 := bloquesDe_mul
  rwa [Nat.one_mul] at one

namespace EnUnBloque

theorem bloques (one : EnUnBloque sb d x p q rest) : bloquesDe sb (d.inodo x).size.toNat = 1 := by
  rw [one.tamanio, bloquesDe_uno]

theorem soloPuntos (one : EnUnBloque sb d x p q rest) : SoloPuntos sb d x ↔ rest = [] := by
  have entries : entradasDe sb d x 0 = p :: q :: rest := entradasDe_cadenas one.cadenas Nat.one_pos
  have plain : ∀ e ∈ p :: q :: rest, cadena e.name = e.name := fun e member =>
    cadena_of_no_zero (one.orden.usadas e member).2
  constructor
  · intro only
    by_contra filled
    obtain ⟨e, tail, rfl⟩ := List.exists_cons_of_ne_nil filled
    have listed : e ∈ p :: q :: e :: tail := by simp
    have dots := only 0 (by rw [one.bloques]; omega) e (entries ▸ listed)
      (one.orden.usadas e listed).1
    rw [plain e listed] at dots
    have other := one.orden.otras e (by simp)
    exact dots.elim other.1 other.2
  · rintro rfl k below e listed -
    rw [one.bloques] at below
    obtain rfl : k = 0 := by omega
    rw [entries] at listed
    rw [plain e listed]
    simp only [List.mem_cons, List.not_mem_nil, or_false] at listed
    rcases listed with rfl | rfl
    · exact .inl one.orden.punto
    · exact .inr one.orden.puntoPunto

/-- The entry at byte twelve is `..`, and it reaches the end of the block just if it is the last. -/
theorem vacio (geo : Geometria sb) (one : EnUnBloque sb d x p q rest) :
    directorioVacio sb d x = some rest.isEmpty := by
  obtain ⟨bound, sound, chain⟩ := one.cadenas 0 Nat.one_pos
  obtain ⟨-, behind⟩ := Tramo.cons_iff.mp chain
  obtain ⟨second, last⟩ := Tramo.cons_iff.mp behind
  rw [one.orden.largo] at second last
  have place : posicionarme sb d x 0 12 =
      some (posicionarInicioBloque sb (bloqueLogico sb d x 0) + (12 : Nat)) := by
    obtain ⟨i, path, shape⟩ := List.exists_cons_of_ne_nil (inicia_camino bound).ne_nil
    simp only [posicionarme, getPtr_camino d x bound, Option.bind_eq_bind, Option.bind_some,
      bloqueLogico, shape, leerSlot_slotDe, desplazarme]
  have read : leerEntrada d (posicionarInicioBloque sb (bloqueLogico sb d x 0) + (12 : Nat)) = q :=
    second
  have small := geo.tamanio
  simp only [directorioVacio, getInodo_of_esInodo one.asignado.1, Option.bind_eq_bind,
    Option.bind_some, one.tamanio, lt_irrefl, gt_iff_lt, ↓reduceIte, place, read]
  rw [Option.some.injEq]
  cases rest with
  | nil =>
    have stop := Tramo.nil_iff.mp last
    simp only [List.isEmpty_nil, decide_eq_true_eq]
    omega
  | cons e tail =>
    obtain ⟨-, after⟩ := Tramo.cons_iff.mp last
    have inside := after.le
    have positive := (sound e (by simp)).positive
    simp only [List.isEmpty_cons, decide_eq_false_iff_not]
    omega

end EnUnBloque

/-! ### Entries come and go behind the second -/

namespace Ordenadas

variable {w nueva : DirEntry} {m : Nat}

/-- A new entry behind `..` or behind another one. -/
theorem inserta (order : Ordenadas p q rest) (shape : p :: q :: rest = us ++ e :: vs)
    (later : us ≠ []) (used : nueva.usada ∧ 0 ∉ nueva.name)
    (other : nueva.name ≠ Rfs.punto ∧ nueva.name ≠ Rfs.puntoPunto) :
    ∃ q' rest', us ++ { e with entryLen := m } :: nueva :: vs = p :: q' :: rest' ∧
      Ordenadas p q' rest' := by
  obtain ⟨first, us, rfl⟩ := List.exists_cons_of_ne_nil later
  obtain ⟨rfl, behind⟩ := List.cons.inj shape
  have usedE : e.usada ∧ 0 ∉ e.name := order.usadas e (by simp [behind])
  cases us with
  | nil =>
    obtain ⟨rfl, rfl⟩ := List.cons.inj behind
    refine ⟨_, _, rfl, order.punto, order.largo, order.puntoPunto, fun u member => ?_,
      fun u member => ?_⟩
    · simp only [List.mem_cons] at member
      rcases member with rfl | rfl | rfl | old
      · exact order.usadas _ (by simp)
      · exact usedE
      · exact used
      · exact order.usadas u (by simp [old])
    · rcases List.mem_cons.mp member with rfl | old
      · exact other
      · exact order.otras u old
  | cons second us =>
    obtain ⟨rfl, rfl⟩ := List.cons.inj behind
    refine ⟨_, _, rfl, order.punto, order.largo, order.puntoPunto, fun u member => ?_,
      fun u member => ?_⟩
    · simp only [List.mem_cons, List.mem_append, List.append_eq] at member
      rcases member with rfl | rfl | old | rfl | rfl | old
      · exact order.usadas _ (by simp)
      · exact order.usadas _ (by simp)
      · exact order.usadas u (by simp [old])
      · exact usedE
      · exact used
      · exact order.usadas u (by simp [old])
    · simp only [List.mem_cons, List.mem_append, List.append_eq] at member
      rcases member with old | rfl | rfl | old
      · exact order.otras u (by simp [old])
      · exact order.otras e (by simp)
      · exact other
      · exact order.otras u (by simp [old])

/-- An entry behind `..` goes to the one before it. -/
theorem quita (order : Ordenadas p q rest) (shape : p :: q :: rest = ws ++ [w] ++ e :: vs)
    (later : ws ≠ []) :
    ∃ q' rest', ws ++ { w with entryLen := m } :: vs = p :: q' :: rest' ∧
      Ordenadas p q' rest' := by
  obtain ⟨first, ws, rfl⟩ := List.exists_cons_of_ne_nil later
  obtain ⟨rfl, behind⟩ := List.cons.inj shape
  have usedW : w.usada ∧ 0 ∉ w.name := order.usadas w (by simp [behind])
  cases ws with
  | nil =>
    obtain ⟨rfl, rfl⟩ := List.cons.inj behind
    refine ⟨_, _, rfl, order.punto, order.largo, order.puntoPunto, fun u member => ?_,
      fun u member => order.otras u (by simp [member])⟩
    simp only [List.mem_cons] at member
    rcases member with rfl | rfl | old
    · exact order.usadas _ (by simp)
    · exact usedW
    · exact order.usadas u (by simp [old])
  | cons second ws =>
    obtain ⟨rfl, rfl⟩ := List.cons.inj behind
    refine ⟨_, _, rfl, order.punto, order.largo, order.puntoPunto, fun u member => ?_,
      fun u member => ?_⟩
    · simp only [List.mem_cons, List.mem_append, List.append_eq] at member
      rcases member with rfl | rfl | old | rfl | old
      · exact order.usadas _ (by simp)
      · exact order.usadas _ (by simp)
      · exact order.usadas u (by simp [old])
      · exact usedW
      · exact order.usadas u (by simp [old])
    · simp only [List.mem_cons, List.mem_append, List.append_eq] at member
      rcases member with old | rfl | old
      · exact order.otras u (by simp [old])
      · exact order.otras w (by simp)
      · exact order.otras u (by simp [old])

end Ordenadas

/-! ### What keeps a directory -/

theorem legible_vacio (empty : (d.inodo x).size = 0) : Legible sb d x := by
  refine ⟨fun _ => [], fun k below => ?_, fun k below => ?_⟩ <;>
    rw [empty, show (0 : UInt32).toNat = 0 from rfl, bloquesDe_zero] at below <;> omega

theorem EnUnBloque.legible (one : EnUnBloque sb d x p q rest) : Legible sb d x := by
  refine ⟨fun _ => p :: q :: rest, one.bloques ▸ one.cadenas, fun k below e listed => ?_⟩
  obtain ⟨-, -, chain⟩ := one.cadenas 0 Nat.one_pos
  have width := (chain.cabe listed).name
  have room := (tamanioMin_bounds e.name).2.1
  rw [DirEntry.minimo, cadena_of_no_zero (one.orden.usadas e listed).2]
  omega

/-- The blocks within reach of the inodes other than `y`. -/
def deLosDemas (sb : Superblock) (d : Disco) (y : Nat) : Nat → Nat → Prop :=
  fun w l => l < alcance sb ∧ deOtros sb d y w l

/-- Block numbers are read from the inode and from the mapped file. -/
theorem bloqueLogico_congr (mem : d'.mem = d.mem)
    (words : ∀ j, (d'.inodo x).blocks j = (d.inodo x).blocks j) (l : Nat) :
    bloqueLogico sb d' x l = bloqueLogico sb d x l := by
  have value : ∀ q, (punteros sb d').valor x q = (punteros sb d).valor x q := by
    intro q
    induction q with
    | nil => rfl
    | cons i q ih =>
      cases q with
      | nil => simp only [Punteros.valor, punteros, leerSlot, words]
      | cons j q =>
        simp only [Punteros.valor, ih]
        simp only [punteros, slotDeBloque, leerSlot, leer32, mem]
  exact value _

theorem Conserva.de_inodos (mem : d'.mem = d.mem)
    (words : ∀ w, w ≠ y → ∀ j, (d'.inodo w).blocks j = (d.inodo w).blocks j) :
    Conserva sb (deLosDemas sb d y) d d' :=
  ⟨fun w l inside => bloqueLogico_congr mem (words w inside.2.1) l, fun w l _ j _ => by rw [mem]⟩

theorem Edita.conserva_demas {E : Nat → Prop} (edit : Edita sb (deTamanio sb d) E y k d d')
    (obra : Obra sb (deTamanio sb d) E d) (valid : esInodo sb y) (bound : k < alcance sb)
    (owned : k < bloquesDe sb (d.inodo y).size.toNat) : Conserva sb (deLosDemas sb d y) d d' := by
  have member : deTamanio sb d y (camino (ptrsPorBloque sb) k) :=
    (deTamanio_vivo valid _).mpr ⟨k, owned, inicia_camino bound⟩
  refine (edit.conserva obra member bound).mono ?_
  rintro w l ⟨reach, other, held⟩
  exact ⟨reach, held, fun same => other same.1⟩

theorem Conserva.cadenas_demas {n : Nat} {ess : Nat → List DirEntry} {w : Nat}
    (kept : Conserva sb (deLosDemas sb d y) d d') (valid : esInodo sb w) (other : w ≠ y)
    (size : n = bloquesDe sb (d.inodo w).size.toNat) (chains : Cadenas sb d w n ess) :
    Cadenas sb d' w n ess := by
  intro l inside
  obtain ⟨limit, sound, chain⟩ := chains l inside
  refine ⟨limit, sound, kept.entradas ⟨limit, other, ?_⟩ sound chain⟩
  exact (deTamanio_vivo valid _).mpr ⟨l, size ▸ inside, inicia_camino limit⟩

/-- Work on the inode `y` that leaves the others alone, or empty. -/
theorem Legibles.conserva (readable : Legibles sb d) (kept : Conserva sb (deLosDemas sb d y) d d')
    (own : esInodo sb y → (d'.inodo y).tieneModo S_IFDIR → Legible sb d' y)
    (others : ∀ w, w ≠ y → (d'.inodo w).size = 0 ∨
      (d'.inodo w).mode = (d.inodo w).mode ∧ (d'.inodo w).size = (d.inodo w).size) :
    Legibles sb d' := by
  intro w valid directory
  by_cases here : w = y
  · subst here
    exact own valid directory
  rcases others w here with empty | ⟨mode, size⟩
  · exact legible_vacio empty
  rw [INode.tieneModo, mode] at directory
  obtain ⟨ess, chains, names⟩ := readable w valid directory
  exact ⟨ess, size ▸ kept.cadenas_demas valid here rfl chains, size ▸ names⟩

theorem EnUnBloque.conserva (one : EnUnBloque sb d x p q rest) (other : x ≠ y)
    (kept : Conserva sb (deLosDemas sb d y) d d') (allocated : Rfs.asignado sb d' x)
    (mode : (d'.inodo x).mode = (d.inodo x).mode) (size : (d'.inodo x).size = (d.inodo x).size) :
    EnUnBloque sb d' x p q rest where
  asignado := allocated
  directorio := by
    rw [INode.tieneModo, mode]
    exact one.directorio
  tamanio := by rw [size, one.tamanio]
  cadenas := kept.cadenas_demas one.asignado.1 other one.bloques.symm one.cadenas
  orden := one.orden

/-! ### An entry more -/

theorem Cadenas.un_bloque {n : Nat} {es : List DirEntry} {ess : Nat → List DirEntry}
    (chains : Cadenas sb d x n fun l => if l = k then es else ess l) (single : n = 1)
    (owned : k < n) : Cadenas sb d x 1 fun _ => es := by
  subst single
  obtain rfl : k = 0 := by omega
  intro l inside
  have chain := chains l inside
  simp only [show l = 0 by omega, ↓reduceIte] at chain ⊢
  exact chain

namespace EnUnBloque

theorem llamada_primera (one : EnUnBloque sb d x p q rest) : p.llamada nombre ↔ nombre = punto := by
  rw [DirEntry.llamada, cadena_of_no_zero (one.orden.usadas p (by simp)).2, one.orden.punto,
    igualSinCaso_punto]

theorem llamada_segunda (one : EnUnBloque sb d x p q rest) :
    q.llamada nombre ↔ nombre = puntoPunto := by
  rw [DirEntry.llamada, cadena_of_no_zero (one.orden.usadas q (by simp)).2, one.orden.puntoPunto,
    igualSinCaso_puntoPunto]

/-- A name that the directory does not know is neither of its first two. -/
theorem ausente (geo : Geometria sb) (one : EnUnBloque sb d x p q rest)
    (missing : buscarNroInodoEnEntradasDirectorio sb d x nombre = some 0) :
    nombre ≠ punto ∧ nombre ≠ puntoPunto := by
  have chains : Cadenas sb d x (bloquesDe sb (d.inodo x).size.toNat) fun _ => p :: q :: rest :=
    one.bloques ▸ one.cadenas
  have none_called : ∀ e ∈ p :: q :: rest, ¬e.llamada nombre := by
    intro e listed called
    obtain ⟨u, first⟩ := Option.isSome_iff_exists.mp
      (List.find?_isSome.mpr ⟨e, listed, called⟩ : (List.find? (·.llamada nombre)
        (p :: q :: rest)).isSome)
    have used := (one.orden.usadas u (List.mem_of_find?_eq_some first)).1
    simp only [DirEntry.usada, ne_eq, decide_not, Bool.not_eq_true',
      decide_eq_false_iff_not] at used
    rw [buscarNro_cadenas geo chains, one.bloques] at missing
    simp [List.range_succ, resuelve, first, used] at missing
  exact ⟨fun same => none_called p (by simp) (one.llamada_primera.mpr same),
    fun same => none_called q (by simp) (one.llamada_segunda.mpr same)⟩

/-- `.` has no room to give. -/
theorem lugar_primera (one : EnUnBloque sb d x p q rest) :
    ¬conLugar nombre p := by
  obtain ⟨-, sound, chain⟩ := one.cadenas 0 Nat.one_pos
  have plain := cadena_of_no_zero (one.orden.usadas p (by simp)).2
  have least : p.minimo = 12 := by
    rw [DirEntry.minimo, plain, one.orden.punto]
    rfl
  have room := (DirEntry.minimo_le (sound p (by simp)) (chain.cabe (by simp))).2
  have above := (tamanioMin_bounds nombre).2.1
  rw [least, one.orden.largo] at room
  simp only [conLugar, ge_iff_le, decide_eq_true_eq]
  omega

/-- A new entry finds its place behind `.` and the block keeps its order. -/
theorem conEntrada {desp anterior : Nat} (geo : Geometria sb) (few : Numerable sb)
    (owner : Duenio sb d) (readable : Legibles sb d) (one : EnUnBloque sb d x p q rest)
    (search : buscarEntrada sb d x (conLugar nombre) = some (some (k, desp, anterior, e)))
    (bound : k < alcance sb) (asked : getInodoLibre sb d = some (y, d1)) (nonzero : y ≠ 0)
    (valid : NombreValido nombre) (other : nombre ≠ punto ∧ nombre ≠ puntoPunto)
    (after : d' = Rfs.conEntrada d1 (posicionarInicioBloque sb (bloqueLogico sb d x k)) desp e y
      nombre) :
    (∃ q' rest', EnUnBloque sb d' x p q' rest') ∧ Legibles sb d' := by
  subst after
  obtain ⟨E, obra⟩ := owner
  have chains : Cadenas sb d x (bloquesDe sb (d.inodo x).size.toNat) fun _ => p :: q :: rest :=
    one.bloques ▸ one.cadenas
  obtain ⟨owned, room, us, vs, shape, found, -⟩ := hallada_of_buscar geo chains search
  obtain ⟨-, mem, inodes⟩ := getInodoLibre_solo asked
  have number := getInodoLibre_lt few asked
  have different := inodo_nuevo_ne few one.asignado asked nonzero
  have edit := Edita.conEntrada geo few obra (deTamanio_vivo one.asignado.1) bound owned rfl found
    room asked
  have later : us ≠ [] := by
    rintro rfl
    obtain ⟨rfl, -⟩ := List.cons.inj shape
    exact one.lugar_primera room
  have stored : (entradaNueva d1 y e.resto nombre).name = nombre := by
    have short := valid.2
    rw [entradaNueva, Nat.mod_eq_of_lt (by omega), List.take_length]
  have used : (entradaNueva d1 y e.resto nombre).usada ∧
      0 ∉ (entradaNueva d1 y e.resto nombre).name := by
    rw [stored]
    exact ⟨decide_eq_true nonzero, valid.1⟩
  obtain ⟨q', rest', list, order⟩ := one.orden.inserta (m := e.minimo) shape later used
    (by rwa [stored])
  have name : 8 + e.nameLen ≤ e.minimo := by
    have listed : e ∈ p :: q :: rest := by simp [shape]
    have width := ((one.cadenas 0 Nat.one_pos).2.2.cabe listed).name
    have above := (tamanioMin_bounds e.name).2.1
    rw [DirEntry.minimo, cadena_of_no_zero (one.orden.usadas e listed).2]
    omega
  have member : deTamanio sb d x (camino (ptrsPorBloque sb) k) :=
    (deTamanio_vivo one.asignado.1 _).mpr ⟨k, owned, inicia_camino bound⟩
  have joined := edit.cadenas obra member bound
    (fun q => (deTamanio_vivo one.asignado.1 q).mpr) chains (found.sanas_conEntrada room number name) ((found.congr mem).conEntrada room number name)
  have same : (Rfs.conEntrada d1 (posicionarInicioBloque sb (bloqueLogico sb d x k)) desp e y
      nombre).inodo x = d.inodo x := by
    rw [conEntrada_inodo _ _ _ _ _ different, inodes]
  have allocated : Rfs.asignado sb (Rfs.conEntrada d1
      (posicionarInicioBloque sb (bloqueLogico sb d x k)) desp e y nombre) x := by
    rcases getInodoLibre_asigna few asked with ⟨zero, -⟩ | ⟨-, -, -, bits⟩
    · exact absurd zero nonzero
    rw [Rfs.asignado, conEntrada_bitmapInodos, ← Rfs.asignado, bits]
    exact .inl one.asignado
  have wider : EnUnBloque sb (Rfs.conEntrada d1
      (posicionarInicioBloque sb (bloqueLogico sb d x k)) desp e y nombre) x p q' rest' := by
    refine ⟨allocated, same ▸ one.directorio, same ▸ one.tamanio, ?_, order⟩
    rw [← list]
    exact joined.un_bloque one.bloques owned
  refine ⟨⟨q', rest', wider⟩, readable.conserva
    (edit.conserva_demas obra one.asignado.1 bound owned) (fun _ _ => wider.legible) fun w _ => ?_⟩
  by_cases new : w = y
  · rw [new, conEntrada_inodo_self]
    exact .inl rfl
  · rw [conEntrada_inodo _ _ _ _ _ new, inodes]
    exact .inr ⟨rfl, rfl⟩

/-! ### An entry less -/

theorem sinEntrada (geo : Geometria sb) (owner : Duenio sb d) (readable : Legibles sb d)
    (one : EnUnBloque sb d x p q rest) (other : nombre ≠ punto ∧ nombre ≠ puntoPunto)
    (run : eliminarEntradaDirectorio sb d x nombre = some d') :
    (∃ q' rest', EnUnBloque sb d' x p q' rest') ∧ Legibles sb d' ∧ d'.inodo = d.inodo ∧
      d'.bitmapInodos = d.bitmapInodos := by
  obtain ⟨E, obra⟩ := owner
  have chains : Cadenas sb d x (bloquesDe sb (d.inodo x).size.toNat) fun _ => p :: q :: rest :=
    one.bloques ▸ one.cadenas
  obtain ⟨k, desp, anterior, e, search, bound, outcome⟩ := eliminarEntradaDirectorio_some run
  obtain ⟨owned, called, us, vs, shape, found, last⟩ := hallada_of_buscar geo chains search
  have vivos := deTamanio_vivo (d := d) one.asignado.1
  have member : deTamanio sb d x (camino (ptrsPorBloque sb) k) :=
    (vivos _).mpr ⟨k, owned, inicia_camino bound⟩
  have inside := found.inside
  -- neither of the first two is called so
  have first : us ≠ [] := by
    rintro rfl
    obtain ⟨rfl, -⟩ := List.cons.inj shape
    exact other.1 (one.llamada_primera.mp called)
  rcases last with ⟨rfl, -⟩ | ⟨ws, w, rfl, rfl⟩
  · exact absurd rfl first
  have second : ws ≠ [] := by
    rintro rfl
    obtain ⟨rfl, behind⟩ := List.cons.inj shape
    obtain ⟨rfl, -⟩ := List.cons.inj behind
    exact other.2 (one.llamada_segunda.mp called)
  rcases outcome with ⟨alone, -⟩ | ⟨-, previa, same, rfl⟩
  · exact absurd (found.sola alone).1 first
  obtain ⟨here, after, -, sound, chain⟩ := entradas_unida geo found
  rw [here] at same
  subst same
  have edit := Edita.alarga geo obra vivos bound owned (previa.entryLen + e.entryLen) here
    (found.sanas previa (by simp)) (by omega)
  obtain ⟨q', rest', list, order⟩ :=
    one.orden.quita (m := previa.entryLen + e.entryLen) shape second
  have joined := edit.cadenas obra member bound (fun q => (vivos q).mpr) chains sound chain
  have less : EnUnBloque sb (grabarEntrada d (posicionarInicioBloque sb (bloqueLogico sb d x k))
      (desp - previa.entryLen) { previa with entryLen := previa.entryLen + e.entryLen }) x p q'
      rest' := by
    refine ⟨one.asignado, one.directorio, one.tamanio, ?_, order⟩
    rw [← list]
    exact joined.un_bloque one.bloques owned
  exact ⟨⟨q', rest', less⟩, readable.conserva
    (edit.conserva_demas obra one.asignado.1 bound owned) (fun _ _ => less.legible)
    (fun w _ => .inr ⟨rfl, rfl⟩), rfl, rfl⟩

end EnUnBloque

end LosAltos.Rfs
