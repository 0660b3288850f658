import Mathlib.Data.List.TakeWhile
import LosAltos.Rfs.Entries
import LosAltos.Rfs.Inodes

/-!
# Directories, block by block

`agregarEntradaDirectorio` and `eliminarEntradaDirectorio` (`funciones_rfs.c:884-974, 1155-1199`) on
an image where every block has one owner: what they write in the block of the entry, and
that every other block of every file is left alone.
-/
namespace LosAltos.Rfs

open Lib

/-- Logical blocks an inode can reach. -/
abbrev alcance (sb : Superblock) : Nat :=
  12 + ptrsPorBloque sb + ptrsPorBloque sb * ptrsPorBloque sb +
    ptrsPorBloque sb * ptrsPorBloque sb * ptrsPorBloque sb

/-- The block number of logical block `k` of `x`. -/
def bloqueLogico (sb : Superblock) (d : Disco) (x k : Nat) : Nat :=
  (punteros sb d).valor x (camino (ptrsPorBloque sb) k)

variable {sb : Superblock} {S : Nat → List Nat → Prop} {E : Nat → Prop} {d d' d'' : Disco}
  {x y k l n : Nat} {inicio : Int}

theorem posicionarme_iff : posicionarme sb d x k 0 = some inicio ↔
    k < alcance sb ∧ inicio = posicionarInicioBloque sb (bloqueLogico sb d x k) := by
  constructor
  · intro run
    obtain ⟨bound, rfl⟩ := posicionarme_camino run
    exact ⟨bound, by simp [desplazarme, bloqueLogico]⟩
  · rintro ⟨bound, rfl⟩
    obtain ⟨i, p, shape⟩ := List.exists_cons_of_ne_nil (inicia_camino bound).ne_nil
    simp only [posicionarme, getPtr_camino d x bound, Option.bind_eq_bind, Option.bind_some,
      bloqueLogico, shape, leerSlot_slotDe, desplazarme]
    simp

/-! ### What an edit leaves alone -/

/-- The logical blocks in `R` are where they were, with the same bytes. -/
structure Conserva (sb : Superblock) (R : Nat → Nat → Prop) (d d' : Disco) : Prop where
  lugar : ∀ y l, R y l → bloqueLogico sb d' y l = bloqueLogico sb d y l
  bytes : ∀ y l, R y l → ∀ j < tamanioDeBloque sb,
    d'.mem (posicionarInicioBloque sb (bloqueLogico sb d y l) + (j : Nat)) =
      d.mem (posicionarInicioBloque sb (bloqueLogico sb d y l) + (j : Nat))

namespace Conserva

variable {R Q : Nat → Nat → Prop}

theorem trans (first : Conserva sb R d d') (second : Conserva sb R d' d'') :
    Conserva sb R d d'' := by
  refine ⟨fun y l kept => ?_, fun y l kept j below => ?_⟩
  · rw [second.lugar y l kept, first.lugar y l kept]
  · have again := second.bytes y l kept j below
    rw [first.lugar y l kept] at again
    rw [again, first.bytes y l kept j below]

theorem mono (kept : Conserva sb R d d') (sub : ∀ y l, Q y l → R y l) : Conserva sb Q d d' :=
  ⟨fun y l inside => kept.lugar y l (sub y l inside),
    fun y l inside => kept.bytes y l (sub y l inside)⟩

theorem inodos (mem : d'.mem = d.mem)
    (words : ∀ y j, (d'.inodo y).blocks j = (d.inodo y).blocks j) : Conserva sb R d d' := by
  refine ⟨fun y l _ => ?_, fun y l _ j _ => by rw [mem]⟩
  rw [bloqueLogico, bloqueLogico, punteros_congr mem words]

theorem entradas (kept : Conserva sb R d d') (inside : R y l) {es : List DirEntry}
    (sound : ∀ e ∈ es, e.Sana)
    (chain : Entradas d (posicionarInicioBloque sb (bloqueLogico sb d y l)) 0
      (tamanioDeBloque sb) es) :
    Entradas d' (posicionarInicioBloque sb (bloqueLogico sb d' y l)) 0 (tamanioDeBloque sb) es := by
  rw [kept.lugar y l inside]
  refine chain.congr fun p _ below known => leerEntrada_congr fun j short => ?_
  have width := (sound _ known).2
  change j < 8 + (entradaEn d _ p).nameLen at short
  have byte := kept.bytes y l inside (p + j) (by omega)
  rwa [Nat.cast_add, ← Int.add_assoc] at byte

end Conserva

theorem camino_inj (bound : k < alcance sb) (bound' : l < alcance sb)
    (same : camino (ptrsPorBloque sb) l = camino (ptrsPorBloque sb) k) : l = k := by
  have starts := inicia_camino bound'
  rw [same] at starts
  exact starts.unique (inicia_camino bound)

/-- Bytes were written in the data block `k` of `x` only, and no block number that counts
is another. -/
structure Edita (sb : Superblock) (S : Nat → List Nat → Prop) (E : Nat → Prop) (x k : Nat)
    (d d' : Disco) : Prop where
  obra : Obra sb S E d'
  valor : ∀ y q, S y q → (punteros sb d').valor y q = (punteros sb d).valor y q
  bytes : ∀ b < sb.blocks, b ≠ bloqueLogico sb d x k → ∀ j < tamanioDeBloque sb,
    d'.mem (posicionarInicioBloque sb b + (j : Nat)) =
      d.mem (posicionarInicioBloque sb b + (j : Nat))

namespace Edita

theorem refl (obra : Obra sb S E d) : Edita sb S E x k d d :=
  ⟨obra, fun _ _ _ => rfl, fun _ _ _ _ _ => rfl⟩

theorem trans (first : Edita sb S E x k d d') (second : Edita sb S E x k d' d'')
    (member : S x (camino (ptrsPorBloque sb) k)) : Edita sb S E x k d d'' := by
  refine ⟨second.obra, fun y q inside => ?_, fun b bound other j below => ?_⟩
  · rw [second.valor y q inside, first.valor y q inside]
  · have same : bloqueLogico sb d' x k = bloqueLogico sb d x k := first.valor x _ member
    rw [second.bytes b bound (by rwa [same]) j below, first.bytes b bound other j below]

/-- The tables of inodes, and fields of inodes other than the block numbers. -/
theorem inodos (obra : Obra sb S E d) (same : MismosBloques d d') (mem : d'.mem = d.mem)
    (words : ∀ y j, (d'.inodo y).blocks j = (d.inodo y).blocks j) : Edita sb S E x k d d' := by
  refine ⟨obra.inodos same mem words, fun y q _ => ?_, fun b _ _ j _ => by rw [mem]⟩
  rw [punteros_congr mem words]

theorem ponSize (obra : Obra sb S E d) (y size : Nat) : Edita sb S E x k d (ponSize d y size) :=
  .inodos obra ⟨rfl, rfl, fun _ => rfl⟩ rfl (ponInodo_blocks fun _ => rfl)

theorem grabarEntrada (geo : Geometria sb) (obra : Obra sb S E d)
    (vivos : ∀ q, S x q ↔ Vivo (ptrsPorBloque sb) n q) (bound : k < alcance sb) (owned : k < n)
    (start : inicio = posicionarInicioBloque sb (bloqueLogico sb d x k)) {desp : Nat} {e : DirEntry}
    (inside : desp + e.bytes.length ≤ tamanioDeBloque sb) :
    Edita sb S E x k d (Rfs.grabarEntrada d inicio desp e) := by
  have step := Paso.bloque geo obra vivos bound owned inside
  have place : inicio + desp = desplazarme sb (bloqueLogico sb d x k) desp := by
    rw [start, desplazarme]
  have member : S x (camino (ptrsPorBloque sb) k) := (vivos _).mpr ⟨k, owned, inicia_camino bound⟩
  rw [Rfs.grabarEntrada, place]
  refine ⟨step.obra.con_libro (.anota ..) step.obra.libro, fun y q inner => ?_, ?_⟩
  · exact step.valor y q inner inner
  · intro b small other j below
    have far := geo.apart (obra.libro.rango x _ member) small (Ne.symm other)
    have off : ¬(desplazarme sb (bloqueLogico sb d x k) desp ≤ posicionarInicioBloque sb b + j ∧
        posicionarInicioBloque sb b + j <
          desplazarme sb (bloqueLogico sb d x k) desp + e.bytes.length) := by
      simp only [desplazarme, bloqueLogico] at far ⊢
      omega
    simp [Disco.anota, Disco.copia, escribir, off]

/-- Every other block is kept. -/
theorem conserva (edit : Edita sb S E x k d d') (obra : Obra sb S E d)
    (member : S x (camino (ptrsPorBloque sb) k)) (bound : k < alcance sb) :
    Conserva sb (fun y l => l < alcance sb ∧ S y (camino (ptrsPorBloque sb) l) ∧ ¬(y = x ∧ l = k))
      d d' := by
  refine ⟨fun y l kept => edit.valor y _ kept.2.1, fun y l ⟨inner, inside, other⟩ => ?_⟩
  apply edit.bytes _ (obra.libro.rango y _ inside)
  intro equal
  obtain ⟨rfl, same⟩ := obra.libro.inyectivo y _ x _ inside member equal
  exact other ⟨rfl, camino_inj bound inner same⟩

end Edita

/-! ### Looking for an entry -/

/-- The first `n` blocks of the directory `x` are chains of entries. -/
def Cadenas (sb : Superblock) (d : Disco) (x n : Nat) (ess : Nat → List DirEntry) : Prop :=
  ∀ k < n, k < alcance sb ∧ (∀ e ∈ ess k, e.Sana) ∧
    Entradas d (posicionarInicioBloque sb (bloqueLogico sb d x k)) 0 (tamanioDeBloque sb) (ess k)

namespace Edita

variable {ess : Nat → List DirEntry}

/-- The chains of another directory stay. -/
theorem cadenas_otro (edit : Edita sb S E x k d d') (obra : Obra sb S E d)
    (member : S x (camino (ptrsPorBloque sb) k)) (bound : k < alcance sb) (other : y ≠ x)
    (live : ∀ q, Vivo (ptrsPorBloque sb) n q → S y q) (chains : Cadenas sb d y n ess) :
    Cadenas sb d' y n ess := by
  intro l inside
  obtain ⟨limit, sound, chain⟩ := chains l inside
  refine ⟨limit, sound, (edit.conserva obra member bound).entradas ?_ sound chain⟩
  exact ⟨limit, live _ ⟨l, inside, inicia_camino limit⟩, fun same => other same.1⟩

/-- In the directory edited only block `k` has other entries. -/
theorem cadenas (edit : Edita sb S E x k d d') (obra : Obra sb S E d)
    (member : S x (camino (ptrsPorBloque sb) k)) (bound : k < alcance sb)
    (live : ∀ q, Vivo (ptrsPorBloque sb) n q → S x q) (chains : Cadenas sb d x n ess)
    {es : List DirEntry} (sound : ∀ e ∈ es, e.Sana)
    (chain : Entradas d' (posicionarInicioBloque sb (bloqueLogico sb d x k)) 0
      (tamanioDeBloque sb) es) :
    Cadenas sb d' x n (fun l => if l = k then es else ess l) := by
  have place : bloqueLogico sb d' x k = bloqueLogico sb d x k := edit.valor x _ member
  intro l inside
  obtain ⟨limit, sound', chain'⟩ := chains l inside
  refine ⟨limit, ?_⟩
  by_cases here : l = k
  · subst here
    simp only [↓reduceIte]
    exact ⟨sound, place.symm ▸ chain⟩
  · simp only [here, ↓reduceIte]
    refine ⟨sound', (edit.conserva obra member bound).entradas ?_ sound' chain'⟩
    exact ⟨limit, live _ ⟨l, inside, inicia_camino limit⟩, fun same => here same.2⟩

end Edita

theorem Geometria.tamanio_lt (geo : Geometria sb) : tamanioDeBloque sb < 2 ^ 16 := by
  rcases geo.tamanio with size | size | size <;> omega

variable {ess : Nat → List DirEntry} {p : DirEntry → Bool}

/-- One block of a well formed directory is searched to its end. -/
theorem recorrerBloque_cadenas (geo : Geometria sb) (chains : Cadenas sb d x n ess) (owned : k < n) :
    recorrerBloque sb d (posicionarInicioBloque sb (bloqueLogico sb d x k)) p pasosMaximos 0 0 =
      some (primera p 0 0 (ess k)) := by
  obtain ⟨-, sound, chain⟩ := chains k owned
  have positive : ∀ e ∈ ess k, 0 < e.entryLen := fun e member => (sound e member).positive
  have length := chain.length_le positive
  have small := geo.tamanio_lt
  exact recorrerBloque_entradas small chain positive (by rw [pasosMaximos]; omega)

theorem buscarEnBloque_cadenas (geo : Geometria sb) (chains : Cadenas sb d x n ess) (owned : k < n) :
    ((posicionarme sb d x k 0).bind fun inicio => recorrerBloque sb d inicio p pasosMaximos 0 0) =
      some (primera p 0 0 (ess k)) := by
  rw [posicionarme_iff.mpr ⟨(chains k owned).1, rfl⟩, Option.bind_some,
    recorrerBloque_cadenas geo chains owned]

theorem primerBloque_some {α : Type} {f : Nat → Option (Option α)} {ks : List Nat} {a : α}
    (run : primerBloque f ks = some (some (k, a))) :
    ∃ us vs, ks = us ++ k :: vs ∧ (∀ j ∈ us, f j = some none) ∧ f k = some (some a) := by
  induction ks with
  | nil => cases run
  | cons j ks ih =>
    simp only [primerBloque, Option.bind_eq_bind, Option.bind_eq_some_iff] at run
    obtain ⟨answer, found, run⟩ := run
    cases answer with
    | some a =>
      cases run
      exact ⟨[], ks, rfl, by simp, found⟩
    | none =>
      obtain ⟨us, vs, rfl, before, here⟩ := ih run
      refine ⟨j :: us, vs, rfl, fun i member => ?_, here⟩
      rcases List.mem_cons.mp member with rfl | later
      · exact found
      · exact before i later

theorem primerBloque_range {α : Type} {f : Nat → Option (Option α)} {a : α}
    (run : primerBloque f (List.range n) = some (some (k, a))) :
    (∀ l < k, f l = some none) ∧ k < n ∧ f k = some (some a) := by
  obtain ⟨us, vs, range, before, here⟩ := primerBloque_some run
  have owned : k < n := by
    rw [← List.mem_range, range]
    simp
  refine ⟨fun l less => before l ?_, owned, here⟩
  have sorted : (us ++ k :: vs).Pairwise (· < ·) := range ▸ List.pairwise_lt_range
  have member : l ∈ us ++ k :: vs := range ▸ List.mem_range.mpr (less.trans owned)
  have after := (List.pairwise_cons.mp (List.pairwise_append.mp sorted).2.1).1
  simp only [List.mem_append, List.mem_cons] at member
  rcases member with first | rfl | later
  · exact first
  · omega
  · have := after l later
    omega

theorem primerBloque_none {α : Type} {f : Nat → Option (Option α)} {ks : List Nat}
    (run : primerBloque f ks = some none) : ∀ j ∈ ks, f j = some none := by
  induction ks with
  | nil => simp
  | cons j ks ih =>
    simp only [primerBloque, Option.bind_eq_bind, Option.bind_eq_some_iff] at run
    obtain ⟨answer, found, run⟩ := run
    cases answer with
    | some a => cases run
    | none =>
      intro i member
      rcases List.mem_cons.mp member with rfl | later
      · exact found
      · exact ih run i later

theorem primera_none {es : List DirEntry} {desp anterior : Nat}
    (missing : primera p desp anterior es = none) : ∀ e ∈ es, ¬p e := by
  induction es generalizing desp anterior with
  | nil => simp
  | cons e es ih =>
    rw [primera] at missing
    split at missing
    · cases missing
    · rename_i other
      intro u member
      rcases List.mem_cons.mp member with rfl | later
      · exact other
      · exact ih missing u later

/-- The entry `buscarEntrada` answers is the first of its block that will do, and no block
before it has one. -/
theorem buscarEntrada_cadenas (geo : Geometria sb)
    (chains : Cadenas sb d x (bloquesDe sb (d.inodo x).size.toNat) ess)
    {desp anterior : Nat} {e : DirEntry}
    (run : buscarEntrada sb d x p = some (some (k, desp, anterior, e))) :
    k < bloquesDe sb (d.inodo x).size.toNat ∧ primera p 0 0 (ess k) = some (desp, anterior, e) ∧
      ∀ l < k, ∀ u ∈ ess l, ¬p u := by
  simp only [buscarEntrada, Option.bind_eq_bind, Option.bind_eq_some_iff] at run
  obtain ⟨hallada, walked, run⟩ := run
  split at run
  · cases run
    obtain ⟨before, owned, here⟩ := primerBloque_range walked
    rw [buscarEnBloque_cadenas geo chains owned] at here
    refine ⟨owned, Option.some.inj here, fun l less => ?_⟩
    have earlier := before l less
    rw [buscarEnBloque_cadenas geo chains (by omega)] at earlier
    exact primera_none (Option.some.inj earlier)
  · cases run

theorem buscarEntrada_cadenas_none (geo : Geometria sb)
    (chains : Cadenas sb d x (bloquesDe sb (d.inodo x).size.toNat) ess)
    (run : buscarEntrada sb d x p = some none) :
    ∀ k < bloquesDe sb (d.inodo x).size.toNat, ∀ u ∈ ess k, ¬p u := by
  simp only [buscarEntrada, Option.bind_eq_bind, Option.bind_eq_some_iff] at run
  obtain ⟨hallada, walked, run⟩ := run
  split at run
  · cases run
    intro k owned
    have missing := primerBloque_none walked k (List.mem_range.mpr owned)
    rw [buscarEnBloque_cadenas geo chains owned] at missing
    exact primera_none (Option.some.inj missing)
  · cases run

theorem primerBloque_congr {α : Type} {f g : Nat → Option (Option α)} {ks : List Nat}
    (each : ∀ k ∈ ks, g k = f k) : primerBloque g ks = primerBloque f ks := by
  induction ks with
  | nil => rfl
  | cons k ks ih =>
    rw [primerBloque, primerBloque, each k (List.mem_cons_self ..),
      ih fun j member => each j (List.mem_cons_of_mem _ member)]

/-- A search depends on the chains of the directory only. -/
theorem buscarEntrada_congr (geo : Geometria sb) (size : (d'.inodo x).size = (d.inodo x).size)
    (chains : Cadenas sb d x (bloquesDe sb (d.inodo x).size.toNat) ess)
    (after : Cadenas sb d' x (bloquesDe sb (d.inodo x).size.toNat) ess) :
    buscarEntrada sb d' x p = buscarEntrada sb d x p := by
  simp only [buscarEntrada, size, Option.bind_eq_bind]
  rw [primerBloque_congr fun k member => ?_]
  have owned := List.mem_range.mp member
  rw [buscarEnBloque_cadenas geo chains owned, buscarEnBloque_cadenas geo after owned]

/-! ### The length of an entry -/

theorem tamanioMin_bounds (nombre : Cadena) : 4 ∣ tamanioMinEntradaDirectorio nombre ∧
    8 + nombre.length ≤ tamanioMinEntradaDirectorio nombre ∧
    tamanioMinEntradaDirectorio nombre ≤ 8 + nombre.length + 3 := by
  simp only [tamanioMinEntradaDirectorio]
  split <;> omega

theorem cadena_length_le (bytes : List UInt8) : (cadena bytes).length ≤ bytes.length :=
  (List.takeWhile_prefix _).length_le

theorem cadena_of_no_zero {text : Cadena} (plain : 0 ∉ text) : cadena text = text := by
  rw [cadena, List.takeWhile_eq_self_iff]
  intro c member
  exact decide_eq_true fun zero => plain (zero ▸ member)

/-- The length an entry is cut down to. -/
def DirEntry.minimo (e : DirEntry) : Nat := tamanioMinEntradaDirectorio (cadena e.name)

theorem DirEntry.minimo_le {e : DirEntry} (sound : e.Sana) (fits : e.Cabe) :
    e.minimo ≤ e.entryLen ∧ e.resto = e.entryLen - e.minimo := by
  have short := cadena_length_le e.name
  have name := fits.name
  have width := fits.entryLen
  obtain ⟨words, room⟩ := sound
  obtain ⟨four, -, above⟩ := tamanioMin_bounds (cadena e.name)
  have le : e.minimo ≤ e.entryLen := by
    rw [minimo]
    omega
  exact ⟨le, resta32_of_le le (by omega)⟩

/-! ### A new entry -/

variable {nombre : Cadena} {code : Nat}

theorem agregarNuevaEntrada_some {desp size : Nat}
    (run : agregarNuevaEntrada sb d inicio desp nombre size = some (0, d')) :
    ∃ y d1, getInodoLibre sb d = some (y, d1) ∧ y ≠ 0 ∧
      d' = ponSize (grabarEntrada d1 inicio desp (entradaNueva d1 y size nombre)) y 0 := by
  simp only [agregarNuevaEntrada, Option.bind_eq_bind, Option.bind_eq_some_iff] at run
  obtain ⟨⟨y, d1⟩, asked, run⟩ := run
  split at run
  · rename_i nonzero
    simp only [Option.bind_eq_some_iff] at run
    obtain ⟨node, here, z, present, run⟩ := run
    obtain ⟨rfl, -⟩ := getInodo_some here present
    cases run
    exact ⟨_, d1, asked, nonzero, rfl⟩
  · cases run

theorem entradaNueva_cabe {size : Nat} (few : y < 2 ^ 32) (width : size < 2 ^ 16) :
    (entradaNueva d y size nombre).Cabe where
  inode := few
  entryLen := width
  nameLen := Nat.mod_lt _ (by decide)
  name := List.length_take_of_le (Nat.mod_le ..)

theorem entradaNueva_sana {size : Nat} (words : 4 ∣ size) (room : 8 + nombre.length % 256 ≤ size) :
    (entradaNueva d y size nombre).Sana := ⟨words, room⟩

/-- The inode taken for an entry has a number of 32 bits. -/
theorem getInodoLibre_lt (few : Numerable sb) {d1 : Disco}
    (asked : getInodoLibre sb d = some (y, d1)) : y < 2 ^ 32 := by
  rcases getInodoLibre_asigna few asked with ⟨rfl, -⟩ | ⟨-, valid, -⟩
  · decide
  · exact esInodo_lt few valid

/-- The disk after a new entry for the inode `y` behind the entry `e` of the block at `inicio`. -/
def conEntrada (d : Disco) (inicio : Int) (desp : Nat) (e : DirEntry) (y : Nat)
    (nombre : Cadena) : Disco :=
  grabarEntrada (ponSize (grabarEntrada d inicio (desp + e.minimo)
    (entradaNueva d y e.resto nombre)) y 0) inicio desp { e with entryLen := e.minimo }

section
variable (d : Disco) (inicio : Int) (desp : Nat) (e : DirEntry) (nombre : Cadena)

@[simp] theorem conEntrada_bitmapInodos (y : Nat) :
    (conEntrada d inicio desp e y nombre).bitmapInodos = d.bitmapInodos := by
  simp only [conEntrada, grabarEntrada, ponSize, Disco.anota, Disco.copia, Disco.ponInodo]

@[simp] theorem conEntrada_grupo (y : Nat) :
    (conEntrada d inicio desp e y nombre).grupo = d.grupo := by
  simp only [conEntrada, grabarEntrada, ponSize, Disco.anota, Disco.copia, Disco.ponInodo]

theorem conEntrada_inodo {z : Nat} (other : z ≠ y) :
    (conEntrada d inicio desp e y nombre).inodo z = d.inodo z := if_neg other

theorem conEntrada_inodo_self (y : Nat) :
    (conEntrada d inicio desp e y nombre).inodo y = { d.inodo y with size := 0 } := by
  simp [conEntrada, grabarEntrada, ponSize, Disco.anota, Disco.copia, Disco.ponInodo]

end

/-- The disk after a new entry for the inode `y` alone in block `k` of the directory `x`. -/
def conBloque (sb : Superblock) (d : Disco) (x k y : Nat) (nombre : Cadena) : Disco :=
  let d' := ponSize (grabarEntrada d (posicionarInicioBloque sb (bloqueLogico sb d x k)) 0
    (entradaNueva d y (tamanioDeBloque sb) nombre)) y 0
  ponSize d' x ((d'.inodo x).size.toNat + tamanioDeBloque sb)

section
variable (sb) (d : Disco) (k : Nat) (nombre : Cadena)

@[simp] theorem conBloque_bitmapInodos (x y : Nat) :
    (conBloque sb d x k y nombre).bitmapInodos = d.bitmapInodos := by
  simp only [conBloque, grabarEntrada, ponSize, Disco.anota, Disco.copia, Disco.ponInodo]

@[simp] theorem conBloque_grupo (x y : Nat) :
    (conBloque sb d x k y nombre).grupo = d.grupo := by
  simp only [conBloque, grabarEntrada, ponSize, Disco.anota, Disco.copia, Disco.ponInodo]

theorem conBloque_inodo {z : Nat} (other : z ≠ x) (another : z ≠ y) :
    (conBloque sb d x k y nombre).inodo z = d.inodo z := by
  simp [conBloque, grabarEntrada, ponSize, Disco.anota, Disco.copia, Disco.ponInodo, other, another]

theorem conBloque_inodo_nuevo (other : x ≠ y) :
    (conBloque sb d x k y nombre).inodo y = { d.inodo y with size := 0 } := by
  simp [conBloque, grabarEntrada, ponSize, Disco.anota, Disco.copia, Disco.ponInodo, other.symm]

theorem conBloque_inodo_padre (other : x ≠ y) :
    (conBloque sb d x k y nombre).inodo x =
      { d.inodo x with size := .ofNat ((d.inodo x).size.toNat + tamanioDeBloque sb) } := by
  simp [conBloque, grabarEntrada, ponSize, Disco.anota, Disco.copia, Disco.ponInodo, other]

end

/-- Which entries have room for one called `nombre`. -/
def conLugar (nombre : Cadena) (e : DirEntry) : Bool := e.resto ≥ tamanioMinEntradaDirectorio nombre

/-- A successful `agregarEntradaDirectorio`, in the two ways it goes. -/
theorem agregarEntradaDirectorio_some
    (run : agregarEntradaDirectorio sb d x nombre = some (0, d')) :
    (∃ k desp anterior e y d1, buscarEntrada sb d x (conLugar nombre) =
        some (some (k, desp, anterior, e)) ∧ k < alcance sb ∧
      getInodoLibre sb d = some (y, d1) ∧ y ≠ 0 ∧
      d' = conEntrada d1 (posicionarInicioBloque sb (bloqueLogico sb d x k)) desp e y nombre) ∨
    ∃ b y d1 d2 d3, buscarEntrada sb d x (conLugar nombre) = some none ∧
      getBloqueLibre sb d = some (b, d1) ∧ b ≠ 0 ∧
      agregarAInodo sb (d1.anota (.ensancha (bloquesDe sb (d.inodo x).size.toNat))) x
        (bloquesDe sb (d.inodo x).size.toNat) b = some d2 ∧
      bloquesDe sb (d.inodo x).size.toNat < alcance sb ∧
      getInodoLibre sb d2 = some (y, d3) ∧ y ≠ 0 ∧
      d' = conBloque sb d3 x (bloquesDe sb (d.inodo x).size.toNat) y nombre := by
  simp only [agregarEntradaDirectorio, Option.bind_eq_bind, Option.bind_eq_some_iff] at run
  obtain ⟨hallada, found, run⟩ := run
  cases hallada with
  | some entrada =>
    obtain ⟨k, desp, anterior, e⟩ := entrada
    simp only [Option.bind_eq_some_iff] at run
    obtain ⟨inicio, place, ⟨error, d1⟩, wrote, run⟩ := run
    obtain ⟨bound, rfl⟩ := posicionarme_iff.mp place
    split at run
    · rename_i zero
      subst zero
      cases run
      obtain ⟨y, d2, asked, nonzero, rfl⟩ := agregarNuevaEntrada_some wrote
      exact .inl ⟨k, desp, anterior, e, y, d2, found, bound, asked, nonzero, rfl⟩
    · rename_i failed
      cases run
      exact absurd rfl failed
  | none =>
    simp only [Option.bind_eq_some_iff] at run
    obtain ⟨⟨b, d1⟩, asked, run⟩ := run
    split at run
    · cases run
    rename_i nonzero
    simp only [Option.bind_eq_some_iff] at run
    obtain ⟨d2, stores, inicio, place, ⟨error, d3⟩, wrote, run⟩ := run
    obtain ⟨bound, rfl⟩ := posicionarme_iff.mp place
    split at run
    · rename_i zero
      subst zero
      cases run
      obtain ⟨y, d4, taken, some_inode, rfl⟩ := agregarNuevaEntrada_some wrote
      refine .inr ⟨b, y, d1, d2, d4, found, asked, nonzero, stores, bound, taken, some_inode, ?_⟩
      obtain ⟨-, mem, inodes⟩ := getInodoLibre_solo taken
      have same : bloqueLogico sb d4 x (bloquesDe sb (d.inodo x).size.toNat) =
          bloqueLogico sb d2 x (bloquesDe sb (d.inodo x).size.toNat) := by
        rw [bloqueLogico, bloqueLogico, punteros_congr mem fun y j => by rw [inodes]]
      rw [conBloque, same]
    · rename_i failed
      cases run
      exact absurd rfl failed

/-- Where an entry has room the new one is written, or there was no inode for it. -/
theorem agregarEntradaDirectorio_hallada (few : Numerable sb) {desp anterior : Nat} {e : DirEntry}
    (found : buscarEntrada sb d x (conLugar nombre) = some (some (k, desp, anterior, e)))
    (run : agregarEntradaDirectorio sb d x nombre = some (code, d')) :
    code ≠ 0 ∧ d' = d ∨ code = 0 ∧ k < alcance sb ∧ ∃ y d1,
      getInodoLibre sb d = some (y, d1) ∧ y ≠ 0 ∧
      d' = conEntrada d1 (posicionarInicioBloque sb (bloqueLogico sb d x k)) desp e y nombre := by
  have search : buscarEntrada sb d x (fun e => decide (e.resto ≥ tamanioMinEntradaDirectorio nombre)) =
      some (some (k, desp, anterior, e)) := found
  simp only [agregarEntradaDirectorio, search, Option.bind_eq_bind, Option.bind_some,
    Option.bind_eq_some_iff] at run
  obtain ⟨inicio, place, ⟨error, d1⟩, wrote, run⟩ := run
  obtain ⟨bound, rfl⟩ := posicionarme_iff.mp place
  split at run
  · rename_i zero
    subst zero
    cases run
    obtain ⟨y, d2, asked, nonzero, rfl⟩ := agregarNuevaEntrada_some wrote
    exact .inr ⟨rfl, bound, y, d2, asked, nonzero, rfl⟩
  · rename_i failed
    cases run
    refine .inl ⟨failed, ?_⟩
    simp only [agregarNuevaEntrada, Option.bind_eq_bind, Option.bind_eq_some_iff] at wrote
    obtain ⟨⟨y, d2⟩, asked, wrote⟩ := wrote
    split at wrote
    · simp only [Option.bind_eq_some_iff] at wrote
      obtain ⟨node, -, z, -, wrote⟩ := wrote
      cases wrote
      exact absurd rfl failed
    · rename_i zero
      cases wrote
      rcases getInodoLibre_asigna few asked with ⟨-, -, same⟩ | ⟨-, valid, -⟩
      · exact same
      · exact absurd (Nat.pos_iff_ne_zero.mp valid.1) zero

/-! ### In a block with room -/

/-- What `primera` finds in a block of chains. -/
structure Hallada (sb : Superblock) (d : Disco) (inicio : Int) (desp : Nat) (e : DirEntry)
    (us vs : List DirEntry) : Prop where
  antes : Entradas d inicio 0 desp us
  aqui : entradaEn d inicio desp = e
  despues : Entradas d inicio (desp + e.entryLen) (tamanioDeBloque sb) vs
  sanas : ∀ u ∈ us ++ e :: vs, u.Sana

section
variable {desp : Nat} {e : DirEntry} {us vs : List DirEntry}

namespace Hallada

theorem sana (found : Hallada sb d inicio desp e us vs) : e.Sana :=
  found.sanas e (by simp)

theorem cabe (found : Hallada sb d inicio desp e us vs) : e.Cabe := by
  rw [← found.aqui]
  exact leerEntrada_cabe d _

theorem inside (found : Hallada sb d inicio desp e us vs) :
    desp + e.entryLen ≤ tamanioDeBloque sb := found.despues.le

theorem congr (found : Hallada sb d inicio desp e us vs) (mem : d'.mem = d.mem) :
    Hallada sb d' inicio desp e us vs := by
  have same := entradaEn_mem mem inicio
  refine ⟨?_, ?_, ?_, found.sanas⟩
  · rw [Entradas, same]
    exact found.antes
  · rw [same]
    exact found.aqui
  · rw [Entradas, same]
    exact found.despues

/-- The new entry has the length that the old one gives up. -/
theorem nueva (found : Hallada sb d inicio desp e us vs) (room : conLugar nombre e)
    (number : y < 2 ^ 32) (d' : Disco) :
    (entradaNueva d' y e.resto nombre).Cabe ∧ (entradaNueva d' y e.resto nombre).Sana ∧
      e.minimo + (entradaNueva d' y e.resto nombre).entryLen = e.entryLen := by
  obtain ⟨le, rest⟩ := DirEntry.minimo_le found.sana found.cabe
  have width := found.cabe.entryLen
  have room : tamanioMinEntradaDirectorio nombre ≤ e.resto := by simpa [conLugar] using room
  have words : 4 ∣ e.resto := by
    rw [rest]
    exact Nat.dvd_sub found.sana.1 (tamanioMin_bounds _).1
  have name : 8 + nombre.length % 256 ≤ e.resto := by
    have above := (tamanioMin_bounds nombre).2.1
    have low := Nat.mod_le nombre.length 256
    omega
  refine ⟨entradaNueva_cabe number (by omega), entradaNueva_sana words name, ?_⟩
  change e.minimo + e.resto = e.entryLen
  omega

theorem conEntrada (found : Hallada sb d inicio desp e us vs) (room : conLugar nombre e)
    (number : y < 2 ^ 32) (name : 8 + e.nameLen ≤ e.minimo) :
    Entradas (conEntrada d inicio desp e y nombre) inicio 0 (tamanioDeBloque sb)
      (us ++ { e with entryLen := e.minimo } :: entradaNueva d y e.resto nombre :: vs) := by
  obtain ⟨fits, sound, total⟩ := found.nueva room number d
  exact Entradas.partir found.antes found.aqui found.despues
    (fun u member => found.sanas u (by simp [member])) name fits total sound rfl

theorem sanas_conEntrada (found : Hallada sb d inicio desp e us vs) (room : conLugar nombre e)
    (number : y < 2 ^ 32) (name : 8 + e.nameLen ≤ e.minimo) :
    ∀ u ∈ us ++ { e with entryLen := e.minimo } :: entradaNueva d' y e.resto nombre :: vs,
      u.Sana := by
  intro u member
  simp only [List.mem_append, List.mem_cons] at member
  rcases member with first | rfl | rfl | last
  · exact found.sanas u (by simp [first])
  · exact ⟨(tamanioMin_bounds _).1, name⟩
  · exact (found.nueva room number d').2.1
  · exact found.sanas u (by simp [last])

end Hallada

/-- The two writes, when both stay inside the block. -/
theorem Edita.dosEntradas (geo : Geometria sb) {d1 : Disco} (obra : Obra sb S E d)
    (vivos : ∀ q, S x q ↔ Vivo (ptrsPorBloque sb) n q) (bound : k < alcance sb) (owned : k < n)
    (start : inicio = posicionarInicioBloque sb (bloqueLogico sb d x k))
    (asked : getInodoLibre sb d = some (y, d1))
    (behind : desp + e.minimo + (entradaNueva d1 y e.resto nombre).bytes.length ≤
      tamanioDeBloque sb)
    (front : desp + ({ e with entryLen := e.minimo } : DirEntry).bytes.length ≤
      tamanioDeBloque sb) :
    Edita sb S E x k d (Rfs.conEntrada d1 inicio desp e y nombre) := by
  have member : S x (camino (ptrsPorBloque sb) k) := (vivos _).mpr ⟨k, owned, inicia_camino bound⟩
  obtain ⟨same, mem, inodes⟩ := getInodoLibre_solo asked
  have taken : Edita sb S E x k d d1 := .inodos obra same mem fun y j => by rw [inodes]
  have start1 := start
  rw [show bloqueLogico sb d x k = bloqueLogico sb d1 x k from (taken.valor x _ member).symm] at start1
  have wrote := Edita.grabarEntrada geo taken.obra vivos bound owned start1 behind
  have sofar := (taken.trans wrote member).trans (.ponSize wrote.obra y 0) member
  have start2 := start
  rw [show bloqueLogico sb d x k = bloqueLogico sb _ x k from (sofar.valor x _ member).symm] at start2
  exact sofar.trans (.grabarEntrada geo sofar.obra vivos bound owned start2 front) member

/-- The entry found by a search through chains has room for both. -/
theorem Edita.conEntrada (geo : Geometria sb) (few : Numerable sb) {d1 : Disco}
    (obra : Obra sb S E d) (vivos : ∀ q, S x q ↔ Vivo (ptrsPorBloque sb) n q)
    (bound : k < alcance sb) (owned : k < n)
    (start : inicio = posicionarInicioBloque sb (bloqueLogico sb d x k))
    (found : Hallada sb d inicio desp e us vs) (room : conLugar nombre e)
    (asked : getInodoLibre sb d = some (y, d1)) :
    Edita sb S E x k d (Rfs.conEntrada d1 inicio desp e y nombre) := by
  obtain ⟨fits, sound, total⟩ := found.nueva room (getInodoLibre_lt few asked) d1
  have place := found.inside
  have header := found.cabe.name
  have whole := found.sana.2
  refine .dosEntradas geo obra vivos bound owned start asked ?_ ?_
  · have := sound.2
    rw [DirEntry.bytes_length, fits.name]
    omega
  · rw [DirEntry.bytes_length]
    simp only
    omega

end

/-! ### In a block of its own -/

/-- Away from the boundaries, the slot of the next block lies in an indirection block that the
inode has already. -/
theorem slot_siguiente (vivos : ∀ q, S x q ↔ Vivo (ptrsPorBloque sb) n q) (bound : n < alcance sb)
    (inner : n < 12 ∨ (n - 12) % ptrsPorBloque sb ≠ 0) {i : Nat} {p : List Nat}
    (shape : camino (ptrsPorBloque sb) n = i :: p) :
    (p ≠ [] → S x p ∧ i < ptrsPorBloque sb) ∧ ¬S x (i :: p) := by
  have starts := inicia_camino bound
  rw [shape] at starts
  refine ⟨fun filled => ?_, fun member => ?_⟩
  · obtain ⟨j, q, rfl⟩ := List.exists_cons_of_ne_nil filled
    obtain ⟨width, m, le, up⟩ := starts.parent
    refine ⟨(vivos _).mpr ⟨m, ?_, up⟩, width⟩
    rcases Nat.lt_or_eq_of_le le with less | rfl
    · exact less
    · have same := inicia_solo bound inner up
      rw [shape] at same
      simp at same
  · exact not_vivo_of_inicia starts (Nat.le_refl n) ((vivos _).mp member)

/-- A word written in an indirection block is nobody's data. -/
theorem grabarSlot_datos (geo : Geometria sb) {i b m : Nat} {p : List Nat} (obra : Obra sb S E d)
    (parent : p ≠ [] → S x p ∧ i < ptrsPorBloque sb) (starts : Inicia (ptrsPorBloque sb) m (i :: p))
    (limit : l < alcance sb) (kept : S y (camino (ptrsPorBloque sb) l)) {j : Nat}
    (below : j < tamanioDeBloque sb) :
    (grabarSlot d (slotDe sb d x (i :: p)) b).mem
        (posicionarInicioBloque sb (bloqueLogico sb d y l) + (j : Nat)) =
      d.mem (posicionarInicioBloque sb (bloqueLogico sb d y l) + (j : Nat)) := by
  cases p with
  | nil => rfl
  | cons t q =>
    obtain ⟨above, width⟩ := parent (by simp)
    have different : (punteros sb d).valor x (t :: q) ≠ bloqueLogico sb d y l := by
      intro equal
      obtain ⟨rfl, data⟩ := obra.libro.inyectivo x _ y _ above kept equal
      rw [data] at starts
      exact camino_leaf limit starts
    have far := geo.apart (obra.libro.rango x _ above) (obra.libro.rango y _ kept) different
    have four := geo.ptrs
    have off : ¬(desplazarme sb ((punteros sb d).valor x (t :: q)) (i * 4) ≤
        posicionarInicioBloque sb (bloqueLogico sb d y l) + j ∧
        posicionarInicioBloque sb (bloqueLogico sb d y l) + j <
          desplazarme sb ((punteros sb d).valor x (t :: q)) (i * 4) + (toLe 4 b).length) := by
      rw [toLe_length]
      simp only [desplazarme, bloqueLogico] at far ⊢
      omega
    exact if_neg off

theorem agregarAInodo_conserva (geo : Geometria sb) {b : Nat} (obra : Obra sb S E d)
    (vivos : ∀ q, S x q ↔ Vivo (ptrsPorBloque sb) n q) (bound : n < alcance sb)
    (inner : n < 12 ∨ (n - 12) % ptrsPorBloque sb ≠ 0) (small : b < 2 ^ 32)
    (run : agregarAInodo sb d x n b = some d') :
    bloqueLogico sb d' x n = b ∧
      Conserva sb (fun y l => l < alcance sb ∧ S y (camino (ptrsPorBloque sb) l)) d d' := by
  simp only [agregarAInodo, getPtr_camino d x bound, Option.bind_eq_bind, Option.bind_some,
    Option.some.injEq] at run
  subst run
  obtain ⟨i, p, shape⟩ := List.exists_cons_of_ne_nil (inicia_camino bound).ne_nil
  obtain ⟨parent, out⟩ := slot_siguiente vivos bound inner shape
  have pone := pone_grabarSlot geo d (fun filled => obra.libro.rango x p (parent filled).1)
    (fun filled => (parent filled).2) small
  have same := obra.libro.valor_eq pone (fun filled => (parent filled).1) (fun _ _ => id)
    obra.libro.cerrado out
  rw [bloqueLogico, shape]
  refine ⟨obra.libro.valor_self pone (fun filled => (parent filled).1)
    (fun filled => (parent filled).2) out, fun y l kept => same y _ kept.2, ?_⟩
  rintro y l ⟨limit, kept⟩ j below
  exact grabarSlot_datos geo obra parent (shape ▸ inicia_camino bound) limit kept below

section
variable {b : Nat} {d1 d2 d3 : Disco}

/-- The directory `x` gets the block `b` as its block `n`. -/
structure Ensancha (sb : Superblock) (E : Nat → Prop) (x n b : Nat) (d d' : Disco) : Prop where
  paso : Paso sb x (deTamanio sb d) (conBloques sb (deTamanio sb d) x (n + 1)) E d d'
  bloque : bloqueLogico sb d' x n = b
  conserva : Conserva sb (fun y l => l < alcance sb ∧ deTamanio sb d y (camino (ptrsPorBloque sb) l))
    d d'

theorem ensancha (geo : Geometria sb) (valid : esInodo sb x) (obra : Obra sb (deTamanio sb d) E d)
    (size : n = bloquesDe sb (d.inodo x).size.toNat) (bound : n < alcance sb)
    (inner : n < 12 ∨ (n - 12) % ptrsPorBloque sb ≠ 0)
    (asked : getBloqueLibre sb d = some (b, d1)) (nonzero : b ≠ 0)
    (stores : agregarAInodo sb (d1.anota (.ensancha n)) x n b = some d2) :
    Ensancha sb E x n b d d2 := by
  have vivos := size ▸ deTamanio_vivo (d := d) valid
  obtain ⟨small, waiting, taken⟩ := Paso.pedir (x := x) geo obra asked nonzero
  have noted := Paso.anota (x := x) taken.obra (.ensancha n)
  have both := taken.crecer noted (fun _ _ => id) fun _ _ => id
  have start : Obra sb (conHasta sb (deTamanio sb d) x n (camino (ptrsPorBloque sb) n).length)
      (fun c => E c ∨ c = b) (d1.anota (.ensancha n)) := by
    refine ⟨noted.obra.libro.of_iff fun y q => ⟨?_, .inl⟩, noted.obra.tablas⟩
    rintro (old | ⟨-, starts, short⟩)
    · exact old
    · rw [inicia_solo bound inner starts] at short
      omega
  have stored := Paso.agregarAInodo geo start waiting small vivos stores
  obtain ⟨here, kept⟩ := agregarAInodo_conserva geo noted.obra vivos bound inner
    (small.trans geo.blocks_lt) stores
  have solo := getBloqueLibre_solo asked
  refine ⟨?_, here, .trans (.inodos solo.mem fun y j => by rw [solo.inodo]) ?_⟩
  · have same : ∀ y q, conBloques sb (deTamanio sb d) x (n + 1) y q ↔
        deTamanio sb d y q ∨ y = x ∧ Inicia (ptrsPorBloque sb) n q := by
      intro y q
      rw [conBloques_succ, size, conBloques_deTamanio valid]
    refine (both.crecer ⟨stored.obra, fun y q old new => ?_, ?_⟩ (fun _ _ => id) fun y q => .inl).of_iff
      same
    · exact stored.valor y q (.inl old) new
    · refine stored.marco.mono fun c => ?_
      rintro (⟨q, old | ⟨-, starts, shorter⟩, value⟩ | after)
      · exact .inl ⟨q, old, value⟩
      · rw [inicia_solo bound inner starts] at shorter
        omega
      · exact .inr after
  · have same : Conserva sb (fun y l => l < alcance sb ∧
        deTamanio sb d y (camino (ptrsPorBloque sb) l)) d1 (d1.anota (.ensancha n)) :=
      .inodos rfl fun _ _ => rfl
    exact same.trans kept

/-- The entry written in the new block. -/
theorem Ensancha.conBloque (nombre : Cadena) (geo : Geometria sb) (few : Numerable sb)
    (wider : Ensancha sb E x n b d d2) (bound : n < alcance sb)
    (asked : getInodoLibre sb d2 = some (y, d3)) :
    Edita sb (conBloques sb (deTamanio sb d) x (n + 1)) E x n d2 (conBloque sb d3 x n y nombre) ∧
      Entradas (conBloque sb d3 x n y nombre)
        (posicionarInicioBloque sb (bloqueLogico sb (conBloque sb d3 x n y nombre) x n)) 0
        (tamanioDeBloque sb) [entradaNueva d3 y (tamanioDeBloque sb) nombre] ∧
      (entradaNueva d3 y (tamanioDeBloque sb) nombre).Sana := by
  have member : conBloques sb (deTamanio sb d) x (n + 1) x (camino (ptrsPorBloque sb) n) :=
    (conBloques_self _).mpr ⟨n, Nat.lt_succ_self n, inicia_camino bound⟩
  obtain ⟨same, mem, inodes⟩ := getInodoLibre_solo asked
  have taken : Edita sb (conBloques sb (deTamanio sb d) x (n + 1)) E x n d2 d3 :=
    .inodos wider.paso.obra same mem fun y j => by rw [inodes]
  have low : nombre.length % 256 < 256 := Nat.mod_lt _ (by decide)
  have size : 4 ∣ tamanioDeBloque sb ∧ 8 + nombre.length % 256 ≤ tamanioDeBloque sb := by
    rcases geo.tamanio with size | size | size <;> rw [size] <;> omega
  have fits : (entradaNueva d3 y (tamanioDeBloque sb) nombre).Cabe :=
    entradaNueva_cabe (getInodoLibre_lt few asked) geo.tamanio_lt
  have sound : (entradaNueva d3 y (tamanioDeBloque sb) nombre).Sana :=
    entradaNueva_sana size.1 size.2
  have inside : 0 + (entradaNueva d3 y (tamanioDeBloque sb) nombre).bytes.length ≤
      tamanioDeBloque sb := by
    have := sound.2
    rw [DirEntry.bytes_length, fits.name, Nat.zero_add]
    exact this
  have wrote := Edita.grabarEntrada geo taken.obra conBloques_self bound (Nat.lt_succ_self n) rfl
    inside
  have sofar := (taken.trans wrote member).trans (.ponSize wrote.obra y 0) member
  have edit : Edita sb (conBloques sb (deTamanio sb d) x (n + 1)) E x n d2
      (Rfs.conBloque sb d3 x n y nombre) := sofar.trans (.ponSize sofar.obra x _) member
  have place : bloqueLogico sb (Rfs.conBloque sb d3 x n y nombre) x n = bloqueLogico sb d3 x n :=
    (edit.valor x _ member).trans (taken.valor x _ member).symm
  refine ⟨edit, ?_, sound⟩
  have read : entradaEn (Rfs.conBloque sb d3 x n y nombre) = entradaEn (grabarEntrada d3
      (posicionarInicioBloque sb (bloqueLogico sb d3 x n)) 0
      (entradaNueva d3 y (tamanioDeBloque sb) nombre)) := funext (entradaEn_mem rfl)
  rw [place, Entradas, read]
  exact Tramo.cons_iff.mpr ⟨entradaEn_grabarEntrada_self fits,
    Tramo.nil_iff.mpr (Nat.zero_add _)⟩

end

/-! ### An entry that goes -/

/-- A successful `eliminarEntradaDirectorio`: the block of the entry goes, or the entry before
it grows. The first entry of a block is taken for its own predecessor. -/
theorem eliminarEntradaDirectorio_some (run : eliminarEntradaDirectorio sb d x nombre = some d') :
    ∃ k desp anterior e, buscarEntrada sb d x (·.llamada nombre) =
        some (some (k, desp, anterior, e)) ∧ k < alcance sb ∧
      (e.entryLen = tamanioDeBloque sb ∧
          liberarBloque sb (d.anota .vacia) (slotDe sb d x (camino (ptrsPorBloque sb) k)) = some d' ∨
        e.entryLen ≠ tamanioDeBloque sb ∧ ∃ previa,
          previa = entradaEn d (posicionarInicioBloque sb (bloqueLogico sb d x k))
            (desp - anterior) ∧
          d' = grabarEntrada d (posicionarInicioBloque sb (bloqueLogico sb d x k)) (desp - anterior)
            { previa with entryLen := previa.entryLen + e.entryLen }) := by
  simp only [eliminarEntradaDirectorio, Option.bind_eq_bind, Option.bind_eq_some_iff] at run
  obtain ⟨hallada, found, ⟨k, desp, anterior, e⟩, rfl, run⟩ := run
  refine ⟨k, desp, anterior, e, found, ?_⟩
  split at run
  · rename_i alone
    simp only [Option.bind_eq_some_iff] at run
    obtain ⟨slot, place, freed⟩ := run
    have bound := getPtr_some d x place
    rw [getPtr_camino d x bound] at place
    cases place
    exact ⟨bound, .inl ⟨alone, freed⟩⟩
  · rename_i others
    simp only [Option.bind_eq_some_iff, Option.some.injEq] at run
    obtain ⟨inicio, place, rfl⟩ := run
    obtain ⟨bound, rfl⟩ := posicionarme_iff.mp place
    exact ⟨bound, .inr ⟨others, _, rfl, rfl⟩⟩

end LosAltos.Rfs
