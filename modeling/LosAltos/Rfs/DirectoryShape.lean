import LosAltos.Rfs.Directories

/-!
# The shape of a directory

What `agregarEntradaDirectorio` and `eliminarEntradaDirectorio` (`funciones_rfs.c:884-974, 1155-1199`)
leave of a well formed directory. A block added where an indirection block starts, and the
removal of the first entry of a block, are the cases the code gets wrong.
-/
namespace LosAltos.Rfs

open Lib

section
variable (sb : Superblock)

/-- The size is in blocks, no block on the way to one of them is 0, and each is a chain of
entries. -/
structure DirectorioBien (d : Disco) (x : Nat) : Prop where
  multiplo : tamanioDeBloque sb ∣ (d.inodo x).size.toNat
  mapeado : ∀ q, Vivo (ptrsPorBloque sb) ((d.inodo x).size.toNat / tamanioDeBloque sb) q →
    (punteros sb d).valor x q ≠ 0
  cadena : ∀ k < (d.inodo x).size.toNat / tamanioDeBloque sb, ∃ inicio es,
    posicionarme sb d x k 0 = some inicio ∧ Entradas d inicio 0 (tamanioDeBloque sb) es ∧
      ∀ e ∈ es, e.Sana

inductive Edicion where
  /-- A name of 1 to 255 bytes. -/
  | agregar (nombre : Cadena) (largo : 1 ≤ nombre.length ∧ nombre.length ≤ 255)
  | eliminar (nombre : Cadena)

/-- The disk after an edit that succeeds. -/
def editar (d : Disco) (x : Nat) : Edicion → Option Disco
  | .agregar nombre _ =>
    match agregarEntradaDirectorio sb d x nombre with
    | some (0, d') => some d'
    | _ => none
  | .eliminar nombre => eliminarEntradaDirectorio sb d x nombre

/-- The directory gets a block that needs an indirection block of its own. -/
def EnFrontera (d : Disco) (x : Nat) : Edicion → Prop
  | .agregar nombre _ => buscarEntrada sb d x (conLugar nombre) = some none ∧
      12 ≤ bloquesDe sb (d.inodo x).size.toNat ∧
      (bloquesDe sb (d.inodo x).size.toNat - 12) % ptrsPorBloque sb = 0
  | .eliminar _ => False

/-- The entry `e`, `desp` bytes into block `k`, has one before it, or shares its block and
another entry starts at twice its length. -/
def Quitable (d : Disco) (x k desp : Nat) (e : DirEntry) : Prop :=
  desp ≠ 0 ∨ e.entryLen ≠ tamanioDeBloque sb ∧ ∃ vs, (∀ v ∈ vs, v.Sana) ∧
    Entradas d (posicionarInicioBloque sb (bloqueLogico sb d x k)) (e.entryLen + e.entryLen)
      (tamanioDeBloque sb) vs

/-- The entry cut short keeps the room of its name, and the one removed may go. -/
def ConservaForma (d : Disco) (x : Nat) : Edicion → Prop
  | .agregar nombre _ => ∀ k desp anterior e,
      buscarEntrada sb d x (conLugar nombre) = some (some (k, desp, anterior, e)) →
        8 + e.nameLen ≤ e.minimo
  | .eliminar nombre => ∀ k desp anterior e,
      buscarEntrada sb d x (·.llamada nombre) = some (some (k, desp, anterior, e)) →
        Quitable sb d x k desp e

end

variable {sb : Superblock} {S : Nat → List Nat → Prop} {E : Nat → Prop} {d d' : Disco}
  {x k n : Nat} {ess : Nat → List DirEntry}

theorem bloquesDe_of_dvd (geo : Geometria sb) {size : Nat} (whole : tamanioDeBloque sb ∣ size) :
    bloquesDe sb size = size / tamanioDeBloque sb := by
  obtain ⟨m, rfl⟩ := whole
  rw [Nat.mul_comm, bloquesDe_mul, Nat.mul_div_cancel _ geo.tamanio_pos]

namespace DirectorioBien

theorem size (geo : Geometria sb) (good : DirectorioBien sb d x)
    (count : n = bloquesDe sb (d.inodo x).size.toNat) :
    (d.inodo x).size.toNat = n * tamanioDeBloque sb := by
  rw [count, bloquesDe_of_dvd geo good.multiplo, Nat.div_mul_cancel good.multiplo]

theorem cadenas (geo : Geometria sb) (good : DirectorioBien sb d x) :
    ∃ ess, Cadenas sb d x (bloquesDe sb (d.inodo x).size.toNat) ess := by
  rw [bloquesDe_of_dvd geo good.multiplo]
  have each : ∀ k, ∃ es, k < (d.inodo x).size.toNat / tamanioDeBloque sb →
      k < alcance sb ∧ (∀ e ∈ es, e.Sana) ∧ Entradas d
        (posicionarInicioBloque sb (bloqueLogico sb d x k)) 0 (tamanioDeBloque sb) es := by
    intro k
    by_cases owned : k < (d.inodo x).size.toNat / tamanioDeBloque sb
    · obtain ⟨inicio, es, place, chain, sound⟩ := good.cadena k owned
      obtain ⟨bound, rfl⟩ := posicionarme_iff.mp place
      exact ⟨es, fun _ => ⟨bound, sound, chain⟩⟩
    · exact ⟨[], fun inside => absurd inside owned⟩
  choose ess spec using each
  exact ⟨ess, spec⟩

/-- On an image with owners only the size and the chains are left to check. -/
theorem of_cadenas (geo : Geometria sb) (obra : Obra sb S E d)
    (live : ∀ q, Vivo (ptrsPorBloque sb) n q → S x q)
    (size : (d.inodo x).size.toNat = n * tamanioDeBloque sb) (chains : Cadenas sb d x n ess) :
    DirectorioBien sb d x := by
  have count : (d.inodo x).size.toNat / tamanioDeBloque sb = n := by
    rw [size, Nat.mul_div_cancel _ geo.tamanio_pos]
  refine ⟨⟨n, by rw [size, Nat.mul_comm]⟩, ?_, ?_⟩ <;> rw [count]
  · intro q member
    exact (obra.libro.usado_of_mem (live q member)).1
  · intro k owned
    obtain ⟨bound, sound, chain⟩ := chains k owned
    exact ⟨_, ess k, posicionarme_iff.mpr ⟨bound, rfl⟩, chain, sound⟩

end DirectorioBien

/-- What a search finds, in its block. -/
theorem hallada_of_buscar (geo : Geometria sb)
    (chains : Cadenas sb d x (bloquesDe sb (d.inodo x).size.toNat) ess) {p : DirEntry → Bool}
    {desp anterior : Nat} {e : DirEntry}
    (run : buscarEntrada sb d x p = some (some (k, desp, anterior, e))) :
    k < bloquesDe sb (d.inodo x).size.toNat ∧ p e ∧ ∃ us vs, ess k = us ++ e :: vs ∧
      Hallada sb d (posicionarInicioBloque sb (bloqueLogico sb d x k)) desp e us vs ∧
      (us = [] ∧ anterior = 0 ∨ ∃ ws w, us = ws ++ [w] ∧ anterior = w.entryLen) := by
  obtain ⟨owned, found, -⟩ := buscarEntrada_cadenas geo chains run
  obtain ⟨-, sound, chain⟩ := chains k owned
  obtain ⟨us, vs, shape, holds, -, before, here, after, last⟩ := primera_entradas chain found
  exact ⟨owned, holds, us, vs, shape, ⟨before, here, after, shape ▸ sound⟩, last⟩

/-- After an edit of block `k` only that block is in question. -/
theorem Edita.bien_iff (geo : Geometria sb) (valid : esInodo sb x)
    (obra : Obra sb (deTamanio sb d) E d) (good : DirectorioBien sb d x)
    (bound : k < alcance sb) (owned : k < bloquesDe sb (d.inodo x).size.toNat)
    (edit : Edita sb (deTamanio sb d) E x k d d') (size : (d'.inodo x).size = (d.inodo x).size) :
    DirectorioBien sb d' x ↔ ∃ es, (∀ e ∈ es, e.Sana) ∧ Entradas d'
      (posicionarInicioBloque sb (bloqueLogico sb d x k)) 0 (tamanioDeBloque sb) es := by
  have vivos := deTamanio_vivo (d := d) valid
  have whole := bloquesDe_of_dvd geo good.multiplo
  have member : deTamanio sb d x (camino (ptrsPorBloque sb) k) :=
    (vivos _).mpr ⟨k, owned, inicia_camino bound⟩
  have place : bloqueLogico sb d' x k = bloqueLogico sb d x k := edit.valor x _ member
  constructor
  · intro after
    rw [whole, ← size] at owned
    obtain ⟨inicio, es, found, chain, sound⟩ := after.cadena k owned
    obtain ⟨-, rfl⟩ := posicionarme_iff.mp found
    exact ⟨es, sound, place ▸ chain⟩
  · rintro ⟨es, sound, chain⟩
    obtain ⟨ess, chains⟩ := good.cadenas geo
    have blocks := edit.cadenas obra member bound (fun q => (vivos q).mpr) chains sound chain
    refine .of_cadenas geo edit.obra (fun q => (vivos q).mpr) ?_ blocks
    rw [size, whole, Nat.div_mul_cancel good.multiplo]

/-! ### Adding an entry -/

section
variable {y desp anterior : Nat} {e : DirEntry} {nombre : Cadena} {d1 : Disco}

/-- The inode taken is not the directory itself. -/
theorem inodo_nuevo_ne (few : Numerable sb) (allocated : asignado sb d x)
    (asked : getInodoLibre sb d = some (y, d1)) (nonzero : y ≠ 0) : x ≠ y := by
  rintro rfl
  rcases getInodoLibre_asigna few asked with ⟨zero, -⟩ | ⟨-, -, free, -⟩
  · exact nonzero zero
  · exact free allocated

/-- The entry that gives up room keeps its name whole, or the directory is spoilt. -/
theorem bien_conEntrada (geo : Geometria sb) (few : Numerable sb) (allocated : asignado sb d x)
    (obra : Obra sb (deTamanio sb d) E d) (good : DirectorioBien sb d x)
    (run : buscarEntrada sb d x (conLugar nombre) = some (some (k, desp, anterior, e)))
    (bound : k < alcance sb) (asked : getInodoLibre sb d = some (y, d1)) (nonzero : y ≠ 0) :
    DirectorioBien sb (conEntrada d1 (posicionarInicioBloque sb (bloqueLogico sb d x k)) desp e y
      nombre) x ↔ 8 + e.nameLen ≤ e.minimo := by
  obtain ⟨ess, chains⟩ := good.cadenas geo
  obtain ⟨owned, room, us, vs, -, found, -⟩ := hallada_of_buscar geo chains run
  have number := getInodoLibre_lt few asked
  obtain ⟨-, mem, inodes⟩ := getInodoLibre_solo asked
  have edit := Edita.conEntrada geo few obra (deTamanio_vivo allocated.1) bound owned rfl found room
    asked
  rw [edit.bien_iff geo allocated.1 obra good bound owned]
  · have after := found.congr mem
    constructor
    · rintro ⟨es, sound, chain⟩
      have previous : ∀ u ∈ us, u.Sana := fun u member => found.sanas u (by simp [member])
      have once : Entradas (ponSize (grabarEntrada d1 _ (desp + e.minimo)
          (entradaNueva d1 y e.resto nombre)) y 0) _ 0 desp us :=
        after.antes.previas previous (Nat.le_add_right desp e.minimo)
      have start := once.previas (e := { e with entryLen := e.minimo }) previous (Nat.le_refl desp)
      have length := found.sana.positive
      have inside := found.inside
      obtain ⟨ws, rfl, rest⟩ := start.sigue chain (by omega) fun u member =>
        (previous u member).positive
      -- the chain has to go through the entry cut short
      cases rest with
      | nil => omega
      | cons tail =>
        have cut := sound _ (List.mem_append_right us (List.mem_cons_self ..))
        have width : DirEntry.Cabe { e with entryLen := e.minimo } := by
          have fits := found.cabe
          have le := (DirEntry.minimo_le found.sana fits).1
          exact ⟨fits.inode, lt_of_le_of_lt le fits.entryLen, fits.nameLen, fits.name⟩
        rw [entradaEn_grabarEntrada_self width] at cut
        exact cut.2
    · intro name
      exact ⟨_, found.sanas_conEntrada room number name, after.conEntrada room number name⟩
  · have other := inodo_nuevo_ne few allocated asked nonzero
    rw [conEntrada_inodo _ _ _ _ _ other, inodes]

/-- Different blocks of the image, none of them block 0. -/
theorem bloques_distintos {f : Nat → Nat} (inside : ∀ k < n, f k ≠ 0 ∧ f k < sb.blocks)
    (injective : Set.InjOn f (Finset.range n)) : n ≤ sb.blocks - 1 := by
  have image : ∀ k ∈ Finset.range n, f k ∈ (Finset.range sb.blocks).erase 0 := by
    intro k member
    rw [Finset.mem_erase, Finset.mem_range]
    exact inside k (Finset.mem_range.mp member)
  have count := Finset.card_le_card_of_injOn f image injective
  rw [Finset.card_range] at count
  rcases Nat.eq_zero_or_pos sb.blocks with zero | positive
  · simpa [zero] using count
  · rwa [Finset.card_erase_of_mem (Finset.mem_range.mpr positive), Finset.card_range] at count

/-- The data of a file, and a block that waits for it. -/
theorem bloques_con_uno (geo : Geometria sb) {b : Nat}
    (obra : Obra sb S (fun c => E c ∨ c = b) d) (nonzero : b ≠ 0) (small : b < sb.blocks)
    (held : ∀ k < n, k < alcance sb ∧ S x (camino (ptrsPorBloque sb) k)) :
    (n + 1) * tamanioDeBloque sb < 2 ^ 32 := by
  have fresh : ∀ k < n, bloqueLogico sb d x k ≠ b := fun k below =>
    obra.libro.ajeno b x _ (.inr rfl) (held k below).2
  have distinct : n + 1 ≤ sb.blocks - 1 := by
    refine bloques_distintos (f := fun k => if k = n then b else bloqueLogico sb d x k) ?_ ?_
    · intro k below
      by_cases last : k = n
      · simp [last, nonzero, small]
      · obtain ⟨-, owned⟩ := held k (by omega)
        simp only [last, ↓reduceIte]
        exact ⟨(obra.libro.usado_of_mem owned).1, obra.libro.rango x _ owned⟩
    · intro k inK l inL same
      rw [Finset.coe_range, Set.mem_Iio] at inK inL
      by_cases lastK : k = n <;> by_cases lastL : l = n
      · rw [lastK, lastL]
      · simp only [lastK, lastL, ↓reduceIte] at same
        exact absurd same.symm (fresh l (by omega))
      · simp only [lastK, lastL, ↓reduceIte] at same
        exact absurd same (fresh k (by omega))
      · simp only [lastK, lastL, ↓reduceIte] at same
        obtain ⟨boundK, ownedK⟩ := held k (by omega)
        obtain ⟨boundL, ownedL⟩ := held l (by omega)
        obtain ⟨-, paths⟩ := obra.libro.inyectivo x _ x _ ownedK ownedL same
        exact camino_inj boundL boundK paths
  have positive := geo.tamanio_pos
  calc (n + 1) * tamanioDeBloque sb
    _ < sb.blocks * tamanioDeBloque sb := Nat.mul_lt_mul_of_pos_right (by omega) positive
    _ ≤ 2 ^ 32 := geo.chica

variable {b : Nat} {d2 d3 : Disco}

theorem conBloque_size (other : x ≠ y) :
    ((conBloque sb d3 x n y nombre).inodo x).size.toNat =
      ((d3.inodo x).size.toNat + tamanioDeBloque sb) % 2 ^ 32 := by
  rw [conBloque_inodo_padre sb d3 n nombre other]
  exact UInt32.toNat_ofNat'

/-- The blocks of the directory after a new one at the end. -/
theorem Ensancha.cadenas (nombre : Cadena) (geo : Geometria sb) (few : Numerable sb)
    (valid : esInodo sb x)
    (size : n = bloquesDe sb (d.inodo x).size.toNat) (bound : n < alcance sb)
    (wider : Ensancha sb E x n b d d2) (asked : getInodoLibre sb d2 = some (y, d3))
    (chains : Cadenas sb d x n ess) : Cadenas sb (Rfs.conBloque sb d3 x n y nombre) x (n + 1)
      (fun l => if l = n then [entradaNueva d3 y (tamanioDeBloque sb) nombre] else ess l) := by
  obtain ⟨edit, chain, sound⟩ := wider.conBloque nombre geo few bound asked
  have vivos := size ▸ deTamanio_vivo (d := d) valid
  intro l inside
  by_cases here : l = n
  · subst here
    simp only [↓reduceIte]
    exact ⟨bound, by simpa using sound, chain⟩
  · obtain ⟨limit, sound', chain'⟩ := chains l (by omega)
    have starts := inicia_camino limit
    have old : deTamanio sb d x (camino (ptrsPorBloque sb) l) := (vivos _).mpr ⟨l, by omega, starts⟩
    have member : conBloques sb (deTamanio sb d) x (n + 1) x (camino (ptrsPorBloque sb) n) :=
      (conBloques_self _).mpr ⟨n, Nat.lt_succ_self n, inicia_camino bound⟩
    have moved := wider.conserva.entradas ⟨limit, old⟩ sound' chain'
    simp only [here, ↓reduceIte]
    refine ⟨limit, sound', (edit.conserva wider.paso.obra member bound).entradas ?_ sound' moved⟩
    exact ⟨limit, (conBloques_self _).mpr ⟨l, inside, starts⟩, fun same => here same.2⟩

theorem Ensancha.cadenas_otro (nombre : Cadena) (geo : Geometria sb) (few : Numerable sb)
    (bound : n < alcance sb) (wider : Ensancha sb E x n b d d2)
    (asked : getInodoLibre sb d2 = some (y, d3)) {w : Nat} (valid : esInodo sb w) (other : w ≠ x)
    (chains : Cadenas sb d w (bloquesDe sb (d.inodo w).size.toNat) ess) :
    Cadenas sb (Rfs.conBloque sb d3 x n y nombre) w (bloquesDe sb (d.inodo w).size.toNat) ess := by
  obtain ⟨edit, -⟩ := wider.conBloque nombre geo few bound asked
  have member : conBloques sb (deTamanio sb d) x (n + 1) x (camino (ptrsPorBloque sb) n) :=
    (conBloques_self _).mpr ⟨n, Nat.lt_succ_self n, inicia_camino bound⟩
  have live : ∀ q, Vivo (ptrsPorBloque sb) (bloquesDe sb (d.inodo w).size.toNat) q →
      deTamanio sb d w q := fun q => (deTamanio_vivo valid q).mpr
  refine edit.cadenas_otro wider.paso.obra member bound other
    (fun q alive => .inl ⟨other, live q alive⟩) fun l inside => ?_
  obtain ⟨limit, sound, chain⟩ := chains l inside
  exact ⟨limit, sound, wider.conserva.entradas
    ⟨limit, live _ ⟨l, inside, inicia_camino limit⟩⟩ sound chain⟩

/-- Away from the boundaries a new block leaves the directory well formed. -/
theorem bien_conBloque (geo : Geometria sb) (few : Numerable sb) (allocated : asignado sb d x)
    (good : DirectorioBien sb d x)
    (size : n = bloquesDe sb (d.inodo x).size.toNat) (bound : n < alcance sb)
    (fits : (n + 1) * tamanioDeBloque sb < 2 ^ 32)
    (wider : Ensancha sb E x n b d d2) (asked : getInodoLibre sb d2 = some (y, d3))
    (nonzero : y ≠ 0) : DirectorioBien sb (conBloque sb d3 x n y nombre) x := by
  obtain ⟨ess, chains⟩ := good.cadenas geo
  rw [← size] at chains
  have allocated2 : asignado sb d2 x := by
    rw [asignado, wider.paso.marco.bitmapInodos]
    exact allocated
  have other := inodo_nuevo_ne few allocated2 asked nonzero
  have blocks := wider.cadenas nombre geo few allocated.1 size bound asked chains
  refine .of_cadenas geo (wider.conBloque nombre geo few bound asked).1.obra
    (fun q => (conBloques_self q).mpr) ?_ blocks
  rw [conBloque_size other, (getInodoLibre_solo asked).2.2, wider.paso.marco.size,
    good.size geo size, ← Nat.succ_mul, Nat.mod_eq_of_lt fits]

theorem agregarAInodo_bitmapInodos (run : agregarAInodo sb d x k b = some d') :
    d'.bitmapInodos = d.bitmapInodos := by
  simp only [agregarAInodo, Option.bind_eq_bind, Option.bind_eq_some_iff, Option.some.injEq] at run
  obtain ⟨slot, -, rfl⟩ := run
  cases slot <;> rfl

/-- The pointer in the inode to a new indirection is not set. -/
theorem mal_en_frontera (geo : Geometria sb) (other : x ≠ y) {i : Nat} (far : 12 ≤ n)
    (before : (d.inodo x).size.toNat = n * tamanioDeBloque sb) (bound : n < alcance sb)
    (fits : (n + 1) * tamanioDeBloque sb < 2 ^ 32) (inodes : d1.inodo = d.inodo)
    (stores : agregarAInodo sb d1 x n b = some d2) (asked : getInodoLibre sb d2 = some (y, d3))
    (starts : Inicia (ptrsPorBloque sb) n [i]) (unset : (d.inodo x).blocks i = 0) :
    ¬DirectorioBien sb (conBloque sb d3 x n y nombre) x := by
  intro after
  obtain ⟨-, -, same⟩ := getInodoLibre_solo asked
  have stored : d2.inodo = d1.inodo := by
    simp only [agregarAInodo, getPtr_camino d1 x bound, Option.bind_eq_bind, Option.bind_some,
      Option.some.injEq] at stores
    subst stores
    obtain ⟨t, u, q, shape⟩ : ∃ t u q, camino (ptrsPorBloque sb) n = t :: u :: q := by
      rw [camino]
      split
      · omega
      split
      · exact ⟨_, _, _, rfl⟩
      split <;> exact ⟨_, _, _, rfl⟩
    rw [shape]
    rfl
  have size : ((conBloque sb d3 x n y nombre).inodo x).size.toNat =
      (n + 1) * tamanioDeBloque sb := by
    rw [conBloque_size other, same, stored, inodes, before, ← Nat.succ_mul, Nat.mod_eq_of_lt fits]
  have word : ((conBloque sb d3 x n y nombre).inodo x).blocks i = (d3.inodo x).blocks i := by
    simp [conBloque, ponSize, Disco.ponInodo, grabarEntrada, Disco.anota, Disco.copia, other]
  refine after.mapeado [i] ⟨n, ?_, starts⟩ ?_
  · rw [size, Nat.mul_div_cancel _ geo.tamanio_pos]
    exact Nat.lt_succ_self n
  · rw [Punteros.valor, punteros]
    simp only [leerSlot]
    rw [word, same, stored, inodes, unset]
    rfl

/-! ### Removing an entry -/

/-- The slot of a block that was freed holds 0. -/
theorem liberarBloque_cero (geo : Geometria sb) {i : Nat} {p : List Nat} (obra : Obra sb S E d)
    (member : S x (i :: p)) (leaf : ∀ j, ¬S x (j :: i :: p))
    (run : liberarBloque sb d (slotDe sb d x (i :: p)) = some d') :
    (punteros sb d').valor x (i :: p) = 0 ∧ (d'.inodo x).size = (d.inodo x).size := by
  obtain ⟨d1, solo, rfl⟩ := liberarBloque_solo run
  have same : punteros sb d1 = punteros sb d := solo.punteros
  have libro := obra.libro
  rw [← same] at libro
  rw [← solo.slotDe]
  have pone := pone_grabarSlot geo d1 (fun filled => libro.rango x p (libro.parent_of_mem member filled))
    (libro.width_of_mem member) (show 0 < 2 ^ 32 by omega)
  refine ⟨?_, ?_⟩
  · cases p with
    | nil => simp [Punteros.valor, pone.raiz]
    | cons j q =>
      have parent := libro.parent_of_mem member (by simp)
      have same := libro.valor_leaf pone member leaf x (j :: q) ⟨parent, by simp⟩
      rw [Punteros.valor, same, pone.palabra _ _ (libro.rango x _ parent)
        (libro.width_of_mem member (by simp))]
      simp
  · rw [← solo.inodo]
    cases p with
    | nil => simp [slotDe, grabarSlot, Disco.ponInodo, INode.ponBloque]
    | cons j q => rfl

variable {us vs : List DirEntry} {inicio : Int}

/-- The chains of a block whose first entry was made twice as long. -/
theorem entradas_doblada_iff (geo : Geometria sb) (found : Hallada sb d inicio 0 e [] vs)
    (es : List DirEntry) : Entradas
      (grabarEntrada d inicio 0 { e with entryLen := e.entryLen + e.entryLen }) inicio 0
        (tamanioDeBloque sb) es ↔
    ∃ ws, es = { e with entryLen := e.entryLen + e.entryLen } :: ws ∧
      Entradas d inicio (e.entryLen + e.entryLen) (tamanioDeBloque sb) ws := by
  have inside := found.inside
  have small := geo.tamanio_lt
  have fits := found.cabe
  obtain ⟨words, room⟩ := found.sana
  rw [Nat.zero_add] at inside
  constructor
  · intro chain
    cases es with
    | nil =>
      have := Tramo.nil_iff.mp chain
      omega
    | cons u ws =>
      have long : DirEntry.Cabe { e with entryLen := e.entryLen + e.entryLen } := by
        have : e.entryLen + e.entryLen < 2 ^ 16 := by
          rcases geo.tamanio with size | size | size <;> omega
        exact ⟨fits.inode, this, fits.nameLen, fits.name⟩
      obtain ⟨here, rest⟩ := Tramo.cons_iff.mp chain
      rw [entradaEn_grabarEntrada_self long] at here
      subst here
      rw [Nat.zero_add] at rest
      refine ⟨ws, rfl, rest.congr ?_⟩
      intro p after _ _
      have name := fits.name
      exact (entradaEn_grabarEntrada_other (.inr (by simp only at after ⊢; omega))).symm
  · rintro ⟨ws, rfl, chain⟩
    have le := chain.le
    exact Entradas.juntar found.antes found.aqui (by simp) (by omega) (by omega)
      (by rwa [Nat.zero_add])

/-- The first entry of a block is made twice as long. -/
theorem entradas_doblada (geo : Geometria sb) (found : Hallada sb d inicio 0 e [] vs) :
    (∃ es, (∀ u ∈ es, u.Sana) ∧ Entradas
      (grabarEntrada d inicio 0 { e with entryLen := e.entryLen + e.entryLen }) inicio 0
        (tamanioDeBloque sb) es) ↔
    ∃ ws, (∀ w ∈ ws, w.Sana) ∧
      Entradas d inicio (e.entryLen + e.entryLen) (tamanioDeBloque sb) ws := by
  constructor
  · rintro ⟨es, sound, chain⟩
    obtain ⟨ws, rfl, rest⟩ := (entradas_doblada_iff geo found es).mp chain
    exact ⟨ws, fun w member => sound w (List.mem_cons_of_mem _ member), rest⟩
  · rintro ⟨ws, sound, chain⟩
    obtain ⟨words, room⟩ := found.sana
    refine ⟨_, fun u member => ?_, (entradas_doblada_iff geo found _).mpr ⟨ws, rfl, chain⟩⟩
    rcases List.mem_cons.mp member with rfl | later
    · exact ⟨Nat.dvd_add words words, by simp only; omega⟩
    · exact sound u later

/-- Any other entry goes to the one before it. -/
theorem entradas_unida (geo : Geometria sb) {ws : List DirEntry} {w : DirEntry}
    (found : Hallada sb d inicio desp e (ws ++ [w]) vs) :
    entradaEn d inicio (desp - w.entryLen) = w ∧ w.entryLen ≤ desp ∧ desp ≠ 0 ∧
      (∀ u ∈ ws ++ { w with entryLen := w.entryLen + e.entryLen } :: vs, u.Sana) ∧
      Entradas (grabarEntrada d inicio (desp - w.entryLen)
        { w with entryLen := w.entryLen + e.entryLen }) inicio 0 (tamanioDeBloque sb)
        (ws ++ { w with entryLen := w.entryLen + e.entryLen } :: vs) := by
  obtain ⟨c, before, last⟩ := Tramo.append_iff.mp found.antes
  obtain ⟨here, end_⟩ := Tramo.cons_iff.mp last
  have stop := Tramo.nil_iff.mp end_
  have sound := found.sanas
  obtain ⟨words, room⟩ := sound w (by simp)
  have inside := found.inside
  have small := geo.tamanio_lt
  have place : desp - w.entryLen = c := by omega
  rw [place]
  have behind : Entradas d inicio (c + (w.entryLen + e.entryLen)) (tamanioDeBloque sb) vs := by
    rw [← Nat.add_assoc, stop]
    exact found.despues
  have joined := Entradas.juntar before here (fun u member => sound u (by simp [member])) (by omega)
    (by omega) behind
  refine ⟨here, by omega, by omega, fun u member => ?_, joined⟩
  simp only [List.mem_append, List.mem_cons] at member
  rcases member with first | rfl | later
  · exact sound u (by simp [first])
  · exact ⟨Nat.dvd_add words found.sana.1, by simp only; omega⟩
  · exact sound u (by simp [later])

/-- An entry of the block is written back with another length. -/
theorem Edita.alarga (geo : Geometria sb) (obra : Obra sb S E d)
    (vivos : ∀ q, S x q ↔ Vivo (ptrsPorBloque sb) n q) (bound : k < alcance sb) (owned : k < n)
    (m : Nat) (here : entradaEn d (posicionarInicioBloque sb (bloqueLogico sb d x k)) desp = e)
    (sound : e.Sana) (inside : desp + e.entryLen ≤ tamanioDeBloque sb) :
    Edita sb S E x k d (Rfs.grabarEntrada d (posicionarInicioBloque sb (bloqueLogico sb d x k))
      desp { e with entryLen := m }) := by
  refine .grabarEntrada geo obra vivos bound owned rfl ?_
  have width : e.name.length = e.nameLen := by
    rw [← here]
    exact (leerEntrada_cabe d _).name
  have room := sound.2
  rw [DirEntry.bytes_length]
  simp only
  omega

theorem bien_eliminar (geo : Geometria sb) (valid : esInodo sb x)
    (obra : Obra sb (deTamanio sb d) E d) (good : DirectorioBien sb d x)
    (search : buscarEntrada sb d x (·.llamada nombre) = some (some (k, desp, anterior, e)))
    (run : eliminarEntradaDirectorio sb d x nombre = some d') :
    DirectorioBien sb d' x ↔ Quitable sb d x k desp e := by
  obtain ⟨k', desp', anterior', e', again, bound, outcome⟩ := eliminarEntradaDirectorio_some run
  rw [search] at again
  cases again
  obtain ⟨ess, chains⟩ := good.cadenas geo
  obtain ⟨owned, -, us, vs, -, found, last⟩ := hallada_of_buscar geo chains search
  have vivos := deTamanio_vivo (d := d) valid
  have member : deTamanio sb d x (camino (ptrsPorBloque sb) k) :=
    (vivos _).mpr ⟨k, owned, inicia_camino bound⟩
  have inside := found.inside
  rcases outcome with ⟨alone, freed⟩ | ⟨others, previa, same, rfl⟩
  · -- the block goes but the size stays
    obtain ⟨i, p, shape⟩ := List.exists_cons_of_ne_nil (inicia_camino bound).ne_nil
    have leaf : ∀ j, ¬deTamanio sb d x (j :: camino (ptrsPorBloque sb) k) := by
      intro j inner
      obtain ⟨m, -, starts⟩ := (vivos _).mp inner
      exact camino_leaf bound starts
    have noted := obra.con_libro (.anota d .vacia) obra.libro
    rw [shape] at member leaf freed
    obtain ⟨zero, size⟩ := liberarBloque_cero geo noted member leaf freed
    refine iff_of_false (fun after => ?_) ?_
    · refine after.mapeado (i :: p) ⟨k, ?_, shape ▸ inicia_camino bound⟩ zero
      rw [size]
      exact (bloquesDe_of_dvd geo good.multiplo) ▸ owned
    · rintro (later | ⟨shared, -⟩)
      · omega
      · exact shared alone
  · rcases last with ⟨rfl, rfl⟩ | ⟨ws, w, rfl, rfl⟩
    · obtain rfl := Tramo.nil_iff.mp found.antes
      rw [Nat.sub_zero, found.aqui] at same
      subst same
      have edit := Edita.alarga geo obra vivos bound owned (previa.entryLen + previa.entryLen)
        found.aqui found.sana inside
      rw [edit.bien_iff geo valid obra good bound owned rfl, entradas_doblada geo found, Quitable]
      simp [others]
    · obtain ⟨here, after, nonzero, sound, chain⟩ := entradas_unida geo found
      rw [here] at same
      subst same
      have edit := Edita.alarga geo obra vivos bound owned (previa.entryLen + e.entryLen) here
        (found.sanas previa (by simp)) (by omega)
      rw [edit.bien_iff geo valid obra good bound owned rfl]
      exact iff_of_true ⟨_, sound, chain⟩ (.inl nonzero)

end

/-! ### Both edits -/

theorem editar_agregar {nombre : Cadena} {largo : 1 ≤ nombre.length ∧ nombre.length ≤ 255}
    (run : editar sb d x (.agregar nombre largo) = some d') :
    agregarEntradaDirectorio sb d x nombre = some (0, d') := by
  simp only [editar] at run
  split at run
  · rename_i after added
    cases run
    exact added
  · cases run

/-- Where every block has one owner, an edit of a well formed directory leaves it so exactly
when it keeps the form, but for a block added where an indirection block starts; there the
directory is spoilt if the pointer to it is still 0. -/
theorem edicion_bien_formada (geo : Geometria sb) (few : Numerable sb) (owner : Duenio sb d)
    (allocated : asignado sb d x) (good : DirectorioBien sb d x) (op : Edicion)
    (run : editar sb d x op = some d') :
    (¬EnFrontera sb d x op → (DirectorioBien sb d' x ↔ ConservaForma sb d x op)) ∧
      (EnFrontera sb d x op → ∀ i, Inicia (ptrsPorBloque sb)
        (bloquesDe sb (d.inodo x).size.toNat) [i] → (d.inodo x).blocks i = 0 →
        ¬DirectorioBien sb d' x) := by
  obtain ⟨E, obra⟩ := owner
  cases op with
  | eliminar nombre =>
    refine ⟨fun _ => ?_, False.elim⟩
    obtain ⟨k, desp, anterior, e, search, -⟩ := eliminarEntradaDirectorio_some run
    rw [bien_eliminar geo allocated.1 obra good search run, ConservaForma]
    constructor
    · intro removable k' desp' anterior' e' again
      rw [search] at again
      cases again
      exact removable
    · exact fun all => all k desp anterior e search
  | agregar nombre largo =>
    have added := editar_agregar run
    rcases agregarEntradaDirectorio_some added with
      ⟨k, desp, anterior, e, y, d1, search, bound, asked, nonzero, rfl⟩ |
      ⟨b, y, d1, d2, d3, search, asked, some_block, stores, bound, taken, nonzero, rfl⟩
    · refine ⟨fun _ => ?_, fun boundary => ?_⟩
      · rw [bien_conEntrada geo few allocated obra good search bound asked nonzero,
          ConservaForma]
        constructor
        · intro name k' desp' anterior' e' again
          rw [search] at again
          cases again
          exact name
        · exact fun all => all k desp anterior e search
      · have missing := boundary.1
        rw [search] at missing
        cases missing
    · obtain ⟨ess, chains⟩ := good.cadenas geo
      have solo := getBloqueLibre_solo asked
      obtain ⟨small, -, waiting⟩ := Paso.pedir (x := x) geo obra asked some_block
      have fits := bloques_con_uno (x := x) geo waiting.obra some_block small fun k below =>
        ⟨(chains k below).1, (deTamanio_vivo allocated.1 _).mpr
          ⟨k, below, inicia_camino (chains k below).1⟩⟩
      refine ⟨fun inner => ?_, fun boundary i starts unset => ?_⟩
      · have away : bloquesDe sb (d.inodo x).size.toNat < 12 ∨
            (bloquesDe sb (d.inodo x).size.toNat - 12) % ptrsPorBloque sb ≠ 0 := by
          by_contra both
          exact inner ⟨search, by omega, by omega⟩
        have wider := ensancha geo allocated.1 obra rfl bound away asked some_block stores
        refine iff_of_true (bien_conBloque geo few allocated good rfl bound fits wider taken
          nonzero) ?_
        intro k desp anterior e again
        rw [search] at again
        cases again
      · have bits : d2.bitmapInodos = d.bitmapInodos :=
          (agregarAInodo_bitmapInodos stores).trans solo.bitmapInodos
        have allocated2 : asignado sb d2 x := by
          rw [asignado, bits]
          exact allocated
        have other := inodo_nuevo_ne few allocated2 taken nonzero
        have inodes : (d1.anota (.ensancha (bloquesDe sb (d.inodo x).size.toNat))).inodo = d.inodo :=
          solo.inodo
        exact mal_en_frontera geo other boundary.2.1 (good.size geo rfl) bound fits inodes stores
          taken starts unset

theorem imagenConArchivo_bien : DirectorioBien (volumen 0) (imagenConArchivo 0) 2 := by
  constructor
  · decide
  · rintro q ⟨k, below, starts⟩
    have size : ((imagenConArchivo 0).inodo 2).size.toNat / tamanioDeBloque (volumen 0) = 1 := rfl
    obtain rfl : k = 0 := by omega
    rw [(inicia_directo (by omega)).mp starts]
    decide
  · intro k below
    have size : ((imagenConArchivo 0).inodo 2).size.toNat / tamanioDeBloque (volumen 0) = 1 := rfl
    obtain rfl : k = 0 := by omega
    refine ⟨_, [⟨2, 12, 1, 0, [46]⟩, ⟨2, 12, 2, 0, [46, 46]⟩, ⟨11, 1000, 1, 0, [97]⟩], rfl,
      by decide +kernel, by decide⟩

/-- The file `/b`, in the room that `/a` has to spare. -/
theorem edicion_bien_formada_agregar : ∃ d', editar (volumen 0) (imagenConArchivo 0) 2
    (.agregar [98] (by decide)) = some d' ∧ DirectorioBien (volumen 0) d' 2 := by
  have done : (editar (volumen 0) (imagenConArchivo 0) 2 (.agregar [98] (by decide))).isSome := by
    decide +kernel
  obtain ⟨d', run⟩ := Option.isSome_iff_exists.mp done
  have start := imagenConArchivo_consistente (.inl rfl)
  have search : buscarEntrada (volumen 0) (imagenConArchivo 0) 2 (conLugar [98]) =
      some (some (0, 24, 12, ⟨11, 1000, 1, 0, [97]⟩)) := by decide +kernel
  have kept := edicion_bien_formada (start.geometria (by decide)) (by decide)
    start.duenio ⟨⟨by decide, by decide⟩, rfl⟩ imagenConArchivo_bien _ run
  refine ⟨d', run, (kept.1 fun boundary => ?_).mpr fun k desp anterior e again => ?_⟩
  · have missing := boundary.1
    rw [search] at missing
    cases missing
  · rw [search] at again
    cases again
    decide

/-- The image of `imagenConArchivo` with a second block for the root directory, the entry of
the empty file `/b` alone in it. -/
def imagenDosBloques : Disco :=
  { imagenConArchivo 0 with
    freeBlocks := 20
    freeInodes := 4
    grupo := fun _ => ⟨20, 4, 1⟩
    bitmapBloques := fun _ i => i + 1 ≤ 12
    bitmapInodos := fun _ i => i < 12
    inodo := fun x =>
      if x = 2 then ⟨S_IFDIR, 2048, 2, 4, fun i => if i = 0 then 10 else if i = 1 then 12 else 0⟩
      else if x = 12 then ⟨S_IFREG, 0, 1, 0, fun _ => 0⟩
      else (imagenConArchivo 0).inodo x
    mem := escribir (imagenConArchivo 0).mem (posicionarInicioBloque (volumen 0) 12)
      (DirEntry.bytes ⟨12, 1024, 1, 0, [98]⟩) }

theorem alcanza_imagenDosBloques {x : Nat} {q : List Nat}
    (reached : alcanza (volumen 0) imagenDosBloques x q) :
    x = 2 ∧ (q = [0] ∨ q = [1]) ∨ x = 11 ∧ q = [0] := by
  obtain ⟨-, k, below, starts⟩ := reached
  have blocks : bloquesDe (volumen 0) (imagenDosBloques.inodo x).size.toNat =
      if x = 2 then 2 else if x = 11 then 1 else 0 := by
    by_cases root : x = 2
    · subst root
      rfl
    by_cases file : x = 11
    · subst file
      rfl
    by_cases empty : x = 12
    · subst empty
      rfl
    simp only [imagenDosBloques, imagenConArchivo, root, file, empty, ↓reduceIte]
    rfl
  rw [blocks] at below
  have direct := (inicia_directo (by split at below <;> [skip; split at below] <;> omega)).mp starts
  split at below
  · rename_i root
    rcases (by omega : k = 0 ∨ k = 1) with rfl | rfl
    · exact .inl ⟨root, .inl direct⟩
    · exact .inl ⟨root, .inr direct⟩
  split at below
  · rename_i file
    obtain rfl : k = 0 := by omega
    exact .inr ⟨file, direct⟩
  · omega

theorem imagenDosBloques_consistente : Consistente (volumen 0) imagenDosBloques := by
  constructor
  case rango =>
    intro x q reached
    rcases alcanza_imagenDosBloques reached with ⟨rfl, rfl | rfl⟩ | ⟨rfl, rfl⟩ <;> decide
  case propios =>
    constructor
    · intro x q reached
      rcases alcanza_imagenDosBloques reached with ⟨rfl, rfl | rfl⟩ | ⟨rfl, rfl⟩ <;>
        exact ⟨by decide, by decide⟩
    · intro x q y r left right
      rcases alcanza_imagenDosBloques left with ⟨rfl, rfl | rfl⟩ | ⟨rfl, rfl⟩ <;>
        rcases alcanza_imagenDosBloques right with ⟨rfl, rfl | rfl⟩ | ⟨rfl, rfl⟩ <;> decide
  case vacios =>
    intro x valid free
    have positive := valid.1
    have late : 12 < x := by
      by_contra early
      refine free ⟨valid, ?_⟩
      have bit : (x - 1) % 16 < 12 := by omega
      simpa [imagenDosBloques, volumen] using bit
    simp [imagenDosBloques, imagenConArchivo, show x ≠ 2 by omega, show x ≠ 11 by omega,
      show x ≠ 12 by omega]
  all_goals decide +kernel

theorem imagenDosBloques_bien : DirectorioBien (volumen 0) imagenDosBloques 2 := by
  have size : (imagenDosBloques.inodo 2).size.toNat / tamanioDeBloque (volumen 0) = 2 := rfl
  constructor
  · decide
  · rintro q ⟨k, below, starts⟩
    rw [size] at below
    rw [(inicia_directo (by omega)).mp starts]
    rcases (by omega : k = 0 ∨ k = 1) with rfl | rfl <;> decide
  · intro k below
    rw [size] at below
    rcases (by omega : k = 0 ∨ k = 1) with rfl | rfl
    · exact ⟨_, [⟨2, 12, 1, 0, [46]⟩, ⟨2, 12, 2, 0, [46, 46]⟩, ⟨11, 1000, 1, 0, [97]⟩], rfl,
        by decide +kernel, by decide⟩
    · exact ⟨_, [⟨12, 1024, 1, 0, [98]⟩], rfl, by decide +kernel, by decide⟩

/-- The entry of `/b` takes its block along and the size of the directory stays. -/
theorem directorio_sin_bloque : ¬∀ (sb : Superblock) (d d' : Disco) (x : Nat) (op : Edicion),
    Consistente sb d → asignado sb d x → DirectorioBien sb d x → editar sb d x op = some d' →
      DirectorioBien sb d' x := by
  intro all
  have answer : (editar (volumen 0) imagenDosBloques 2 (.eliminar [98])).map
      (fun d => ((d.inodo 2).size, (d.inodo 2).blocks 1)) = some (2048, 0) := by decide +kernel
  obtain ⟨d', run, equal⟩ := Option.map_eq_some_iff.mp answer
  obtain ⟨size, gone⟩ := Prod.mk.inj equal
  have after := all _ _ _ 2 _ imagenDosBloques_consistente ⟨⟨by decide, by decide⟩, rfl⟩
    imagenDosBloques_bien run
  refine after.mapeado [1] ⟨1, ?_, .directo (by decide)⟩ ?_
  · rw [size]
    decide
  · rw [Punteros.valor, punteros]
    simp [leerSlot, gone]

end LosAltos.Rfs
