import LosAltos.Rfs.EntrySequence
import LosAltos.Rfs.Paths
import LosAltos.Rfs.Server

/-!
# What a directory lists

`cargarEntradasDirectorioALista` beside `buscarNroInodoEnEntradasDirectorio`
(`rfs/src/funciones_rfs.c:243-328`). The first one leaves a block at an entry without an inode,
the second one goes on.
-/
namespace LosAltos.Rfs

open Lib

/-- ext2 leaves an unused entry in its place, with the inode 0. -/
def DirEntry.usada (e : DirEntry) : Bool := e.inode ≠ 0

instance (sb : Superblock) (x : Nat) : Decidable (esInodo sb x) :=
  inferInstanceAs (Decidable (_ ∧ _))

/-- What a listing shows of an entry. -/
def entradaListada (d : Disco) (e : DirEntry) : ReaddirEntry :=
  let n := d.inodo e.inode
  ⟨e.name, n.mode, n.size, n.links, n.nrBlocks⟩

section
variable (sb : Superblock) (d : Disco) (x : Nat) (ess : Nat → List DirEntry)

/-- A directory of whole blocks, each a chain of entries; those in use have an inode of the volume
and a name without a NUL. -/
structure DirectorioExt2 : Prop where
  multiplo : tamanioDeBloque sb ∣ (d.inodo x).size.toNat
  cadenas : Cadenas sb d x (bloquesDe sb (d.inodo x).size.toNat) ess
  inodos : ∀ k < bloquesDe sb (d.inodo x).size.toNat, ∀ e ∈ ess k, e.usada → esInodo sb e.inode
  nombres : ∀ k < bloquesDe sb (d.inodo x).size.toNat, ∀ e ∈ ess k, e.usada → 0 ∉ e.name

/-- The entries of the directory, block after block. -/
def entradasEnOrden : List DirEntry := (List.range (bloquesDe sb (d.inodo x).size.toNat)).flatMap ess

/-- The entries in use are listed, and a name is listed just where a search finds it. Names are
compared as every search does, without case. -/
structure ListadoCompleto : Prop where
  lista : cargarEntradasDirectorioALista sb d x =
    some (((entradasEnOrden sb d x ess).filter DirEntry.usada).map (entradaListada d))
  busca : ∀ ruta, ∃ nro listado, buscarNroInodoEnEntradasDirectorio sb d x ruta = some nro ∧
    cargarEntradasDirectorioALista sb d x = some listado ∧
    (nro ≠ 0 ↔ ∃ r ∈ listado, igualSinCaso r.path ruta)

/-- In no block an entry in use comes after an unused one. -/
def LibresAlFinal : Prop :=
  ∀ k < bloquesDe sb (d.inodo x).size.toNat,
    (ess k).Pairwise fun u v => v.usada → u.usada

end

variable {sb : Superblock} {d : Disco} {x desp : Nat} {inicio : Int} {es : List DirEntry}
  {ess : Nat → List DirEntry}

namespace DirectorioExt2

/-- The loops over the blocks end. -/
theorem termina (geo : Geometria sb) (good : DirectorioExt2 sb d x ess) :
    terminaOffset sb (d.inodo x).size.toNat = true := by
  rw [terminaOffset, bloquesDe_of_dvd geo good.multiplo, Nat.div_mul_cancel good.multiplo,
    decide_eq_true_eq]
  exact UInt32.toNat_lt _

theorem sin_cero {e : DirEntry} (good : DirectorioExt2 sb d x ess)
    (member : e ∈ entradasEnOrden sb d x ess) (used : e.usada) : 0 ∉ e.name := by
  obtain ⟨k, owned, inside⟩ := List.mem_flatMap.mp member
  exact good.nombres k (List.mem_range.mp owned) e inside used

end DirectorioExt2

/-! ### What is listed -/

theorem takeWhile_eq_filter_iff {α : Type} {p : α → Bool} {l : List α} :
    l.takeWhile p = l.filter p ↔ l.Pairwise fun u v => p v → p u := by
  induction l with
  | nil => simp
  | cons a l ih =>
    by_cases holds : p a
    · simp [holds, ih]
    · simp only [List.takeWhile_cons, holds, List.filter_cons, List.pairwise_cons]
      constructor
      · intro empty
        have none_left := List.filter_eq_nil_iff.mp empty.symm
        refine ⟨fun v member later => absurd later (none_left v member), ?_⟩
        exact List.pairwise_of_forall_mem_list fun u _ v member later =>
          absurd later (none_left v member)
      · rintro ⟨before, -⟩
        refine (List.filter_eq_nil_iff.mpr fun v member later => ?_).symm
        exact absurd (before v member later) (by decide)

theorem takeWhile_sublist_filter {α : Type} (p : α → Bool) (l : List α) :
    (l.takeWhile p).Sublist (l.filter p) := by
  have kept := (List.takeWhile_sublist p (l := l)).filter p
  rwa [List.filter_eq_self.mpr fun e member => List.mem_takeWhile_imp member] at kept

/-- Lists put together from parts are the same when the parts are, if one has no part longer. -/
theorem flatMap_eq_iff {α β : Type} {ks : List α} {f g : α → List β}
    (shorter : ∀ k ∈ ks, (f k).length ≤ (g k).length) :
    ks.flatMap f = ks.flatMap g ↔ ∀ k ∈ ks, f k = g k := by
  induction ks with
  | nil => simp
  | cons k ks ih =>
    have rest := ih fun j member => shorter j (List.mem_cons_of_mem _ member)
    have total : (ks.flatMap f).length ≤ (ks.flatMap g).length := by
      rw [List.length_flatMap, List.length_flatMap]
      exact List.sum_le_sum fun j member => shorter j (List.mem_cons_of_mem _ member)
    rw [List.flatMap_cons, List.flatMap_cons, List.forall_mem_cons, ← rest]
    constructor
    · intro same
      have lengths := congrArg List.length same
      have first := shorter k List.mem_cons_self
      rw [List.length_append, List.length_append] at lengths
      exact List.append_inj same (by omega)
    · rintro ⟨first, others⟩
      rw [first, others]

/-- A block is listed up to its first unused entry. -/
theorem listarBloque_entradas (small : tamanioDeBloque sb < 2 ^ 16) {fuel : Nat}
    (chain : Entradas d inicio desp (tamanioDeBloque sb) es)
    (positive : ∀ e ∈ es, 0 < e.entryLen) (inodes : ∀ e ∈ es, e.usada → esInodo sb e.inode)
    (names : ∀ e ∈ es, e.usada → 0 ∉ e.name) (enough : es.length < fuel) :
    listarBloque sb d inicio fuel desp =
      some ((es.takeWhile DirEntry.usada).map (entradaListada d)) := by
  induction es generalizing fuel desp with
  | nil =>
    obtain ⟨fuel, rfl⟩ := Nat.exists_eq_add_of_lt enough
    have last := Tramo.nil_iff.mp chain
    rw [listarBloque, if_pos (by omega)]
    rfl
  | cons e es ih =>
    obtain ⟨fuel, rfl⟩ : ∃ n, fuel = n + 1 := ⟨fuel - 1, by simp at enough; omega⟩
    obtain ⟨here, rest⟩ := Tramo.cons_iff.mp chain
    have length := positive e List.mem_cons_self
    have inside := rest.le
    rw [listarBloque, if_neg (by omega)]
    simp only [show leerEntrada d (inicio + desp) = e from here]
    by_cases used : e.usada
    · rw [getInodo_of_esInodo (inodes e List.mem_cons_self used), List.takeWhile_cons, if_pos used,
        cadena_of_no_zero (names e List.mem_cons_self used)]
      have tail := ih rest (fun u member => positive u (List.mem_cons_of_mem _ member))
        (fun u member => inodes u (List.mem_cons_of_mem _ member))
        (fun u member => names u (List.mem_cons_of_mem _ member)) (by simpa using enough)
      simp only [Option.bind_eq_bind, Option.bind_some, tail, List.map_cons]
      rfl
    · have unused : e.inode = 0 := by simpa [DirEntry.usada] using used
      rw [List.takeWhile_cons, if_neg used, getInodo, if_pos (by omega)]
      rfl

/-- What is listed of every block. -/
theorem cargarEntradas_eq (geo : Geometria sb) (good : DirectorioExt2 sb d x ess) :
    cargarEntradasDirectorioALista sb d x =
      some (((List.range (bloquesDe sb (d.inodo x).size.toNat)).flatMap fun k =>
        (ess k).takeWhile DirEntry.usada).map (entradaListada d)) := by
  have blocks : ∀ ks : List Nat, (∀ k ∈ ks, k < bloquesDe sb (d.inodo x).size.toNat) →
      listarBloques sb d x ks =
        some ((ks.flatMap fun k => (ess k).takeWhile DirEntry.usada).map (entradaListada d)) := by
    intro ks inside
    induction ks with
    | nil => rfl
    | cons k ks ih =>
      have owned := inside k List.mem_cons_self
      obtain ⟨bound, sound, chain⟩ := good.cadenas k owned
      have positive : ∀ e ∈ ess k, 0 < e.entryLen := fun e member => (sound e member).positive
      have length := chain.length_le positive
      have small := geo.tamanio_lt
      have block := listarBloque_entradas small chain positive (good.inodos k owned)
        (good.nombres k owned) (show (ess k).length < pasosMaximos by rw [pasosMaximos]; omega)
      rw [listarBloques, posicionarme_iff.mpr ⟨bound, rfl⟩]
      simp only [Option.bind_eq_bind, Option.bind_some, block,
        ih fun j member => inside j (List.mem_cons_of_mem _ member), List.flatMap_cons,
        List.map_append]
  rw [cargarEntradasDirectorioALista, if_pos (good.termina geo)]
  exact blocks _ fun k member => List.mem_range.mp member

/-- The listing leaves no entry out exactly when no block has one in use behind an unused one. -/
theorem lista_iff (geo : Geometria sb) (good : DirectorioExt2 sb d x ess) :
    cargarEntradasDirectorioALista sb d x =
        some (((entradasEnOrden sb d x ess).filter DirEntry.usada).map (entradaListada d)) ↔
      LibresAlFinal sb d x ess := by
  have shorter : ∀ k ∈ List.range (bloquesDe sb (d.inodo x).size.toNat),
      (((ess k).takeWhile DirEntry.usada).map (entradaListada d)).length ≤
        (((ess k).filter DirEntry.usada).map (entradaListada d)).length := by
    intro k _
    rw [List.length_map, List.length_map]
    exact (takeWhile_sublist_filter _ _).length_le
  rw [cargarEntradas_eq geo good, Option.some_inj, entradasEnOrden, List.filter_flatMap,
    List.map_flatMap, List.map_flatMap, flatMap_eq_iff shorter, LibresAlFinal]
  refine forall_congr' fun k => ?_
  rw [List.mem_range]
  refine imp_congr_right fun owned => ?_
  rw [← takeWhile_eq_filter_iff]
  constructor
  · intro same
    have lengths := congrArg List.length same
    rw [List.length_map, List.length_map] at lengths
    exact (takeWhile_sublist_filter _ _).eq_of_length lengths
  · exact congrArg _

/-! ### What is found -/

theorem resuelve_some_iff {nombre : Cadena} (last : es.Pairwise fun u v => v.usada → u.usada) :
    (resuelve nombre es).isSome ↔ ∃ e ∈ es, e.usada ∧ e.llamada nombre := by
  induction es with
  | nil => simp [resuelve]
  | cons e es ih =>
    obtain ⟨before, rest⟩ := List.pairwise_cons.mp last
    by_cases named : e.llamada nombre
    · have answer : (resuelve nombre (e :: es)).isSome ↔ e.usada := by
        by_cases used : e.inode = 0 <;> simp [resuelve, named, used, DirEntry.usada]
      rw [answer]
      constructor
      · exact fun used => ⟨e, List.mem_cons_self, used, named⟩
      · rintro ⟨u, member, used, -⟩
        rcases List.mem_cons.mp member with rfl | later
        · exact used
        · exact before u later used
    · have answer : resuelve nombre (e :: es) = resuelve nombre es := by simp [resuelve, named]
      rw [answer, ih rest]
      constructor
      · rintro ⟨u, member, both⟩
        exact ⟨u, List.mem_cons_of_mem _ member, both⟩
      · rintro ⟨u, member, both⟩
        rcases List.mem_cons.mp member with rfl | later
        · exact absurd both.2 named
        · exact ⟨u, later, both⟩

theorem resuelve_ne_zero {nombre : Cadena} {nro : Nat} (answer : resuelve nombre es = some nro) :
    nro ≠ 0 := by
  obtain ⟨e, -, used⟩ := Option.bind_eq_some_iff.mp answer
  split at used
  · cases used
    assumption
  · cases used

/-- A search finds the names of the entries in use. -/
theorem busca_iff (geo : Geometria sb) (good : DirectorioExt2 sb d x ess)
    (last : LibresAlFinal sb d x ess) (ruta : Cadena) :
    ∃ nro, buscarNroInodoEnEntradasDirectorio sb d x ruta = some nro ∧
      (nro ≠ 0 ↔ ∃ e ∈ entradasEnOrden sb d x ess, e.usada ∧ e.llamada ruta) := by
  have ends := good.termina geo
  have member : ∀ e, e ∈ entradasEnOrden sb d x ess ↔
      ∃ k < bloquesDe sb (d.inodo x).size.toNat, e ∈ ess k := by simp [entradasEnOrden]
  rw [buscarNro_cadenas geo good.cadenas]
  cases found : (List.range (bloquesDe sb (d.inodo x).size.toNat)).findSome?
      (fun k => resuelve ruta (ess k)) with
  | some nro =>
    obtain ⟨k, owned, here⟩ := List.exists_of_findSome?_eq_some found
    rw [List.mem_range] at owned
    refine ⟨nro, rfl, iff_of_true (resuelve_ne_zero here) ?_⟩
    obtain ⟨e, inside, both⟩ := (resuelve_some_iff (last k owned)).mp (by rw [here]; rfl)
    exact ⟨e, (member e).mpr ⟨k, owned, inside⟩, both⟩
  | none =>
    refine ⟨0, if_pos ends, iff_of_false (fun nonzero => nonzero rfl) ?_⟩
    rintro ⟨e, inside, both⟩
    obtain ⟨k, owned, inside⟩ := (member e).mp inside
    have nothing := List.findSome?_eq_none_iff.mp found k (List.mem_range.mpr owned)
    have something := (resuelve_some_iff (last k owned)).mpr ⟨e, inside, both⟩
    rw [nothing] at something
    cases something

/-- The listing is complete, and agrees with every search, exactly when no block has an entry in
use behind an unused one. -/
theorem listado_completo_iff (geo : Geometria sb) (good : DirectorioExt2 sb d x ess) :
    ListadoCompleto sb d x ess ↔ LibresAlFinal sb d x ess := by
  constructor
  · exact fun complete => (lista_iff geo good).mp complete.lista
  · intro last
    have list := (lista_iff geo good).mpr last
    refine ⟨list, fun ruta => ?_⟩
    obtain ⟨nro, answer, found⟩ := busca_iff geo good last ruta
    refine ⟨nro, _, answer, list, found.trans ?_⟩
    constructor
    · rintro ⟨e, member, used, named⟩
      refine ⟨entradaListada d e, List.mem_map_of_mem (List.mem_filter.mpr ⟨member, used⟩), ?_⟩
      rwa [DirEntry.llamada, cadena_of_no_zero (good.sin_cero member used)] at named
    · rintro ⟨r, listed, named⟩
      obtain ⟨e, kept, rfl⟩ := List.mem_map.mp listed
      obtain ⟨member, used⟩ := List.mem_filter.mp kept
      refine ⟨e, member, used, ?_⟩
      rwa [DirEntry.llamada, cadena_of_no_zero (good.sin_cero member used)]

/-- The root directory of `imagenConArchivo` has no unused entry. -/
theorem listado_completo_raiz : ListadoCompleto (volumen 0) (imagenConArchivo 0) 2
    fun _ => [⟨2, 12, 1, 0, [46]⟩, ⟨2, 12, 2, 0, [46, 46]⟩, ⟨11, 1000, 1, 0, [97]⟩] :=
  (listado_completo_iff ⟨by decide, by decide, by decide⟩ ⟨by decide, imagenConArchivo_cadenas,
    fun _ _ => by decide, fun _ _ => by decide⟩).mpr fun _ _ => by simp [DirEntry.usada]

/-- The root directory has an unused entry in front of `a`. -/
def imagenConHueco : Disco :=
  { imagenConArchivo 0 with
    mem := escribir (imagenConArchivo 0).mem (posicionarInicioBloque (volumen 0) 10 + 24)
      (DirEntry.bytes ⟨0, 12, 1, 0, [98]⟩ ++ [0, 0, 0] ++ DirEntry.bytes ⟨11, 988, 1, 0, [97]⟩) }

/-- The file `/a` is found, and it is not listed. -/
theorem archivo_sin_listar : ¬∀ (sb : Superblock) (d : Disco) (x : Nat)
    (ess : Nat → List DirEntry), Geometria sb → DirectorioExt2 sb d x ess →
    ListadoCompleto sb d x ess := by
  intro all
  have chains : Cadenas (volumen 0) imagenConHueco 2
      (bloquesDe (volumen 0) (imagenConHueco.inodo 2).size.toNat) fun _ =>
      [⟨2, 12, 1, 0, [46]⟩, ⟨2, 12, 2, 0, [46, 46]⟩, ⟨0, 12, 1, 0, [98]⟩, ⟨11, 988, 1, 0, [97]⟩] := by
    intro k below
    have size : bloquesDe (volumen 0) (imagenConHueco.inodo 2).size.toNat = 1 := rfl
    obtain rfl : k = 0 := by omega
    exact ⟨by decide, by decide, by decide +kernel⟩
  have good : DirectorioExt2 (volumen 0) imagenConHueco 2 _ :=
    ⟨by decide, chains, fun _ _ => by decide, fun _ _ => by decide⟩
  have geo : Geometria (volumen 0) := ⟨by decide, by decide, by decide⟩
  have last := (lista_iff geo good).mp (all _ _ _ _ geo good).lista 0 (by decide)
  exact absurd last (by decide)

end LosAltos.Rfs
