import LosAltos.Rfs.DirectoryShape
import Mathlib.Data.List.Find

/-!
# Where a path leads

`buscarNroInodoEnEntradasDirectorio` and `getNroInodoDeLaDireccionDelPath`
(`funciones_rfs.c:86-117, 243-296`) over well formed directories. After a new entry a path leads
where it did, nowhere, or to the inode of the entry.
-/
namespace LosAltos.Rfs

open Lib

variable {sb : Superblock} {S : Nat → List Nat → Prop} {E : Nat → Prop} {d d' : Disco}
  {x y k n : Nat} {ess : Nat → List DirEntry} {nombre : Cadena}

/-! ### One directory -/

/-- What a block of entries answers for a name: an unused entry of that name hides the rest
of its block. -/
def resuelve (nombre : Cadena) (es : List DirEntry) : Option Nat :=
  (es.find? (·.llamada nombre)).bind fun e => if e.inode ≠ 0 then some e.inode else none

theorem primera_find {p : DirEntry → Bool} (es : List DirEntry) (desp anterior : Nat) :
    (primera p desp anterior es).map (·.2.2) = es.find? p := by
  induction es generalizing desp anterior with
  | nil => rfl
  | cons e es ih =>
    rw [primera, List.find?_cons]
    by_cases holds : p e
    · simp [holds]
    · simp [holds, ih]

theorem inodoEnBloque_cadenas (geo : Geometria sb) (chains : Cadenas sb d x n ess) (owned : k < n) :
    inodoEnBloque sb d (posicionarInicioBloque sb (bloqueLogico sb d x k)) nombre =
      some (resuelve nombre (ess k)) := by
  have sound := (chains k owned).2.1
  have same : (ess k).find? (fun e => e.entryLen == 0 || e.llamada nombre) =
      (ess k).find? (·.llamada nombre) := by
    apply List.find?_congr
    intro e member
    have := (sound e member).positive
    simp [show e.entryLen ≠ 0 by omega]
  have answer := primera_find (p := fun e => e.entryLen == 0 || e.llamada nombre) (ess k) 0 0
  rw [same] at answer
  rw [inodoEnBloque, recorrerBloque_cadenas geo chains owned, resuelve, ← answer]
  cases hit : primera (fun e => e.entryLen == 0 || e.llamada nombre) 0 0 (ess k) with
  | none => simp
  | some found =>
    obtain ⟨desp, anterior, e⟩ := found
    have member : e ∈ ess k := by
      obtain ⟨us, vs, shape, -⟩ := primera_entradas (chains k owned).2.2 hit
      simp [shape]
    have := (sound e member).positive
    simp [show e.entryLen ≠ 0 by omega]

/-- The loop over blocks, once each block answers. -/
theorem primerBloque_findSome {f : Nat → Option (Option Nat)} {g : Nat → Option Nat} {ks : List Nat}
    (each : ∀ k ∈ ks, f k = some (g k)) :
    (primerBloque f ks).map (Option.map (·.2)) = some (ks.findSome? g) := by
  induction ks with
  | nil => rfl
  | cons k ks ih =>
    have rest := ih fun j member => each j (List.mem_cons_of_mem _ member)
    rw [primerBloque, each k (List.mem_cons_self ..), List.findSome?_cons]
    cases answer : g k with
    | some r => rfl
    | none => exact rest

/-- A well formed directory answers the first entry of that name in use, block by block. -/
theorem buscarNro_cadenas (geo : Geometria sb)
    (chains : Cadenas sb d x (bloquesDe sb (d.inodo x).size.toNat) ess) :
    buscarNroInodoEnEntradasDirectorio sb d x nombre =
      match (List.range (bloquesDe sb (d.inodo x).size.toNat)).findSome?
        (fun k => resuelve nombre (ess k)) with
      | some nro => some nro
      | none => if terminaOffset sb (d.inodo x).size.toNat then some 0 else none := by
  have each : ∀ k ∈ List.range (bloquesDe sb (d.inodo x).size.toNat),
      ((posicionarme sb d x k 0).bind fun inicio => inodoEnBloque sb d inicio nombre) =
        some (resuelve nombre (ess k)) := by
    intro k member
    have owned := List.mem_range.mp member
    rw [posicionarme_iff.mpr ⟨(chains k owned).1, rfl⟩, Option.bind_some,
      inodoEnBloque_cadenas geo chains owned]
  have loop := primerBloque_findSome each
  simp only [buscarNroInodoEnEntradasDirectorio, Option.bind_eq_bind]
  cases walked : primerBloque (fun k => (posicionarme sb d x k 0).bind fun inicio =>
      inodoEnBloque sb d inicio nombre) (List.range (bloquesDe sb (d.inodo x).size.toNat)) with
  | none =>
    rw [walked] at loop
    cases loop
  | some answer =>
    rw [walked, Option.map_some] at loop
    rw [← Option.some.inj loop]
    cases answer <;> rfl

/-- The first entry of a name is in use and leads where the name does, or it is not in use. -/
theorem inodo_hallada (geo : Geometria sb)
    (chains : Cadenas sb d x (bloquesDe sb (d.inodo x).size.toNat) ess) {desp anterior z : Nat}
    {e : DirEntry} (nonzero : z ≠ 0)
    (search : buscarEntrada sb d x (·.llamada nombre) = some (some (k, desp, anterior, e)))
    (answer : buscarNroInodoEnEntradasDirectorio sb d x nombre = some z) :
    e.inode = 0 ∨ e.inode = z := by
  obtain ⟨owned, first, before⟩ := buscarEntrada_cadenas geo chains search
  have named : (ess k).find? (·.llamada nombre) = some e := by
    rw [← primera_find (ess k) 0 0, first]
    rfl
  rw [buscarNro_cadenas geo chains] at answer
  cases found : (List.range (bloquesDe sb (d.inodo x).size.toNat)).findSome?
      (fun k => resuelve nombre (ess k)) with
  | none =>
    rw [found] at answer
    simp only at answer
    split at answer
    · cases answer
      exact absurd rfl nonzero
    · cases answer
  | some r =>
    rw [found] at answer
    cases answer
    obtain ⟨us, j, vs, range, here, earlier⟩ := List.findSome?_eq_some_iff.mp found
    have sorted : (us ++ j :: vs).Pairwise (· < ·) := range ▸ List.pairwise_lt_range
    have member : k ∈ us ++ j :: vs := range ▸ List.mem_range.mpr owned
    simp only [List.mem_append, List.mem_cons] at member
    rcases member with sooner | rfl | later
    · have none_here := earlier k sooner
      rw [resuelve, named] at none_here
      by_contra used
      simp [not_or.mp used] at none_here
    · rw [resuelve, named] at here
      by_cases unused : e.inode = 0
      · exact .inl unused
      · simp only [Option.bind_some, ne_eq, unused, not_false_eq_true, ↓reduceIte,
          Option.some.injEq] at here
        exact .inr here
    · -- no block before that of the entry has one of that name
      have less := (List.pairwise_cons.mp (List.pairwise_append.mp sorted).2.1).1 k later
      have missing : (ess j).find? (·.llamada nombre) = none := by
        rw [List.find?_eq_none]
        exact before j less
      rw [resuelve, missing] at here
      cases here

theorem findSome_nueva {f g : Nat → Option Nat} (ks : List Nat)
    (each : ∀ k ∈ ks, g k = f k ∨ g k = some y) :
    ks.findSome? g = ks.findSome? f ∨ ks.findSome? g = some y := by
  induction ks with
  | nil => exact .inl rfl
  | cons k ks ih =>
    have rest := ih fun j member => each j (List.mem_cons_of_mem _ member)
    rw [List.findSome?_cons, List.findSome?_cons]
    rcases each k (List.mem_cons_self ..) with same | new
    · rw [same]
      cases f k with
      | some r => exact .inl rfl
      | none => exact rest
    · rw [new]
      exact .inr rfl

theorem findSome_congr {f g : Nat → Option Nat} {ks : List Nat} (each : ∀ k ∈ ks, g k = f k) :
    ks.findSome? g = ks.findSome? f := by
  induction ks with
  | nil => rfl
  | cons k ks ih =>
    rw [List.findSome?_cons, List.findSome?_cons, each k (List.mem_cons_self ..),
      ih fun j member => each j (List.mem_cons_of_mem _ member)]

theorem resuelve_sola (nombre : Cadena) {e : DirEntry} (number : e.inode = y) :
    resuelve nombre [e] = none ∨ resuelve nombre [e] = some y := by
  rw [resuelve, List.find?_cons]
  cases e.llamada nombre with
  | false => exact .inl rfl
  | true =>
    simp only [Option.bind_some, number]
    split
    · exact .inr rfl
    · exact .inl rfl

theorem resuelve_partida {e nueva : DirEntry} {us vs : List DirEntry} {m : Nat}
    (number : nueva.inode = y) (nonzero : y ≠ 0) :
    resuelve nombre (us ++ { e with entryLen := m } :: nueva :: vs) =
        resuelve nombre (us ++ e :: vs) ∨
      resuelve nombre (us ++ { e with entryLen := m } :: nueva :: vs) = some y := by
  have named : DirEntry.llamada { e with entryLen := m } nombre = e.llamada nombre := rfl
  simp only [resuelve, List.find?_append, List.find?_cons, named]
  cases us.find? (·.llamada nombre) with
  | some u => exact .inl rfl
  | none =>
    cases e.llamada nombre with
    | true => exact .inl rfl
    | false =>
      cases nueva.llamada nombre with
      | true => exact .inr (by simp [number, nonzero])
      | false => exact .inl rfl

/-! ### A path and its last name -/

theorem separar_partes {path : Cadena} (long : 1 < (stringSplit path).length) :
    47 ∉ (separarPathParaNewDirEntry path).2 ∧ path =
      (separarPathParaNewDirEntry path).1 ++ 47 :: (separarPathParaNewDirEntry path).2 := by
  have slash : (47 : UInt8) ∈ path.reverse := by
    by_contra absent
    have one : stringSplit path = [path].filter (· ≠ []) := by
      rw [stringSplit, List.splitOn_eq_singleton (by simpa using absent)]
    have short := List.length_filter_le (· ≠ ([] : Cadena)) [path]
    rw [← one] at short
    simp only [List.length_singleton] at short
    omega
  obtain ⟨last, front, split, clean⟩ := List.eq_append_cons_of_mem slash
  have whole : path = front.reverse ++ 47 :: last.reverse := by
    rw [← List.reverse_reverse path, split]
    simp
  have name : path.reverse.takeWhile (· ≠ 47) = last := by
    rw [split, List.takeWhile_append_of_pos fun c member => by
      simpa using fun same : c = 47 => clean (same ▸ member)]
    simp
  have ruta : path.take (path.length - last.reverse.length - 1) = front.reverse := by
    have length := congrArg List.length whole
    simp only [List.length_append, List.length_reverse, List.length_cons] at length ⊢
    rw [show path.length - last.length - 1 = front.reverse.length by
      rw [List.length_reverse]; omega]
    conv_lhs => rw [whole]
    exact List.take_left
  rw [separarPathParaNewDirEntry, if_neg (by omega)]
  simp only [name, ruta]
  exact ⟨by simpa using clean, whole⟩

/-- The names of a path are those of its directory and the last one. -/
theorem stringSplit_separar (path : Cadena) : stringSplit path =
    stringSplit (separarPathParaNewDirEntry path).1 ++
      if (separarPathParaNewDirEntry path).2 = [] then []
      else [(separarPathParaNewDirEntry path).2] := by
  by_cases long : 1 < (stringSplit path).length
  · obtain ⟨clean, whole⟩ := separar_partes long
    generalize separarPathParaNewDirEntry path = parts at clean whole ⊢
    rw [whole, stringSplit, List.splitOn_append_cons_self, List.splitOn_eq_singleton clean,
      List.filter_append, stringSplit]
    by_cases none : parts.2 = [] <;> simp [none]
  · rw [separarPathParaNewDirEntry, if_pos (by omega)]
    have nothing : stringSplit [] = [] := by simp [stringSplit]
    have short : (stringSplit path).length ≤ 1 := by omega
    have filled : ∀ c ∈ stringSplit path, c ≠ [] := fun c member => by
      simpa using (List.mem_filter.mp member).2
    match names : stringSplit path, short with
    | [], _ => simp [nothing]
    | [c], _ =>
      have := filled c (by simp [names])
      simp [nothing, this]

/-- A walk over `us ++ vs` is the walk over `us`, and from where it ends the one over `vs`. -/
theorem recorrerRuta_dos (us vs : List Cadena) (nonzero : x ≠ 0) :
    recorrerRuta sb d x (us ++ vs) = (recorrerRuta sb d x us).bind fun y =>
      if y = 0 then some 0 else recorrerRuta sb d y vs := by
  induction us generalizing x with
  | nil => simp [recorrerRuta, nonzero]
  | cons u us ih =>
    rw [List.cons_append, recorrerRuta, recorrerRuta]
    split
    · simp only [Option.bind_eq_bind, Option.bind_assoc]
      refine Option.bind_congr fun r _ => ?_
      split
      · simp
      simp only [Option.bind_assoc]
      refine Option.bind_congr fun node there => ?_
      refine Option.bind_congr fun z present => ?_
      obtain ⟨rfl, positive, -⟩ := getInodo_some there present
      exact ih (by omega)
    · simp

/-- A path whose directory resolves is looked up there. -/
theorem path_en_ruta {path : Cadena} (nonzero : x ≠ 0)
    (parent : getNroInodoDeLaDireccionDelPath sb d (separarPathParaNewDirEntry path).1 = some x) :
    getNroInodoDeLaDireccionDelPath sb d path =
      if (separarPathParaNewDirEntry path).2 = [] then some x
      else recorrerRuta sb d x [(separarPathParaNewDirEntry path).2] := by
  simp only [getNroInodoDeLaDireccionDelPath, Option.bind_eq_bind,
    Option.bind_eq_some_iff] at parent
  obtain ⟨node, root, raiz, rfl, parent⟩ := parent
  have start := (getInodo_some root rfl).1
  simp only [getNroInodoDeLaDireccionDelPath, root, Option.bind_eq_bind, Option.bind_some]
  rw [stringSplit_separar, recorrerRuta_dos _ _ (by omega), parent, Option.bind_some,
    if_neg nonzero]
  split <;> rfl

/-- The last name is not empty when the path has a name and does not end in a slash. -/
theorem separar_nombre {path : Cadena} (ends : path.getLast? ≠ some 47)
    (named : stringSplit path ≠ []) : (separarPathParaNewDirEntry path).2 ≠ [] := by
  intro empty
  by_cases long : 1 < (stringSplit path).length
  · obtain ⟨-, whole⟩ := separar_partes long
    rw [empty] at whole
    rw [whole] at ends
    simp at ends
  · rw [separarPathParaNewDirEntry, if_pos (by omega)] at empty
    obtain ⟨c, names, split⟩ := List.exists_cons_of_ne_nil named
    have filled : c ≠ [] := by
      have member : c ∈ stringSplit path := by simp [split]
      simpa using (List.mem_filter.mp member).2
    rw [split] at empty
    exact filled empty

/-- The names of a path are those of its `ruta` and its `nombre`, and it leads where `nombre`
does in the directory to which `ruta` leads. -/
theorem path_separado (sb : Superblock) (d : Disco) (path : Cadena)
    (ends : path.getLast? ≠ some 47) (named : stringSplit path ≠ []) :
    stringSplit path = stringSplit (separarPathParaNewDirEntry path).1 ++
        [(separarPathParaNewDirEntry path).2] ∧
      getNroInodoDeLaDireccionDelPath sb d path =
        (getNroInodoDeLaDireccionDelPath sb d (separarPathParaNewDirEntry path).1).bind fun x =>
          if x = 0 then some 0
          else if (d.inodo x).tieneModo S_IFDIR then
            (buscarNroInodoEnEntradasDirectorio sb d x (separarPathParaNewDirEntry path).2).bind
              fun y => if y = 0 then some 0 else (getInodo sb y).bind id
          else some 0 := by
  have names := stringSplit_separar path
  rw [if_neg (separar_nombre ends named)] at names
  refine ⟨names, ?_⟩
  simp only [getNroInodoDeLaDireccionDelPath, Option.bind_eq_bind, Option.bind_assoc]
  refine Option.bind_congr fun node root => ?_
  refine Option.bind_congr fun raiz present => ?_
  have start := (getInodo_some root present).1
  rw [names, recorrerRuta_dos _ _ (by omega)]
  refine Option.bind_congr fun x _ => ?_
  simp [recorrerRuta]

theorem path_separado_barras :
    stringSplit [47, 97, 47, 47, 98] = [[97], [98]] ∧
      getNroInodoDeLaDireccionDelPath (volumen 0) (imagenConArchivo 0) [47, 97, 47, 47, 98] =
        some 0 := by
  have parts := path_separado (volumen 0) (imagenConArchivo 0) [47, 97, 47, 47, 98] (by decide)
    (by decide)
  exact ⟨parts.1, parts.2.trans (by decide +kernel)⟩

/-- A path that is missing from its directory. -/
theorem buscar_ausente {path : Cadena} (nonzero : x ≠ 0)
    (parent : getNroInodoDeLaDireccionDelPath sb d (separarPathParaNewDirEntry path).1 = some x)
    (missing : getNroInodoDeLaDireccionDelPath sb d path = some 0)
    (directory : (d.inodo x).tieneModo S_IFDIR) :
    (separarPathParaNewDirEntry path).2 ≠ [] ∧ buscarNroInodoEnEntradasDirectorio sb d x
      (separarPathParaNewDirEntry path).2 = some 0 := by
  rw [path_en_ruta nonzero parent] at missing
  split at missing
  · cases missing
    exact absurd rfl nonzero
  rename_i named
  refine ⟨named, ?_⟩
  simp only [recorrerRuta, directory, ↓reduceIte, Option.bind_eq_bind,
    Option.bind_eq_some_iff] at missing
  obtain ⟨r, answer, missing⟩ := missing
  split at missing
  · rename_i zero
    rw [answer, zero]
  · simp only [Option.bind_eq_some_iff] at missing
    obtain ⟨node, there, z, rfl, missing⟩ := missing
    cases missing
    have := (getInodo_some there rfl).2.1
    omega

/-- A path whose last name is not empty is looked up under that name. -/
theorem buscar_nombrada {path : Cadena} {z : Nat} (nonzero : x ≠ 0)
    (parent : getNroInodoDeLaDireccionDelPath sb d (separarPathParaNewDirEntry path).1 = some x)
    (found : getNroInodoDeLaDireccionDelPath sb d path = some z) (there : z ≠ 0)
    (named : (separarPathParaNewDirEntry path).2 ≠ []) :
    (d.inodo x).tieneModo S_IFDIR ∧ buscarNroInodoEnEntradasDirectorio sb d x
      (separarPathParaNewDirEntry path).2 = some z := by
  rw [path_en_ruta nonzero parent, if_neg named, recorrerRuta] at found
  split at found
  · rename_i directory
    simp only [Option.bind_eq_bind, Option.bind_eq_some_iff] at found
    obtain ⟨r, answer, found⟩ := found
    split at found
    · cases found
      exact absurd rfl there
    · simp only [Option.bind_eq_some_iff] at found
      obtain ⟨node, inside, v, rfl, found⟩ := found
      cases found
      obtain ⟨rfl, -⟩ := getInodo_some inside rfl
      exact ⟨directory, answer⟩
  · cases found
    exact absurd rfl there

/-- A path that leads somewhere names its directory again, or one of its entries. -/
theorem buscar_presente {path : Cadena} {z : Nat} (nonzero : x ≠ 0)
    (parent : getNroInodoDeLaDireccionDelPath sb d (separarPathParaNewDirEntry path).1 = some x)
    (found : getNroInodoDeLaDireccionDelPath sb d path = some z) (there : z ≠ 0) :
    z = x ∨ (d.inodo x).tieneModo S_IFDIR ∧ buscarNroInodoEnEntradasDirectorio sb d x
      (separarPathParaNewDirEntry path).2 = some z := by
  by_cases unnamed : (separarPathParaNewDirEntry path).2 = []
  · rw [path_en_ruta nonzero parent, if_pos unnamed] at found
    exact .inl (Option.some.inj found).symm
  · exact .inr (buscar_nombrada nonzero parent found there unnamed)

/-! ### A new entry and the directories it leaves alone -/

section
variable (sb)

/-- The blocks of the directory are chains of entries, with no zero inside a name. -/
def Legible (d : Disco) (x : Nat) : Prop :=
  ∃ ess, Cadenas sb d x (bloquesDe sb (d.inodo x).size.toNat) ess ∧
    ∀ k < bloquesDe sb (d.inodo x).size.toNat, ∀ e ∈ ess k, 8 + e.nameLen ≤ e.minimo

def Legibles (d : Disco) : Prop :=
  ∀ x, esInodo sb x → (d.inodo x).tieneModo S_IFDIR → Legible sb d x

/-- What a new entry for the inode `y` does to the answers of directories. -/
structure Agrega (d d' : Disco) (y : Nat) : Prop where
  modo : ∀ w, (d'.inodo w).mode = (d.inodo w).mode
  vacio : (d'.inodo y).size = 0
  busca : ∀ w nombre r, w ≠ y → esInodo sb w → (d.inodo w).tieneModo S_IFDIR →
    buscarNroInodoEnEntradasDirectorio sb d' w nombre = some r →
      r = 0 ∨ r = y ∨ buscarNroInodoEnEntradasDirectorio sb d w nombre = some r

end

theorem buscarNro_vacio (empty : (d.inodo x).size = 0) :
    buscarNroInodoEnEntradasDirectorio sb d x nombre = some 0 := by
  have none_left : bloquesDe sb 0 = 0 := bloquesDe_zero
  simp [buscarNroInodoEnEntradasDirectorio, empty, none_left, primerBloque, terminaOffset]

/-- Nothing lies below an empty inode. -/
theorem recorrerRuta_vacio (empty : (d.inodo x).size = 0)
    (rest : List Cadena) : recorrerRuta sb d x (nombre :: rest) = some 0 := by
  rw [recorrerRuta]
  split
  · simp [buscarNro_vacio empty]
  · rfl

/-- After a new entry a path leads nowhere, to the new inode, or where it led. -/
theorem Agrega.recorrerRuta (added : Agrega sb d d' y) {w r : Nat}
    (valid : esInodo sb w) (ruta : List Cadena) (run : recorrerRuta sb d' w ruta = some r) :
    r = 0 ∨ r = y ∨ Rfs.recorrerRuta sb d w ruta = some r := by
  induction ruta generalizing w with
  | nil => exact .inr (.inr run)
  | cons nombre rest ih =>
    by_cases here : w = y
    · subst here
      rw [recorrerRuta_vacio added.vacio] at run
      exact .inl (Option.some.inj run).symm
    have kind : (d'.inodo w).tieneModo S_IFDIR = (d.inodo w).tieneModo S_IFDIR := by
      rw [INode.tieneModo, INode.tieneModo, added.modo]
    rw [Rfs.recorrerRuta, kind] at run
    split at run
    · rename_i directory
      simp only [Option.bind_eq_bind, Option.bind_eq_some_iff] at run
      obtain ⟨next, found, run⟩ := run
      split at run
      · exact .inl (Option.some.inj run).symm
      rename_i nonzero
      simp only [Option.bind_eq_some_iff] at run
      obtain ⟨node, there, v, present, run⟩ := run
      obtain ⟨rfl, inside⟩ := getInodo_some there present
      rcases added.busca w nombre v here valid directory found with zero | rfl | old
      · exact absurd zero nonzero
      · cases rest with
        | nil => exact .inr (.inl (Option.some.inj run).symm)
        | cons other rest =>
          rw [recorrerRuta_vacio added.vacio] at run
          exact .inl (Option.some.inj run).symm
      · refine (ih inside run).imp id (Or.imp id fun same => ?_)
        rw [Rfs.recorrerRuta, if_pos directory, old]
        simp [nonzero, there, present, same]
    · rename_i other
      exact .inl (Option.some.inj run).symm

/-- A path that led nowhere leads to the new inode or nowhere. -/
theorem Agrega.path (added : Agrega sb d d' y) {path : Cadena} {r : Nat}
    (missing : getNroInodoDeLaDireccionDelPath sb d path = some 0)
    (run : getNroInodoDeLaDireccionDelPath sb d' path = some r) : r = 0 ∨ r = y := by
  simp only [getNroInodoDeLaDireccionDelPath, Option.bind_eq_bind, Option.bind_eq_some_iff]
    at missing run
  obtain ⟨node, root, raiz, rfl, missing⟩ := missing
  obtain ⟨node', root', raiz', rfl, run⟩ := run
  obtain rfl : raiz = raiz' := by
    rw [root] at root'
    exact Option.some.inj (Option.some.inj root')
  rcases added.recorrerRuta (getInodo_some root rfl).2 _ run with zero | new | old
  · exact .inl zero
  · exact .inr new
  · rw [missing] at old
    exact .inl (Option.some.inj old).symm

theorem Agrega.inodo (added : Agrega sb d d' y) {path : Cadena} {r z : Nat}
    (missing : getNroInodoDeLaDireccionDelPath sb d path = some 0)
    (found : getNroInodoDeLaDireccionDelPath sb d' path = some r)
    (node : getInodo sb r = some (some z)) : z = y := by
  obtain ⟨rfl, inside⟩ := getInodo_some node rfl
  rcases added.path missing found with zero | new
  · exact absurd inside.1 (by omega)
  · exact new

/-! ### In a block with room -/

section
variable {desp anterior : Nat} {e : DirEntry} {d1 : Disco}

/-- The entries of the blocks of `x` after a new one in block `k`. -/
theorem cadenas_conEntrada (geo : Geometria sb) (few : Numerable sb) (valid : esInodo sb x)
    (obra : Obra sb (deTamanio sb d) E d)
    (edit : Edita sb (deTamanio sb d) E x k d
      (conEntrada d1 (posicionarInicioBloque sb (bloqueLogico sb d x k)) desp e y nombre))
    (chains : Cadenas sb d x (bloquesDe sb (d.inodo x).size.toNat) ess)
    (names : ∀ k < bloquesDe sb (d.inodo x).size.toNat, ∀ u ∈ ess k, 8 + u.nameLen ≤ u.minimo)
    (run : buscarEntrada sb d x (conLugar nombre) = some (some (k, desp, anterior, e)))
    (bound : k < alcance sb) (asked : getInodoLibre sb d = some (y, d1)) :
    k < bloquesDe sb (d.inodo x).size.toNat ∧ ∃ us vs, ess k = us ++ e :: vs ∧
      Cadenas sb (conEntrada d1 (posicionarInicioBloque sb (bloqueLogico sb d x k)) desp e y nombre)
        x (bloquesDe sb (d.inodo x).size.toNat) (fun l => if l = k then
          us ++ { e with entryLen := e.minimo } :: entradaNueva d1 y e.resto nombre :: vs
          else ess l) := by
  obtain ⟨owned, room, us, vs, shape, found, -⟩ := hallada_of_buscar geo chains run
  have vivos := deTamanio_vivo (d := d) valid
  have number := getInodoLibre_lt few asked
  have name : 8 + e.nameLen ≤ e.minimo := names k owned e (by simp [shape])
  have after := found.congr (getInodoLibre_solo asked).2.1
  refine ⟨owned, us, vs, shape, ?_⟩
  exact edit.cadenas obra ((vivos _).mpr ⟨k, owned, inicia_camino bound⟩) bound
    (fun q => (vivos q).mpr) chains (found.sanas_conEntrada room number name)
    (after.conEntrada room number name)

/-- A directory answers for a name what it did, or the new inode. -/
theorem agrega_conEntrada (geo : Geometria sb) (few : Numerable sb) (valid : esInodo sb x)
    (obra : Obra sb (deTamanio sb d) E d) (readable : Legibles sb d)
    (run : buscarEntrada sb d x (conLugar nombre) = some (some (k, desp, anterior, e)))
    (bound : k < alcance sb) (asked : getInodoLibre sb d = some (y, d1)) (nonzero : y ≠ 0)
    (edit : Edita sb (deTamanio sb d) E x k d
      (conEntrada d1 (posicionarInicioBloque sb (bloqueLogico sb d x k)) desp e y nombre)) :
    Agrega sb d (conEntrada d1 (posicionarInicioBloque sb (bloqueLogico sb d x k)) desp e y nombre)
      y := by
  obtain ⟨-, -, inodes⟩ := getInodoLibre_solo asked
  have kept : ∀ w, w ≠ y → (conEntrada d1 (posicionarInicioBloque sb (bloqueLogico sb d x k)) desp e
      y nombre).inodo w = d.inodo w := by
    intro w other
    rw [conEntrada_inodo _ _ _ _ _ other, inodes]
  refine ⟨fun w => ?_, by rw [conEntrada_inodo_self],
    fun w name r other inside directory answer => ?_⟩
  · by_cases here : w = y
    · rw [here, conEntrada_inodo_self, inodes]
    · rw [kept w here]
  obtain ⟨ess, chains, names⟩ := readable w inside directory
  have size : ((conEntrada d1 (posicionarInicioBloque sb (bloqueLogico sb d x k)) desp e y
      nombre).inodo w).size.toNat = (d.inodo w).size.toNat := by rw [kept w other]
  have member : deTamanio sb d x (camino (ptrsPorBloque sb) k) :=
    (deTamanio_vivo valid _).mpr ⟨k, (buscarEntrada_some run).1, inicia_camino bound⟩
  by_cases here : w = x
  · subst here
    obtain ⟨owned, us, vs, shape, after⟩ := cadenas_conEntrada geo few valid obra edit chains names
      run bound asked
    rw [← size] at after
    rw [buscarNro_cadenas geo after, size] at answer
    rw [buscarNro_cadenas geo chains]
    have each : ∀ l ∈ List.range (bloquesDe sb (d.inodo w).size.toNat),
        resuelve name (if l = k then us ++ { e with entryLen := e.minimo } ::
          entradaNueva d1 y e.resto nombre :: vs else ess l) = resuelve name (ess l) ∨
        resuelve name (if l = k then us ++ { e with entryLen := e.minimo } ::
          entradaNueva d1 y e.resto nombre :: vs else ess l) = some y := by
      intro l _
      by_cases block : l = k
      · subst block
        rw [if_pos rfl, shape]
        exact resuelve_partida rfl nonzero
      · exact .inl (by rw [if_neg block])
    rcases findSome_nueva _ each with same | new
    · rw [same] at answer
      exact .inr (.inr answer)
    · rw [new] at answer
      exact .inr (.inl (Option.some.inj answer).symm)
  · have after := edit.cadenas_otro obra member bound here (fun q => (deTamanio_vivo inside q).mpr)
      chains
    rw [← size] at after
    rw [buscarNro_cadenas geo after, size] at answer
    rw [buscarNro_cadenas geo chains]
    exact .inr (.inr answer)

end

/-! ### In a block of its own -/

section
variable {b : Nat} {d2 d3 : Disco} (geo : Geometria sb) (few : Numerable sb)
  (allocated : asignado sb d x) (size : n = bloquesDe sb (d.inodo x).size.toNat)
  (bound : n < alcance sb) (fits : (n + 1) * tamanioDeBloque sb < 2 ^ 32)
  (wider : Ensancha sb E x n b d d2) (taken : getInodoLibre sb d2 = some (y, d3)) (nonzero : y ≠ 0)

include few wider taken nonzero in
theorem conBloque_ne {w : Nat} (inside : asignado sb d w) : w ≠ y := by
  refine inodo_nuevo_ne few ?_ taken nonzero
  rw [asignado, wider.paso.marco.bitmapInodos]
  exact inside

include few wider taken nonzero in
/-- The other inodes are what they were. -/
theorem conBloque_inodo_otro (nombre : Cadena) {w : Nat} (inside : asignado sb d w)
    (other : w ≠ x) :
    (conBloque sb d3 x n y nombre).inodo w = d.inodo w := by
  rw [conBloque_inodo _ _ _ _ other (conBloque_ne few wider taken nonzero inside),
    (getInodoLibre_solo taken).2.2, wider.paso.marco.otros w other]

include few allocated size fits wider taken nonzero in
theorem conBloque_bloques (nombre : Cadena) :
    bloquesDe sb ((conBloque sb d3 x n y nombre).inodo x).size.toNat = n + 1 := by
  have below : (d.inodo x).size.toNat ≤
      bloquesDe sb (d.inodo x).size.toNat * tamanioDeBloque sb := le_bloquesDe
  rw [← size] at below
  rw [Nat.add_mul, Nat.one_mul] at fits
  rw [conBloque_size (conBloque_ne few wider taken nonzero allocated),
    (getInodoLibre_solo taken).2.2,
    wider.paso.marco.size, Nat.mod_eq_of_lt (by omega), bloquesDe_add, size]

include geo few allocated size bound fits wider taken nonzero in
theorem agrega_conBloque (nombre : Cadena) (readable : Legibles sb d) :
    Agrega sb d (conBloque sb d3 x n y nombre) y := by
  have different := conBloque_ne few wider taken nonzero allocated
  have inodes := (getInodoLibre_solo taken).2.2
  have marco := wider.paso.marco
  refine ⟨fun w => ?_, by rw [conBloque_inodo_nuevo _ _ _ _ different],
    fun w name r other inside directory answer => ?_⟩
  · by_cases parent : w = x
    · rw [parent, conBloque_inodo_padre _ _ _ _ different, inodes]
      exact marco.mode
    rw [← marco.otros w parent, ← inodes]
    by_cases new : w = y
    · rw [new, conBloque_inodo_nuevo _ _ _ _ different]
    · rw [conBloque_inodo _ _ _ _ parent new]
  obtain ⟨ess, chains, -⟩ := readable w inside directory
  by_cases here : w = x
  · subst here
    have blocks := conBloque_bloques few allocated size fits wider taken nonzero nombre
    rw [← size] at chains
    have after := wider.cadenas nombre geo few allocated.1 size bound taken chains
    rw [← blocks] at after
    rw [buscarNro_cadenas geo after, blocks, List.range_succ, List.findSome?_append] at answer
    rw [buscarNro_cadenas geo (size ▸ chains), ← size]
    have old : (List.range n).findSome? (fun l => resuelve name (if l = n then
        [entradaNueva d3 y (tamanioDeBloque sb) nombre] else ess l)) =
        (List.range n).findSome? (fun l => resuelve name (ess l)) := by
      refine findSome_congr fun l member => ?_
      rw [if_neg (Nat.ne_of_lt (List.mem_range.mp member))]
    rw [old] at answer
    cases found : (List.range n).findSome? (fun l => resuelve name (ess l)) with
    | some r' =>
      rw [found] at answer
      exact .inr (.inr answer)
    | none =>
      rw [found, Option.none_or, List.findSome?_singleton, if_pos rfl] at answer
      have number : (entradaNueva d3 y (tamanioDeBloque sb) nombre).inode = y := rfl
      rcases resuelve_sola name number with reply | reply
      · rw [reply] at answer
        simp only at answer
        split at answer
        · exact .inl (Option.some.inj answer).symm
        · cases answer
      · rw [reply] at answer
        exact .inr (.inl (Option.some.inj answer).symm)
  · have after := wider.cadenas_otro nombre geo few bound taken inside here chains
    have same : (conBloque sb d3 x n y nombre).inodo w = d.inodo w := by
      rw [conBloque_inodo _ _ _ _ here other, inodes, marco.otros w here]
    rw [← same] at after
    rw [buscarNro_cadenas geo after, same] at answer
    rw [buscarNro_cadenas geo chains]
    exact .inr (.inr answer)

end

end LosAltos.Rfs
