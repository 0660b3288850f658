import LosAltos.Rfs.Links

/-!
# Link counts over a run

`links`, `used_dirs_count` and `..` over runs of the operations that create and remove
(`funciones_rfs.c:807-849, 1038-1070, 1115-1153, 1256-1332`). Files keep the counts; a new
directory names itself in `..` and counts one link too few, and a removed one is not taken
off its parent.
-/
namespace LosAltos.Rfs

open Lib

variable {sb : Superblock} {d d' inicial : Disco} {x y p : Nat} {nombre path : Cadena}

def punto : Cadena := [46]
def puntoPunto : Cadena := [46, 46]

/-- The counts agree with the entries, and `..` leads to the parent. -/
structure Enlaces (sb : Superblock) (d : Disco) : Prop where
  links : ∀ x, asignado sb d x → (d.inodo x).links.toNat = menciones sb d x
  dirs : ∀ g < cantidadDeGrupos sb, (d.grupo g).usedDirsCount.toNat =
    ((directorios sb d).filter fun x => (x - 1) / sb.inodesPerGroup = g).card
  padre : ∀ x ∈ directorios sb d, x ≠ 2 → ∀ p ∈ directorios sb d, ∀ nombre, nombre ≠ punto →
    nombre ≠ puntoPunto → (x, nombre) ∈ enlacesDe sb d p →
      (p, puntoPunto) ∈ enlacesDe sb d x ∧ ∀ q, (q, puntoPunto) ∈ enlacesDe sb d x → q = p

/-- The links of a directory depend on its blocks and its size. -/
theorem enlacesDe_congr (mem : d'.mem = d.mem)
    (words : ∀ y j, (d'.inodo y).blocks j = (d.inodo y).blocks j)
    (size : (d'.inodo x).size = (d.inodo x).size) : enlacesDe sb d' x = enlacesDe sb d x := by
  have block : ∀ inicio fuel desp, entradasDesde sb d' inicio fuel desp =
      entradasDesde sb d inicio fuel desp := by
    intro inicio fuel
    induction fuel with
    | zero => exact fun _ => rfl
    | succ fuel ih =>
      intro desp
      rw [entradasDesde, entradasDesde, entradaEn_mem mem inicio, ih]
  simp only [enlacesDe, entradasDe, bloqueLogico, punteros_congr mem words, size, block]

/-! ### Names -/

theorem minuscula_punto {c : UInt8} (same : minuscula c = 46) : c = 46 := by
  rw [minuscula] at same
  split at same
  · rename_i letter
    have := congrArg UInt8.toNat same
    have low := UInt8.le_iff_toNat_le.mp letter.1
    have high := UInt8.le_iff_toNat_le.mp letter.2
    simp only [UInt8.toNat_add, UInt8.reduceToNat] at *
    omega
  · exact same

theorem igualSinCaso_comm (a b : Cadena) : igualSinCaso a b = igualSinCaso b a := by
  rw [igualSinCaso, igualSinCaso, Bool.beq_comm]

/-- Only `.` is called so, whatever the case. -/
theorem igualSinCaso_punto : igualSinCaso punto nombre ↔ nombre = punto := by
  have self : punto.map minuscula = punto := by decide
  rw [igualSinCaso_comm, igualSinCaso, beq_iff_eq, self]
  constructor
  · intro same
    obtain ⟨a, rest, first, dot, same⟩ := List.map_eq_cons_iff.mp same
    rw [first, List.map_eq_nil_iff.mp same, minuscula_punto dot]
    rfl
  · intro same
    rw [same, self]

theorem igualSinCaso_puntoPunto : igualSinCaso puntoPunto nombre ↔ nombre = puntoPunto := by
  have self : puntoPunto.map minuscula = puntoPunto := by decide
  rw [igualSinCaso_comm, igualSinCaso, beq_iff_eq, self]
  constructor
  · intro same
    obtain ⟨a, rest, first, dot, same⟩ := List.map_eq_cons_iff.mp same
    obtain ⟨b, rest, second, dot', same⟩ := List.map_eq_cons_iff.mp same
    rw [first, second, List.map_eq_nil_iff.mp same, minuscula_punto dot, minuscula_punto dot']
    rfl
  · intro same
    rw [same, self]

theorem llamada_puntoPunto {e : DirEntry} : e.llamada puntoPunto ↔ cadena e.name = puntoPunto := by
  rw [DirEntry.llamada, igualSinCaso_comm, igualSinCaso_puntoPunto]

/-- A directory where `..` leads to one inode answers for it. -/
theorem buscar_puntoPunto (geo : Geometria sb) (readable : Legible sb d x) (nonzero : p ≠ 0)
    (there : (p, puntoPunto) ∈ enlacesDe sb d x)
    (only : ∀ q, (q, puntoPunto) ∈ enlacesDe sb d x → q = p) :
    buscarNroInodoEnEntradasDirectorio sb d x puntoPunto ≠ some 0 := by
  obtain ⟨ess, chains, -⟩ := readable
  obtain ⟨k, owned, u, member, link⟩ := mem_enlacesDe.mp there
  rw [entradasDe_cadenas chains owned] at member
  have named : u.llamada puntoPunto := llamada_puntoPunto.mpr (congrArg Prod.snd link)
  rw [buscarNro_cadenas geo chains]
  cases found : (List.range (bloquesDe sb (d.inodo x).size.toNat)).findSome?
      (fun k => resuelve puntoPunto (ess k)) with
  | some r =>
    obtain ⟨-, j, -, -, here, -⟩ := List.findSome?_eq_some_iff.mp found
    rw [resuelve, Option.bind_eq_some_iff] at here
    obtain ⟨e, -, used⟩ := here
    split at used
    · rename_i positive
      cases used
      simpa using positive
    · cases used
  | none =>
    have hidden := List.findSome?_eq_none_iff.mp found k (List.mem_range.mpr owned)
    cases first : (ess k).find? (·.llamada puntoPunto) with
    | none => exact absurd named (List.find?_eq_none.mp first u member)
    | some v =>
      -- the first entry of that name is in use
      have named : v.llamada puntoPunto := by simpa using List.find?_some first
      have calls := llamada_puntoPunto.mp named
      have target := only v.inode (mem_enlacesDe.mpr ⟨k, owned, v, by
        rw [entradasDe_cadenas chains owned]
        exact List.mem_of_find?_eq_some first, by rw [DirEntry.enlace, calls]⟩)
      rw [resuelve, first] at hidden
      simp [target, nonzero] at hidden

/-! ### A new file -/

theorem crearArchivo_some {mode : UInt32} (run : crearArchivo sb d path mode = some (0, d')) :
    ∃ p d1 r z, getNroInodoDeLaDireccionDelPath sb d (separarPathParaNewDirEntry path).1 = some p ∧
      esInodo sb p ∧ getNroInodoDeLaDireccionDelPath sb d path = some 0 ∧
      agregarEntradaDirectorio sb d p (separarPathParaNewDirEntry path).2 = some (0, d1) ∧
      getNroInodoDeLaDireccionDelPath sb d1 path = some r ∧ getInodo sb r = some (some z) ∧
      d' = d1.ponInodo z
        { d1.inodo z with mode := mode.toUInt16 ||| S_IFREG, links := 1, size := 0 } := by
  simp only [crearArchivo, Option.bind_eq_bind, Option.bind_eq_some_iff] at run
  obtain ⟨nro, parent, run⟩ := run
  split at run
  · simp only [Option.bind_eq_some_iff] at run
    obtain ⟨node, here, x, present, found, absent, run⟩ := run
    obtain ⟨rfl, valid⟩ := getInodo_some here present
    split at run
    · rename_i missing
      subst missing
      simp only [Option.bind_eq_some_iff] at run
      obtain ⟨⟨error, d1⟩, added, run⟩ := run
      split at run
      · rename_i zero
        subst zero
        simp only [Option.bind_eq_some_iff] at run
        obtain ⟨r, led, node', here', z, rfl, run⟩ := run
        exact ⟨x, d1, r, z, parent, valid, absent, added, led, here', (setearInodo_archivo run).2⟩
      · rename_i failed
        cases run
        exact absurd rfl failed
    · cases run
  · cases run

/-- A name as C strings and entries hold it. -/
def NombreValido (nombre : Cadena) : Prop := 0 ∉ nombre ∧ nombre.length ≤ 255

theorem NombreValido.guardado (valid : NombreValido nombre) :
    cadena (nombre.take (nombre.length % 256)) = nombre := by
  have whole : nombre.take (nombre.length % 256) = nombre := by
    rw [Nat.mod_eq_of_lt (by have := valid.2; omega), List.take_length]
  rw [whole, cadena_of_no_zero valid.1]

/-- A file that was not there, with its one link. -/
theorem enlaces_crearArchivo {mode : UInt32} (geo : Geometria sb) (few : Numerable sb)
    (owner : Duenio sb d) (readable : Legibles sb d) (links : Enlaces sb d)
    (run : crearArchivo sb d path mode = some (0, d')) (meets : Cumple sb d')
    (name : NombreValido (separarPathParaNewDirEntry path).2)
    (parent : ∀ p, getNroInodoDeLaDireccionDelPath sb d (separarPathParaNewDirEntry path).1 =
      some p → p ∈ directorios sb d)
    (unnamed : ∀ y, buscarInodoLibre sb d (List.range (cantidadDeGrupos sb)) = some y →
      menciones sb d y = 0) : Enlaces sb d' := by
  obtain ⟨p, d1, r, y, led, validP, absent, added, found, node, rfl⟩ := crearArchivo_some run
  have inside := parent p led
  have directory := (mem_directorios.mp inside).2
  obtain ⟨y', new⟩ := agregarEntradaDirectorio_nueva geo few owner readable inside added
    (meets.antes (.of_eq rfl rfl))
  obtain rfl := new.agrega.inodo absent found node
  have link := new.mas
  rw [name.guardado] at link
  -- the directories are those before, and none is the new inode
  have dirs : directorios sb (d1.ponInodo y { d1.inodo y with
      mode := mode.toUInt16 ||| S_IFREG, links := 1, size := 0 }) = directorios sb d := by
    ext w
    rw [mem_directorios, mem_directorios]
    by_cases here : w = y
    · subst here
      refine iff_of_false (fun both => ?_) fun both => new.libre both.1
      have kind := both.2
      simp only [INode.tieneModo, Disco.ponInodo, ↓reduceIte, beq_iff_eq] at kind
      exact modo_archivo _ kind
    · rw [show asignado sb (d1.ponInodo y _) w ↔ asignado sb d1 w from Iff.rfl, new.asignado]
      simp [INode.tieneModo, Disco.ponInodo, here, new.agrega.modo]
  have outside : y ∉ directorios sb d := fun member => new.libre (mem_directorios.mp member).1
  have same : ∀ w ∈ directorios sb d, enlacesDe sb (d1.ponInodo y { d1.inodo y with
      mode := mode.toUInt16 ||| S_IFREG, links := 1, size := 0 }) w = enlacesDe sb d1 w := by
    intro w member
    have other : w ≠ y := fun equal => outside (equal ▸ member)
    exact enlacesDe_congr rfl (ponInodo_blocks fun _ => rfl) (by simp [Disco.ponInodo, other])
  have count : ∀ z, menciones sb (d1.ponInodo y { d1.inodo y with
      mode := mode.toUInt16 ||| S_IFREG, links := 1, size := 0 }) z =
      menciones sb d z + if y = z then 1 else 0 := by
    intro z
    rw [menciones, dirs, referencias_congr same]
    exact referencias_cons inside link.propio link.otros z
  refine ⟨fun z allocated => ?_, fun g below => ?_, ?_⟩
  · rw [count]
    by_cases here : z = y
    · subst here
      simp [Disco.ponInodo, unnamed z new.siguiente]
    · have before := ((new.asignado z).mp allocated).resolve_right here
      rw [if_neg (Ne.symm here), Nat.add_zero, ← links.links z before, ← new.links]
      simp [Disco.ponInodo, here]
  · rw [dirs, ← links.dirs g below, ← new.dirs]
    rfl
  · rw [dirs]
    intro x member nonroot q memberQ child notDot notDotDot there
    rw [same q memberQ] at there
    rw [same x member]
    have old : (x, child) ∈ enlacesDe sb d q := by
      by_cases own : q = p
      · subst own
        rw [link.propio, Multiset.mem_cons] at there
        rcases there with equal | old
        · have same : x = y := congrArg Prod.fst equal
          exact absurd (same ▸ member) outside
        · exact old
      · rwa [link.otros q memberQ own] at there
    obtain ⟨up, only⟩ := links.padre x member nonroot q memberQ child notDot notDotDot old
    by_cases own : x = p
    · subst own
      rw [link.propio]
      refine ⟨Multiset.mem_cons_of_mem up, fun r' there' => ?_⟩
      rcases Multiset.mem_cons.mp there' with equal | old'
      · -- a second `..` would have been found
        have called : (separarPathParaNewDirEntry path).2 = puntoPunto :=
          (congrArg Prod.snd equal).symm
        have positive := (mem_directorios.mp memberQ).1.1.1
        have nonzero : x ≠ 0 := by
          have := validP.1
          omega
        have missing := (buscar_ausente nonzero led absent directory).2
        rw [called] at missing
        exact absurd missing (buscar_puntoPunto geo (readable x validP directory) (by omega) up only)
      · exact only r' old'
    · rw [link.otros x member own]
      exact ⟨up, only⟩

/-! ### A file less -/

theorem enlaces_baja {link : Nat × Cadena} (links : Enlaces sb d) (gone : Baja sb d d' p x link)
    (file : ¬(d.inodo x).tieneModo S_IFDIR) : Enlaces sb d' := by
  have kind : ∀ w, w ≠ x → ((d'.inodo w).tieneModo S_IFDIR ↔ (d.inodo w).tieneModo S_IFDIR) :=
    fun w other => by rw [INode.tieneModo, INode.tieneModo, (gone.otros w other).1]
  have dirs : directorios sb d' = directorios sb d := by
    ext w
    rw [mem_directorios, mem_directorios, gone.asignado]
    by_cases here : w = x
    · subst here
      simp [file]
    · simp [here, kind w here]
  have less := gone.menos
  have inside : ∀ w ∈ directorios sb d, ∀ u, u ∈ enlacesDe sb d' w → u ∈ enlacesDe sb d w := by
    intro w member u there
    by_cases own : w = p
    · subst own
      rw [less.propio]
      exact Multiset.mem_cons_of_mem there
    · rwa [less.otros w (dirs ▸ member) own]
  have count : ∀ z, z ≠ 0 → z ≠ x → menciones sb d z = menciones sb d' z := by
    intro z nonzero other
    rw [menciones, menciones, ← dirs]
    by_cases member : p ∈ directorios sb d'
    · rw [referencias_cons member less.propio less.otros z, if_neg, Nat.add_zero]
      rintro rfl
      exact gone.enlace.elim nonzero other
    · refine referencias_congr (fun w inner => less.otros w inner ?_) z
      rintro rfl
      exact member inner
  refine ⟨fun z allocated => ?_, fun g below => ?_, ?_⟩
  · obtain ⟨before, other⟩ := (gone.asignado z).mp allocated
    have nonzero : z ≠ 0 := Nat.pos_iff_ne_zero.mp before.1.1
    rw [(gone.otros z other).2, links.links z before, count z nonzero other]
  · rw [dirs, gone.dirs, links.dirs g below]
  · rw [dirs]
    intro w member nonroot q memberQ child notDot notDotDot there
    obtain ⟨up, only⟩ := links.padre w member nonroot q memberQ child notDot notDotDot
      (inside q memberQ _ there)
    refine ⟨?_, fun r there' => only r (inside w member _ there')⟩
    by_cases own : w = p
    · subst own
      rw [less.propio] at up
      rcases Multiset.mem_cons.mp up with equal | old
      · -- what went leads to no directory
        have target : link.1 = q := (congrArg Prod.fst equal).symm
        obtain ⟨allocated, directory⟩ := mem_directorios.mp memberQ
        have positive := allocated.1.1
        rcases gone.enlace with zero | same
        · omega
        · exact absurd (target.symm.trans same ▸ directory) file
      · exact old
    · rwa [less.otros w (dirs ▸ member) own] at up

/-! ### Every run -/

section
variable (sb)

/-- The entry that goes is not the first of its block. -/
def EntradaInterior (d : Disco) (path : Cadena) : Prop :=
  ∀ p, getNroInodoDeLaDireccionDelPath sb d (separarPathParaNewDirEntry path).1 = some p →
    ∀ k desp anterior e, buscarEntrada sb d p (·.llamada (separarPathParaNewDirEntry path).2) =
      some (some (k, desp, anterior, e)) → desp ≠ 0

/-- Files come and go, and no directory does. -/
def SoloArchivos (d : Disco) : Llamada → Prop
  | .crearArchivo path _ => NombreValido (separarPathParaNewDirEntry path).2 ∧
    (∀ p, getNroInodoDeLaDireccionDelPath sb d (separarPathParaNewDirEntry path).1 = some p →
      p ∈ directorios sb d) ∧
    ∀ y, buscarInodoLibre sb d (List.range (cantidadDeGrupos sb)) = some y → menciones sb d y = 0
  | .eliminarArchivo path => EntradaInterior sb d path ∧
    ∀ x, getNroInodoDeLaDireccionDelPath sb d path = some x → ¬(d.inodo x).tieneModo S_IFDIR ∧
      resta32 x sb.firstDataBlock / sb.inodesPerGroup = (x - 1) / sb.inodesPerGroup
  | .crearDirectorio .. | .eliminarDirectorio _ | .truncarArchivo .. => False

/-- A successful call that creates or removes a file and loses track of no block. -/
def ConservaEnlaces (d : Disco) (l : Llamada) : Prop :=
  ConservaDuenio sb d l ∧ (responder sb d l).map (·.1) = some 0 ∧ Legibles sb d ∧
    SoloArchivos sb { d with hechos := [] } l

end

theorem Enlaces.hechos (links : Enlaces sb d) (hechos : List Hecho) :
    Enlaces sb { d with hechos } := by
  have dirs : directorios sb { d with hechos } = directorios sb d := directorios_congr rfl rfl
  have same : ∀ x, enlacesDe sb { d with hechos } x = enlacesDe sb d x := fun x =>
    enlacesDe_congr rfl (fun _ _ => rfl) rfl
  refine ⟨fun x allocated => ?_, ?_, ?_⟩
  · rw [menciones, dirs, referencias_congr fun p _ => same p]
    exact links.links x allocated
  · rw [dirs]
    exact links.dirs
  · simp only [dirs, same]
    exact links.padre

theorem enlaces_atender (geo : Geometria sb) (few : Numerable sb) (owner : Duenio sb d)
    (links : Enlaces sb d) {l : Llamada} (meets : ConservaEnlaces sb d l)
    (run : atender sb d l = some d') : Enlaces sb d' := by
  have clean := owner.hechos []
  have start := links.hechos []
  obtain ⟨⟨-, permitted⟩, success, readable, files⟩ := meets
  rw [hechosDe, run] at permitted
  simp only [atender, Option.map_eq_some_iff] at run
  obtain ⟨⟨code, d1⟩, run, rfl⟩ := run
  rw [run, Option.map_some, Option.some.injEq] at success
  subst success
  have directories : Legibles sb { d with hechos := [] } := readable
  cases l with
  | crearArchivo path mode =>
    obtain ⟨name, parent, unnamed⟩ := files
    exact enlaces_crearArchivo geo few clean directories start run permitted name parent unnamed
  | eliminarArchivo path =>
    obtain ⟨inner, file⟩ := files
    obtain ⟨p, x, link, gone, kind⟩ := baja_eliminarArchivo geo few clean directories run permitted
      (fun x found => (file x found).2) (fun x found => (file x found).1) inner
    exact enlaces_baja start gone kind
  | crearDirectorio path mode | truncarArchivo path offset | eliminarDirectorio path =>
    exact files.elim

theorem alcanzable_enlaces (geo : Geometria sb) (few : Numerable sb) (owner : Duenio sb inicial)
    (links : Enlaces sb inicial) (reached : Alcanzable sb (ConservaEnlaces sb) inicial d) :
    Duenio sb d ∧ Enlaces sb d := by
  induction reached with
  | inicio => exact ⟨owner, links⟩
  | llamada d d' l _ meets run ih =>
    exact ⟨duenio_atender geo ih.1 meets.1 run, enlaces_atender geo few ih.1 ih.2 meets run⟩

/-- On an image below 4 GiB whose counts are right they stay right, and `..` leads to the parent,
in every run of calls that create and remove files. -/
theorem cuentas_de_enlaces (start : Consistente sb inicial)
    (small : sb.blocks * tamanioDeBloque sb ≤ 2 ^ 32) (few : Numerable sb)
    (links : Enlaces sb inicial) (reached : Alcanzable sb (ConservaEnlaces sb) inicial d) :
    Enlaces sb d :=
  (alcanzable_enlaces (start.geometria small) few start.duenio links reached).2

theorem esInodo_volumen (valid : esInodo (volumen 0) x) : x < 17 := by
  have group : (x - 1) / 16 < 1 := valid.2
  omega

theorem imagenConArchivo_enlaces : Enlaces (volumen 0) (imagenConArchivo 0) := by
  have only : directorios (volumen 0) (imagenConArchivo 0) = {2} := by decide +kernel
  refine ⟨fun x allocated => ?_, fun g below => ?_, fun x member other => ?_⟩
  · have counted : ∀ x < 17, asignado (volumen 0) (imagenConArchivo 0) x →
        ((imagenConArchivo 0).inodo x).links.toNat = menciones (volumen 0) (imagenConArchivo 0) x := by
      decide +kernel
    exact counted x (esInodo_volumen allocated.1) allocated
  · obtain rfl : g = 0 := Nat.lt_one_iff.mp below
    decide +kernel
  · rw [only, Finset.mem_singleton] at member
    exact absurd member other

/-- A root directory of one block, alone. -/
theorem legibles_raiz (es : List DirEntry)
    (alone : ∀ x < 17, x ≠ 2 → ¬(d.inodo x).tieneModo S_IFDIR)
    (one : bloquesDe (volumen 0) (d.inodo 2).size.toNat = 1)
    (sound : ∀ e ∈ es, e.Sana) (names : ∀ e ∈ es, 8 + e.nameLen ≤ e.minimo)
    (chain : Entradas d (posicionarInicioBloque (volumen 0) (bloqueLogico (volumen 0) d 2 0)) 0
      (tamanioDeBloque (volumen 0)) es) : Legibles (volumen 0) d := by
  intro x valid directory
  obtain rfl : x = 2 := by
    by_contra other
    exact alone x (esInodo_volumen valid) other directory
  refine ⟨fun _ => es, fun k below => ?_, fun k _ => names⟩
  obtain rfl : k = 0 := Nat.lt_one_iff.mp (one ▸ below)
  exact ⟨by decide, sound, chain⟩

/-- The image with a second file, `/b`. -/
def imagenDosArchivos : Disco :=
  (atender (volumen 0) (imagenConArchivo 0) (.crearArchivo [47, 98] 0o644)).get (by decide +kernel)

theorem imagenConArchivo_crea : SoloArchivos (volumen 0) { imagenConArchivo 0 with hechos := [] }
    (.crearArchivo [47, 98] 0o644) := by
  refine ⟨⟨by decide, by decide⟩, fun p led => ?_, fun y next => ?_⟩
  · have parent : getNroInodoDeLaDireccionDelPath (volumen 0)
        { imagenConArchivo 0 with hechos := [] } (separarPathParaNewDirEntry [47, 98]).1 =
        some 2 := by decide +kernel
    rw [parent] at led
    cases led
    decide +kernel
  · have free : buscarInodoLibre (volumen 0) { imagenConArchivo 0 with hechos := [] }
        (List.range (cantidadDeGrupos (volumen 0))) = some 12 := by decide +kernel
    rw [free] at next
    cases next
    decide +kernel

theorem imagenDosArchivos_elimina : SoloArchivos (volumen 0) { imagenDosArchivos with hechos := [] }
    (.eliminarArchivo [47, 97]) := by
  refine ⟨fun p led k desp anterior e found => ?_, fun x found => ?_⟩
  · have parent : getNroInodoDeLaDireccionDelPath (volumen 0)
        { imagenDosArchivos with hechos := [] } (separarPathParaNewDirEntry [47, 97]).1 =
        some 2 := by decide +kernel
    have third : (buscarEntrada (volumen 0) { imagenDosArchivos with hechos := [] } 2
        (·.llamada (separarPathParaNewDirEntry [47, 97]).2)).map (Option.map (·.2.1)) =
        some (some 24) := by decide +kernel
    rw [parent] at led
    cases led
    rw [found] at third
    cases third
    decide
  · have file : getNroInodoDeLaDireccionDelPath (volumen 0)
        { imagenDosArchivos with hechos := [] } [47, 97] = some 11 := by decide +kernel
    rw [file] at found
    cases found
    exact ⟨by decide +kernel, by decide⟩

/-- A file is created and another one removed. -/
theorem cuentas_de_enlaces_corrida : ∃ d, corrida (volumen 0) (imagenConArchivo 0)
    [.crearArchivo [47, 98] 0o644, .eliminarArchivo [47, 97]] = some d ∧ Enlaces (volumen 0) d := by
  have start : Alcanzable (volumen 0) (ConservaEnlaces (volumen 0)) (imagenConArchivo 0) _ := .inicio
  have root : Legibles (volumen 0) (imagenConArchivo 0) := legibles_raiz
    [⟨2, 12, 1, 0, [46]⟩, ⟨2, 12, 2, 0, [46, 46]⟩, ⟨11, 1000, 1, 0, [97]⟩]
    (by decide +kernel) (by decide +kernel) (by decide) (by decide) (by decide +kernel)
  have first := start.sigue (.crearArchivo [47, 98] 0o644)
    ⟨by decide +kernel, by decide +kernel, root, imagenConArchivo_crea⟩ (by decide +kernel)
  have readable : Legibles (volumen 0) imagenDosArchivos := legibles_raiz
    [⟨2, 12, 1, 0, [46]⟩, ⟨2, 12, 2, 0, [46, 46]⟩, ⟨11, 12, 1, 0, [97]⟩, ⟨12, 988, 1, 0, [98]⟩]
    (by decide +kernel) (by decide +kernel) (by decide) (by decide) (by decide +kernel)
  have second := first.sigue (.eliminarArchivo [47, 97])
    ⟨by decide +kernel, by decide +kernel, readable, imagenDosArchivos_elimina⟩ (by decide +kernel)
  refine ⟨_, ?_, cuentas_de_enlaces (imagenConArchivo_consistente (.inl rfl)) (by decide) (by decide)
    imagenConArchivo_enlaces second⟩
  rw [corrida_cons, corrida_cons]
  rfl

/-- The `..` of a new directory is the directory itself, which counts one link too few. -/
theorem directorio_sin_padre : ¬∀ (sb : Superblock) (inicial d : Disco), Consistente sb inicial →
    sb.blocks * tamanioDeBloque sb ≤ 2 ^ 32 → Numerable sb → Enlaces sb inicial →
    Alcanzable sb (fun d l => (responder sb d l).map (·.1) = some 0) inicial d → Enlaces sb d := by
  intro all
  have start : Alcanzable (volumen 0) (fun d l => (responder (volumen 0) d l).map (·.1) = some 0)
      (imagenConArchivo 0) _ := .inicio
  have made := start.sigue (.crearDirectorio [47, 98] 0o755) (by decide +kernel) (by decide +kernel)
  have counted := all _ _ _ (imagenConArchivo_consistente (.inl rfl)) (by decide) (by decide)
    imagenConArchivo_enlaces made
  exact absurd (counted.links 12 ⟨⟨by decide, by decide⟩, by decide +kernel⟩) (by decide +kernel)

end LosAltos.Rfs
