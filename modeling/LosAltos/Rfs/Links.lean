import LosAltos.Lib.Links
import LosAltos.Rfs.Paths

/-!
# The links of directories

A directory as a multiset of links, the inode numbers and names of its entries. What a new
entry, the removal of one and the end of a file do to the links (`funciones_rfs.c:482-651,
884-974, 1155-1234`).
-/
namespace LosAltos.Rfs

open Lib

/-! ### Directories as multisets -/

section
variable (sb : Superblock)

/-- The entries of the block at `inicio`, from `desp` on. -/
def entradasDesde (d : Disco) (inicio : Int) : Nat → Nat → List DirEntry
  | 0, _ => []
  | fuel + 1, desp =>
    if tamanioDeBloque sb ≤ desp then []
    else entradaEn d inicio desp ::
      entradasDesde d inicio fuel (desp + (entradaEn d inicio desp).entryLen)

/-- The entries of block `k` of the directory `x`. -/
def entradasDe (d : Disco) (x k : Nat) : List DirEntry :=
  entradasDesde sb d (posicionarInicioBloque sb (bloqueLogico sb d x k)) (tamanioDeBloque sb) 0

def DirEntry.enlace (e : DirEntry) : Nat × Cadena := (e.inode, cadena e.name)

def enlacesDe (d : Disco) (x : Nat) : Multiset (Nat × Cadena) :=
  ∑ k ∈ Finset.range (bloquesDe sb (d.inodo x).size.toNat),
    ((entradasDe sb d x k).map DirEntry.enlace : Multiset (Nat × Cadena))

instance (d : Disco) (x : Nat) : Decidable (asignado sb d x) :=
  inferInstanceAs (Decidable ((_ ∧ _) ∧ _))

/-- The allocated inodes that are directories. -/
def directorios (d : Disco) : Finset Nat :=
  (Finset.range (sb.inodesPerGroup * cantidadDeGrupos sb + 1)).filter fun x =>
    asignado sb d x ∧ (d.inodo x).tieneModo S_IFDIR

/-- The entries of directories that name the inode `x`. -/
def menciones (d : Disco) (x : Nat) : Nat := referencias (directorios sb d) (enlacesDe sb d) x

end

variable {sb : Superblock} {S T : Nat → List Nat → Prop} {E : Nat → Prop} {d d' d'' : Disco}
  {x y k n : Nat} {ess : Nat → List DirEntry} {nombre : Cadena}

theorem mem_directorios : x ∈ directorios sb d ↔
    asignado sb d x ∧ (d.inodo x).tieneModo S_IFDIR := by
  simp only [directorios, Finset.mem_filter, Finset.mem_range, and_iff_right_iff_imp]
  rintro ⟨⟨⟨positive, group⟩, -⟩, -⟩
  have limit := Nat.lt_mul_div_succ (x - 1) sb.inodesPerGroup_pos
  have inside : sb.inodesPerGroup * ((x - 1) / sb.inodesPerGroup + 1) ≤
      sb.inodesPerGroup * cantidadDeGrupos sb := Nat.mul_le_mul_left _ group
  omega

theorem entradasDesde_entradas {inicio : Int} {fuel desp : Nat} {es : List DirEntry}
    (chain : Entradas d inicio desp (tamanioDeBloque sb) es) (sound : ∀ e ∈ es, e.Sana)
    (enough : tamanioDeBloque sb ≤ desp + fuel) : entradasDesde sb d inicio fuel desp = es := by
  induction es generalizing fuel desp with
  | nil =>
    have stop := Tramo.nil_iff.mp chain
    cases fuel with
    | zero => rfl
    | succ fuel => simp [entradasDesde, stop]
  | cons e es ih =>
    obtain ⟨here, rest⟩ := Tramo.cons_iff.mp chain
    have positive := (sound e (List.mem_cons_self ..)).positive
    have inside := rest.le
    cases fuel with
    | zero => omega
    | succ fuel =>
      rw [entradasDesde, if_neg (by omega), here]
      rw [ih rest (fun u member => sound u (List.mem_cons_of_mem _ member)) (by omega)]

theorem entradasDe_cadenas (chains : Cadenas sb d x n ess) (owned : k < n) :
    entradasDe sb d x k = ess k := by
  obtain ⟨-, sound, chain⟩ := chains k owned
  exact entradasDesde_entradas chain sound (by omega)

theorem enlacesDe_cadenas
    (chains : Cadenas sb d x (bloquesDe sb (d.inodo x).size.toNat) ess) : enlacesDe sb d x =
      ∑ k ∈ Finset.range (bloquesDe sb (d.inodo x).size.toNat),
        ((ess k).map DirEntry.enlace : Multiset (Nat × Cadena)) :=
  Finset.sum_congr rfl fun k inside => by
    rw [entradasDe_cadenas chains (Finset.mem_range.mp inside)]

/-- A directory whose blocks are left alone keeps its links. -/
theorem enlacesDe_eq
    (chains : Cadenas sb d x (bloquesDe sb (d.inodo x).size.toNat) ess)
    (after : Cadenas sb d' x (bloquesDe sb (d.inodo x).size.toNat) ess)
    (size : (d'.inodo x).size = (d.inodo x).size) : enlacesDe sb d' x = enlacesDe sb d x := by
  rw [enlacesDe_cadenas chains]
  rw [← size] at after ⊢
  exact enlacesDe_cadenas after

theorem mem_enlacesDe {link : Nat × Cadena} : link ∈ enlacesDe sb d x ↔
    ∃ k < bloquesDe sb (d.inodo x).size.toNat, ∃ e ∈ entradasDe sb d x k, e.enlace = link := by
  simp only [enlacesDe, Multiset.mem_sum, Finset.mem_range, Multiset.mem_coe, List.mem_map]

/-! ### A new entry -/

/-- A link more in the directory `x`, and none other in any directory. -/
structure MasEnlace (sb : Superblock) (d d' : Disco) (x : Nat) (link : Nat × Cadena) : Prop where
  propio : enlacesDe sb d' x = link ::ₘ enlacesDe sb d x
  otros : ∀ w ∈ directorios sb d, w ≠ x → enlacesDe sb d' w = enlacesDe sb d w

section
variable {desp anterior b : Nat} {e : DirEntry} {d1 d2 d3 : Disco}

theorem enlaces_partida {nueva : DirEntry} {us vs : List DirEntry} {m : Nat} :
    ((us ++ { e with entryLen := m } :: nueva :: vs).map DirEntry.enlace :
      Multiset (Nat × Cadena)) =
    nueva.enlace ::ₘ ((us ++ e :: vs).map DirEntry.enlace : Multiset (Nat × Cadena)) := by
  have same : DirEntry.enlace { e with entryLen := m } = e.enlace := rfl
  have moved : (us.map DirEntry.enlace ++ [e.enlace] ++ nueva.enlace :: vs.map DirEntry.enlace).Perm
      (nueva.enlace :: (us.map DirEntry.enlace ++ [e.enlace] ++ vs.map DirEntry.enlace)) :=
    List.perm_middle
  rw [Multiset.cons_coe, Multiset.coe_eq_coe]
  simpa [same] using moved

/-- In a block with room. -/
theorem masEnlace_conEntrada (geo : Geometria sb) (few : Numerable sb)
    (allocated : asignado sb d x) (directory : (d.inodo x).tieneModo S_IFDIR)
    (obra : Obra sb (deTamanio sb d) E d) (readable : Legibles sb d)
    (run : buscarEntrada sb d x (conLugar nombre) = some (some (k, desp, anterior, e)))
    (bound : k < alcance sb) (asked : getInodoLibre sb d = some (y, d1)) (nonzero : y ≠ 0)
    (edit : Edita sb (deTamanio sb d) E x k d
      (conEntrada d1 (posicionarInicioBloque sb (bloqueLogico sb d x k)) desp e y nombre)) :
    MasEnlace sb d (conEntrada d1 (posicionarInicioBloque sb (bloqueLogico sb d x k)) desp e y nombre)
      x (entradaNueva d1 y e.resto nombre).enlace := by
  have new_ne : ∀ w, asignado sb d w → w ≠ y := fun w inside =>
    inodo_nuevo_ne few inside asked nonzero
  have kept : ∀ w, asignado sb d w → (conEntrada d1 (posicionarInicioBloque sb
      (bloqueLogico sb d x k)) desp e y nombre).inodo w = d.inodo w := fun w inside => by
    rw [conEntrada_inodo _ _ _ _ _ (new_ne w inside), (getInodoLibre_solo asked).2.2]
  constructor
  · obtain ⟨ess, chains, names⟩ := readable x allocated.1 directory
    obtain ⟨owned, us, vs, shape, after⟩ := cadenas_conEntrada geo few allocated.1 obra edit chains
      names run bound asked
    rw [enlacesDe_cadenas chains]
    rw [← kept x allocated] at after owned ⊢
    rw [enlacesDe_cadenas after]
    refine sum_cons_at owned ?_ fun l _ other => by rw [if_neg other]
    rw [if_pos rfl, shape]
    exact enlaces_partida
  · intro w inside other
    obtain ⟨inner, kind⟩ := mem_directorios.mp inside
    obtain ⟨ess, chains, -⟩ := readable w inner.1 kind
    have member : deTamanio sb d x (camino (ptrsPorBloque sb) k) :=
      (deTamanio_vivo allocated.1 _).mpr ⟨k, (buscarEntrada_some run).1, inicia_camino bound⟩
    exact enlacesDe_eq chains (edit.cadenas_otro obra member bound other
      (fun q => (deTamanio_vivo inner.1 q).mpr) chains) (by rw [kept w inner])

/-- In a block of its own. -/
theorem masEnlace_conBloque (nombre : Cadena) (geo : Geometria sb) (few : Numerable sb)
    (allocated : asignado sb d x) (directory : (d.inodo x).tieneModo S_IFDIR)
    (size : n = bloquesDe sb (d.inodo x).size.toNat) (bound : n < alcance sb)
    (fits : (n + 1) * tamanioDeBloque sb < 2 ^ 32) (wider : Ensancha sb E x n b d d2)
    (taken : getInodoLibre sb d2 = some (y, d3)) (nonzero : y ≠ 0) (readable : Legibles sb d) :
    MasEnlace sb d (conBloque sb d3 x n y nombre) x
      (entradaNueva d3 y (tamanioDeBloque sb) nombre).enlace := by
  constructor
  · obtain ⟨ess, chains, -⟩ := readable x allocated.1 directory
    rw [enlacesDe_cadenas chains]
    rw [← size] at chains ⊢
    have after := wider.cadenas nombre geo few allocated.1 size bound taken chains
    have blocks := conBloque_bloques few allocated size fits wider taken nonzero nombre
    rw [← blocks] at after
    rw [enlacesDe_cadenas after, blocks, Finset.sum_range_succ, if_pos rfl, List.map_singleton,
      Multiset.coe_singleton, Multiset.add_comm, Multiset.singleton_add]
    congr 1
    refine Finset.sum_congr rfl fun l inside => ?_
    rw [if_neg (Nat.ne_of_lt (Finset.mem_range.mp inside))]
  · intro w inside other
    obtain ⟨inner, kind⟩ := mem_directorios.mp inside
    obtain ⟨ess, chains, -⟩ := readable w inner.1 kind
    have same := conBloque_inodo_otro few wider taken nonzero nombre inner other
    exact enlacesDe_eq chains
      (wider.cadenas_otro nombre geo few bound taken inner.1 other chains) (by rw [same])

end

/-- A successful `agregarEntradaDirectorio` in the directory `x`, for the inode `y`. -/
structure Nueva (sb : Superblock) (d d' : Disco) (x y : Nat) (nombre : Cadena) : Prop where
  agrega : Agrega sb d d' y
  mas : MasEnlace sb d d' x (y, cadena (nombre.take (nombre.length % 256)))
  siguiente : buscarInodoLibre sb d (List.range (cantidadDeGrupos sb)) = some y
  valido : esInodo sb y
  libre : ¬asignado sb d y
  asignado : ∀ z, Rfs.asignado sb d' z ↔ Rfs.asignado sb d z ∨ z = y
  links : ∀ z, (d'.inodo z).links = (d.inodo z).links
  dirs : ∀ g, (d'.grupo g).usedDirsCount = (d.grupo g).usedDirsCount

theorem agregarEntradaDirectorio_nueva (geo : Geometria sb) (few : Numerable sb)
    (owner : Duenio sb d) (readable : Legibles sb d) (parent : x ∈ directorios sb d)
    (run : agregarEntradaDirectorio sb d x nombre = some (0, d')) (meets : Cumple sb d') :
    ∃ y, Nueva sb d d' x y nombre := by
  obtain ⟨E, obra⟩ := owner
  obtain ⟨allocated, directory⟩ := mem_directorios.mp parent
  rcases agregarEntradaDirectorio_some run with
    ⟨k, desp, anterior, e, y, d1, search, bound, asked, nonzero, rfl⟩ |
    ⟨b, y, d1, d2, d3, search, asked, some_block, stores, bound, taken, nonzero, rfl⟩
  · have earlier : Cumple sb (grabarEntrada d1 (posicionarInicioBloque sb (bloqueLogico sb d x k))
        (desp + e.minimo) (entradaNueva d1 y e.resto nombre)) := meets.antes (grabarEntrada_deriva ..)
    have edit := Edita.dosEntradas geo obra (deTamanio_vivo allocated.1) bound
      (buscarEntrada_some search).1 rfl asked (earlier _ (List.mem_cons_self ..))
      (meets _ (List.mem_cons_self ..))
    obtain ⟨next, dirs⟩ := getInodoLibre_siguiente asked nonzero
    obtain ⟨-, -, inodes⟩ := getInodoLibre_solo asked
    rcases getInodoLibre_asigna few asked with ⟨zero, -⟩ | ⟨-, valid, free, bits⟩
    · exact absurd zero nonzero
    refine ⟨y, ?_, ?_, next, valid, free, fun z => ?_, fun z => ?_, fun g => ?_⟩
    · exact agrega_conEntrada geo few allocated.1 obra readable search bound asked nonzero edit
    · exact masEnlace_conEntrada geo few allocated directory obra readable search bound asked nonzero
        edit
    · rw [← bits, asignado, conEntrada_bitmapInodos, ← asignado]
    · by_cases new : z = y
      · rw [new, conEntrada_inodo_self, inodes]
      · rw [conEntrada_inodo _ _ _ _ _ new, inodes]
    · rw [conEntrada_grupo, dirs]
  · have logged : Hecho.ensancha (bloquesDe sb (d.inodo x).size.toNat) ∈
        (conBloque sb d3 x (bloquesDe sb (d.inodo x).size.toNat) y nombre).hechos := by
      have mapped := (agregarAInodo_deriva stores).mem_hechos (List.mem_cons_self ..)
      exact List.mem_cons_of_mem _
        (List.mem_cons_of_mem _ ((getInodoLibre_deriva taken).mem_hechos mapped))
    have inner : Permitido sb (.ensancha _) := meets _ logged
    have wider := ensancha geo allocated.1 obra rfl bound inner asked some_block stores
    obtain ⟨ess, chains, -⟩ := readable x allocated.1 directory
    obtain ⟨small, -, waiting⟩ := Paso.pedir (x := x) geo obra asked some_block
    have fits := bloques_con_uno (x := x) geo waiting.obra some_block small fun k below =>
      ⟨(chains k below).1, (deTamanio_vivo allocated.1 _).mpr
        ⟨k, below, inicia_camino (chains k below).1⟩⟩
    obtain ⟨next, dirs⟩ := getInodoLibre_siguiente taken nonzero
    obtain ⟨-, -, inodes⟩ := getInodoLibre_solo taken
    have marco := wider.paso.marco
    have different := conBloque_ne few wider taken nonzero allocated
    have same : ∀ z, asignado sb d2 z ↔ asignado sb d z := fun z => by
      rw [asignado, asignado, marco.bitmapInodos]
    rcases getInodoLibre_asigna few taken with ⟨zero, -⟩ | ⟨-, valid, free, bits⟩
    · exact absurd zero nonzero
    refine ⟨y, ?_, ?_, ?_, valid, mt (same y).mpr free, fun z => ?_, fun z => ?_, fun g => ?_⟩
    · exact agrega_conBloque geo few allocated rfl bound fits wider taken nonzero nombre readable
    · exact masEnlace_conBloque nombre geo few allocated directory rfl bound fits wider taken nonzero
        readable
    · rwa [buscarInodoLibre_congr marco.bitmapInodos] at next
    · rw [← same, ← bits, asignado, conBloque_bitmapInodos, ← asignado]
    · by_cases own : z = x
      · rw [own, conBloque_inodo_padre _ _ _ _ different, inodes]
        exact marco.links
      rw [← marco.otros z own, ← inodes]
      by_cases new : z = y
      · rw [new, conBloque_inodo_nuevo _ _ _ _ different]
      · rw [conBloque_inodo _ _ _ _ own new]
    · rw [conBloque_grupo, dirs, marco.usedDirsCount]

/-! ### The end of a file -/

/-- What is done to the inode `x` leaves the blocks of the others alone. -/
theorem Paso.conserva {F : Nat → Prop} (step : Paso sb x S T F d d') (obra : Obra sb S E d) :
    Conserva sb (fun y l => y ≠ x ∧ S y (camino (ptrsPorBloque sb) l) ∧
      T y (camino (ptrsPorBloque sb) l)) d d' := by
  refine ⟨fun y l ⟨_, before, after⟩ => step.valor y _ before after, ?_⟩
  rintro y l ⟨other, before, after⟩ j below
  refine step.marco.bytes _ (obra.libro.rango y _ before) ?_ j below
  rintro (⟨q, held, equal⟩ | ⟨q, held, equal⟩)
  · exact other (obra.libro.inyectivo x q y _ held before equal).1.symm
  · rw [← step.valor y _ before after] at equal
    exact other (step.obra.libro.inyectivo x q y _ held after equal).1.symm

/-- The blocks of inodes other than `x`. -/
def deOtros (sb : Superblock) (d : Disco) (x : Nat) : Nat → Nat → Prop :=
  fun y l => y ≠ x ∧ deTamanio sb d y (camino (ptrsPorBloque sb) l)

theorem truncarInodo_conserva (geo : Geometria sb) (valid : esInodo sb x) (owner : Duenio sb d)
    {offset code : Nat} (limit : offset < 2 ^ 32)
    (run : truncarInodo sb d x offset = some (code, d')) (meets : Cumple sb d') :
    Conserva sb (deOtros sb d x) d d' := by
  obtain ⟨E, obra⟩ := owner
  have start : Obra sb (conBloques sb (deTamanio sb d) x (bloquesDe sb (d.inodo x).size.toNat))
      E d := ⟨obra.libro.of_iff (conBloques_deTamanio valid), obra.tablas⟩
  rcases Paso.truncarInodo geo limit start run meets.stored meets.freed meets.grown with
    ⟨-, rfl⟩ | ⟨-, d1, rfl, step⟩
  · exact .inodos rfl fun _ _ => rfl
  · refine .trans ((step.conserva start).mono ?_) (.inodos rfl (ponInodo_blocks fun _ => rfl))
    rintro y l ⟨other, held⟩
    exact ⟨other, .inl ⟨other, held⟩, .inl ⟨other, held⟩⟩

theorem liberarInodo_conserva (geo : Geometria sb) (owner : Duenio sb d)
    (run : liberarInodo sb d x = some d') (meets : Cumple sb d') :
    Conserva sb (deOtros sb d x) d d' := by
  simp only [liberarInodo, Option.bind_eq_bind, Option.bind_eq_some_iff] at run
  obtain ⟨node, found, y, present, run⟩ := run
  obtain ⟨rfl, valid⟩ := getInodo_some found present
  split at run
  · simp only [Option.bind_eq_some_iff, Option.some.injEq] at run
    obtain ⟨d1, freed, grupo, -, rfl⟩ := run
    obtain ⟨E, obra⟩ := owner
    have start : Obra sb (sinDatos sb (deTamanio sb d) y 0) E d := by
      refine ⟨obra.libro.of_iff fun z q => ⟨And.left, fun old => ⟨old, ?_⟩⟩, obra.tablas⟩
      rintro ⟨-, k, below, -⟩
      omega
    rw [List.range_eq_range'] at freed
    have step := Paso.liberarBloques geo _ start (deTamanio_vivo valid) (by omega) freed meets.freed
    refine .trans ((step.conserva start).mono ?_) (.inodos rfl (ponInodo_blocks fun _ => rfl))
    rintro z l ⟨other, held⟩
    exact ⟨other, ⟨held, fun gone => other gone.1⟩, ⟨held, fun gone => other gone.1⟩⟩
  · cases run

theorem directorios_congr (inodes : d'.inodo = d.inodo) (bits : d'.bitmapInodos = d.bitmapInodos) :
    directorios sb d' = directorios sb d := by
  ext w
  rw [mem_directorios, mem_directorios, asignado, asignado, inodes, bits]

theorem enlaces_unida {e w : DirEntry} {us vs : List DirEntry} {m : Nat} :
    ((us ++ [w] ++ e :: vs).map DirEntry.enlace : Multiset (Nat × Cadena)) =
    e.enlace ::ₘ ((us ++ { w with entryLen := m } :: vs).map DirEntry.enlace :
      Multiset (Nat × Cadena)) := by
  have same : DirEntry.enlace { w with entryLen := m } = w.enlace := rfl
  have moved : (us.map DirEntry.enlace ++ [w.enlace] ++ e.enlace :: vs.map DirEntry.enlace).Perm
      (e.enlace :: (us.map DirEntry.enlace ++ [w.enlace] ++ vs.map DirEntry.enlace)) :=
    List.perm_middle
  rw [Multiset.cons_coe, Multiset.coe_eq_coe]
  simpa [same] using moved

/-- An entry that is not the first of its block goes, and its link with it. -/
theorem menosEnlace (geo : Geometria sb) (valid : esInodo sb x)
    (directory : (d.inodo x).tieneModo S_IFDIR) (owner : Duenio sb d) (readable : Legibles sb d)
    {desp anterior : Nat} {e : DirEntry}
    (search : buscarEntrada sb d x (·.llamada nombre) = some (some (k, desp, anterior, e)))
    (inner : desp ≠ 0) (run : eliminarEntradaDirectorio sb d x nombre = some d')
    (meets : Cumple sb d') : MasEnlace sb d' d x e.enlace := by
  obtain ⟨E, obra⟩ := owner
  obtain ⟨k', desp', anterior', e', again, bound, outcome⟩ := eliminarEntradaDirectorio_some run
  rw [search] at again
  cases again
  obtain ⟨ess, chains, -⟩ := readable x valid directory
  obtain ⟨owned, -, us, vs, shape, found, last⟩ := hallada_of_buscar geo chains search
  have vivos := deTamanio_vivo (d := d) valid
  have member : deTamanio sb d x (camino (ptrsPorBloque sb) k) :=
    (vivos _).mpr ⟨k, owned, inicia_camino bound⟩
  rcases outcome with ⟨-, freed⟩ | ⟨-, previa, same, rfl⟩
  · exact (meets _ ((liberarBloque_deriva freed).mem_hechos (List.mem_cons_self ..))).elim
  rcases last with ⟨rfl, rfl⟩ | ⟨ws, w, rfl, rfl⟩
  · exact absurd (Tramo.nil_iff.mp found.antes).symm inner
  obtain ⟨here, after, -, sound, chain⟩ := entradas_unida geo found
  have inside := found.inside
  rw [here] at same
  subst same
  have edit := Edita.alarga geo obra vivos bound owned (previa.entryLen + e.entryLen) here
    (found.sanas previa (by simp)) (by omega)
  constructor
  · have joined := edit.cadenas obra member bound (fun q => (vivos q).mpr) chains sound chain
    rw [enlacesDe_cadenas chains, enlacesDe_cadenas (d := grabarEntrada d _ _ _) joined]
    refine sum_cons_at owned ?_ fun l _ other => by rw [if_neg other]
    rw [if_pos rfl, shape]
    exact enlaces_unida
  · intro v directory' other
    rw [directorios_congr rfl rfl] at directory'
    obtain ⟨inner', kind⟩ := mem_directorios.mp directory'
    obtain ⟨ess', chains', -⟩ := readable v inner'.1 kind
    exact (enlacesDe_eq chains' (edit.cadenas_otro obra member bound other
      (fun q => (deTamanio_vivo inner'.1 q).mpr) chains') rfl).symm

theorem eliminarArchivo_some {path : Cadena} {code : Nat}
    (run : eliminarArchivo sb d path = some (code, d')) :
    code ≠ 0 ∧ d' = d ∨ code = 0 ∧ ∃ p x error d1 d2,
      getNroInodoDeLaDireccionDelPath sb d (separarPathParaNewDirEntry path).1 = some p ∧
      esInodo sb p ∧ getNroInodoDeLaDireccionDelPath sb d path = some x ∧ esInodo sb x ∧
      truncarInodo sb d x 0 = some (error, d1) ∧ liberarInodo sb d1 x = some d2 ∧
      eliminarEntradaDirectorio sb d2 p (separarPathParaNewDirEntry path).2 = some d' := by
  simp only [eliminarArchivo, Option.bind_eq_bind, Option.bind_eq_some_iff] at run
  obtain ⟨p, parent, node, here, run⟩ := run
  split at run
  · rename_i nonzero
    simp only [Option.bind_eq_some_iff] at run
    obtain ⟨x, found, run⟩ := run
    split at run
    · rename_i there
      simp only [Option.bind_eq_some_iff] at run
      obtain ⟨⟨error, d1⟩, cut, d2, gone, y, present, d3, dropped, run⟩ := run
      cases run
      obtain ⟨rfl, valid⟩ := getInodo_some here present
      simp only [truncarArchivo, parent, found, Option.bind_eq_bind, Option.bind_some,
        if_pos nonzero, if_pos there, Option.bind_eq_some_iff] at cut
      obtain ⟨node', here', z, present', cut⟩ := cut
      obtain ⟨rfl, inside⟩ := getInodo_some here' present'
      exact .inr ⟨rfl, y, z, error, d1, d2, parent, valid, found, inside, cut, gone, dropped⟩
    · cases run
      exact .inl ⟨by decide, rfl⟩
  · cases run
    exact .inl ⟨by decide, rfl⟩

/-- The inode `x` has been cut to nothing and released. -/
structure Soltado (sb : Superblock) (d d' : Disco) (x : Nat) : Prop where
  duenio : Duenio sb d'
  conserva : Conserva sb (deOtros sb d x) d d'
  otros : ∀ z, z ≠ x → (d'.inodo z).mode = (d.inodo z).mode ∧
    (d'.inodo z).size = (d.inodo z).size ∧ (d'.inodo z).links = (d.inodo z).links
  propio : (d'.inodo x).mode = 0 ∧ (d'.inodo x).size = 0
  libre : resta32 x sb.firstDataBlock / sb.inodesPerGroup = (x - 1) / sb.inodesPerGroup →
    ∀ z, asignado sb d' z ↔ asignado sb d z ∧ z ≠ x
  dirs : ∀ g, (d'.grupo g).usedDirsCount = (d.grupo g).usedDirsCount

theorem soltado {d1 d2 : Disco} {error : Nat} (geo : Geometria sb) (few : Numerable sb)
    (valid : esInodo sb x) (owner : Duenio sb d) (cut : truncarInodo sb d x 0 = some (error, d1))
    (gone : liberarInodo sb d1 x = some d2) (meets : Cumple sb d2) : Soltado sb d d2 x := by
  have meets1 := meets.antes (liberarInodo_deriva gone)
  have owner1 := duenio_truncarInodo geo valid owner (by decide) cut meets1
  have released := liberarInodo_some few gone
  obtain ⟨bits, dirs, inodes⟩ : d1.bitmapInodos = d.bitmapInodos ∧
      (∀ g, (d1.grupo g).usedDirsCount = (d.grupo g).usedDirsCount) ∧
      ∀ z, z ≠ x → d1.inodo z = d.inodo z := by
    rcases truncarInodo_marco geo valid owner (by decide) cut meets1 with
      ⟨-, rfl⟩ | ⟨-, bits, dirs, inodes, -⟩
    · exact ⟨rfl, fun _ => rfl, fun _ _ => rfl⟩
    · exact ⟨bits, dirs, inodes⟩
  refine ⟨duenio_liberarInodo geo owner1 gone meets, ?_, fun z other => ?_,
    ⟨released.propio.1, released.propio.2.1⟩, fun group z => ?_, fun g => ?_⟩
  · refine (truncarInodo_conserva geo valid owner (by decide) cut meets1).trans
      ((liberarInodo_conserva geo owner1 gone meets).mono ?_)
    rintro y l ⟨other, inside, live⟩
    rw [← inodes y other] at live
    exact ⟨other, inside, live⟩
  · rw [← inodes z other]
    exact released.otros z other
  · rw [released.libre group, asignado, bits, ← asignado]
  · rw [released.dirs, dirs]

/-- The directories are as they were. -/
theorem Soltado.cadenas (gone : Soltado sb d d' x) {w : Nat} (valid : esInodo sb w) (other : w ≠ x)
    (chains : Cadenas sb d w (bloquesDe sb (d.inodo w).size.toNat) ess) :
    Cadenas sb d' w (bloquesDe sb (d.inodo w).size.toNat) ess := by
  intro l inside
  obtain ⟨limit, sound, chain⟩ := chains l inside
  refine ⟨limit, sound, gone.conserva.entradas ⟨other, ?_⟩ sound chain⟩
  exact (deTamanio_vivo valid _).mpr ⟨l, inside, inicia_camino limit⟩

theorem sin_modo {node : INode} (mode : node.mode = 0) : ¬node.tieneModo S_IFDIR := by
  simp [INode.tieneModo, mode, S_IFDIR]

theorem Soltado.directorio (gone : Soltado sb d d' x) {w : Nat}
    (directory : (d'.inodo w).tieneModo S_IFDIR) : w ≠ x ∧ (d.inodo w).tieneModo S_IFDIR := by
  have other : w ≠ x := by
    rintro rfl
    exact sin_modo gone.propio.1 directory
  refine ⟨other, ?_⟩
  rwa [INode.tieneModo, (gone.otros w other).1] at directory

theorem Soltado.legibles (gone : Soltado sb d d' x) (readable : Legibles sb d) :
    Legibles sb d' := by
  intro w valid directory
  obtain ⟨other, before⟩ := gone.directorio directory
  obtain ⟨ess, chains, names⟩ := readable w valid before
  have size := (gone.otros w other).2.1
  exact ⟨ess, size ▸ gone.cadenas valid other chains, size ▸ names⟩

/-- The file `x` is gone, and with it a link of the directory `p`. -/
structure Baja (sb : Superblock) (d d' : Disco) (p x : Nat) (link : Nat × Cadena) : Prop where
  asignado : ∀ z, asignado sb d' z ↔ asignado sb d z ∧ z ≠ x
  otros : ∀ z, z ≠ x → (d'.inodo z).mode = (d.inodo z).mode ∧ (d'.inodo z).links = (d.inodo z).links
  propio : (d'.inodo x).mode = 0
  dirs : ∀ g, (d'.grupo g).usedDirsCount = (d.grupo g).usedDirsCount
  menos : MasEnlace sb d' d p link
  enlace : link.1 = 0 ∨ link.1 = x

theorem eliminarEntradaDirectorio_marco (meets : Cumple sb d')
    (run : eliminarEntradaDirectorio sb d x nombre = some d') :
    d'.inodo = d.inodo ∧ d'.bitmapInodos = d.bitmapInodos ∧ d'.grupo = d.grupo := by
  obtain ⟨k, desp, anterior, e, -, -, ⟨-, freed⟩ | ⟨-, previa, -, rfl⟩⟩ :=
    eliminarEntradaDirectorio_some run
  · exact (meets _ ((liberarBloque_deriva freed).mem_hechos (List.mem_cons_self ..))).elim
  · exact ⟨rfl, rfl, rfl⟩

/-- An entry cannot be removed from what is empty. -/
theorem eliminarEntradaDirectorio_vacio (empty : (d.inodo x).size = 0)
    (run : eliminarEntradaDirectorio sb d x nombre = some d') : False := by
  obtain ⟨k, desp, anterior, e, search, -⟩ := eliminarEntradaDirectorio_some run
  have owned := (buscarEntrada_some search).1
  rw [empty, show (0 : UInt32).toNat = 0 from rfl, bloquesDe_zero] at owned
  omega

/-- Removing a file takes one link off its directory, if the entry is not the first of its block. -/
theorem baja_eliminarArchivo {path : Cadena} (geo : Geometria sb) (few : Numerable sb)
    (owner : Duenio sb d) (readable : Legibles sb d)
    (run : eliminarArchivo sb d path = some (0, d')) (meets : Cumple sb d')
    (group : ∀ x, getNroInodoDeLaDireccionDelPath sb d path = some x →
      resta32 x sb.firstDataBlock / sb.inodesPerGroup = (x - 1) / sb.inodesPerGroup)
    (file : ∀ x, getNroInodoDeLaDireccionDelPath sb d path = some x →
      ¬(d.inodo x).tieneModo S_IFDIR)
    (inner : ∀ p, getNroInodoDeLaDireccionDelPath sb d (separarPathParaNewDirEntry path).1 = some p →
      ∀ k desp anterior e, buscarEntrada sb d p (·.llamada (separarPathParaNewDirEntry path).2) =
        some (some (k, desp, anterior, e)) → desp ≠ 0) :
    ∃ p x link, Baja sb d d' p x link ∧ ¬(d.inodo x).tieneModo S_IFDIR := by
  rcases eliminarArchivo_some run with ⟨failed, -⟩ | ⟨-, p, x, error, d1, d2, parent, validP, found,
    valid, cut, gone, dropped⟩
  · exact absurd rfl failed
  have meets2 := meets.antes (eliminarEntradaDirectorio_deriva dropped)
  have released := soltado geo few valid owner cut gone meets2
  have nonzero : p ≠ 0 := by
    have := validP.1
    omega
  have there : x ≠ 0 := by
    have := valid.1
    omega
  rcases buscar_presente nonzero parent found there with rfl | ⟨directory, answer⟩
  · exact (eliminarEntradaDirectorio_vacio released.propio.2 dropped).elim
  have other : p ≠ x := by
    rintro rfl
    exact file p found directory
  obtain ⟨ess, chains, -⟩ := readable p validP directory
  obtain ⟨k, desp, anterior, e, search, -⟩ := eliminarEntradaDirectorio_some dropped
  have before := search
  rw [buscarEntrada_congr geo (released.otros p other).2.1 chains
    (released.cadenas validP other chains)] at before
  have directory2 : (d2.inodo p).tieneModo S_IFDIR := by
    rwa [INode.tieneModo, (released.otros p other).1]
  have less := menosEnlace geo validP directory2 released.duenio (released.legibles readable) search
    (inner p parent k desp anterior e before) dropped meets
  obtain ⟨inodes, bits, groups⟩ := eliminarEntradaDirectorio_marco meets dropped
  -- the directories keep their links until the entry goes
  have kept : ∀ w, esInodo sb w → (d2.inodo w).tieneModo S_IFDIR →
      enlacesDe sb d2 w = enlacesDe sb d w := by
    intro w inside kind
    obtain ⟨different, kind'⟩ := released.directorio kind
    obtain ⟨ess', chains', -⟩ := readable w inside kind'
    exact enlacesDe_eq chains' (released.cadenas inside different chains')
      (released.otros w different).2.1
  refine ⟨p, x, e.enlace, ⟨fun z => ?_, fun z different => ?_, ?_, fun g => ?_, ⟨?_, ?_⟩,
    inodo_hallada geo chains there before answer⟩, file x found⟩
  · rw [← released.libre (group x found), asignado, bits, ← asignado]
  · rw [inodes]
    exact ⟨(released.otros z different).1, (released.otros z different).2.2⟩
  · rw [inodes]
    exact released.propio.1
  · rw [groups, released.dirs]
  · rw [← kept p validP directory2]
    exact less.propio
  · intro w inside different
    obtain ⟨inner', kind⟩ := mem_directorios.mp inside
    rw [← less.otros w inside different, kept w inner'.1 (inodes ▸ kind)]

end LosAltos.Rfs
