import LosAltos.Rfs.BlockAccounts
import LosAltos.Rfs.BlockCache

/-!
# The files as the clients see them

`serve_read`, `serve_write` and `serve_getattr` (`main_rfs.c:234-373, 526-546`) in any order, on a
consistent image, for requests that take no new block. Against them stands a view of the
volume with no blocks at all: where each path leads, the inodes, and the bytes of each file.
The server answers what the view answers, with the block cache on or off.
-/
namespace LosAltos.Rfs

open Lib Nipc

/-- A volume without its blocks. -/
structure Vista where
  ruta : Cadena → Option Nat
  inodo : Nat → INode
  bytes : Nat → Nat → UInt8

namespace Vista

/-- The bytes of the file `x` from `offset` on are `data`. -/
def escribir (v : Vista) (x offset : Nat) (data : List UInt8) : Vista :=
  { v with
    bytes := fun y i =>
      if y = x ∧ offset ≤ i ∧ i < offset + data.length then data.getD (i - offset) 0
      else v.bytes y i }

/-- The bytes asked for that the file has. -/
def leer (v : Vista) (x offset size : Nat) : List UInt8 :=
  (List.range (min (offset + size) (v.inodo x).size.toNat - offset)).map fun i =>
    v.bytes x (offset + i)

def atributos (v : Vista) (x : Nat) : Respuesta :=
  if x = 0 then .error (-ENOENT)
  else .getattrResponse (v.inodo x).mode (v.inodo x).links (v.inodo x).size (v.inodo x).nrBlocks

/-- What the requests mean to a client. -/
def atender (v : Vista) : Pedido → Option (Vista × List Respuesta)
  | .nipcRead _ p size offset => do
    let x ← v.ruta p.bytes
    some (v, [.readResponse (v.leer x offset.toNat size.toNat)])
  | .nipcWrite _ p data _ offset _ => do
    let x ← v.ruta p.bytes
    some (v.escribir x offset.toNat data, [.ok])
  | .nipcGetattr _ p => do
    let x ← v.ruta p.bytes
    some (v, [v.atributos x])
  | _ => none

def correr (v : Vista) : List Pedido → Option (Vista × List (List Respuesta))
  | [] => some (v, [])
  | p :: ps => do
    let (v, respuestas) ← v.atender p
    let (v, resto) ← correr v ps
    some (v, respuestas :: resto)

end Vista

section
variable (sb : Superblock)

def correr (cacheActive : Bool) (s : Servidor) :
    List Pedido → Option (Servidor × List (List Respuesta))
  | [] => some (s, [])
  | p :: ps => do
    let (s, respuestas) ← serveRequest sb cacheActive s p
    let (s, resto) ← correr cacheActive s ps
    some (s, respuestas :: resto)

def vistaDe (d : Disco) : Vista where
  ruta := getNroInodoDeLaDireccionDelPath sb d
  inodo := d.inodo
  bytes := byteDe sb d

/-- The request takes no new block and changes no directory, and a read is one that
`serve_read` cuts right. -/
def EnSuLugar (v : Vista) : Pedido → Prop
  | .nipcRead _ p size offset => ∃ x ∈ v.ruta p.bytes, esInodo sb x ∧
      LeeBien (tamanioDeBloque sb) (v.inodo x).size.toNat offset.toNat size.toNat
  | .nipcWrite _ p _ size offset _ => ∃ x ∈ v.ruta p.bytes, esInodo sb x ∧
      (v.inodo x).tieneModo S_IFDIR = false ∧ 0 < size.toNat ∧
      offset.toNat + size.toNat < 2 ^ 32 ∧
      (offset.toNat + size.toNat - 1) / tamanioDeBloque sb <
        min (bloquesDe sb (v.inodo x).size.toNat) (cantidadDeBloques sb (v.inodo x))
  | .nipcGetattr _ p => ∃ x ∈ v.ruta p.bytes, x = 0 ∨ esInodo sb x
  | _ => False

/-- Only bytes in the data blocks of files have changed. -/
structure Sigue (d d' : Disco) : Prop where
  tablas : d' = { d with mem := d'.mem }
  valores : ∀ y q, deTamanio sb d y q → (punteros sb d').valor y q = (punteros sb d).valor y q
  directorios : ∀ y, (d.inodo y).tieneModo S_IFDIR → ∀ l, l < alcance sb →
    deTamanio sb d y (camino (ptrsPorBloque sb) l) → ∀ j < tamanioDeBloque sb,
      d'.mem (posicionarInicioBloque sb (bloqueLogico sb d y l) + (j : Nat)) =
        d.mem (posicionarInicioBloque sb (bloqueLogico sb d y l) + (j : Nat))

/-- The disk has the bytes of the view. -/
structure Representa (d : Disco) (v : Vista) : Prop where
  ruta : v.ruta = getNroInodoDeLaDireccionDelPath sb d
  inodo : v.inodo = d.inodo
  bytes : ∀ x, esInodo sb x → ∀ i, i / tamanioDeBloque sb < bloquesDe sb (d.inodo x).size.toNat →
    byteDe sb d x i = v.bytes x i

end

variable {sb : Superblock} {d d' d'' : Disco} {x y k n offset : Nat} {data : List UInt8}
  {cacheActive : Bool} {s s' : Servidor} {v v' : Vista}

/-! ### Blocks of a consistent image -/

namespace Consistente

theorem marcado (consistent : Consistente sb d) {q : List Nat} (member : deTamanio sb d x q) :
    (punteros sb d).valor x q ≠ 0 ∧ (punteros sb d).valor x q < sb.blocks := by
  have held := consistent.alcanza_of_deTamanio member
  exact ⟨(consistent.propios.marcado x q held).1, consistent.rango x q held⟩

end Consistente

theorem deTamanio_camino (valid : esInodo sb x) (reach : k < alcance sb)
    (below : k < bloquesDe sb (d.inodo x).size.toNat) :
    deTamanio sb d x (camino (ptrsPorBloque sb) k) :=
  ⟨valid, k, below, inicia_camino reach⟩

namespace Sigue

theorem refl (d : Disco) : Sigue sb d d := ⟨rfl, fun _ _ _ => rfl, fun _ _ _ _ _ _ _ => rfl⟩

theorem inodo (kept : Sigue sb d d') : d'.inodo = d.inodo := by rw [kept.tablas]

theorem lugar (kept : Sigue sb d d') (valid : esInodo sb x) (reach : k < alcance sb)
    (below : k < bloquesDe sb (d.inodo x).size.toNat) :
    bloqueLogico sb d' x k = bloqueLogico sb d x k :=
  kept.valores x _ (deTamanio_camino valid reach below)

theorem distintos (kept : Sigue sb d d') (consistent : Consistente sb d) {q r : List Nat}
    (left : deTamanio sb d x q) (right : deTamanio sb d y r)
    (same : (punteros sb d').valor x q = (punteros sb d').valor y r) : x = y ∧ q = r := by
  rw [kept.valores x q left, kept.valores y r right] at same
  exact consistent.propios.unico x q y r (consistent.alcanza_of_deTamanio left)
    (consistent.alcanza_of_deTamanio right) same

theorem mapeada (kept : Sigue sb d d') (consistent : Consistente sb d) {q : List Nat}
    (member : deTamanio sb d x q) : Mapeada sb d' x q := by
  induction q with
  | nil => trivial
  | cons i p ih =>
    have value : (punteros sb d').valor x (i :: p) ≠ 0 := by
      rw [kept.valores x _ member]
      exact (consistent.marcado member).1
    cases p with
    | nil => exact ⟨trivial, value⟩
    | cons j p => exact ⟨ih ⟨member.1, member.2.parent⟩, value⟩

theorem bloquesDistintos (kept : Sigue sb d d') (consistent : Consistente sb d)
    (valid : esInodo sb x) :
    BloquesDistintos sb d' x (bloquesDe sb (d.inodo x).size.toNat) := by
  constructor
  · intro q alive _
    rw [kept.valores x q ⟨valid, alive⟩]
    exact (consistent.marcado ⟨valid, alive⟩).2
  · intro q r left right _ _ same
    exact (kept.distintos consistent ⟨valid, left⟩ ⟨valid, right⟩ same).2

end Sigue

/-! ### Paths lead where they led -/

namespace Sigue

/-- The blocks of the directories. -/
theorem conserva (kept : Sigue sb d d') :
    Conserva sb (fun y l => (d.inodo y).tieneModo S_IFDIR ∧ l < alcance sb ∧
      deTamanio sb d y (camino (ptrsPorBloque sb) l)) d d' :=
  ⟨fun y _ inside => kept.valores y _ inside.2.2,
    fun y l inside => kept.directorios y inside.1 l inside.2.1 inside.2.2⟩

theorem buscarNro (kept : Sigue sb d d') (geo : Geometria sb) (readable : Legibles sb d)
    (valid : esInodo sb x) (directory : (d.inodo x).tieneModo S_IFDIR) (nombre : Cadena) :
    buscarNroInodoEnEntradasDirectorio sb d' x nombre =
      buscarNroInodoEnEntradasDirectorio sb d x nombre := by
  obtain ⟨ess, chains, -⟩ := readable x valid directory
  have after : Cadenas sb d' x (bloquesDe sb (d'.inodo x).size.toNat) ess := by
    rw [kept.inodo]
    intro l owned
    obtain ⟨reach, sound, chain⟩ := chains l owned
    exact ⟨reach, sound, kept.conserva.entradas
      ⟨directory, reach, deTamanio_camino valid reach owned⟩ sound chain⟩
  rw [buscarNro_cadenas geo chains, buscarNro_cadenas geo after, kept.inodo]

theorem recorrerRuta (kept : Sigue sb d d') (geo : Geometria sb) (readable : Legibles sb d)
    (valid : esInodo sb x) (ruta : List Cadena) :
    Rfs.recorrerRuta sb d' x ruta = Rfs.recorrerRuta sb d x ruta := by
  induction ruta generalizing x with
  | nil => rfl
  | cons nombre resto ih =>
    unfold Rfs.recorrerRuta
    rw [kept.inodo]
    by_cases directory : (d.inodo x).tieneModo S_IFDIR
    · rw [if_pos directory, if_pos directory, kept.buscarNro geo readable valid directory]
      apply Option.bind_congr
      intro y _
      by_cases nothing : y = 0
      · rw [if_pos nothing, if_pos nothing]
      · rw [if_neg nothing, if_neg nothing]
        apply Option.bind_congr
        intro node found
        apply Option.bind_congr
        intro z present
        exact ih (getInodo_some found present).2
    · rw [if_neg directory, if_neg directory]

theorem ruta (kept : Sigue sb d d') (geo : Geometria sb) (readable : Legibles sb d)
    (path : Cadena) : getNroInodoDeLaDireccionDelPath sb d' path =
      getNroInodoDeLaDireccionDelPath sb d path := by
  unfold getNroInodoDeLaDireccionDelPath
  apply Option.bind_congr
  intro node found
  apply Option.bind_congr
  intro raiz present
  exact kept.recorrerRuta geo readable (getInodo_some found present).2 _

end Sigue

/-! ### One write -/

theorem palabra_de_bytes (geo : Geometria sb) {b i : Nat} (bound : b < sb.blocks)
    (width : i < ptrsPorBloque sb)
    (same : ∀ j < tamanioDeBloque sb, d'.mem (b * tamanioDeBloque sb + j : Nat) =
      d.mem (b * tamanioDeBloque sb + j : Nat)) :
    (punteros sb d').palabra b i = (punteros sb d).palabra b i := by
  have four := geo.ptrs
  change leer32 d' _ = leer32 d _
  rw [leer32, leer32, leer_congr]
  intro byte below
  have kept := same (i * 4 + byte) (by omega)
  rw [desplazarme, geo.inicio bound]
  push_cast at kept ⊢
  rw [← Int.add_assoc] at kept
  exact kept

namespace Sigue

/-- A block that is no data block of the file written keeps its bytes. -/
theorem ajeno (kept : Sigue sb d d') (consistent : Consistente sb d) (geo : Geometria sb)
    (valid : esInodo sb x) (written : EscribeSolo sb x n data offset d' d'')
    (inside : ∀ i < data.length,
      (offset + i) / tamanioDeBloque sb < bloquesDe sb (d.inodo x).size.toNat) {q : List Nat}
    (member : deTamanio sb d y q)
    (other : ∀ l < bloquesDe sb (d.inodo x).size.toNat, l < alcance sb →
      ¬(y = x ∧ q = camino (ptrsPorBloque sb) l)) :
    ∀ j < tamanioDeBloque sb,
      d''.mem ((punteros sb d').valor y q * tamanioDeBloque sb + j : Nat) =
        d'.mem ((punteros sb d').valor y q * tamanioDeBloque sb + j : Nat) := by
  apply written.bloques
  · rw [kept.valores y q member]
    exact (consistent.marcado member).2
  · intro i below same
    have owned := inside i below
    have reach := lt_of_lt_of_le owned (bloquesDe_alcance geo.bloque (UInt32.toNat_lt _))
    obtain ⟨here, place⟩ := kept.distintos consistent (deTamanio_camino valid reach owned) member same
    exact other _ owned reach ⟨here.symm, place.symm⟩

/-- Indirection blocks are never written. -/
theorem valor_escribe (kept : Sigue sb d d') (consistent : Consistente sb d) (geo : Geometria sb)
    (valid : esInodo sb x) (written : EscribeSolo sb x n data offset d' d'')
    (inside : ∀ i < data.length,
      (offset + i) / tamanioDeBloque sb < bloquesDe sb (d.inodo x).size.toNat) {q : List Nat}
    (member : deTamanio sb d y q) :
    (punteros sb d'').valor y q = (punteros sb d').valor y q := by
  induction q with
  | nil => rfl
  | cons i p ih =>
    cases p with
    | nil =>
      change ((d''.inodo y).blocks i).toNat = ((d'.inodo y).blocks i).toNat
      rw [written.tablas]
    | cons j p =>
      have above : deTamanio sb d y (j :: p) := ⟨member.1, member.2.parent⟩
      obtain ⟨k', -, starts⟩ := member.2
      have bytes := kept.ajeno consistent geo valid written inside above
        fun l _ reach same => camino_leaf reach (same.2 ▸ starts)
      have bound : (punteros sb d').valor y (j :: p) < sb.blocks := by
        rw [kept.valores y _ above]
        exact (consistent.marcado above).2
      change (punteros sb d'').palabra ((punteros sb d'').valor y (j :: p)) i =
        (punteros sb d').palabra ((punteros sb d').valor y (j :: p)) i
      rw [ih above, palabra_de_bytes geo bound starts.parent.1 bytes]

theorem escribe (kept : Sigue sb d d') (consistent : Consistente sb d) (geo : Geometria sb)
    (valid : esInodo sb x) (file : (d.inodo x).tieneModo S_IFDIR = false)
    (written : EscribeSolo sb x n data offset d' d'')
    (inside : ∀ i < data.length,
      (offset + i) / tamanioDeBloque sb < bloquesDe sb (d.inodo x).size.toNat) :
    Sigue sb d d'' := by
  constructor
  · calc d'' = { d' with mem := d''.mem } := written.tablas
      _ = { d with mem := d''.mem } := by rw [kept.tablas]
  · intro y q member
    rw [kept.valor_escribe consistent geo valid written inside member, kept.valores y q member]
  · intro y directory l reach member j below
    have far : y ≠ x := by
      intro here
      rw [here, file] at directory
      cases directory
    have bytes := kept.ajeno consistent geo valid written inside member
      (fun _ _ _ same => far same.1) j below
    have before := kept.directorios y directory l reach member j below
    have bound : bloqueLogico sb d y l < sb.blocks := (consistent.marcado member).2
    rw [kept.valores y _ member] at bytes
    rw [geo.inicio bound] at before ⊢
    rw [← before]
    exact_mod_cast bytes

/-- What the files hold after a write. -/
theorem byteDe_escribe (kept : Sigue sb d d') (consistent : Consistente sb d) (geo : Geometria sb)
    (valid : esInodo sb x)
    (written : EscribeSolo sb x (bloquesDe sb (d.inodo x).size.toNat) data offset d' d'')
    (inside : ∀ i < data.length,
      (offset + i) / tamanioDeBloque sb < bloquesDe sb (d.inodo x).size.toNat)
    (there : esInodo sb y) {i : Nat}
    (below : i / tamanioDeBloque sb < bloquesDe sb (d.inodo y).size.toNat) :
    byteDe sb d'' y i = if y = x ∧ offset ≤ i ∧ i < offset + data.length then
      data.getD (i - offset) 0 else byteDe sb d' y i := by
  have reach := lt_of_lt_of_le below (bloquesDe_alcance geo.bloque (UInt32.toNat_lt _))
  have member := deTamanio_camino there reach below
  by_cases here : y = x
  · subst here
    by_cases touched : offset ≤ i ∧ i < offset + data.length
    · have byte := written.escrito (i - offset) (by omega)
      rw [Nat.add_sub_cancel' touched.1] at byte
      rw [if_pos ⟨rfl, touched⟩, byte]
    · rw [if_neg fun both => touched both.2]
      exact written.resto i below (kept.mapeada consistent member) (by omega)
  · rw [if_neg fun both => here both.1]
    have place : bloqueLogico sb d'' y (i / tamanioDeBloque sb) =
        bloqueLogico sb d' y (i / tamanioDeBloque sb) :=
      kept.valor_escribe consistent geo valid written inside member
    unfold byteDe
    rw [place]
    exact kept.ajeno consistent geo valid written inside member (fun _ _ _ same => here same.1) _
      (Nat.mod_lt _ (tamanioDeBloque_pos sb))

end Sigue

/-! ### One request -/

theorem en_bloques {size i : Nat} (below : i < size) :
    i / tamanioDeBloque sb < bloquesDe sb size := by
  rw [bloquesDe_pos (by omega), Nat.lt_succ_iff]
  exact Nat.div_le_div_right (by omega)

namespace Representa

/-- `serve_read` takes the bytes of the view. -/
theorem loLeido (holds : Representa sb d' v) (kept : Sigue sb d d')
    (consistent : Consistente sb d) (geo : Geometria sb) (valid : esInodo sb x) {size : Nat}
    (start : offset < 2 ^ 32) (long : size < 2 ^ 32)
    (cut : LeeBien (tamanioDeBloque sb) (v.inodo x).size.toNat offset size) :
    Rfs.loLeido sb d' x size offset = some (v.leer x offset size) := by
  rw [holds.inodo] at cut
  have length := (tramo_iff geo.tamanio (UInt32.toNat_lt _) start long).mpr cut
  unfold Rfs.loLeido Vista.leer bytesLeidos
  rw [length, Option.map_some, holds.inodo]
  refine congrArg some (List.map_congr_left fun i member => ?_)
  have below := List.mem_range.mp member
  have owned : (offset + i) / tamanioDeBloque sb < bloquesDe sb (d'.inodo x).size.toNat :=
    en_bloques (by omega)
  have reach := lt_of_lt_of_le owned (bloquesDe_alcance geo.bloque (UInt32.toNat_lt _))
  have number : bloqueLogico sb d' x ((offset + i) / tamanioDeBloque sb) < sb.blocks := by
    rw [kept.inodo] at owned
    rw [kept.lugar valid reach owned]
    exact (consistent.marcado (deTamanio_camino valid reach owned)).2
  have image : bloqueLogico sb d' x ((offset + i) / tamanioDeBloque sb) * tamanioDeBloque sb <
      sb.blocks * tamanioDeBloque sb := Nat.mul_lt_mul_of_pos_right number (tamanioDeBloque_pos sb)
  rw [byteLeido_eq (lt_of_lt_of_le image geo.chica), holds.bytes x valid _ owned]

/-- The blocks a read goes through are blocks of the file. -/
theorem leidos (holds : Representa sb d' v) (kept : Sigue sb d d')
    (consistent : Consistente sb d) (geo : Geometria sb) (valid : esInodo sb x) {size l : Nat}
    (start : offset < 2 ^ 32) (long : size < 2 ^ 32)
    (cut : LeeBien (tamanioDeBloque sb) (v.inodo x).size.toNat offset size)
    (same : bytesALeer (d'.inodo x).size.toNat offset size = n) (some_bytes : n ≠ 0)
    (first : offset / tamanioDeBloque sb ≤ l)
    (last : l ≤ resta32 (offset + n) 1 / tamanioDeBloque sb) :
    bloqueLogico sb d' x l < sb.blocks := by
  rw [holds.inodo] at cut
  have length := (tramo_iff geo.tamanio (UInt32.toNat_lt _) start long).mpr cut
  have owned : l < bloquesDe sb (d.inodo x).size.toNat := by
    have file : (d'.inodo x).size.toNat < 2 ^ 32 := UInt32.toNat_lt _
    rw [same] at length
    rw [← kept.inodo]
    by_cases nothing : min (offset + size) (d'.inodo x).size.toNat - offset = 0
    · rw [nothing] at length
      rcases tramo_zero.mp length with none_left | backwards
      · exact absurd none_left some_bytes
      · exact absurd (lt_of_le_of_lt (first.trans last) backwards) (lt_irrefl _)
    · rcases cut with ⟨small, -, -⟩ | ⟨past, -, -, -⟩
      · have ends : offset + n ≤ (d'.inodo x).size.toNat := by
          rw [← same, bytesALeer, resta32]
          split_ifs <;> omega
        rw [resta32_uno (by omega) (by omega)] at last
        exact lt_of_le_of_lt last (en_bloques (by omega))
      · omega
  have reach := lt_of_lt_of_le owned (bloquesDe_alcance geo.bloque (UInt32.toNat_lt _))
  rw [kept.lugar valid reach owned]
  exact (consistent.marcado (deTamanio_camino valid reach owned)).2

end Representa

/-- The server after a run, against the disk it started from and the view. -/
structure AlDia (sb : Superblock) (cacheActive : Bool) (d : Disco) (s : Servidor) (v : Vista) :
    Prop where
  sigue : Sigue sb d s.disco
  coherente : Coherente sb cacheActive s
  representa : Representa sb s.disco v

namespace AlDia

variable {p : Pedido} {path : CString} {size : UInt32}

theorem hallado (now : AlDia sb cacheActive d s v) (led : x ∈ v.ruta path.bytes) :
    getNroInodoDeLaDireccionDelPath sb s.disco path.bytes = some x := by
  rw [← now.representa.ruta]
  exact led

theorem leer (now : AlDia sb cacheActive d s v) (consistent : Consistente sb d)
    (geo : Geometria sb) {start : UInt32} (led : x ∈ v.ruta path.bytes) (valid : esInodo sb x)
    (cut : LeeBien (tamanioDeBloque sb) (v.inodo x).size.toNat start.toNat size.toNat) :
    ∃ s', serveRead sb cacheActive s path.bytes size.toNat start.toNat =
        some (s', [.readResponse (v.leer x start.toNat size.toNat)]) ∧
      AlDia sb cacheActive d s' v := by
  have from_start := UInt32.toNat_lt start
  have long := UInt32.toNat_lt size
  obtain ⟨s', run, disk, after⟩ := now.coherente.serveRead geo.bloque (now.hallado led) valid rfl
    (fun some_bytes l first last => now.representa.leidos now.sigue consistent geo valid from_start
      long cut rfl some_bytes first last)
    (now.representa.loLeido now.sigue consistent geo valid from_start long cut)
  refine ⟨s', run, ?_, after, ?_⟩
  · rw [disk]
    exact now.sigue
  · rw [disk]
    exact now.representa

theorem escribir (now : AlDia sb cacheActive d s v) (consistent : Consistente sb d)
    (geo : Geometria sb) (readable : Legibles sb d) {start : UInt32} (led : x ∈ v.ruta path.bytes)
    (valid : esInodo sb x) (file : (v.inodo x).tieneModo S_IFDIR = false)
    (sized : data.length = size.toNat) (some_bytes : 0 < size.toNat)
    (limit : start.toNat + size.toNat < 2 ^ 32)
    (inside : (start.toNat + size.toNat - 1) / tamanioDeBloque sb <
      min (bloquesDe sb (v.inodo x).size.toNat) (cantidadDeBloques sb (v.inodo x))) :
    ∃ s', serveWrite sb cacheActive s path.bytes data size.toNat start.toNat = some (s', [.ok]) ∧
      AlDia sb cacheActive d s' (v.escribir x start.toNat data) := by
  have same : v.inodo = d.inodo := now.representa.inodo.trans now.sigue.inodo
  have reach : bloquesDe sb (d.inodo x).size.toNat ≤ alcance sb :=
    bloquesDe_alcance geo.bloque (UInt32.toNat_lt _)
  rw [same] at file inside
  obtain ⟨within, counted⟩ := lt_min_iff.mp inside
  obtain ⟨s', run, written, after⟩ := now.coherente.serveWrite geo (now.hallado led) valid sized
    some_bytes limit (by rw [now.sigue.inodo]; exact counted) reach within
    (now.sigue.bloquesDistintos consistent valid) fun k owned =>
      now.sigue.mapeada consistent (deTamanio_camino valid (lt_of_lt_of_le owned reach) owned)
  have touched : ∀ i < data.length,
      (start.toNat + i) / tamanioDeBloque sb < bloquesDe sb (d.inodo x).size.toNat :=
    fun i below => lt_of_le_of_lt (Nat.div_le_div_right (by omega)) within
  have kept := now.sigue.escribe consistent geo valid file written touched
  refine ⟨s', run, kept, after, ?_, ?_, ?_⟩
  · funext p
    rw [kept.ruta geo readable, ← now.sigue.ruta geo readable, ← now.representa.ruta]
    rfl
  · exact same.trans kept.inodo.symm
  · intro y there i below
    rw [kept.inodo] at below
    have byte := now.sigue.byteDe_escribe consistent geo valid written touched there below
    rw [byte, now.representa.bytes y there i (by rw [now.sigue.inodo]; exact below)]
    rfl

/-- One request. -/
theorem atender (now : AlDia sb cacheActive d s v) (consistent : Consistente sb d)
    (geo : Geometria sb) (readable : Legibles sb d) (place : EnSuLugar sb v p) :
    ∃ s' v' respuestas, serveRequest sb cacheActive s p = some (s', respuestas) ∧
      v.atender p = some (v', respuestas) ∧ AlDia sb cacheActive d s' v' ∧ v'.ruta = v.ruta ∧
      v'.inodo = v.inodo := by
  cases p with
  | nipcRead c path size start =>
    obtain ⟨x, led, valid, cut⟩ := place
    obtain ⟨s', run, after⟩ := now.leer consistent geo led valid cut
    exact ⟨s', v, _, run, Option.bind_eq_some_iff.mpr ⟨x, led, rfl⟩, after, rfl, rfl⟩
  | nipcWrite c path data size start sized =>
    obtain ⟨x, led, valid, file, some_bytes, limit, inside⟩ := place
    obtain ⟨s', run, after⟩ := now.escribir consistent geo readable led valid file sized some_bytes
      limit inside
    exact ⟨s', _, _, run, Option.bind_eq_some_iff.mpr ⟨x, led, rfl⟩, after, rfl, rfl⟩
  | nipcGetattr c path =>
    obtain ⟨x, led, valid⟩ := place
    refine ⟨s, v, [v.atributos x], ?_, Option.bind_eq_some_iff.mpr ⟨x, led, rfl⟩, now, rfl, rfl⟩
    have found := now.hallado led
    unfold serveRequest serveGetattr getInodoDeLaDireccionDelPath Vista.atributos
    by_cases nothing : x = 0
    · simp only [found, nothing, Option.bind_eq_bind, Option.bind_some, if_true]
    · have inner := valid.resolve_left nothing
      have node : getInodo sb x = some (some x) := by
        simp [getInodo, inner.2, Nat.not_lt.mpr inner.1]
      simp only [found, nothing, node, Option.bind_eq_bind, Option.bind_some, if_false,
        now.representa.inodo]
  | _ => exact absurd place id

end AlDia

/-! ### Every run -/

theorem EnSuLugar.congr {p : Pedido} (place : EnSuLugar sb v p) (led : v'.ruta = v.ruta)
    (nodes : v'.inodo = v.inodo) : EnSuLugar sb v' p := by
  cases p with
  | nipcRead | nipcWrite | nipcGetattr =>
    unfold EnSuLugar at *
    rw [led, nodes] at *
    exact place
  | _ => exact place

theorem AlDia.correr (consistent : Consistente sb d) (geo : Geometria sb)
    (readable : Legibles sb d) {pedidos : List Pedido} (now : AlDia sb cacheActive d s v)
    (places : ∀ p ∈ pedidos, EnSuLugar sb v p) :
    ∃ s' v' respuestas, Rfs.correr sb cacheActive s pedidos = some (s', respuestas) ∧
      v.correr pedidos = some (v', respuestas) ∧ AlDia sb cacheActive d s' v' := by
  induction pedidos generalizing s v with
  | nil => exact ⟨s, v, [], rfl, rfl, now⟩
  | cons p ps ih =>
    obtain ⟨s1, v1, first, run, seen, next, led, nodes⟩ :=
      now.atender consistent geo readable (places p (List.mem_cons_self ..))
    obtain ⟨s', v', rest, runs, sees, after⟩ := ih next fun q member =>
      (places q (List.mem_cons_of_mem _ member)).congr led nodes
    refine ⟨s', v', first :: rest, ?_, ?_, after⟩
    · exact Option.bind_eq_some_iff.mpr ⟨_, run, Option.bind_eq_some_iff.mpr ⟨_, runs, rfl⟩⟩
    · exact Option.bind_eq_some_iff.mpr ⟨_, seen, Option.bind_eq_some_iff.mpr ⟨_, sees, rfl⟩⟩

/-- Bytes of files do not matter to the consistency of the image. -/
theorem Sigue.consistente (kept : Sigue sb d d') (consistent : Consistente sb d) :
    Consistente sb d' := by
  have reach : ∀ x q, alcanza sb d' x q → alcanza sb d x q := by
    intro x q reached
    rw [kept.tablas] at reached
    exact reached
  have inner : ∀ x q, alcanza sb d' x q → deTamanio sb d x q := fun x q reached =>
    ⟨(reach x q reached).1.1, (reach x q reached).2⟩
  have tables := kept.tablas
  constructor
  case bloque => exact consistent.bloque
  case primero => exact consistent.primero
  case inicio => exact tables ▸ consistent.inicio
  case dentro => exact tables ▸ consistent.dentro
  case cuentaGrupo => exact tables ▸ consistent.cuentaGrupo
  case cuentaTotal => exact tables ▸ consistent.cuentaTotal
  case cuentaInodosGrupo => exact tables ▸ consistent.cuentaInodosGrupo
  case cuentaInodos => exact tables ▸ consistent.cuentaInodos
  case vacios => exact tables ▸ consistent.vacios
  case rango =>
    intro x q reached
    rw [kept.valores x q (inner x q reached)]
    exact consistent.rango x q (reach x q reached)
  case propios =>
    constructor
    · intro x q reached
      rw [kept.valores x q (inner x q reached), tables]
      exact consistent.propios.marcado x q (reach x q reached)
    · intro x q y r left right same
      exact kept.distintos consistent (inner x q left) (inner y r right) same

instance (B fileSize offset size : Nat) : Decidable (LeeBien B fileSize offset size) :=
  inferInstanceAs (Decidable (_ ∨ _))

/-- `/a` is read, written under another spelling and read again. -/
def pedidosDeA : List Pedido :=
  [.nipcRead 1 pathA 5 0, .nipcWrite 1 ⟨[47, 65], by decide⟩ [7, 8] 2 1 rfl, .nipcRead 2 pathA 9 0]

end LosAltos.Rfs
