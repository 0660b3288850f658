import LosAltos.Rfs.Ledger

/-!
# One block more, one block less

`agregarBloque` and `quitarBloque` as steps of the ledger: the positions that start at
one logical block enter the forest, or leave it, and nothing else moves. `Paso` is such
a step on the inode `x`; it also says what is left alone.
-/
namespace LosAltos.Rfs

open Lib

variable (sb : Superblock)

/-- `b` is held by a position of `x`. -/
def Propio (x : Nat) (S : Nat → List Nat → Prop) (d : Disco) (b : Nat) : Prop :=
  ∃ q, S x q ∧ (punteros sb d).valor x q = b

/-- Only the block numbers of `x` and the bytes of the blocks in `W` differ, and the
tables of blocks. -/
structure Marco (x : Nat) (W : Nat → Prop) (d d' : Disco) : Prop where
  otros : ∀ y, y ≠ x → d'.inodo y = d.inodo y
  mode : (d'.inodo x).mode = (d.inodo x).mode
  size : (d'.inodo x).size = (d.inodo x).size
  links : (d'.inodo x).links = (d.inodo x).links
  bytes : ∀ b < sb.blocks, ¬W b → ∀ j : Nat, j < tamanioDeBloque sb →
    d'.mem (posicionarInicioBloque sb b + j) = d.mem (posicionarInicioBloque sb b + j)
  bitmapInodos : d'.bitmapInodos = d.bitmapInodos
  freeInodes : d'.freeInodes = d.freeInodes
  basura : d'.basura = d.basura
  freeInodesCount : ∀ g, (d'.grupo g).freeInodesCount = (d.grupo g).freeInodesCount
  usedDirsCount : ∀ g, (d'.grupo g).usedDirsCount = (d.grupo g).usedDirsCount

structure Paso (x : Nat) (S T : Nat → List Nat → Prop) (E : Nat → Prop) (d d' : Disco) : Prop where
  obra : Obra sb T E d'
  valor : ∀ y q, S y q → T y q → (punteros sb d').valor y q = (punteros sb d).valor y q
  marco : Marco sb x (fun b => Propio sb x S d b ∨ Propio sb x T d' b) d d'

variable {sb} {x i n b : Nat} {p : List Nat} {S T U : Nat → List Nat → Prop}
  {E F : Nat → Prop} {d d' d'' : Disco} {W V : Nat → Prop}

namespace Marco

theorem refl : Marco sb x W d d :=
  ⟨fun _ _ => rfl, rfl, rfl, rfl, fun _ _ _ _ _ => rfl, rfl, rfl, rfl, fun _ => rfl, fun _ => rfl⟩

theorem trans (first : Marco sb x W d d') (second : Marco sb x W d' d'') : Marco sb x W d d'' where
  otros y other := (second.otros y other).trans (first.otros y other)
  mode := second.mode.trans first.mode
  size := second.size.trans first.size
  links := second.links.trans first.links
  bytes b bound out j below :=
    (second.bytes b bound out j below).trans (first.bytes b bound out j below)
  bitmapInodos := second.bitmapInodos.trans first.bitmapInodos
  freeInodes := second.freeInodes.trans first.freeInodes
  basura := second.basura.trans first.basura
  freeInodesCount g := (second.freeInodesCount g).trans (first.freeInodesCount g)
  usedDirsCount g := (second.usedDirsCount g).trans (first.usedDirsCount g)

theorem mono (marco : Marco sb x W d d') (sub : ∀ b, W b → V b) : Marco sb x V d d' :=
  { marco with bytes := fun b bound out => marco.bytes b bound fun inside => out (sub b inside) }

/-- Steps that only concern the tables of blocks. -/
theorem of_bloques (same : SoloBloques d d') : Marco sb x W d d' where
  otros y _ := by rw [same.inodo]
  mode := by rw [same.inodo]
  size := by rw [same.inodo]
  links := by rw [same.inodo]
  bytes b _ _ j _ := by rw [same.mem]
  bitmapInodos := same.bitmapInodos
  freeInodes := same.freeInodes
  basura := same.basura
  freeInodesCount := same.freeInodesCount
  usedDirsCount := same.usedDirsCount

/-- A `memcpy` inside one block of the image. -/
theorem copia (geo : Geometria sb) {desp : Nat} {bytes : List UInt8} (bound : b < sb.blocks)
    (inside : desp + bytes.length ≤ tamanioDeBloque sb) (written : W b) :
    Marco sb x W d (d.copia (desplazarme sb b desp) bytes) := by
  refine ⟨fun _ _ => rfl, rfl, rfl, rfl, ?_, rfl, rfl, rfl, fun _ => rfl, fun _ => rfl⟩
  intro c small out j below
  have different : b ≠ c := by
    rintro rfl
    exact out written
  have far := geo.apart bound small different
  have off : ¬(desplazarme sb b desp ≤ posicionarInicioBloque sb c + j ∧
      posicionarInicioBloque sb c + j < desplazarme sb b desp + bytes.length) := by
    rw [desplazarme]
    omega
  simp [Disco.copia, escribir, off]

/-- Block numbers and `nr_blocks` of `x` alone. -/
theorem ponInodo {node : INode} (mode : node.mode = (d.inodo x).mode)
    (size : node.size = (d.inodo x).size) (links : node.links = (d.inodo x).links) :
    Marco sb x W d (d.ponInodo x node) := by
  refine ⟨?_, ?_, ?_, ?_, fun _ _ _ _ _ => rfl, rfl, rfl, rfl, fun _ => rfl, fun _ => rfl⟩
  · intro y other
    simp [Disco.ponInodo, other]
  all_goals simp [Disco.ponInodo, mode, size, links]

/-- A number stored in a slot of `x`. -/
theorem grabarSlot (geo : Geometria sb) (parent : p ≠ [] → (punteros sb d).valor x p < sb.blocks)
    (width : p ≠ [] → i < ptrsPorBloque sb) (written : p ≠ [] → W ((punteros sb d).valor x p)) :
    Marco sb x W d (grabarSlot d (slotDe sb d x (i :: p)) n) := by
  cases p with
  | nil => exact ponInodo rfl rfl rfl
  | cons k q =>
    have index := width (by simp)
    have four := geo.ptrs
    exact copia geo (parent (by simp)) (by rw [toLe_length]; omega) (written (by simp))

theorem anota (h : Hecho) : Marco sb x W d (d.anota h) :=
  of_bloques ⟨rfl, rfl, rfl, rfl, rfl, fun _ => rfl, fun _ => rfl⟩

end Marco

/-! ### Single steps -/

theorem SoloBloques.ponGrupo_count {d : Disco} {g : Nat} {count : UInt16} :
    ∀ h, ((d.ponGrupo g { d.grupo g with freeBlocksCount := count }).grupo h).freeInodesCount =
      (d.grupo h).freeInodesCount ∧
    ((d.ponGrupo g { d.grupo g with freeBlocksCount := count }).grupo h).usedDirsCount =
      (d.grupo h).usedDirsCount := by
  intro h
  by_cases same : h = g <;> simp [Disco.ponGrupo, same]

theorem SoloBloques.ocupar (d : Disco) (g i : Nat) : SoloBloques d (d.ocupar g i) :=
  ⟨rfl, rfl, rfl, rfl, rfl, fun h => (ponGrupo_count h).1, fun h => (ponGrupo_count h).2⟩

theorem SoloBloques.devolver (d : Disco) (g i : Nat) : SoloBloques d (d.devolver g i) :=
  ⟨rfl, rfl, rfl, rfl, rfl, fun h => (ponGrupo_count h).1, fun h => (ponGrupo_count h).2⟩

theorem getBloqueLibre_solo (run : getBloqueLibre sb d = some (b, d')) : SoloBloques d d' := by
  simp only [getBloqueLibre, Option.bind_eq_bind, Option.bind_eq_some_iff] at run
  obtain ⟨⟨g, lleno⟩, -, run⟩ := run
  split at run
  · cases run
    exact ⟨rfl, rfl, rfl, rfl, rfl, fun _ => rfl, fun _ => rfl⟩
  · simp only [actualizarEstructurasCuandoPidoBloque, Option.bind_eq_bind, Option.bind_eq_some_iff,
      Option.some.injEq] at run
    obtain ⟨after, ⟨grupo, -, rfl⟩, run⟩ := run
    cases run
    have taken := SoloBloques.ocupar { d with nroDeGrupo := g }
      (resta32 (getBloqueLibreDelBitmap sb { d with nroDeGrupo := g } g) sb.firstDataBlock /
        sb.blocksPerGroup)
      (resta32 (reducir (getBloqueLibreDelBitmap sb { d with nroDeGrupo := g } g)
        sb.blocksPerGroup) sb.firstDataBlock)
    exact ⟨taken.mem, taken.inodo, taken.bitmapInodos, taken.freeInodes, taken.basura,
      taken.freeInodesCount, taken.usedDirsCount⟩

/-- `liberarBloque` works on the tables and then on the slot. -/
theorem liberarBloque_solo {slot : Slot} (run : liberarBloque sb d slot = some d') :
    ∃ d1, SoloBloques d d1 ∧ d' = grabarSlot d1 slot 0 := by
  simp only [liberarBloque, Option.bind_eq_bind, Option.bind_eq_some_iff, Option.some.injEq] at run
  obtain ⟨grupo, -, rfl⟩ := run
  refine ⟨_, ?_, rfl⟩
  have back := SoloBloques.devolver (d.anota (.libera (leerSlot d slot)))
    (resta32 (leerSlot d slot) sb.firstDataBlock / sb.blocksPerGroup)
    (resta32 (reducir (leerSlot d slot) sb.blocksPerGroup) 1)
  exact ⟨back.mem, back.inodo, back.bitmapInodos, back.freeInodes, back.basura,
    back.freeInodesCount, back.usedDirsCount⟩

theorem SoloBloques.slotDe (same : SoloBloques d d') (x : Nat) (q : List Nat) :
    slotDe sb d' x q = slotDe sb d x q := by
  cases q with
  | nil => rfl
  | cons i q =>
    cases q with
    | nil => rfl
    | cons j q => rw [Rfs.slotDe, Rfs.slotDe, same.punteros]

namespace Paso

theorem refl (obra : Obra sb S E d) : Paso sb x S S E d d :=
  ⟨obra, fun _ _ _ _ => rfl, .refl⟩

/-- Steps that only add positions compose. -/
theorem crecer (first : Paso sb x S T F d d') (second : Paso sb x T U E d' d'')
    (sub : ∀ y q, S y q → T y q) (sub' : ∀ y q, T y q → U y q) : Paso sb x S U E d d'' := by
  have middle : ∀ b, Propio sb x T d' b → Propio sb x U d'' b := by
    rintro b ⟨q, member, value⟩
    exact ⟨q, sub' x q member, by rw [second.valor x q member (sub' x q member), value]⟩
  refine ⟨second.obra, fun y q old new => ?_, (first.marco.mono ?_).trans (second.marco.mono ?_)⟩
  · rw [second.valor y q (sub y q old) new, first.valor y q old (sub y q old)]
  · rintro b (before | after)
    · exact .inl before
    · exact .inr (middle b after)
  · rintro b (before | after)
    · exact .inr (middle b before)
    · exact .inr after

/-- Steps that only drop positions compose. -/
theorem menguar (first : Paso sb x S T F d d') (second : Paso sb x T U E d' d'')
    (sub : ∀ y q, T y q → S y q) (sub' : ∀ y q, U y q → T y q) : Paso sb x S U E d d'' := by
  have middle : ∀ b, Propio sb x T d' b → Propio sb x S d b := by
    rintro b ⟨q, member, value⟩
    exact ⟨q, sub x q member, by rw [← first.valor x q (sub x q member) member, value]⟩
  refine ⟨second.obra, fun y q old new => ?_, (first.marco.mono ?_).trans (second.marco.mono ?_)⟩
  · rw [second.valor y q (sub' y q new) new, first.valor y q old (sub' y q new)]
  · rintro b (before | after)
    · exact .inl before
    · exact .inl (middle b after)
  · rintro b (before | after)
    · exact .inl (middle b before)
    · exact .inr after

theorem of_iff (paso : Paso sb x S T E d d') (same : ∀ y q, U y q ↔ T y q) :
    Paso sb x S U E d d' := by
  have equal : U = T := funext fun y => funext fun q => propext (same y q)
  rwa [equal]

theorem pedir (geo : Geometria sb) (obra : Obra sb S E d)
    (run : getBloqueLibre sb d = some (b, d')) (nonzero : b ≠ 0) :
    b < sb.blocks ∧ ¬E b ∧ Paso sb x S S (fun c => E c ∨ c = b) d d' := by
  have solo := getBloqueLibre_solo run
  rcases obra.pedir geo run with ⟨zero, -⟩ | ⟨-, bound, free, taken⟩
  · exact absurd zero nonzero
  · refine ⟨bound, fun outside => free ((obra.libro.marca b).mpr (.inl outside)), taken,
      fun y q _ _ => ?_, .of_bloques solo⟩
    rw [solo.punteros]

theorem asignar (geo : Geometria sb) (obra : Obra sb S (fun c => E c ∨ c = n) d) (waiting : ¬E n)
    (bound : n < sb.blocks) (parent : p ≠ [] → S x p) (width : p ≠ [] → i < ptrsPorBloque sb)
    (out : ¬S x (i :: p)) :
    Paso sb x S (fun y q => S y q ∨ y = x ∧ q = i :: p) E d
      (asignar d (slotDe sb d x (i :: p)) n) := by
  have below : p ≠ [] → (punteros sb d).valor x p < sb.blocks := fun filled =>
    obra.libro.rango x p (parent filled)
  have pone := pone_grabarSlot geo d below width (bound.trans geo.blocks_lt)
  refine ⟨obra.asignar geo waiting bound parent width out, fun y q old _ => ?_, ?_⟩
  · exact obra.libro.valor_eq pone parent (fun _ _ => id) obra.libro.cerrado out y q old
  · refine Marco.trans (.grabarSlot geo below width fun filled => ?_) (.anota _)
    exact .inl ⟨p, parent filled, rfl⟩

theorem nrBlocks (obra : Obra sb S E d) (count : UInt32) :
    Paso sb x S S E d (d.ponInodo x { d.inodo x with nrBlocks := count }) := by
  have same : punteros sb (d.ponInodo x { d.inodo x with nrBlocks := count }) = punteros sb d := by
    have words : ∀ y j, (((d.ponInodo x { d.inodo x with nrBlocks := count }).inodo y).blocks j) =
        (d.inodo y).blocks j := by
      intro y j
      by_cases here : y = x <;> simp [Disco.ponInodo, here]
    simp only [punteros, leerSlot, slotDeBloque, leer32, words]
    rfl
  refine ⟨obra.con_libro ⟨rfl, rfl, fun _ => rfl⟩ (by rw [same]; exact obra.libro), ?_,
    .ponInodo rfl rfl rfl⟩
  intro y q _ _
  rw [same]

theorem anota (obra : Obra sb S E d) (h : Hecho) : Paso sb x S S E d (d.anota h) :=
  ⟨obra.con_libro (.anota d h) obra.libro, fun _ _ _ _ => rfl, .anota h⟩

theorem liberar (geo : Geometria sb) (first : sb.firstDataBlock = 1) (obra : Obra sb S E d)
    (member : S x (i :: p)) (leaf : ∀ j, ¬S x (j :: i :: p))
    (run : liberarBloque sb d (slotDe sb d x (i :: p)) = some d') :
    Paso sb x S (fun y q => S y q ∧ ¬(y = x ∧ q = i :: p)) E d d' := by
  obtain ⟨freed, same⟩ := obra.liberar geo first member leaf run
  refine ⟨freed, fun y q _ inside => same y q inside, ?_⟩
  obtain ⟨d1, solo, rfl⟩ := liberarBloque_solo run
  rw [← solo.slotDe]
  refine Marco.trans (.of_bloques solo) ?_
  refine .grabarSlot geo (fun filled => ?_) (obra.libro.width_of_mem member) fun filled => ?_
  · rw [solo.punteros]
    exact obra.libro.rango x p (obra.libro.parent_of_mem member filled)
  · rw [solo.punteros]
    exact .inl ⟨p, obra.libro.parent_of_mem member filled, rfl⟩

/-- Bytes written inside a data block. -/
theorem datos (geo : Geometria sb) (obra : Obra sb S E d) (member : S x p)
    (leaf : ∀ j, ¬S x (j :: p)) {desp : Nat} {bytes : List UInt8}
    (inside : desp + bytes.length ≤ tamanioDeBloque sb) :
    Paso sb x S S E d (d.copia (desplazarme sb ((punteros sb d).valor x p) desp) bytes) := by
  have below := obra.libro.rango x p member
  have four := geo.ptrs
  have words : ∀ y j k q, S y (j :: k :: q) →
      (punteros sb (d.copia (desplazarme sb ((punteros sb d).valor x p) desp) bytes)).palabra
        ((punteros sb d).valor y (k :: q)) j =
      (punteros sb d).palabra ((punteros sb d).valor y (k :: q)) j := by
    intro y j k q slot
    have up := obra.libro.cerrado y j k q slot
    have width := obra.libro.indice y j k q slot
    have different : (punteros sb d).valor x p ≠ (punteros sb d).valor y (k :: q) := by
      intro equal
      obtain ⟨rfl, rfl⟩ := obra.libro.inyectivo x p y (k :: q) member up equal
      exact leaf j slot
    have far := geo.apart below (obra.libro.rango y _ up) different
    apply leer32_copia_disjoint d
    rw [desplazarme, desplazarme]
    omega
  have roots : ∀ y j, S y [j] →
      (punteros sb (d.copia (desplazarme sb ((punteros sb d).valor x p) desp) bytes)).raiz y j =
        (punteros sb d).raiz y j := fun _ _ _ => rfl
  obtain ⟨libro, same⟩ := obra.libro.congr roots words
  exact ⟨obra.con_libro ⟨rfl, rfl, fun _ => rfl⟩ libro, fun y q old _ => same y q old,
    .copia geo below inside (.inl ⟨p, member, rfl⟩)⟩

end Paso

/-! ### One level of indirection at a time

A file of `k` blocks gets the positions that start at `k` from the inode outwards, and
loses those that start at its last block the other way round. -/

/-- `S`, and the positions of `x` that start at `k` and are shorter than `largo`. -/
def conHasta (sb : Superblock) (S : Nat → List Nat → Prop) (x k largo : Nat) :
    Nat → List Nat → Prop :=
  fun y q => S y q ∨ y = x ∧ Inicia (ptrsPorBloque sb) k q ∧ q.length < largo

/-- `S`, without the positions of `x` that start at `k` and are no shorter than `largo`. -/
def sinDesde (sb : Superblock) (S : Nat → List Nat → Prop) (x k largo : Nat) :
    Nat → List Nat → Prop :=
  fun y q => S y q ∧ ¬(y = x ∧ Inicia (ptrsPorBloque sb) k q ∧ largo ≤ q.length)

namespace Paso

variable {k largo : Nat}

theorem conHasta_mono (y : Nat) (q : List Nat) (member : conHasta sb S x k largo y q) :
    conHasta sb S x k (largo + 1) y q := by
  rcases member with old | ⟨here, starts, short⟩
  · exact .inl old
  · exact .inr ⟨here, starts, by omega⟩

theorem sinDesde_mono (y : Nat) (q : List Nat) (member : sinDesde sb S x k largo y q) :
    sinDesde sb S x k (largo + 1) y q :=
  ⟨member.1, fun ⟨here, starts, long⟩ => member.2 ⟨here, starts, by omega⟩⟩

/-- A waiting block becomes the next position that starts at `k`. -/
theorem etapaAsignar (geo : Geometria sb)
    (obra : Obra sb (conHasta sb S x k largo) (fun c => E c ∨ c = n) d) (waiting : ¬E n)
    (bound : n < sb.blocks) (vivos : ∀ q, S x q ↔ Vivo (ptrsPorBloque sb) k q)
    (starts : Inicia (ptrsPorBloque sb) k (i :: p)) (length : (i :: p).length = largo)
    (only : ∀ q, q.length = largo → Inicia (ptrsPorBloque sb) k q → q = i :: p) :
    Paso sb x (conHasta sb S x k largo) (conHasta sb S x k (largo + 1)) E d
      (Rfs.asignar d (slotDe sb d x (i :: p)) n) := by
  have parent : p ≠ [] → conHasta sb S x k largo x p ∧ i < ptrsPorBloque sb := by
    intro filled
    obtain ⟨j, q, rfl⟩ := List.exists_cons_of_ne_nil filled
    obtain ⟨width, k', earlier, up⟩ := starts.parent
    refine ⟨?_, width⟩
    rcases Nat.lt_or_eq_of_le earlier with before | rfl
    · exact .inl ((vivos _).mpr ⟨k', before, up⟩)
    · exact .inr ⟨rfl, up, by rw [← length]; simp⟩
  have out : ¬conHasta sb S x k largo x (i :: p) := by
    rintro (old | ⟨-, -, short⟩)
    · exact not_vivo_of_inicia starts (Nat.le_refl k) ((vivos _).mp old)
    · omega
  have step := Paso.asignar geo obra waiting bound (fun filled => (parent filled).1)
    (fun filled => (parent filled).2) out
  refine step.of_iff fun y q => ?_
  constructor
  · rintro (old | ⟨rfl, here, short⟩)
    · exact .inl (.inl old)
    · rcases Nat.lt_succ_iff_lt_or_eq.mp short with shorter | same
      · exact .inl (.inr ⟨rfl, here, shorter⟩)
      · exact .inr ⟨rfl, only q same here⟩
  · rintro (old | ⟨rfl, rfl⟩)
    · exact conHasta_mono y q old
    · exact .inr ⟨rfl, starts, by omega⟩

theorem etapaPedir {C : Prop} [Decidable C] (geo : Geometria sb)
    (obra : Obra sb (conHasta sb S x k largo) E d)
    (vivos : ∀ q, S x q ↔ Vivo (ptrsPorBloque sb) k q) (length : (i :: p).length = largo)
    (only : ∀ q, q.length = largo → (Inicia (ptrsPorBloque sb) k q ↔ C ∧ q = i :: p))
    (run : pedirSi sb (decide C) d (slotDe sb d x (i :: p)) = some d')
    (stored : Hecho.asigna 0 ∉ d'.hechos) :
    Paso sb x (conHasta sb S x k largo) (conHasta sb S x k (largo + 1)) E d d' := by
  rw [pedirSi] at run
  split at run
  · rename_i wanted
    have holds : C := of_decide_eq_true wanted
    simp only [Option.bind_eq_bind, Option.bind_eq_some_iff, Option.some.injEq] at run
    obtain ⟨⟨b, d1⟩, asked, rfl⟩ := run
    have nonzero : b ≠ 0 := by
      rintro rfl
      exact stored (List.mem_cons_self ..)
    obtain ⟨bound, waiting, taken⟩ := Paso.pedir (x := x) geo obra asked nonzero
    have starts := (only _ length).mpr ⟨holds, rfl⟩
    have next := etapaAsignar geo taken.obra waiting bound vivos starts length
      fun q same here => ((only q same).mp here).2
    rw [(getBloqueLibre_solo asked).slotDe] at next
    exact taken.crecer next (fun _ _ => id) conHasta_mono
  · rename_i unwanted
    cases run
    have fails : ¬C := fun holds => unwanted (decide_eq_true holds)
    refine (Paso.refl obra).of_iff fun y q => ⟨?_, conHasta_mono y q⟩
    rintro (old | ⟨rfl, here, short⟩)
    · exact .inl old
    · rcases Nat.lt_succ_iff_lt_or_eq.mp short with shorter | same
      · exact .inr ⟨rfl, here, shorter⟩
      · exact absurd ((only q same).mp here).1 fails

theorem etapaPedirContado {C : Prop} [Decidable C] (geo : Geometria sb)
    (obra : Obra sb (conHasta sb S x k largo) E d)
    (vivos : ∀ q, S x q ↔ Vivo (ptrsPorBloque sb) k q) (length : (i :: p).length = largo)
    (only : ∀ q, q.length = largo → (Inicia (ptrsPorBloque sb) k q ↔ C ∧ q = i :: p))
    (run : pedirContadoSi sb (decide C) d x (slotDe sb d x (i :: p)) = some d')
    (stored : Hecho.asigna 0 ∉ d'.hechos) :
    Paso sb x (conHasta sb S x k largo) (conHasta sb S x k (largo + 1)) E d d' := by
  simp only [pedirContadoSi, Option.bind_eq_bind, Option.bind_eq_some_iff, Option.some.injEq] at run
  obtain ⟨d1, asked, rfl⟩ := run
  have trace : (if decide C = true then sumaBloques sb d1 x else d1).hechos = d1.hechos := by
    split <;> rfl
  rw [trace] at stored
  have step := etapaPedir geo obra vivos length only asked stored
  split
  · exact step.crecer (.nrBlocks step.obra _) conHasta_mono fun _ _ => id
  · exact step

/-- The indirection blocks that logical block `k` needs, and no other position. -/
theorem indirecciones (geo : Geometria sb) (obra : Obra sb (conHasta sb S x k 1) E d)
    (vivos : ∀ q, S x q ↔ Vivo (ptrsPorBloque sb) k q)
    (bound : k < 12 + ptrsPorBloque sb + ptrsPorBloque sb * ptrsPorBloque sb +
      ptrsPorBloque sb * ptrsPorBloque sb * ptrsPorBloque sb)
    (run : pedirIndirecciones sb d x k = some d') (stored : Hecho.asigna 0 ∉ d'.hechos) :
    Paso sb x (conHasta sb S x k 1) (conHasta sb S x k (camino (ptrsPorBloque sb) k).length)
      E d d' := by
  cases region bound with
  | directo h =>
    rw [pedirIndirecciones_directo d x h] at run
    cases run
    rw [camino_directo h]
    exact .refl obra
  | simple ha =>
    rw [pedirIndirecciones_simple d x ha] at run
    rw [camino_simple ha]
    exact etapaPedir geo obra vivos rfl (fun q => (inicia_simple_length ha q).1) run stored
  | doble ha hb =>
    rw [pedirIndirecciones_doble d x ha hb] at run
    obtain ⟨d1, outer, inner⟩ := Option.bind_eq_some_iff.mp run
    rw [camino_doble ha hb]
    have stored1 := fun member => stored ((pedirContadoSi_deriva inner).mem_hechos member)
    have one := etapaPedirContado geo obra vivos rfl
      (fun q => (inicia_doble_length ha hb q).1) outer stored1
    have two := etapaPedirContado geo one.obra vivos rfl
      (fun q => (inicia_doble_length ha hb q).2.1) inner stored
    exact one.crecer two conHasta_mono conHasta_mono
  | triple ha hb hc =>
    rw [pedirIndirecciones_triple d x ha hb hc] at run
    obtain ⟨d1, outer, run⟩ := Option.bind_eq_some_iff.mp run
    obtain ⟨d2, middle, inner⟩ := Option.bind_eq_some_iff.mp run
    rw [camino_triple hb hc]
    have stored2 := fun member => stored ((pedirContadoSi_deriva inner).mem_hechos member)
    have stored1 := fun member => stored2 ((pedirContadoSi_deriva middle).mem_hechos member)
    have one := etapaPedirContado geo obra vivos rfl
      (fun q => (inicia_triple_length ha hb hc q).1) outer stored1
    have two := etapaPedirContado geo one.obra vivos rfl
      (fun q => (inicia_triple_length ha hb hc q).2.1) middle stored2
    have three := etapaPedirContado geo two.obra vivos rfl
      (fun q => (inicia_triple_length ha hb hc q).2.2.1) inner stored
    exact (one.crecer two conHasta_mono conHasta_mono).crecer three
      (fun y q member => conHasta_mono y q (conHasta_mono y q member)) conHasta_mono

theorem conHasta_one (y : Nat) (q : List Nat) : conHasta sb S x k 1 y q ↔ S y q := by
  refine ⟨?_, .inl⟩
  rintro (old | ⟨-, starts, short⟩)
  · exact old
  · exact absurd (List.length_eq_zero_iff.mp (by omega)) starts.ne_nil

/-- The data block of `k` is stored, its indirection blocks being there. -/
theorem agregarAInodo (geo : Geometria sb)
    (obra : Obra sb (conHasta sb S x k (camino (ptrsPorBloque sb) k).length)
      (fun c => E c ∨ c = n) d)
    (waiting : ¬E n) (small : n < sb.blocks) (vivos : ∀ q, S x q ↔ Vivo (ptrsPorBloque sb) k q)
    (run : agregarAInodo sb d x k n = some d') :
    Paso sb x (conHasta sb S x k (camino (ptrsPorBloque sb) k).length)
      (fun y q => S y q ∨ y = x ∧ Inicia (ptrsPorBloque sb) k q) E d d' := by
  simp only [Rfs.agregarAInodo, Option.bind_eq_bind, Option.bind_eq_some_iff,
    Option.some.injEq] at run
  obtain ⟨slot, found, rfl⟩ := run
  have bound := getPtr_some d x found
  rw [getPtr_camino d x bound] at found
  cases found
  have starts := inicia_camino bound
  obtain ⟨i, p, shape⟩ := List.exists_cons_of_ne_nil starts.ne_nil
  have step := etapaAsignar geo obra waiting small vivos (i := i) (p := p) (shape ▸ starts)
    (by rw [shape]) (by
      intro q same here
      rcases inicia_length bound here with shorter | equal
      · omega
      · rw [equal, shape])
  rw [← shape] at step
  refine step.of_iff fun y q => ⟨?_, ?_⟩
  · rintro (old | ⟨rfl, here⟩)
    · exact .inl old
    · refine .inr ⟨rfl, here, ?_⟩
      rcases inicia_length bound here with shorter | rfl
      · omega
      · omega
  · rintro (old | ⟨rfl, here, -⟩)
    · exact .inl old
    · exact .inr ⟨rfl, here⟩

/-- A file of `k` blocks gets its next one. -/
theorem agregarBloque (geo : Geometria sb) (obra : Obra sb S E d)
    (vivos : ∀ q, S x q ↔ Vivo (ptrsPorBloque sb) k q)
    (run : agregarBloque sb d x k = some d') (stored : Hecho.asigna 0 ∉ d'.hechos) :
    Paso sb x S (fun y q => S y q ∨ y = x ∧ Inicia (ptrsPorBloque sb) k q) E d d' := by
  simp only [Rfs.agregarBloque, Option.bind_eq_bind, Option.bind_eq_some_iff] at run
  obtain ⟨⟨b, d1⟩, asked, d2, levels, stores⟩ := run
  have stored2 := fun member => stored ((agregarAInodo_deriva stores).mem_hechos member)
  obtain ⟨bound, nonzero⟩ : k < 12 + ptrsPorBloque sb + ptrsPorBloque sb * ptrsPorBloque sb +
      ptrsPorBloque sb * ptrsPorBloque sb * ptrsPorBloque sb ∧ b ≠ 0 := by
    have again := stores
    simp only [Rfs.agregarAInodo, Option.bind_eq_bind, Option.bind_eq_some_iff,
      Option.some.injEq] at again
    obtain ⟨slot, found, rfl⟩ := again
    refine ⟨getPtr_some d2 x found, ?_⟩
    rintro rfl
    exact stored (List.mem_cons_self ..)
  obtain ⟨small, waiting, taken⟩ := Paso.pedir (x := x) geo obra asked nonzero
  have counted : Paso sb x S S (fun c => E c ∨ c = b) d1 (sumaBloques sb d1 x) :=
    .nrBlocks taken.obra _
  have start : Paso sb x S (conHasta sb S x k 1) (fun c => E c ∨ c = b) d (sumaBloques sb d1 x) :=
    (taken.crecer counted (fun _ _ => id) fun _ _ => id).of_iff conHasta_one
  have mapped := indirecciones geo start.obra vivos bound levels stored2
  have sub : ∀ y q, conHasta sb S x k 1 y q →
      conHasta sb S x k (camino (ptrsPorBloque sb) k).length y q := by
    intro y q member
    exact .inl ((conHasta_one y q).mp member)
  have last := agregarAInodo geo mapped.obra waiting small vivos stores
  refine ((start.crecer mapped (fun y q => .inl) sub).crecer last (fun y q => .inl) ?_)
  rintro y q (old | ⟨here, starts, -⟩)
  · exact .inl old
  · exact .inr ⟨here, starts⟩

/-- The position of one length that starts at `k` goes, the longer ones being gone. -/
theorem etapaLiberar (geo : Geometria sb) (first : sb.firstDataBlock = 1)
    (obra : Obra sb (sinDesde sb S x k (largo + 1)) E d)
    (vivos : ∀ q, S x q ↔ Vivo (ptrsPorBloque sb) (k + 1) q)
    (starts : Inicia (ptrsPorBloque sb) k (i :: p)) (length : (i :: p).length = largo)
    (only : ∀ q, q.length = largo → Inicia (ptrsPorBloque sb) k q → q = i :: p)
    (run : liberarBloque sb d (slotDe sb d x (i :: p)) = some d') :
    Paso sb x (sinDesde sb S x k (largo + 1)) (sinDesde sb S x k largo) E d d' := by
  have member : sinDesde sb S x k (largo + 1) x (i :: p) :=
    ⟨(vivos _).mpr ⟨k, by omega, starts⟩, fun gone => by omega⟩
  have leaf : ∀ j, ¬sinDesde sb S x k (largo + 1) x (j :: i :: p) := by
    rintro j ⟨old, kept⟩
    obtain ⟨k', below, inside⟩ := (vivos _).mp old
    obtain ⟨-, k'', earlier, up⟩ := inside.parent
    have same := starts.unique up
    obtain rfl : k' = k := by omega
    exact kept ⟨rfl, inside, by rw [← length]; simp⟩
  refine (Paso.liberar geo first obra member leaf run).of_iff fun y q => ⟨fun rest => ?_, ?_⟩
  · refine ⟨sinDesde_mono y q rest, ?_⟩
    rintro ⟨rfl, rfl⟩
    exact rest.2 ⟨rfl, starts, by omega⟩
  · rintro ⟨⟨old, kept⟩, other⟩
    refine ⟨old, ?_⟩
    rintro ⟨rfl, here, long⟩
    rcases Nat.lt_or_eq_of_le long with longer | same
    · exact kept ⟨rfl, here, longer⟩
    · exact other ⟨rfl, only q same.symm here⟩

theorem etapaLiberarSi {C : Prop} [Decidable C] (geo : Geometria sb)
    (first : sb.firstDataBlock = 1) (obra : Obra sb (sinDesde sb S x k (largo + 1)) E d)
    (vivos : ∀ q, S x q ↔ Vivo (ptrsPorBloque sb) (k + 1) q) (length : (i :: p).length = largo)
    (only : ∀ q, q.length = largo → (Inicia (ptrsPorBloque sb) k q ↔ C ∧ q = i :: p))
    (run : liberarSi sb (decide C) d x (slotDe sb d x (i :: p)) = some d') :
    Paso sb x (sinDesde sb S x k (largo + 1)) (sinDesde sb S x k largo) E d d' := by
  rw [liberarSi] at run
  split at run
  · rename_i wanted
    simp only [Option.bind_eq_bind, Option.bind_eq_some_iff, Option.some.injEq] at run
    obtain ⟨d1, freed, rfl⟩ := run
    have starts := (only _ length).mpr ⟨of_decide_eq_true wanted, rfl⟩
    have step := etapaLiberar geo first obra vivos starts length
      (fun q same here => ((only q same).mp here).2) freed
    have counted : Paso sb x (sinDesde sb S x k largo) (sinDesde sb S x k largo) E d1
        (restaBloques sb d1 x) := .nrBlocks step.obra _
    exact step.menguar counted sinDesde_mono fun _ _ => id
  · rename_i unwanted
    cases run
    refine (Paso.refl obra).of_iff fun y q => ⟨sinDesde_mono y q, ?_⟩
    rintro ⟨old, kept⟩
    refine ⟨old, ?_⟩
    rintro ⟨rfl, here, long⟩
    rcases Nat.lt_or_eq_of_le long with longer | same
    · exact kept ⟨rfl, here, longer⟩
    · exact unwanted (decide_eq_true ((only q same.symm).mp here).1)

/-- The slot of a position whose own block is still held. -/
theorem slotDe_eq (paso : Paso sb x S T E d d') {j : Nat} (old : S x (j :: p))
    (kept : T x (j :: p)) : slotDe sb d' x (i :: j :: p) = slotDe sb d x (i :: j :: p) := by
  rw [slotDe, slotDe, paso.valor x (j :: p) old kept]

/-- The indirection blocks only logical block `k` needed. -/
theorem sinIndirecciones (geo : Geometria sb) (first : sb.firstDataBlock = 1)
    (obra : Obra sb (sinDesde sb S x k (camino (ptrsPorBloque sb) k).length) E d)
    (vivos : ∀ q, S x q ↔ Vivo (ptrsPorBloque sb) (k + 1) q)
    (bound : k < 12 + ptrsPorBloque sb + ptrsPorBloque sb * ptrsPorBloque sb +
      ptrsPorBloque sb * ptrsPorBloque sb * ptrsPorBloque sb)
    (run : liberarIndirecciones sb d x k = some d') :
    Paso sb x (sinDesde sb S x k (camino (ptrsPorBloque sb) k).length) (sinDesde sb S x k 1)
      E d d' := by
  cases region bound with
  | directo h =>
    rw [liberarIndirecciones_directo d x h] at run
    cases run
    rw [camino_directo h] at obra ⊢
    exact .refl obra
  | simple ha =>
    rw [liberarIndirecciones_simple d x ha] at run
    rw [camino_simple ha] at obra ⊢
    exact etapaLiberarSi geo first obra vivos rfl (fun q => (inicia_simple_length ha q).1) run
  | doble ha hb =>
    rw [liberarIndirecciones_doble d x ha hb] at run
    obtain ⟨d1, inner, outer⟩ := Option.bind_eq_some_iff.mp run
    rw [camino_doble ha hb] at obra ⊢
    have two := etapaLiberarSi geo first obra vivos rfl
      (fun q => (inicia_doble_length ha hb q).2.1) inner
    have one := etapaLiberarSi geo first two.obra vivos rfl
      (fun q => (inicia_doble_length ha hb q).1) outer
    exact two.menguar one sinDesde_mono sinDesde_mono
  | @triple a b c ha hb hc =>
    rw [liberarIndirecciones_triple d x ha hb hc] at run
    obtain ⟨d1, inner, run⟩ := Option.bind_eq_some_iff.mp run
    obtain ⟨d2, middle, outer⟩ := Option.bind_eq_some_iff.mp run
    rw [camino_triple hb hc] at obra ⊢
    have three := etapaLiberarSi geo first obra vivos rfl
      (fun q => (inicia_triple_length ha hb hc q).2.2.1) inner
    -- the triple block itself is still there, so that its slot is the one computed first
    have root : ∀ largo, 1 < largo → sinDesde sb S x
        (12 + ptrsPorBloque sb + ptrsPorBloque sb * ptrsPorBloque sb +
          ((a * ptrsPorBloque sb + b) * ptrsPorBloque sb + c)) largo x [14] := by
      intro largo long
      refine ⟨(vivos _).mpr ⟨_, ?_, .triple⟩, ?_⟩
      · omega
      · rintro ⟨-, -, short⟩
        simp only [List.length_singleton] at short
        omega
    have slot := three.slotDe_eq (i := a) (root _ (by simp)) (root _ (by simp))
    rw [← slot] at middle
    have two := etapaLiberarSi geo first three.obra vivos rfl
      (fun q => (inicia_triple_length ha hb hc q).2.1) middle
    have one := etapaLiberarSi geo first two.obra vivos rfl
      (fun q => (inicia_triple_length ha hb hc q).1) outer
    exact (three.menguar two sinDesde_mono sinDesde_mono).menguar one
      (fun y q member => sinDesde_mono y q (sinDesde_mono y q member)) sinDesde_mono

/-- A file loses its last block, the one of logical number `k`. -/
theorem quitarBloque (geo : Geometria sb) (first : sb.firstDataBlock = 1) (obra : Obra sb S E d)
    (vivos : ∀ q, S x q ↔ Vivo (ptrsPorBloque sb) (k + 1) q)
    (run : quitarBloque sb d x k = some d') :
    Paso sb x S (fun y q => S y q ∧ ¬(y = x ∧ Inicia (ptrsPorBloque sb) k q)) E d d' := by
  simp only [Rfs.quitarBloque, Option.bind_eq_bind, Option.bind_eq_some_iff] at run
  obtain ⟨slot, found, d1, freed, levels⟩ := run
  have bound := getPtr_some d x found
  rw [getPtr_camino d x bound] at found
  cases found
  have starts := inicia_camino bound
  obtain ⟨i, p, shape⟩ := List.exists_cons_of_ne_nil starts.ne_nil
  rw [shape] at freed starts
  have longest : ∀ y q, sinDesde sb S x k ((camino (ptrsPorBloque sb) k).length + 1) y q ↔
      S y q := by
    refine fun y q => ⟨And.left, fun old => ⟨old, ?_⟩⟩
    rintro ⟨rfl, here, long⟩
    rcases inicia_length bound here with shorter | rfl <;> omega
  have full : Paso sb x S (sinDesde sb S x k ((camino (ptrsPorBloque sb) k).length + 1)) E d d :=
    (Paso.refl obra).of_iff longest
  have data := etapaLiberar geo first full.obra vivos starts (by rw [shape]) (by
      intro q same here
      rcases inicia_length bound here with shorter | equal
      · omega
      · rw [equal, shape]) freed
  have counted : Paso sb x _ _ E d1 (restaBloques sb d1 x) := .nrBlocks data.obra _
  have rest := sinIndirecciones geo first counted.obra vivos bound levels
  have sub : ∀ y q, sinDesde sb S x k 1 y q →
      sinDesde sb S x k (camino (ptrsPorBloque sb) k).length y q := by
    refine fun y q member => ⟨member.1, fun gone => member.2 ⟨gone.1, gone.2.1, ?_⟩⟩
    exact List.length_pos_of_ne_nil gone.2.1.ne_nil
  have whole := (full.menguar data (fun y q => (longest y q).mp) sinDesde_mono).menguar
    (counted.menguar rest (fun _ _ => id) sub) (fun y q => And.left) sub
  refine whole.of_iff fun y q => ⟨fun member => ⟨member.1, ?_⟩, fun member => ⟨member.1, ?_⟩⟩
  · exact fun gone => member.2 ⟨gone.1, gone.2.1⟩
  · exact fun gone => member.2 ⟨gone.1, gone.2, List.length_pos_of_ne_nil gone.2.ne_nil⟩

end Paso

end LosAltos.Rfs
