import LosAltos.Rfs.BlockCount
import LosAltos.Rfs.EmptyDirectory

/-!
# Creations and removals inside a directory

`crearArchivo`, `crearDirectorio`, `eliminarArchivo` and `eliminarDirectorio`
(`funciones_rfs.c:811-882, 1010-1153`) with paths whose directory is the same inode. While that
directory stays in its first block it is removed just when it is empty.
-/
namespace LosAltos.Rfs

open Lib

/-- Directories can be read, and `x` is one block of entries in use. -/
structure UnBloque (sb : Superblock) (d : Disco) (x : Nat) : Prop where
  legibles : Legibles sb d
  bloque : ∃ p q rest, EnUnBloque sb d x p q rest

variable {sb : Superblock} {d d' d1 inicial : Disco} {x y z k code : Nat} {path nombre : Cadena}

/-! ### A creation -/

/-- Fields of the inode `y`, with no byte of a block written. -/
theorem UnBloque.inodo (kept : UnBloque sb d x) (other : x ≠ y) (mem : d'.mem = d.mem)
    (bits : d'.bitmapInodos = d.bitmapInodos) (inodes : ∀ w, w ≠ y → d'.inodo w = d.inodo w)
    (own : esInodo sb y → (d'.inodo y).tieneModo S_IFDIR → Legible sb d' y) : UnBloque sb d' x := by
  obtain ⟨readable, p, q, rest, one⟩ := kept
  have same : Conserva sb (deLosDemas sb d y) d d' := .de_inodos mem fun w far j => by
    rw [inodes w far]
  refine ⟨readable.conserva same own fun w far => .inr (by rw [inodes w far]; exact ⟨rfl, rfl⟩),
    p, q, rest, one.conserva other same ?_ (by rw [inodes x other]) (by rw [inodes x other])⟩
  rw [asignado, bits]
  exact one.asignado

theorem UnBloque.tablas (kept : UnBloque sb d x) (mem : d'.mem = d.mem)
    (bits : d'.bitmapInodos = d.bitmapInodos) (inodes : d'.inodo = d.inodo) : UnBloque sb d' x := by
  have positive := kept.bloque.choose_spec.choose_spec.choose_spec.asignado.1.1
  refine kept.inodo (y := 0) (by omega) mem bits (fun w _ => by rw [inodes]) fun none_there _ => ?_
  exact absurd none_there.1 (by decide)

/-- A new entry in the directory, and where its path leads. -/
theorem UnBloque.agregada {error : Nat} (geo : Geometria sb) (few : Numerable sb)
    (owner : Duenio sb d) (kept : UnBloque sb d x)
    (parent : getNroInodoDeLaDireccionDelPath sb d (separarPathParaNewDirEntry path).1 = some x)
    (missing : getNroInodoDeLaDireccionDelPath sb d path = some 0)
    (valid : NombreValido (separarPathParaNewDirEntry path).2)
    (room : hayLugar sb d x (separarPathParaNewDirEntry path).2)
    (run : agregarEntradaDirectorio sb d x (separarPathParaNewDirEntry path).2 = some (error, d1))
    (meets : Cumple sb d1) :
    error ≠ 0 ∧ d1 = d ∨ error = 0 ∧ UnBloque sb d1 x ∧ ∃ y, x ≠ y ∧ (d1.inodo y).size = 0 ∧
      ∀ r z, getNroInodoDeLaDireccionDelPath sb d1 path = some r →
        getInodo sb r = some (some z) → z = y := by
  obtain ⟨readable, p, q, rest, one⟩ := kept
  have nonzero : x ≠ 0 := by
    have := one.asignado.1.1
    omega
  have absent := (buscar_ausente nonzero parent missing one.directorio).2
  obtain ⟨⟨k, desp, anterior, e⟩, search⟩ := room
  rcases agregarEntradaDirectorio_hallada few search run with
    failed | ⟨rfl, bound, y, d2, asked, some_inode, same⟩
  · exact .inl failed
  obtain ⟨⟨q', rest', wider⟩, readable'⟩ := one.conEntrada geo few owner readable search bound asked
    some_inode valid (one.ausente geo absent) same
  refine .inr ⟨rfl, ⟨readable', p, q', rest', wider⟩, y,
    inodo_nuevo_ne few one.asignado asked some_inode, ?_, fun r z found node => ?_⟩
  · rw [same, conEntrada_inodo_self]
  · exact conEntrada_path geo few one.asignado.1 owner readable search bound asked some_inode same
      meets missing found node

theorem UnBloque.crearArchivo {mode : UInt32} (geo : Geometria sb) (few : Numerable sb)
    (owner : Duenio sb d) (kept : UnBloque sb d x)
    (parent : getNroInodoDeLaDireccionDelPath sb d (separarPathParaNewDirEntry path).1 = some x)
    (valid : NombreValido (separarPathParaNewDirEntry path).2)
    (room : hayLugar sb d x (separarPathParaNewDirEntry path).2)
    (run : crearArchivo sb d path mode = some (code, d')) (meets : Cumple sb d') :
    UnBloque sb d' x := by
  have inside := kept.bloque.choose_spec.choose_spec.choose_spec.asignado.1
  have nonzero : x ≠ 0 := by
    have := inside.1
    omega
  simp only [Rfs.crearArchivo, parent, Option.bind_eq_bind, Option.bind_some, ne_eq, nonzero,
    not_false_eq_true, ↓reduceIte, getInodo_of_esInodo inside, Option.bind_eq_some_iff] at run
  obtain ⟨r, found, run⟩ := run
  split at run
  · rename_i zero
    subst zero
    simp only [Option.bind_eq_some_iff] at run
    obtain ⟨⟨error, d1⟩, added, run⟩ := run
    split at run
    · rename_i zero
      subst zero
      simp only [Option.bind_eq_some_iff] at run
      obtain ⟨r, led, node, here, z, rfl, set⟩ := run
      have meets1 := meets.antes (setearInodo_deriva set)
      obtain ⟨-, rfl⟩ := setearInodo_archivo set
      rcases kept.agregada geo few owner parent found valid room added meets1 with
        ⟨failed, -⟩ | ⟨-, wider, y, other, -, leads⟩
      · exact absurd rfl failed
      obtain rfl := leads r z led here
      refine wider.inodo other rfl rfl (fun w far => if_neg far) fun _ directory => ?_
      simp only [INode.tieneModo, Disco.ponInodo, ↓reduceIte, beq_iff_eq] at directory
      exact absurd directory (modo_archivo _)
    · rename_i failed
      cases run
      rcases kept.agregada geo few owner parent found valid room added meets with
        ⟨-, rfl⟩ | ⟨zero, -⟩
      · exact kept
      · exact absurd zero failed
  · cases run
    exact kept

/-- A directory takes its block, and nothing is written yet. -/
theorem setearInodo_directorio {mode : UInt16} (kind : mode &&& 0xF000 = S_IFDIR)
    (run : setearInodo sb d y mode = some (code, d')) :
    d'.mem = d.mem ∧ d'.bitmapInodos = d.bitmapInodos ∧ (∀ w, w ≠ y → d'.inodo w = d.inodo w) ∧
      (code ≠ 0 → (d'.inodo y).size = (d.inodo y).size) := by
  rw [setearInodo, if_pos kind] at run
  simp only [Option.bind_eq_bind, Option.bind_eq_some_iff] at run
  obtain ⟨⟨b, d1⟩, asked, run⟩ := run
  have solo := getBloqueLibre_solo asked
  have inodes : ∀ w, w ≠ y → d1.inodo w = d.inodo w := fun w far => by
    rw [solo.inodo]
    exact if_neg far
  split at run
  · cases run
    refine ⟨solo.mem, solo.bitmapInodos, inodes, fun _ => ?_⟩
    rw [solo.inodo]
    simp [Disco.ponInodo]
  · cases run
    refine ⟨solo.mem, solo.bitmapInodos, fun w far => ?_, fun failed => absurd rfl failed⟩
    simp only [ponSize, asignar, grabarSlot, Disco.anota, Disco.ponInodo, if_neg far, inodes w far]

/-- The two entries of a new directory fill its block. -/
theorem inicializarEntradas_edita {E : Nat → Prop} {nro : Nat} (geo : Geometria sb)
    (valid : esInodo sb y) (obra : Obra sb (deTamanio sb d) E d) (number : nro < 2 ^ 32)
    (size : (d.inodo y).size.toNat = tamanioDeBloque sb)
    (run : inicializarEntradasNuevoDir sb d y nro = some d') :
    Edita sb (deTamanio sb d) E y 0 d d' ∧ Legible sb d' y ∧ d'.inodo = d.inodo ∧
      d'.bitmapInodos = d.bitmapInodos := by
  simp only [inicializarEntradasNuevoDir, Option.bind_eq_bind, Option.bind_eq_some_iff,
    Option.some.injEq] at run
  obtain ⟨inicio, place, inicio', place', rfl⟩ := run
  obtain ⟨bound, rfl⟩ := posicionarme_iff.mp place
  obtain ⟨-, rfl⟩ := posicionarme_iff.mp place'
  have vivos := deTamanio_vivo (d := d) valid
  have single : bloquesDe sb (d.inodo y).size.toNat = 1 := by rw [size, bloquesDe_uno]
  have owned : 0 < bloquesDe sb (d.inodo y).size.toNat := by omega
  have member : deTamanio sb d y (camino (ptrsPorBloque sb) 0) :=
    (vivos _).mpr ⟨0, owned, inicia_camino bound⟩
  have block := geo.tamanio
  have least : tamanioMinEntradaDirectorio [46] = 12 := rfl
  rw [least]
  have same : ∀ d1, Edita sb (deTamanio sb d) E y 0 d d1 → bloqueLogico sb d1 y 0 =
      bloqueLogico sb d y 0 := fun d1 edit => edit.valor y _ member
  generalize dot : entradaNueva d nro 12 [46] = p
  have fitsP : p.Cabe := dot ▸ entradaNueva_cabe number (by decide)
  have soundP : p.Sana := dot ▸ entradaNueva_sana (by decide) (by decide)
  have shapeP : p.entryLen = 12 ∧ p.nameLen = 1 ∧ p.name.length = 1 := dot ▸ ⟨rfl, rfl, rfl⟩
  have first : Edita sb (deTamanio sb d) E y 0 d (grabarEntrada d
      (posicionarInicioBloque sb (bloqueLogico sb d y 0)) 0 p) := by
    refine .grabarEntrada geo obra vivos bound owned rfl ?_
    rw [DirEntry.bytes_length]
    omega
  rw [same _ first]
  generalize wrote : grabarEntrada d (posicionarInicioBloque sb (bloqueLogico sb d y 0)) 0 p = d2
    at first
  generalize dots : entradaNueva d2 nro (tamanioDeBloque sb - 12) [46, 46] = q
  have fitsQ : q.Cabe := dots ▸ entradaNueva_cabe number (by omega)
  have soundQ : q.Sana :=
    dots ▸ entradaNueva_sana (by omega) (by simp only [List.length_cons]; omega)
  have shapeQ : q.entryLen = tamanioDeBloque sb - 12 ∧ q.nameLen = 2 ∧ q.name.length = 2 :=
    dots ▸ ⟨rfl, rfl, rfl⟩
  have second : Edita sb (deTamanio sb d) E y 0 d2 (grabarEntrada d2
      (posicionarInicioBloque sb (bloqueLogico sb d y 0)) 12 q) := by
    refine .grabarEntrada geo first.obra vivos bound owned (by rw [same _ first]) ?_
    rw [DirEntry.bytes_length]
    omega
  have edit := first.trans second member
  have chain : Entradas (grabarEntrada d2 (posicionarInicioBloque sb (bloqueLogico sb d y 0)) 12 q)
      (posicionarInicioBloque sb (bloqueLogico sb d y 0)) 0 (tamanioDeBloque sb) [p, q] := by
    have here : entradaEn d2 (posicionarInicioBloque sb (bloqueLogico sb d y 0)) 0 = p := by
      rw [← wrote]
      exact entradaEn_grabarEntrada_self fitsP
    refine Tramo.cons_iff.mpr ⟨?_, Tramo.cons_iff.mpr ⟨?_, Tramo.nil_iff.mpr (by omega)⟩⟩
    · rw [entradaEn_grabarEntrada_other (.inl (by rw [here]; omega)), here]
    · rw [shapeP.1]
      exact entradaEn_grabarEntrada_self fitsQ
  have inodes : d2.inodo = d.inodo ∧ d2.bitmapInodos = d.bitmapInodos := wrote ▸ ⟨rfl, rfl⟩
  refine ⟨edit, ⟨fun _ => [p, q], fun l below => ?_, fun l below e listed => ?_⟩, inodes⟩
  · change l < bloquesDe sb (d2.inodo y).size.toNat at below
    rw [inodes.1, single] at below
    obtain rfl : l = 0 := by omega
    refine ⟨bound, fun e listed => ?_, (same _ edit).symm ▸ chain⟩
    simp only [List.mem_cons, List.not_mem_nil, or_false] at listed
    rcases listed with rfl | rfl
    · exact soundP
    · exact soundQ
  · simp only [List.mem_cons, List.not_mem_nil, or_false] at listed
    rcases listed with rfl | rfl
    · rw [← dot]
      exact (by decide : 8 + 1 ≤ tamanioMinEntradaDirectorio (cadena [46]))
    · rw [← dots]
      exact (by decide : 8 + 2 ≤ tamanioMinEntradaDirectorio (cadena [46, 46]))

/-- A path leads to an inode of the volume, or nowhere. -/
theorem recorrerRuta_esInodo {r : Nat} (ruta : List Cadena) (start : esInodo sb x)
    (run : recorrerRuta sb d x ruta = some r) : r = 0 ∨ esInodo sb r := by
  induction ruta generalizing x with
  | nil =>
    cases run
    exact .inr start
  | cons nombre ruta ih =>
    rw [recorrerRuta] at run
    split at run
    · simp only [Option.bind_eq_bind, Option.bind_eq_some_iff] at run
      obtain ⟨next, -, run⟩ := run
      split at run
      · cases run
        exact .inl rfl
      · simp only [Option.bind_eq_some_iff] at run
        obtain ⟨node, here, v, present, run⟩ := run
        exact ih (getInodo_some here present).2 run
    · cases run
      exact .inl rfl

theorem getNro_esInodo {r : Nat}
    (run : getNroInodoDeLaDireccionDelPath sb d path = some r) : r = 0 ∨ esInodo sb r := by
  simp only [getNroInodoDeLaDireccionDelPath, Option.bind_eq_bind, Option.bind_eq_some_iff] at run
  obtain ⟨node, here, raiz, present, run⟩ := run
  exact recorrerRuta_esInodo _ (getInodo_some here present).2 run

theorem UnBloque.iniciarDirectorio {ruta : Cadena} {mode : UInt32} (geo : Geometria sb)
    (few : Numerable sb) (owner : Duenio sb d) (kept : UnBloque sb d x) (other : x ≠ y)
    (empty : (d.inodo y).size = 0)
    (leads : ∀ r z, getNroInodoDeLaDireccionDelPath sb d path = some r →
      getInodo sb r = some (some z) → z = y)
    (kind : (mode.toUInt16 ||| S_IFDIR) &&& 0xF000 = S_IFDIR)
    (run : iniciarDirectorio sb d path ruta mode = some (code, d')) : UnBloque sb d' x := by
  simp only [Rfs.iniciarDirectorio, Option.bind_eq_bind, Option.bind_eq_some_iff] at run
  obtain ⟨r, led, node, here, z, rfl, ⟨error, d1⟩, set, run⟩ := run
  obtain rfl := leads r z led here
  have valid := (getInodo_some here rfl).2
  obtain ⟨mem, bits, inodes, same⟩ := setearInodo_directorio kind set
  split at run
  · rename_i zero
    simp only [Option.bind_eq_some_iff] at run
    obtain ⟨nueva, found, padre, -, d2, wrote, d3, counted, run⟩ := run
    cases run
    obtain ⟨E, obra⟩ := duenio_setearInodo geo owner set
    have size := setearInodo_size kind set zero
    have block := geo.tamanio
    rw [Nat.mod_eq_of_lt (by omega)] at size
    have number : nueva < 2 ^ 32 := by
      rcases getNro_esInodo found with rfl | inside
      · decide
      · exact esInodo_lt few inside
    have filled := inicializarEntradas_edita geo valid obra number size wrote
    obtain ⟨edit, readableY, inodes2, bits2⟩ := filled
    have single : bloquesDe sb (d1.inodo z).size.toNat = 1 := by rw [size, bloquesDe_uno]
    have bound : 0 < alcance sb := by
      unfold alcance
      omega
    obtain ⟨readable, p, q, rest, one⟩ := kept
    have taken : Conserva sb (deLosDemas sb d z) d d1 := .de_inodos mem fun w far j => by
      rw [inodes w far]
    have written : Conserva sb (deLosDemas sb d1 z) d1 d2 :=
      edit.conserva_demas obra valid bound (by omega)
    have whole : Conserva sb (deLosDemas sb d z) d d2 := by
      refine taken.trans (written.mono ?_)
      rintro w l ⟨reach, far, held, live⟩
      rw [← inodes w far] at live
      exact ⟨reach, far, held, live⟩
    have two : UnBloque sb d2 x := by
      refine ⟨readable.conserva whole (fun _ _ => readableY) fun w far => .inr ?_, p, q, rest,
        one.conserva other whole ?_ ?_ ?_⟩
      · rw [inodes2, inodes w far]
        exact ⟨rfl, rfl⟩
      · rw [asignado, bits2, bits]
        exact one.asignado
      · rw [inodes2, inodes x other]
      · rw [inodes2, inodes x other]
    simp only [contarDirectorio, Option.bind_eq_bind, Option.bind_eq_some_iff,
      Option.some.injEq] at counted
    obtain ⟨grupo, -, rfl⟩ := counted
    exact two.tablas rfl rfl rfl
  · rename_i failed
    cases run
    refine kept.inodo other mem bits inodes fun _ _ => legible_vacio ?_
    rw [same failed, empty]

theorem UnBloque.crearDirectorio {mode : UInt32} (geo : Geometria sb) (few : Numerable sb)
    (owner : Duenio sb d) (kept : UnBloque sb d x)
    (parent : getNroInodoDeLaDireccionDelPath sb d (separarPathParaNewDirEntry path).1 = some x)
    (valid : NombreValido (separarPathParaNewDirEntry path).2)
    (room : hayLugar sb d x (separarPathParaNewDirEntry path).2)
    (kind : (mode.toUInt16 ||| S_IFDIR) &&& 0xF000 = S_IFDIR)
    (run : crearDirectorio sb d path mode = some (code, d')) (meets : Cumple sb d') :
    UnBloque sb d' x := by
  have inside := kept.bloque.choose_spec.choose_spec.choose_spec.asignado.1
  have nonzero : x ≠ 0 := by
    have := inside.1
    omega
  simp only [Rfs.crearDirectorio, parent, Option.bind_eq_bind, Option.bind_some, ne_eq, nonzero,
    not_false_eq_true, ↓reduceIte, getInodo_of_esInodo inside, Option.bind_eq_some_iff] at run
  obtain ⟨r, found, run⟩ := run
  split at run
  · rename_i zero
    subst zero
    simp only [Option.bind_eq_some_iff] at run
    obtain ⟨⟨error, d1⟩, added, run⟩ := run
    split at run
    · rename_i zero
      subst zero
      have meets1 := meets.antes (iniciarDirectorio_deriva run)
      have owner1 := duenio_agregarEntradaDirectorio geo inside owner added meets1
      rcases kept.agregada geo few owner parent found valid room added meets1 with
        ⟨failed, -⟩ | ⟨-, wider, y, other, empty, leads⟩
      · exact absurd rfl failed
      exact wider.iniciarDirectorio geo few owner1 other empty leads kind run
    · rename_i failed
      cases run
      rcases kept.agregada geo few owner parent found valid room added meets with
        ⟨-, rfl⟩ | ⟨zero, -⟩
      · exact kept
      · exact absurd zero failed
  · cases run
    exact kept

/-! ### A removal -/

/-- The inode `z` is released and no other is touched. -/
theorem UnBloque.suelta (kept : UnBloque sb d x) (other : x ≠ z)
    (same : Conserva sb (deOtros sb d z) d d')
    (others : ∀ w, w ≠ z → (d'.inodo w).mode = (d.inodo w).mode ∧
      (d'.inodo w).size = (d.inodo w).size ∧ (d'.inodo w).links = (d.inodo w).links)
    (empty : (d'.inodo z).size = 0) (freed : ∀ w, asignado sb d' w ↔ asignado sb d w ∧ w ≠ z) :
    UnBloque sb d' x := by
  obtain ⟨readable, p, q, rest, one⟩ := kept
  have reach : Conserva sb (deLosDemas sb d z) d d' := same.mono fun _ _ inside => inside.2
  refine ⟨readable.conserva reach (fun _ _ => legible_vacio empty) fun w far => .inr ?_,
    p, q, rest, one.conserva other reach ((freed x).mpr ⟨one.asignado, other⟩) ?_ ?_⟩
  · exact ⟨(others w far).1, (others w far).2.1⟩
  · exact (others x other).1
  · exact (others x other).2.1

theorem UnBloque.sinEntrada (geo : Geometria sb) (owner : Duenio sb d) (kept : UnBloque sb d x)
    (other : nombre ≠ punto ∧ nombre ≠ puntoPunto)
    (run : eliminarEntradaDirectorio sb d x nombre = some d') : UnBloque sb d' x := by
  obtain ⟨readable, p, q, rest, one⟩ := kept
  obtain ⟨⟨q', rest', less⟩, readable', -⟩ := one.sinEntrada geo owner readable other run
  exact ⟨readable', p, q', rest', less⟩

section
variable (geo : Geometria sb) (few : Numerable sb) (owner : Duenio sb d) (kept : UnBloque sb d x)
  (parent : getNroInodoDeLaDireccionDelPath sb d (separarPathParaNewDirEntry path).1 = some x)
  (other : (separarPathParaNewDirEntry path).2 ≠ punto ∧
    (separarPathParaNewDirEntry path).2 ≠ puntoPunto)
  (child : ∀ z, getNroInodoDeLaDireccionDelPath sb d path = some z → x ≠ z ∧
    resta32 z sb.firstDataBlock / sb.inodesPerGroup = (z - 1) / sb.inodesPerGroup)
include geo few owner kept parent other child

theorem UnBloque.eliminarArchivo (run : eliminarArchivo sb d path = some (code, d'))
    (meets : Cumple sb d') : UnBloque sb d' x := by
  rcases eliminarArchivo_some run with
    ⟨-, rfl⟩ | ⟨-, p, z, error, d1, d2, led, validP, found, valid, cut, gone, dropped⟩
  · exact kept
  obtain rfl := Option.some.inj (parent.symm.trans led)
  obtain ⟨far, group⟩ := child z found
  have released := soltado geo few valid owner cut gone
    (meets.antes (eliminarEntradaDirectorio_deriva dropped))
  have without := kept.suelta far released.conserva released.otros released.propio.2
    (released.libre group)
  exact without.sinEntrada geo released.duenio other dropped

theorem UnBloque.eliminarDirectorio (run : eliminarDirectorio sb d path = some (code, d'))
    (meets : Cumple sb d') : UnBloque sb d' x := by
  have inside := kept.bloque.choose_spec.choose_spec.choose_spec.asignado.1
  have nonzero : x ≠ 0 := by
    have := inside.1
    omega
  simp only [Rfs.eliminarDirectorio, parent, Option.bind_eq_bind, Option.bind_some, ne_eq, nonzero,
    not_false_eq_true, ↓reduceIte, getInodo_of_esInodo inside, Option.bind_eq_some_iff] at run
  obtain ⟨z, found, run⟩ := run
  split at run
  · simp only [Option.bind_eq_some_iff] at run
    obtain ⟨empty, -, run⟩ := run
    split at run
    · simp only [Option.bind_eq_some_iff] at run
      obtain ⟨d1, dropped, d2, gone, d3, counted, run⟩ := run
      cases run
      obtain ⟨far, group⟩ := child z found
      have meets2 := meets.antes (contarDirectorio_deriva counted)
      have owner1 := duenio_eliminarEntradaDirectorio geo inside owner dropped
        (meets2.antes (liberarInodo_deriva gone))
      have less := kept.sinEntrada geo owner other dropped
      have released := liberarInodo_some few gone
      have without := less.suelta far (liberarInodo_conserva geo owner1 gone meets2) released.otros
        released.propio.2.1 (released.libre group)
      simp only [contarDirectorio, Option.bind_eq_bind, Option.bind_eq_some_iff,
        Option.some.injEq] at counted
      obtain ⟨grupo, -, rfl⟩ := counted
      exact without.tablas rfl rfl rfl
    · cases run
      exact kept
  · cases run
    exact kept

end

/-! ### The directory itself is removed -/

/-- The entry that a name answers to can be removed, and the inode of a directory of one block is
as it was. -/
theorem eliminarEntrada_vuelve {p : Nat} (geo : Geometria sb) (covered : Cubierta sb)
    (owner : Duenio sb d) (kept : UnBloque sb d x) (valid : esInodo sb p)
    (directory : (d.inodo p).tieneModo S_IFDIR) (nonzero : z ≠ 0)
    (answer : buscarNroInodoEnEntradasDirectorio sb d p nombre = some z) :
    ∃ d', eliminarEntradaDirectorio sb d p nombre = some d' ∧ d'.inodo x = d.inodo x := by
  obtain ⟨readable, u, v, rest, one⟩ := kept
  obtain ⟨ess, chains, -⟩ := readable p valid directory
  have present : ∃ k < bloquesDe sb (d.inodo p).size.toNat, ∃ e ∈ ess k, e.llamada nombre := by
    rw [buscarNro_cadenas geo chains] at answer
    cases found : (List.range (bloquesDe sb (d.inodo p).size.toNat)).findSome?
        (fun k => resuelve nombre (ess k)) with
    | none =>
      rw [found] at answer
      simp only at answer
      split at answer
      · cases answer
        exact absurd rfl nonzero
      · cases answer
    | some r =>
      obtain ⟨k, listed, here⟩ := List.exists_of_findSome?_eq_some found
      obtain ⟨e, first, -⟩ := Option.bind_eq_some_iff.mp here
      have called := List.find?_some (p := fun e => DirEntry.llamada e nombre) first
      exact ⟨k, List.mem_range.mp listed, e, List.mem_of_find?_eq_some first, called⟩
  obtain ⟨k, desp, anterior, e, search⟩ := buscarEntrada_encuentra geo chains present
  obtain ⟨owned, found, before⟩ := buscarEntrada_cadenas geo chains search
  obtain ⟨-, -, chain⟩ := chains k owned
  obtain ⟨us, vs, shape, holds, others, -⟩ := primera_entradas chain found
  obtain ⟨d', run, -⟩ := quitar_una_entrada geo covered owner valid chains
    ⟨owned, shape, before, others, holds⟩
  refine ⟨d', run, ?_⟩
  obtain ⟨k', desp', anterior', e', again, bound, outcome⟩ := eliminarEntradaDirectorio_some run
  rcases outcome with ⟨alone, freed⟩ | ⟨-, previa, -, rfl⟩
  · rw [search] at again
    cases again
    have different : x ≠ p := by
      rintro rfl
      obtain ⟨-, -, us', vs', list, place, -⟩ := hallada_of_buscar geo
        (one.bloques ▸ one.cadenas : Cadenas sb d x (bloquesDe sb (d.inodo x).size.toNat)
          fun _ => u :: v :: rest) search
      obtain ⟨rfl, rfl⟩ := place.sola alone
      simp at list
    obtain ⟨d1, solo, rfl⟩ := liberarBloque_solo freed
    have inodes : d1.inodo = d.inodo := solo.inodo
    obtain ⟨i, q, place⟩ := List.exists_cons_of_ne_nil (inicia_camino bound).ne_nil
    rw [place]
    cases q with
    | nil => simp [slotDe, grabarSlot, Disco.ponInodo, different, inodes]
    | cons j q => simp [slotDe, slotDeBloque, grabarSlot, Disco.copia, inodes]
  · rfl

/-- A directory of one block can be released if the group that is looked for exists. -/
theorem liberarInodo_vuelve (geo : Geometria sb) (covered : Cubierta sb) (valid : esInodo sb x)
    (size : (d.inodo x).size.toNat = tamanioDeBloque sb) (nonzero : leerSlot d (.inodo x 0) ≠ 0)
    (inside : leerSlot d (.inodo x 0) < sb.blocks)
    (group : resta32 x sb.firstDataBlock / sb.inodesPerGroup < cantidadDeGrupos sb) :
    ∃ d', liberarInodo sb d x = some d' := by
  have block := geo.tamanio
  have ends : terminaOffset sb (tamanioDeBloque sb) = true := by
    rw [terminaOffset, bloquesDe_uno, decide_eq_true_iff]
    omega
  obtain ⟨d1, freed⟩ := liberarBloque_vuelve geo covered nonzero inside
  have place : getPtrNroBloqueLogicoDentroInodo sb d x 0 = some (.inodo x 0) := by
    rw [getPtr_camino d x (by omega), camino_directo (by omega)]
    rfl
  have all : liberarBloques sb d x (List.range (bloquesDe sb (tamanioDeBloque sb))) = some d1 := by
    rw [bloquesDe_uno, List.range_one, liberarBloques]
    refine Option.bind_eq_some_iff.mpr ⟨_, place, Option.bind_eq_some_iff.mpr ⟨d1, freed, ?_⟩⟩
    rw [liberarBloques]
  cases run : liberarInodo sb d x with
  | some d' => exact ⟨d', rfl⟩
  | none =>
    simp only [liberarInodo, getInodo_of_esInodo valid, Option.bind_eq_bind, Option.bind_some, size,
      ends, ↓reduceIte, all, leerGroupDescriptor, if_pos group, reduceCtorEq] at run

theorem UnBloque.vacioBien (geo : Geometria sb) (few : Numerable sb) (covered : Cubierta sb)
    (owner : Duenio sb d) (kept : UnBloque sb d x)
    (group : resta32 x sb.firstDataBlock / sb.inodesPerGroup < cantidadDeGrupos sb) :
    VacioBien sb d x := by
  obtain ⟨p, q, rest, one⟩ := kept.bloque
  have valid := one.asignado.1
  have nonzero : x ≠ 0 := by
    have := valid.1
    omega
  have told := one.vacio geo
  refine ⟨⟨_, told, by rw [List.isEmpty_iff, one.soloPuntos]⟩, fun path r leads empty => ?_,
    fun path r leads filled => ?_⟩
  · have parent := (getNro_esInodo leads.padre).resolve_left leads.hay
    obtain ⟨directory, answer⟩ := buscar_nombrada leads.hay leads.padre leads.destino nonzero
      leads.nombre
    obtain ⟨d1, dropped, same⟩ := eliminarEntrada_vuelve geo covered owner kept parent directory
      nonzero answer
    obtain ⟨E, obra⟩ := owner
    have member : deTamanio sb d x [0] := by
      refine (deTamanio_vivo valid _).mpr ⟨0, by rw [one.bloques]; omega, ?_⟩
      exact .directo (by omega)
    have word : leerSlot d1 (.inodo x 0) = (punteros sb d).valor x [0] := by
      simp only [leerSlot, Punteros.valor, punteros, same]
    obtain ⟨d2, gone⟩ := liberarInodo_vuelve (d := d1) geo covered valid (by rw [same, one.tamanio])
      (word ▸ (obra.libro.usado_of_mem member).1) (word ▸ obra.libro.rango x _ member) group
    have home : resta32 r 1 / sb.inodesPerGroup < cantidadDeGrupos sb := by
      rw [resta32_of_le parent.1 (esInodo_lt few parent)]
      exact parent.2
    have tell : directorioVacio sb d x = some true := by
      rw [told, one.soloPuntos.mp empty]
      rfl
    simp only [Rfs.eliminarDirectorio, leads.padre, leads.destino, Option.bind_eq_bind,
      Option.bind_some, ne_eq, leads.hay, nonzero, not_false_eq_true, ↓reduceIte,
      getInodo_of_esInodo parent, tell, dropped, gone, contarDirectorio, leerGroupDescriptor,
      if_pos home]
    exact ⟨_, rfl⟩
  · have parent := (getNro_esInodo leads.padre).resolve_left leads.hay
    have tell : directorioVacio sb d x = some false := by
      rw [told]
      cases rest with
      | nil => exact absurd (one.soloPuntos.mpr rfl) filled
      | cons e tail => rfl
    simp [Rfs.eliminarDirectorio, leads.padre, leads.destino, leads.hay, nonzero,
      getInodo_of_esInodo parent, tell]

/-! ### Every run inside the directory -/

section
variable (sb) (x : Nat)

/-- The call makes or takes an entry of the directory `x`. -/
def Dentro (d : Disco) : Llamada → Prop
  | .crearArchivo path _ | .crearDirectorio path _ | .eliminarArchivo path
  | .eliminarDirectorio path =>
    getNroInodoDeLaDireccionDelPath sb d (separarPathParaNewDirEntry path).1 = some x
  | .truncarArchivo .. => False

instance (d : Disco) : DecidablePred (Dentro sb x d)
  | .crearArchivo _ _ | .crearDirectorio _ _ | .eliminarArchivo _ | .eliminarDirectorio _ =>
    inferInstanceAs (Decidable (_ = _))
  | .truncarArchivo .. => isFalse id

/-- A new entry has a name of its length and finds room in the block; one that goes is neither `.`
nor `..`, and its inode is another and is released in its own group. -/
def EntraEnBloque (d : Disco) : Llamada → Prop
  | .crearArchivo path _ | .crearDirectorio path _ =>
    NombreValido (separarPathParaNewDirEntry path).2 ∧
      hayLugar sb d x (separarPathParaNewDirEntry path).2
  | .eliminarArchivo path | .eliminarDirectorio path =>
    ((separarPathParaNewDirEntry path).2 ≠ punto ∧
      (separarPathParaNewDirEntry path).2 ≠ puntoPunto) ∧
    ∀ z, getNroInodoDeLaDireccionDelPath sb d path = some z → x ≠ z ∧
      resta32 z sb.firstDataBlock / sb.inodesPerGroup = (z - 1) / sb.inodesPerGroup
  | .truncarArchivo .. => False

def QuedaEnBloque (d : Disco) (l : Llamada) : Prop :=
  ConservaDuenio sb d l ∧ Dentro sb x { d with hechos := [] } l ∧
    EntraEnBloque sb x { d with hechos := [] } l

end

theorem unBloque_atender (geo : Geometria sb) (few : Numerable sb) (owner : Duenio sb d)
    (kept : UnBloque sb d x) {l : Llamada} (meets : QuedaEnBloque sb x d l)
    (run : atender sb d l = some d') : UnBloque sb d' x := by
  have clean := owner.hechos []
  have start : UnBloque sb { d with hechos := [] } x := kept.tablas rfl rfl rfl
  obtain ⟨⟨kind, permitted⟩, inside, fits⟩ := meets
  rw [hechosDe, run] at permitted
  simp only [atender, Option.map_eq_some_iff] at run
  obtain ⟨⟨code, d1⟩, run, rfl⟩ := run
  cases l with
  | crearArchivo path mode =>
    exact start.crearArchivo geo few clean inside fits.1 fits.2 run permitted
  | crearDirectorio path mode =>
    exact start.crearDirectorio geo few clean inside fits.1 fits.2 kind run permitted
  | truncarArchivo path offset => exact inside.elim
  | eliminarArchivo path =>
    exact UnBloque.eliminarArchivo geo few clean start inside fits.1 fits.2 run permitted
  | eliminarDirectorio path =>
    exact UnBloque.eliminarDirectorio geo few clean start inside fits.1 fits.2 run permitted

theorem alcanzable_unBloque (geo : Geometria sb) (few : Numerable sb) (owner : Duenio sb inicial)
    (kept : UnBloque sb inicial x) (reached : Alcanzable sb (QuedaEnBloque sb x) inicial d) :
    Duenio sb d ∧ UnBloque sb d x := by
  induction reached with
  | inicio => exact ⟨owner, kept⟩
  | llamada d d' l _ meets run ih =>
    exact ⟨duenio_atender geo ih.1 meets.1 run, unBloque_atender geo few ih.1 ih.2 meets run⟩

/-- On an image below 4 GiB, a directory of one block without unused entries is told empty, and is
removed, just when it is, after every run of creations and removals inside it that find room in
that block. -/
theorem directorio_vacio_en_un_bloque (start : Consistente sb inicial)
    (small : sb.blocks * tamanioDeBloque sb ≤ 2 ^ 32) (few : Numerable sb) (covered : Cubierta sb)
    (group : resta32 x sb.firstDataBlock / sb.inodesPerGroup < cantidadDeGrupos sb)
    (first : UnBloque sb inicial x) (reached : Alcanzable sb (QuedaEnBloque sb x) inicial d) :
    VacioBien sb d x := by
  have geo := start.geometria small
  obtain ⟨owner, kept⟩ := alcanzable_unBloque geo few start.duenio first reached
  exact kept.vacioBien geo few covered owner group

/-- The image of `imagenConArchivo` with a directory `/b` and the empty file `/b/c`, its entry in
the first block of the directory or alone in a second one. -/
def imagenConDirectorio (doble : Bool) : Disco :=
  { imagenConArchivo 0 with
    freeBlocks := if doble then 19 else 20
    freeInodes := 3
    grupo := fun _ => ⟨if doble then 19 else 20, 3, 2⟩
    bitmapBloques := fun _ i => i + 1 ≤ if doble then 13 else 12
    bitmapInodos := fun _ i => i < 13
    inodo := fun x =>
      if x = 12 then
        ⟨S_IFDIR, if doble then 2048 else 1024, 2, if doble then 4 else 2,
          fun i => if i = 0 then 12 else if i = 1 ∧ doble then 13 else 0⟩
      else if x = 13 then ⟨S_IFREG, 0, 1, 0, fun _ => 0⟩
      else (imagenConArchivo 0).inodo x
    mem :=
      let raiz := escribir (imagenConArchivo 0).mem (posicionarInicioBloque (volumen 0) 10 + 24)
        (DirEntry.bytes ⟨11, 12, 1, 0, [97]⟩ ++ [0, 0, 0] ++ DirEntry.bytes ⟨12, 988, 1, 0, [98]⟩)
      let puntos := escribir raiz (posicionarInicioBloque (volumen 0) 12)
        (DirEntry.bytes ⟨12, 12, 1, 0, [46]⟩ ++ [0, 0, 0] ++
          DirEntry.bytes ⟨2, if doble then 1012 else 12, 2, 0, [46, 46]⟩)
      if doble then escribir puntos (posicionarInicioBloque (volumen 0) 13)
        (DirEntry.bytes ⟨13, 1024, 1, 0, [99]⟩)
      else escribir puntos (posicionarInicioBloque (volumen 0) 12 + 24)
        (DirEntry.bytes ⟨13, 1000, 1, 0, [99]⟩) }

theorem alcanza_imagenConDirectorio {doble : Bool} {x : Nat} {q : List Nat}
    (reached : alcanza (volumen 0) (imagenConDirectorio doble) x q) :
    (x = 2 ∨ x = 11 ∨ x = 12) ∧ q = [0] ∨ doble = true ∧ x = 12 ∧ q = [1] := by
  obtain ⟨-, k, below, starts⟩ := reached
  have blocks : bloquesDe (volumen 0) ((imagenConDirectorio doble).inodo x).size.toNat =
      if x = 12 then (if doble then 2 else 1) else if x = 2 ∨ x = 11 then 1 else 0 := by
    by_cases own : x = 12
    · subst own
      cases doble <;> rfl
    by_cases empty : x = 13
    · subst empty
      cases doble <;> rfl
    by_cases root : x = 2
    · subst root
      cases doble <;> rfl
    by_cases file : x = 11
    · subst file
      cases doble <;> rfl
    simp only [imagenConDirectorio, imagenConArchivo, own, empty, root, file, ↓reduceIte, or_self]
    rfl
  rw [blocks] at below
  have few : k < 2 := by split at below <;> split at below <;> omega
  have direct := (inicia_directo (by omega)).mp starts
  split at below
  · rename_i own
    cases doble with
    | false =>
      obtain rfl : k = 0 := by simpa using below
      exact .inl ⟨.inr (.inr own), direct⟩
    | true =>
      rcases (by omega : k = 0 ∨ k = 1) with rfl | rfl
      · exact .inl ⟨.inr (.inr own), direct⟩
      · exact .inr ⟨rfl, own, direct⟩
  split at below
  · rename_i own
    obtain rfl : k = 0 := by omega
    exact .inl ⟨own.imp id .inl, direct⟩
  · omega

theorem imagenConDirectorio_consistente (doble : Bool) :
    Consistente (volumen 0) (imagenConDirectorio doble) := by
  constructor
  case rango =>
    intro x q reached
    rcases alcanza_imagenConDirectorio reached with ⟨rfl | rfl | rfl, rfl⟩ | ⟨twice, rfl, rfl⟩ <;>
      cases doble <;> decide
  case propios =>
    constructor
    · intro x q reached
      rcases alcanza_imagenConDirectorio reached with ⟨rfl | rfl | rfl, rfl⟩ | ⟨twice, rfl, rfl⟩ <;>
        cases doble <;> first | exact ⟨by decide, by decide⟩ | contradiction
    · intro x q y r left right
      rcases alcanza_imagenConDirectorio left with ⟨rfl | rfl | rfl, rfl⟩ | ⟨twice, rfl, rfl⟩ <;>
        rcases alcanza_imagenConDirectorio right with ⟨rfl | rfl | rfl, rfl⟩ | ⟨same, rfl, rfl⟩ <;>
        cases doble <;> decide
  case vacios =>
    intro x valid free
    have positive := valid.1
    have late : 13 < x := by
      by_contra early
      refine free ⟨valid, ?_⟩
      have bit : (x - 1) % 16 < 13 := by omega
      simpa [imagenConDirectorio, volumen] using bit
    simp [imagenConDirectorio, imagenConArchivo, show x ≠ 2 by omega, show x ≠ 11 by omega,
      show x ≠ 12 by omega, show x ≠ 13 by omega]
  all_goals cases doble <;> decide +kernel

theorem imagenConDirectorio_unBloque : UnBloque (volumen 0) (imagenConDirectorio false) 12 := by
  have one : EnUnBloque (volumen 0) (imagenConDirectorio false) 12 ⟨12, 12, 1, 0, [46]⟩
      ⟨2, 12, 2, 0, [46, 46]⟩ [⟨13, 1000, 1, 0, [99]⟩] := by
    refine ⟨⟨by decide, by decide⟩, by decide, by decide, fun k below => ?_,
      ⟨rfl, rfl, rfl, by decide, by decide⟩⟩
    obtain rfl : k = 0 := by omega
    exact ⟨by decide, by decide, by decide +kernel⟩
  refine ⟨fun x valid directory => ?_, _, _, _, one⟩
  have only : ∀ x < 17, ((imagenConDirectorio false).inodo x).tieneModo S_IFDIR →
      x = 2 ∨ x = 12 := by
    decide +kernel
  rcases only x (esInodo_volumen valid) directory with rfl | rfl
  · refine ⟨fun _ => [⟨2, 12, 1, 0, [46]⟩, ⟨2, 12, 2, 0, [46, 46]⟩, ⟨11, 12, 1, 0, [97]⟩,
      ⟨12, 988, 1, 0, [98]⟩], fun k below => ?_, fun _ _ => by simp only; decide⟩
    have single : bloquesDe (volumen 0) ((imagenConDirectorio false).inodo 2).size.toNat = 1 := rfl
    obtain rfl : k = 0 := by omega
    exact ⟨by decide, by decide, by decide +kernel⟩
  · exact one.legible

/-- A second file comes, and both go. -/
theorem directorio_vacio_en_un_bloque_b : ∃ d, corrida (volumen 0) (imagenConDirectorio false)
    [.crearArchivo [47, 98, 47, 100] 0o644, .eliminarArchivo [47, 98, 47, 99],
      .eliminarArchivo [47, 98, 47, 100]] = some d ∧ VacioBien (volumen 0) d 12 := by
  have start : Alcanzable (volumen 0) (QuedaEnBloque (volumen 0) 12)
      (imagenConDirectorio false) _ := .inicio
  have first := start.sigue (.crearArchivo [47, 98, 47, 100] 0o644) ⟨by decide +kernel,
    by decide +kernel, ⟨by decide, by decide⟩, (0, 24, 12, ⟨13, 1000, 1, 0, [99]⟩),
    by decide +kernel⟩ (by decide +kernel)
  have second := first.sigue (.eliminarArchivo [47, 98, 47, 99]) ⟨by decide +kernel,
    by decide +kernel, by decide, fun z found => by
      rw [show getNroInodoDeLaDireccionDelPath (volumen 0) _ [47, 98, 47, 99] = some 13 by
        decide +kernel] at found
      cases found
      decide⟩ (by decide +kernel)
  have third := second.sigue (.eliminarArchivo [47, 98, 47, 100]) ⟨by decide +kernel,
    by decide +kernel, by decide, fun z found => by
      rw [show getNroInodoDeLaDireccionDelPath (volumen 0) _ [47, 98, 47, 100] = some 14 by
        decide +kernel] at found
      cases found
      decide⟩ (by decide +kernel)
  refine ⟨_, ?_, directorio_vacio_en_un_bloque (imagenConDirectorio_consistente false) (by decide)
    (by decide) (by decide) (by decide) imagenConDirectorio_unBloque third⟩
  rw [corrida_cons, corrida_cons, corrida_cons]
  rfl

/-- The entry of `/b/c` takes its block along and the size of `/b` stays: the directory is empty and
cannot be removed. -/
theorem directorio_vacio_de_dos_bloques : ¬∀ (sb : Superblock) (inicial d : Disco) (x : Nat),
    Consistente sb inicial → sb.blocks * tamanioDeBloque sb ≤ 2 ^ 32 → Numerable sb → Cubierta sb →
    resta32 x sb.firstDataBlock / sb.inodesPerGroup < cantidadDeGrupos sb → Legible sb inicial x →
    x ∈ directorios sb inicial →
    Alcanzable sb (fun d l => Dentro sb x { d with hechos := [] } l) inicial d →
    VacioBien sb d x := by
  intro all
  have start : Alcanzable (volumen 0) (fun d l => Dentro (volumen 0) 12 { d with hechos := [] } l)
      (imagenConDirectorio true) _ := .inicio
  have gone := start.sigue (.eliminarArchivo [47, 98, 47, 99]) (by decide +kernel)
    (by decide +kernel)
  have readable : Legible (volumen 0) (imagenConDirectorio true) 12 := by
    refine ⟨fun k => if k = 0 then [⟨12, 12, 1, 0, [46]⟩, ⟨2, 1012, 2, 0, [46, 46]⟩]
      else [⟨13, 1024, 1, 0, [99]⟩], fun k below => ?_, fun k below => ?_⟩
    all_goals
      have two : bloquesDe (volumen 0) ((imagenConDirectorio true).inodo 12).size.toNat = 2 := rfl
      rcases (by omega : k = 0 ∨ k = 1) with rfl | rfl
    · exact ⟨by decide, by decide, by decide +kernel⟩
    · exact ⟨by decide, by decide, by decide +kernel⟩
    · decide
    · decide
  have right := all _ _ _ 12 (imagenConDirectorio_consistente true) (by decide) (by decide)
    (by decide) (by decide) readable (by decide +kernel) gone
  obtain ⟨answer, told, exactly⟩ := right.vacio
  rw [exactly.mpr (by decide +kernel)] at told
  exact absurd told (by decide +kernel)

end LosAltos.Rfs
