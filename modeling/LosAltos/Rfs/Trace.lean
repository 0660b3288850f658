import LosAltos.Rfs.Directory

/-!
# The trace of an operation

Whatever an operation of the filesystem does, its trace grows, and a byte of the mapped
file changes only under a write the trace shows. Nothing is assumed of the disk.
-/
namespace LosAltos.Rfs

open Lib

/-- `j` lies outside every write of the trace. -/
def Intacto (hechos : List Hecho) (j : Int) : Prop :=
  ∀ dir n, Hecho.escribe dir n ∈ hechos → j < dir ∨ dir + n ≤ j

def Deriva (d d' : Disco) : Prop :=
  ∃ nuevos, d'.hechos = nuevos ++ d.hechos ∧ ∀ j, Intacto nuevos j → d'.mem j = d.mem j

namespace Deriva

theorem refl (d : Disco) : Deriva d d := ⟨[], rfl, fun _ _ => rfl⟩

theorem trans {d d' d'' : Disco} (first : Deriva d d') (second : Deriva d' d'') : Deriva d d'' := by
  obtain ⟨hs, trace, same⟩ := first
  obtain ⟨hs', trace', same'⟩ := second
  refine ⟨hs' ++ hs, by rw [trace', trace, List.append_assoc], fun j outside => ?_⟩
  rw [same' j fun dir n member => outside dir n (List.mem_append_left _ member),
    same j fun dir n member => outside dir n (List.mem_append_right _ member)]

/-- Tables and inodes are no bytes. -/
theorem of_eq {d d' : Disco} (trace : d'.hechos = d.hechos) (bytes : d'.mem = d.mem) :
    Deriva d d' := ⟨[], trace, fun j _ => congrFun bytes j⟩

theorem anota (d : Disco) (h : Hecho) : Deriva d (d.anota h) := ⟨[h], rfl, fun _ _ => rfl⟩

theorem copia (d : Disco) (dir : Int) (bytes : List UInt8) : Deriva d (d.copia dir bytes) := by
  refine ⟨[.escribe dir bytes.length], rfl, fun j outside => ?_⟩
  have away := outside dir bytes.length (List.mem_singleton.mpr rfl)
  have off : ¬(dir ≤ j ∧ j < dir + bytes.length) := by omega
  simp [Disco.copia, escribir, off]

theorem mem_hechos {d d' : Disco} (derives : Deriva d d') {h : Hecho} (member : h ∈ d.hechos) :
    h ∈ d'.hechos := by
  obtain ⟨hs, trace, -⟩ := derives
  rw [trace]
  exact List.mem_append_right hs member

end Deriva

theorem grabarSlot_deriva (d : Disco) (slot : Slot) (b : Nat) : Deriva d (grabarSlot d slot b) := by
  cases slot with
  | inodo x i => exact .of_eq rfl rfl
  | disco dir => exact .copia d dir _

theorem asignar_deriva (d : Disco) (slot : Slot) (b : Nat) : Deriva d (asignar d slot b) :=
  (grabarSlot_deriva d slot b).trans (.anota _ _)

theorem grabarEntrada_deriva (d : Disco) (inicio : Int) (desp : Nat) (e : DirEntry) :
    Deriva d (grabarEntrada d inicio desp e) :=
  (Deriva.copia d _ _).trans (.anota _ _)

variable {sb : Superblock} {d d' : Disco} {x k : Nat} {slot : Slot}

theorem liberarBloque_deriva (run : liberarBloque sb d slot = some d') : Deriva d d' := by
  simp only [liberarBloque, Option.bind_eq_bind, Option.bind_eq_some_iff, Option.some.injEq] at run
  obtain ⟨grupo, -, rfl⟩ := run
  refine (Deriva.anota d (.libera (leerSlot d slot))).trans (.trans ?_ (grabarSlot_deriva _ slot 0))
  exact .of_eq rfl rfl

theorem getBloqueLibre_deriva {b : Nat} (run : getBloqueLibre sb d = some (b, d')) :
    Deriva d d' := by
  simp only [getBloqueLibre, Option.bind_eq_bind, Option.bind_eq_some_iff] at run
  obtain ⟨⟨nro, lleno⟩, -, run⟩ := run
  split at run
  · cases run
    exact .trans (.of_eq rfl rfl) (.anota { d with nroDeGrupo := nro } _)
  · simp only [actualizarEstructurasCuandoPidoBloque, Option.bind_eq_bind, Option.bind_eq_some_iff,
      Option.some.injEq] at run
    obtain ⟨after, ⟨grupo, -, rfl⟩, run⟩ := run
    cases run
    exact .trans (.of_eq rfl rfl) (.anota _ _)

theorem agregarAInodo_deriva {b : Nat} (run : agregarAInodo sb d x k b = some d') :
    Deriva d d' := by
  simp only [agregarAInodo, Option.bind_eq_bind, Option.bind_eq_some_iff, Option.some.injEq] at run
  obtain ⟨slot, -, rfl⟩ := run
  exact asignar_deriva d slot b

/-! ### Truncation -/

theorem liberarSi_deriva {condicion : Bool} (run : liberarSi sb condicion d x slot = some d') :
    Deriva d d' := by
  rw [liberarSi] at run
  split at run
  · simp only [Option.bind_eq_bind, Option.bind_eq_some_iff, Option.some.injEq] at run
    obtain ⟨after, freed, rfl⟩ := run
    exact (liberarBloque_deriva freed).trans (.of_eq rfl rfl)
  · cases run
    exact .refl d

theorem liberarIndirecciones_deriva (run : liberarIndirecciones sb d x k = some d') :
    Deriva d d' := by
  simp only [liberarIndirecciones, Option.bind_eq_bind] at run
  split at run
  · exact liberarSi_deriva run
  split at run
  · obtain ⟨d1, inner, outer⟩ := Option.bind_eq_some_iff.mp run
    exact (liberarSi_deriva inner).trans (liberarSi_deriva outer)
  split at run
  · obtain ⟨d1, inner, run⟩ := Option.bind_eq_some_iff.mp run
    obtain ⟨d2, middle, outer⟩ := Option.bind_eq_some_iff.mp run
    exact (liberarSi_deriva inner).trans ((liberarSi_deriva middle).trans (liberarSi_deriva outer))
  · cases run
    exact .refl d

theorem quitarBloque_deriva (run : quitarBloque sb d x k = some d') : Deriva d d' := by
  simp only [quitarBloque, Option.bind_eq_bind, Option.bind_eq_some_iff] at run
  obtain ⟨slot, -, d1, freed, run⟩ := run
  refine (liberarBloque_deriva freed).trans (.trans ?_ (liberarIndirecciones_deriva run))
  exact .of_eq rfl rfl

/-- A block that goes leaves its mark. -/
theorem liberarBloque_libera (run : liberarBloque sb d slot = some d') :
    ∃ b, Hecho.libera b ∈ d'.hechos := by
  simp only [liberarBloque, Option.bind_eq_bind, Option.bind_eq_some_iff, Option.some.injEq] at run
  obtain ⟨grupo, -, rfl⟩ := run
  exact ⟨leerSlot d slot, (grabarSlot_deriva _ slot 0).mem_hechos (List.mem_cons_self ..)⟩

theorem quitarBloque_libera (run : quitarBloque sb d x k = some d') :
    ∃ b, Hecho.libera b ∈ d'.hechos := by
  simp only [quitarBloque, Option.bind_eq_bind, Option.bind_eq_some_iff] at run
  obtain ⟨slot, -, d1, freed, run⟩ := run
  obtain ⟨b, member⟩ := liberarBloque_libera freed
  exact ⟨b, (liberarIndirecciones_deriva run).mem_hechos member⟩

theorem achicar_deriva (fuel : Nat) {eof falta eof' : Nat}
    (run : achicar sb fuel d x eof falta = some (d', eof')) : Deriva d d' := by
  induction fuel generalizing d eof falta with
  | zero => simp [achicar] at run
  | succ fuel ih =>
    simp only [achicar] at run
    split at run
    · cases run
      exact .refl _
    split at run
    · simp only [Option.bind_eq_bind, Option.bind_eq_some_iff] at run
      obtain ⟨d1, removed, run⟩ := run
      exact (quitarBloque_deriva removed).trans (ih run)
    · exact ih run

theorem pedirSi_deriva {condicion : Bool} (run : pedirSi sb condicion d slot = some d') :
    Deriva d d' := by
  rw [pedirSi] at run
  split at run
  · simp only [Option.bind_eq_bind, Option.bind_eq_some_iff, Option.some.injEq] at run
    obtain ⟨⟨b, d1⟩, asked, rfl⟩ := run
    exact (getBloqueLibre_deriva asked).trans (asignar_deriva d1 slot b)
  · cases run
    exact .refl d

theorem pedirContadoSi_deriva {condicion : Bool}
    (run : pedirContadoSi sb condicion d x slot = some d') : Deriva d d' := by
  simp only [pedirContadoSi, Option.bind_eq_bind, Option.bind_eq_some_iff, Option.some.injEq] at run
  obtain ⟨d1, asked, rfl⟩ := run
  refine (pedirSi_deriva asked).trans ?_
  split
  · exact .of_eq rfl rfl
  · exact .refl d1

theorem pedirIndirecciones_deriva (run : pedirIndirecciones sb d x k = some d') :
    Deriva d d' := by
  simp only [pedirIndirecciones, Option.bind_eq_bind] at run
  split at run
  · exact pedirSi_deriva run
  split at run
  · obtain ⟨d1, outer, inner⟩ := Option.bind_eq_some_iff.mp run
    exact (pedirContadoSi_deriva outer).trans (pedirContadoSi_deriva inner)
  split at run
  · obtain ⟨d1, outer, run⟩ := Option.bind_eq_some_iff.mp run
    obtain ⟨d2, middle, inner⟩ := Option.bind_eq_some_iff.mp run
    exact (pedirContadoSi_deriva outer).trans
      ((pedirContadoSi_deriva middle).trans (pedirContadoSi_deriva inner))
  · cases run
    exact .refl d

theorem agregarBloque_deriva (run : agregarBloque sb d x k = some d') : Deriva d d' := by
  simp only [agregarBloque, Option.bind_eq_bind, Option.bind_eq_some_iff] at run
  obtain ⟨⟨b, d1⟩, asked, d2, levels, stored⟩ := run
  have counted : Deriva d1 (sumaBloques sb d1 x) := .of_eq rfl rfl
  exact (getBloqueLibre_deriva asked).trans
    (counted.trans ((pedirIndirecciones_deriva levels).trans (agregarAInodo_deriva stored)))

theorem agregarBloqueSi_deriva {condicion : Bool}
    (run : agregarBloqueSi sb condicion d x k = some d') : Deriva d d' := by
  rw [agregarBloqueSi] at run
  split at run
  · exact agregarBloque_deriva run
  · cases run
    exact .refl d

theorem completarBloque_deriva {offset size : Nat}
    (run : completarBloque sb d x offset size = some d') : Deriva d d' := by
  simp only [completarBloque, Option.bind_eq_bind, Option.bind_eq_some_iff,
    Option.some.injEq] at run
  obtain ⟨ptr, -, rfl⟩ := run
  exact .copia d ptr _

theorem agrandar_deriva (fuel : Nat) {eof falta eof' : Nat}
    (run : agrandar sb fuel d x eof falta = some (d', eof')) : Deriva d d' := by
  induction fuel generalizing d eof falta with
  | zero => simp [agrandar] at run
  | succ fuel ih =>
    simp only [agrandar] at run
    split at run
    · cases run
      exact .refl _
    simp only [Option.bind_eq_bind, Option.bind_eq_some_iff] at run
    obtain ⟨d1, mapped, d2, filled, run⟩ := run
    exact (agregarBloqueSi_deriva mapped).trans ((completarBloque_deriva filled).trans (ih run))

theorem truncarInodo_deriva {offset code : Nat}
    (run : truncarInodo sb d x offset = some (code, d')) : Deriva d d' := by
  simp only [truncarInodo] at run
  split at run
  · split at run
    · cases run
      exact .refl d
    simp only [Option.bind_eq_bind, Option.bind_eq_some_iff] at run
    obtain ⟨⟨d1, eof⟩, shrunk, run⟩ := run
    cases run
    exact (achicar_deriva _ shrunk).trans (.of_eq rfl rfl)
  split at run
  · simp only [Option.bind_eq_bind, Option.bind_eq_some_iff] at run
    obtain ⟨⟨d1, eof⟩, grown, run⟩ := run
    cases run
    exact (Deriva.anota d _).trans ((agrandar_deriva _ grown).trans (.of_eq rfl rfl))
  · cases run
    exact .refl d

theorem liberarBloques_deriva {ks : List Nat} (run : liberarBloques sb d x ks = some d') :
    Deriva d d' := by
  induction ks generalizing d with
  | nil =>
    cases run
    exact .refl _
  | cons k ks ih =>
    simp only [liberarBloques, Option.bind_eq_bind, Option.bind_eq_some_iff] at run
    obtain ⟨slot, -, d1, freed, run⟩ := run
    exact (liberarBloque_deriva freed).trans (ih run)

theorem liberarInodo_deriva (run : liberarInodo sb d x = some d') : Deriva d d' := by
  simp only [liberarInodo, Option.bind_eq_bind, Option.bind_eq_some_iff] at run
  obtain ⟨_, -, x', -, run⟩ := run
  split at run
  · simp only [Option.bind_eq_some_iff, Option.some.injEq] at run
    obtain ⟨d1, freed, grupo, -, rfl⟩ := run
    exact (liberarBloques_deriva freed).trans (.of_eq rfl rfl)
  · cases run

/-! ### Directories -/

theorem getInodoLibre_deriva {b : Nat} (run : getInodoLibre sb d = some (b, d')) :
    Deriva d d' := by
  rw [getInodoLibre] at run
  split at run
  · cases run
    exact .refl d
  · simp only [actualizarEstructurasCuandoPidoInodo, Option.bind_eq_bind, Option.bind_eq_some_iff,
      Option.some.injEq] at run
    obtain ⟨nro, -, after, ⟨grupo, -, rfl⟩, run⟩ := run
    cases run
    exact .of_eq rfl rfl

theorem agregarNuevaEntrada_deriva {inicio : Int} {desp size code : Nat} {nombre : Cadena}
    (run : agregarNuevaEntrada sb d inicio desp nombre size = some (code, d')) : Deriva d d' := by
  simp only [agregarNuevaEntrada, Option.bind_eq_bind, Option.bind_eq_some_iff] at run
  obtain ⟨⟨nro, d1⟩, asked, run⟩ := run
  refine (getInodoLibre_deriva asked).trans ?_
  split at run
  · simp only [Option.bind_eq_some_iff] at run
    obtain ⟨_, -, y, -, run⟩ := run
    cases run
    exact (grabarEntrada_deriva d1 inicio desp _).trans (.of_eq rfl rfl)
  · cases run
    exact .refl d1

theorem agregarEntradaDirectorio_deriva {nombre : Cadena} {code : Nat}
    (run : agregarEntradaDirectorio sb d x nombre = some (code, d')) : Deriva d d' := by
  simp only [agregarEntradaDirectorio, Option.bind_eq_bind, Option.bind_eq_some_iff] at run
  obtain ⟨hallada, -, run⟩ := run
  cases hallada with
  | some found =>
    obtain ⟨k, desp, anterior, e⟩ := found
    simp only [Option.bind_eq_some_iff] at run
    obtain ⟨inicio, -, ⟨error, d1⟩, added, run⟩ := run
    refine (agregarNuevaEntrada_deriva added).trans ?_
    split at run
    · cases run
      exact grabarEntrada_deriva d1 inicio desp _
    · cases run
      exact .refl d1
  | none =>
    simp only [Option.bind_eq_some_iff] at run
    obtain ⟨⟨b, d1⟩, asked, run⟩ := run
    refine (getBloqueLibre_deriva asked).trans ?_
    split at run
    · cases run
      exact .refl d1
    simp only [Option.bind_eq_some_iff] at run
    obtain ⟨d2, stored, inicio, -, ⟨error, d3⟩, added, run⟩ := run
    refine (Deriva.anota d1 _).trans ((agregarAInodo_deriva stored).trans
      ((agregarNuevaEntrada_deriva added).trans ?_))
    split at run
    · cases run
      exact .of_eq rfl rfl
    · cases run
      exact .refl d3

theorem eliminarEntradaDirectorio_deriva {nombre : Cadena}
    (run : eliminarEntradaDirectorio sb d x nombre = some d') : Deriva d d' := by
  simp only [eliminarEntradaDirectorio, Option.bind_eq_bind, Option.bind_eq_some_iff] at run
  obtain ⟨_, -, ⟨k, desp, anterior, e⟩, -, run⟩ := run
  simp only at run
  split at run
  · simp only [Option.bind_eq_some_iff] at run
    obtain ⟨slot, -, freed⟩ := run
    exact (Deriva.anota d _).trans (liberarBloque_deriva freed)
  · simp only [Option.bind_eq_some_iff, Option.some.injEq] at run
    obtain ⟨inicio, -, rfl⟩ := run
    exact grabarEntrada_deriva d inicio _ _

theorem setearInodo_deriva {mode : UInt16} {code : Nat}
    (run : setearInodo sb d x mode = some (code, d')) : Deriva d d' := by
  rw [setearInodo] at run
  split at run
  · simp only [Option.bind_eq_bind, Option.bind_eq_some_iff] at run
    obtain ⟨⟨b, d1⟩, asked, run⟩ := run
    have marked : Deriva d (d.ponInodo x { d.inodo x with mode, links := 2 }) := .of_eq rfl rfl
    refine marked.trans ((getBloqueLibre_deriva asked).trans ?_)
    split at run
    · cases run
      exact .refl d1
    · cases run
      exact (asignar_deriva d1 _ b).trans (.of_eq rfl rfl)
  · cases run
    exact .of_eq rfl rfl

theorem inicializarEntradasNuevoDir_deriva {nro : Nat}
    (run : inicializarEntradasNuevoDir sb d x nro = some d') : Deriva d d' := by
  simp only [inicializarEntradasNuevoDir, Option.bind_eq_bind, Option.bind_eq_some_iff,
    Option.some.injEq] at run
  obtain ⟨inicio, -, inicio', -, rfl⟩ := run
  exact (grabarEntrada_deriva d inicio 0 _).trans (grabarEntrada_deriva _ inicio' _ _)

theorem contarDirectorio_deriva {f : UInt16 → UInt16}
    (run : contarDirectorio sb d x f = some d') : Deriva d d' := by
  simp only [contarDirectorio, Option.bind_eq_bind, Option.bind_eq_some_iff,
    Option.some.injEq] at run
  obtain ⟨grupo, -, rfl⟩ := run
  exact .of_eq rfl rfl

/-! ### The five operations -/

theorem crearArchivo_deriva {path : Cadena} {mode : UInt32} {code : Nat}
    (run : crearArchivo sb d path mode = some (code, d')) : Deriva d d' := by
  simp only [crearArchivo, Option.bind_eq_bind, Option.bind_eq_some_iff] at run
  obtain ⟨nroInodoRuta, -, run⟩ := run
  split at run
  · simp only [Option.bind_eq_some_iff] at run
    obtain ⟨_, -, x, -, y, -, run⟩ := run
    split at run
    · simp only [Option.bind_eq_some_iff] at run
      obtain ⟨⟨error, d1⟩, added, run⟩ := run
      refine (agregarEntradaDirectorio_deriva added).trans ?_
      split at run
      · simp only [Option.bind_eq_some_iff] at run
        obtain ⟨_, -, _, -, z, -, run⟩ := run
        exact setearInodo_deriva run
      · cases run
        exact .refl d1
    · cases run
      exact .refl d
  · cases run
    exact .refl d

theorem iniciarDirectorio_deriva {path ruta : Cadena} {mode : UInt32} {code : Nat}
    (run : iniciarDirectorio sb d path ruta mode = some (code, d')) : Deriva d d' := by
  simp only [iniciarDirectorio, Option.bind_eq_bind, Option.bind_eq_some_iff] at run
  obtain ⟨_, -, _, -, z, -, ⟨error, d1⟩, set, run⟩ := run
  refine (setearInodo_deriva set).trans ?_
  split at run
  · simp only [Option.bind_eq_some_iff] at run
    obtain ⟨_, -, _, -, d2, entries, d3, counted, run⟩ := run
    cases run
    exact (inicializarEntradasNuevoDir_deriva entries).trans (contarDirectorio_deriva counted)
  · cases run
    exact .refl _

theorem crearDirectorio_deriva {path : Cadena} {mode : UInt32} {code : Nat}
    (run : crearDirectorio sb d path mode = some (code, d')) : Deriva d d' := by
  simp only [crearDirectorio, Option.bind_eq_bind, Option.bind_eq_some_iff] at run
  obtain ⟨nroInodoRuta, -, inodoRuta, -, run⟩ := run
  split at run
  · simp only [Option.bind_eq_some_iff] at run
    obtain ⟨y, -, run⟩ := run
    split at run
    · simp only [Option.bind_eq_some_iff] at run
      obtain ⟨x, -, ⟨error, d1⟩, added, run⟩ := run
      refine (agregarEntradaDirectorio_deriva added).trans ?_
      split at run
      · exact iniciarDirectorio_deriva run
      · cases run
        exact .refl _
    · cases run
      exact .refl _
  · cases run
    exact .refl _

theorem truncarArchivo_deriva {path : Cadena} {offset code : Nat}
    (run : truncarArchivo sb d path offset = some (code, d')) : Deriva d d' := by
  simp only [truncarArchivo, Option.bind_eq_bind, Option.bind_eq_some_iff] at run
  obtain ⟨_, -, run⟩ := run
  split at run
  · simp only [Option.bind_eq_some_iff] at run
    obtain ⟨nro, -, run⟩ := run
    split at run
    · simp only [Option.bind_eq_some_iff] at run
      obtain ⟨_, -, x, -, run⟩ := run
      exact truncarInodo_deriva run
    · cases run
      exact .refl d
  · cases run
    exact .refl d

theorem eliminarArchivo_deriva {path : Cadena} {code : Nat}
    (run : eliminarArchivo sb d path = some (code, d')) : Deriva d d' := by
  simp only [eliminarArchivo, Option.bind_eq_bind, Option.bind_eq_some_iff] at run
  obtain ⟨nroInodoRuta, -, inodoRuta, -, run⟩ := run
  split at run
  · simp only [Option.bind_eq_some_iff] at run
    obtain ⟨nro, -, run⟩ := run
    split at run
    · simp only [Option.bind_eq_some_iff] at run
      obtain ⟨⟨error, d1⟩, emptied, d2, freed, x, -, d3, removed, run⟩ := run
      cases run
      exact (truncarArchivo_deriva emptied).trans
        ((liberarInodo_deriva freed).trans (eliminarEntradaDirectorio_deriva removed))
    · cases run
      exact .refl d
  · cases run
    exact .refl d

theorem eliminarDirectorio_deriva {path : Cadena} {code : Nat}
    (run : eliminarDirectorio sb d path = some (code, d')) : Deriva d d' := by
  simp only [eliminarDirectorio, Option.bind_eq_bind, Option.bind_eq_some_iff] at run
  obtain ⟨nroInodoRuta, -, inodoRuta, -, run⟩ := run
  split at run
  · simp only [Option.bind_eq_some_iff] at run
    obtain ⟨nro, -, run⟩ := run
    split at run
    · simp only [Option.bind_eq_some_iff] at run
      obtain ⟨vacio, -, run⟩ := run
      split at run
      · simp only [Option.bind_eq_some_iff] at run
        obtain ⟨x, -, d1, removed, d2, freed, d3, counted, run⟩ := run
        cases run
        exact (eliminarEntradaDirectorio_deriva removed).trans
          ((liberarInodo_deriva freed).trans (contarDirectorio_deriva counted))
      · cases run
        exact .refl d
    · cases run
      exact .refl d
  · cases run
    exact .refl d

end LosAltos.Rfs
