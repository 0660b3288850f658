import LosAltos.Rfs.Truncate

/-!
# Directories and paths

`funciones_rfs.c:86-117, 243-296, 475-651, 811-1332`. A directory block is walked entry by
entry: `cantidad`, a `uint16_t`, says when to stop and the pointer itself moves on
without wrapping. Strings are lists of bytes without their final zero.
-/
namespace LosAltos.Rfs

open Lib

abbrev Cadena := List UInt8

/-- What a C function sees of `bytes` followed by a zero. -/
def cadena (bytes : List UInt8) : Cadena := bytes.takeWhile (· ≠ 0)

/-- `tolower` of the C locale. -/
def minuscula (c : UInt8) : UInt8 := if 65 ≤ c ∧ c ≤ 90 then c + 32 else c

/-- `string_equals_ignore_case`. -/
def igualSinCaso (a b : Cadena) : Bool := a.map minuscula == b.map minuscula

/-- `strtok_r` on `/`, as `string_split` calls it until it has no more tokens. -/
def stringSplit (path : Cadena) : List Cadena := (path.splitOn 47).filter (· ≠ [])

structure DirEntry where
  inode : Nat
  entryLen : Nat
  nameLen : Nat
  type : UInt8
  name : List UInt8
  deriving DecidableEq

def leerEntrada (d : Disco) (ptr : Int) : DirEntry :=
  let nameLen := fromLe (leer d.mem (ptr + 6) 1)
  { inode := fromLe (leer d.mem ptr 4)
    entryLen := fromLe (leer d.mem (ptr + 4) 2)
    nameLen
    type := d.mem (ptr + 7)
    name := leer d.mem (ptr + 8) nameLen }

def DirEntry.bytes (e : DirEntry) : List UInt8 :=
  toLe 4 e.inode ++ (toLe 2 e.entryLen ++ (toLe 1 e.nameLen ++ ([e.type] ++ e.name)))

/-- `grabarEntrada`, `desp` bytes into the directory block that starts at `inicio`. -/
def grabarEntrada (d : Disco) (inicio : Int) (desp : Nat) (e : DirEntry) : Disco :=
  (d.copia (inicio + desp) e.bytes).anota (.entrada desp e.bytes.length)

def tamanioMinEntradaDirectorio (nombre : Cadena) : Nat :=
  let tamanio := 8 + nombre.length
  let resto := tamanio % 4
  tamanio + if resto = 0 then 0 else 4 - resto

variable (sb : Superblock)

/-! ### Walking a directory -/

/-- The entries of the block at `inicio`, up to the first that satisfies `p`: its
displacement, the length of the entry before it, and the entry. -/
def recorrerBloque (d : Disco) (inicio : Int) (p : DirEntry → Bool) :
    Nat → Nat → Nat → Option (Option (Nat × Nat × DirEntry))
  | 0, _, _ => none
  | fuel + 1, desp, anterior =>
    if tamanioDeBloque sb ≤ desp % 2 ^ 16 then some none
    else
      let e := leerEntrada d (inicio + desp)
      if p e then some (some (desp, anterior, e))
      else recorrerBloque d inicio p fuel (desp + e.entryLen) e.entryLen

/-- An entry moves the pointer on by at least one byte or never; after this many the
walk has left the image. -/
def pasosMaximos : Nat := 2 ^ 32

/-- `for(offset = 0; ...; offset += tamanioDeBloque())`, up to the first block with an
answer. -/
def primerBloque {α : Type} (f : Nat → Option (Option α)) : List Nat → Option (Option (Nat × α))
  | [] => some none
  | k :: ks => do
    match ← f k with
    | some a => some (some (k, a))
    | none => primerBloque f ks

/-- The first entry of the directory `x` that satisfies `p`, with its logical block. -/
def buscarEntrada (d : Disco) (x : Nat) (p : DirEntry → Bool) :
    Option (Option (Nat × Nat × Nat × DirEntry)) := do
  let size := (d.inodo x).size.toNat
  let hallada ← primerBloque
    (fun k => do
      let inicio ← posicionarme sb d x k 0
      recorrerBloque sb d inicio p pasosMaximos 0 0)
    (List.range (bloquesDe sb size))
  -- without an answer the loop has to end
  if hallada.isSome || terminaOffset sb size then some hallada else none

/-- `string_equals_ignore_case` on the name of the entry. -/
def DirEntry.llamada (e : DirEntry) (nombre : Cadena) : Bool := igualSinCaso (cadena e.name) nombre

/-- The inode the block at `inicio` gives for `ruta`. The walk also stops at an entry of
length zero; an unused entry of that name hides the rest of the block. -/
def inodoEnBloque (d : Disco) (inicio : Int) (ruta : Cadena) : Option (Option Nat) := do
  let hallada ← recorrerBloque sb d inicio (fun e => e.entryLen == 0 || e.llamada ruta)
    pasosMaximos 0 0
  some (match hallada with
    | some (_, _, e) => if e.entryLen ≠ 0 ∧ e.inode ≠ 0 then some e.inode else none
    | none => none)

def buscarNroInodoEnEntradasDirectorio (d : Disco) (x : Nat) (ruta : Cadena) : Option Nat := do
  let size := (d.inodo x).size.toNat
  let hallado ← primerBloque
    (fun k => do inodoEnBloque sb d (← posicionarme sb d x k 0) ruta)
    (List.range (bloquesDe sb size))
  match hallado with
  | some (_, nro) => some nro
  | none => if terminaOffset sb size then some 0 else none

/-! ### Paths -/

/-- `EXT2_INODE_HAS_MODE_FLAG`. -/
def INode.tieneModo (n : INode) (flag : UInt16) : Bool := n.mode &&& 0xF000 == flag

def S_IFDIR : UInt16 := 0x4000
def S_IFREG : UInt16 := 0x8000

def recorrerRuta (d : Disco) : Nat → List Cadena → Option Nat
  | x, [] => some x
  | x, nombre :: resto =>
    if (d.inodo x).tieneModo S_IFDIR then do
      let y ← buscarNroInodoEnEntradasDirectorio sb d x nombre
      if y = 0 then some 0
      else do
        let y ← (← getInodo sb y)
        recorrerRuta d y resto
    else some 0

def getNroInodoDeLaDireccionDelPath (d : Disco) (path : Cadena) : Option Nat := do
  let raiz ← (← getInodo sb 2)
  recorrerRuta sb d raiz (stringSplit path)

/-- `ruta` and `nombre`. -/
def separarPathParaNewDirEntry (path : Cadena) : Cadena × Cadena :=
  if (stringSplit path).length ≤ 1 then ([], (stringSplit path).headD [])
  else
    let nombre := (path.reverse.takeWhile (· ≠ 47)).reverse
    (path.take (path.length - nombre.length - 1), nombre)

/-! ### Entries come and go -/

/-- The first clear bit of the inode bitmap of group `g`. -/
def getInodoLibreDelBitmap (d : Disco) (g : Nat) : Nat :=
  match (List.range sb.inodesPerGroup).find? fun i => !d.bitmapInodos g i with
  | some i => (nroInodoInicioDeGrupo sb g + i) % 2 ^ 32
  | none => 0

/-- `for(nro_grupo = 0; nroInodo == 0; nro_grupo++)`; a group past the last one is a null
descriptor. -/
def buscarInodoLibre (d : Disco) : List Nat → Option Nat
  | [] => none
  | g :: gs =>
    let nro := getInodoLibreDelBitmap sb d g
    if nro ≠ 0 then some nro else buscarInodoLibre d gs

def actualizarEstructurasCuandoPidoInodo (d : Disco) (nroInodo : Nat) : Option Disco := do
  let g := (nroInodo - 1) / sb.inodesPerGroup
  let grupo ← leerGroupDescriptor sb d g
  let d := d.ponBitInodo g (resta32 (reducir nroInodo sb.inodesPerGroup) 1) true
  let d := { d with freeInodes := d.freeInodes - 1 }
  some (d.ponGrupo g { grupo with freeInodesCount := grupo.freeInodesCount - 1 })

def getInodoLibre (d : Disco) : Option (Nat × Disco) :=
  if d.freeInodes = 0 then some (0, d)
  else do
    let nroInodo ← buscarInodoLibre sb d (List.range (cantidadDeGrupos sb))
    let d ← actualizarEstructurasCuandoPidoInodo sb d nroInodo
    some (nroInodo, d)

def entradaNueva (d : Disco) (nroInodo entryLen : Nat) (nombre : Cadena) : DirEntry where
  inode := nroInodo
  entryLen
  nameLen := nombre.length % 256
  type := d.basura
  name := nombre.take (nombre.length % 256)

def agregarNuevaEntrada (d : Disco) (inicio : Int) (desp : Nat) (nombre : Cadena)
    (sizeRestante : Nat) : Option (Nat × Disco) := do
  let (nroInodoLibre, d) ← getInodoLibre sb d
  if nroInodoLibre ≠ 0 then do
    let d := grabarEntrada d inicio desp (entradaNueva d nroInodoLibre sizeRestante nombre)
    let x ← (← getInodo sb nroInodoLibre)
    some (0, ponSize d x 0)
  else some (ENOSPC, d)

/-- What is left of an entry beyond its minimal length, a `uint32_t`. -/
def DirEntry.resto (e : DirEntry) : Nat :=
  resta32 e.entryLen (tamanioMinEntradaDirectorio (cadena e.name))

def agregarEntradaDirectorio (d : Disco) (x : Nat) (nameNewEntry : Cadena) :
    Option (Nat × Disco) := do
  let nueva := tamanioMinEntradaDirectorio nameNewEntry
  match ← buscarEntrada sb d x fun e => e.resto ≥ nueva with
  | some (k, desp, _, e) => do
    let inicio ← posicionarme sb d x k 0
    let minimo := tamanioMinEntradaDirectorio (cadena e.name)
    let (error, d) ← agregarNuevaEntrada sb d inicio (desp + minimo) nameNewEntry e.resto
    if error = 0 then some (0, grabarEntrada d inicio desp { e with entryLen := minimo })
    else some (error, d)
  | none => do
    let k := bloquesDe sb (d.inodo x).size.toNat
    let (b, d) ← getBloqueLibre sb d
    if b = 0 then some (ENOSPC, d)
    else do
      let d ← agregarAInodo sb (d.anota (.ensancha k)) x k b
      let inicio ← posicionarme sb d x k 0
      let (error, d) ← agregarNuevaEntrada sb d inicio 0 nameNewEntry (tamanioDeBloque sb)
      if error = 0 then
        some (0, ponSize d x ((d.inodo x).size.toNat + tamanioDeBloque sb))
      else some (error, d)

/-- An entry that is not found leaves `tamanio_dir_eliminado` unset. -/
def eliminarEntradaDirectorio (d : Disco) (x : Nat) (nombre : Cadena) : Option Disco := do
  let (k, desp, anterior, e) ← (← buscarEntrada sb d x fun e => e.llamada nombre)
  if e.entryLen = tamanioDeBloque sb then do
    let slot ← getPtrNroBloqueLogicoDentroInodo sb d x k
    liberarBloque sb (d.anota .vacia) slot
  else do
    let inicio ← posicionarme sb d x k 0
    let previa := leerEntrada d (inicio + (desp - anterior : Nat))
    some (grabarEntrada d inicio (desp - anterior)
      { previa with entryLen := previa.entryLen + e.entryLen })

/-! ### The five operations -/

def ENOENT : Nat := 2
def EEXIST : Nat := 17
def ENOTEMPTY : Nat := 39

def setearInodo (d : Disco) (x : Nat) (mode : UInt16) : Option (Nat × Disco) :=
  if mode &&& 0xF000 = S_IFDIR then do
    let (b, d) ← getBloqueLibre sb (d.ponInodo x { d.inodo x with mode, links := 2 })
    if b = 0 then some (ENOSPC, d)
    else some (0, ponSize (asignar d (.inodo x 0) b) x (tamanioDeBloque sb))
  else some (0, d.ponInodo x { d.inodo x with mode, links := 1, size := 0 })

def crearArchivo (d : Disco) (path : Cadena) (mode : UInt32) : Option (Nat × Disco) := do
  let (ruta, nombre) := separarPathParaNewDirEntry path
  let nroInodoRuta ← getNroInodoDeLaDireccionDelPath sb d ruta
  if nroInodoRuta ≠ 0 then do
    let inodoDirectorio ← (← getInodo sb nroInodoRuta)
    if (← getNroInodoDeLaDireccionDelPath sb d path) = 0 then do
      let (error, d) ← agregarEntradaDirectorio sb d inodoDirectorio nombre
      if error = 0 then do
        let inodoDeArchivo ← (← getInodo sb (← getNroInodoDeLaDireccionDelPath sb d path))
        setearInodo sb d inodoDeArchivo (mode.toUInt16 ||| S_IFREG)
      else some (error, d)
    else some (EEXIST, d)
  else some (ENOENT, d)

/-- Both entries name the new directory itself. -/
def inicializarEntradasNuevoDir (d : Disco) (x nroInodoEntradaNueva : Nat) : Option Disco := do
  let inicio ← posicionarme sb d x 0 0
  let punto := tamanioMinEntradaDirectorio [46]
  let d := grabarEntrada d inicio 0 (entradaNueva d nroInodoEntradaNueva punto [46])
  let inicio ← posicionarme sb d x 0 0
  some (grabarEntrada d inicio punto
    (entradaNueva d nroInodoEntradaNueva (tamanioDeBloque sb - punto) [46, 46]))

/-- The directories of the group of inode `nroInodo` are counted again. -/
def contarDirectorio (d : Disco) (nroInodo : Nat) (f : UInt16 → UInt16) : Option Disco := do
  let g := resta32 nroInodo 1 / sb.inodesPerGroup
  let grupo ← leerGroupDescriptor sb d g
  some (d.ponGrupo g { grupo with usedDirsCount := f grupo.usedDirsCount })

/-- `crearDirectorio` once the entry is in place. -/
def iniciarDirectorio (d : Disco) (path ruta : Cadena) (mode : UInt32) : Option (Nat × Disco) := do
  let inodoNuevoDir ← (← getInodo sb (← getNroInodoDeLaDireccionDelPath sb d path))
  let (error, d) ← setearInodo sb d inodoNuevoDir (mode.toUInt16 ||| S_IFDIR)
  if error = 0 then do
    let nroInodoEntradaNueva ← getNroInodoDeLaDireccionDelPath sb d path
    let nroInodoRuta ← getNroInodoDeLaDireccionDelPath sb d ruta
    let d ← inicializarEntradasNuevoDir sb d inodoNuevoDir nroInodoEntradaNueva
    let d ← contarDirectorio sb d nroInodoRuta (· + 1)
    some (0, d)
  else some (error, d)

def crearDirectorio (d : Disco) (path : Cadena) (mode : UInt32) : Option (Nat × Disco) := do
  let (ruta, nombre) := separarPathParaNewDirEntry path
  let nroInodoRuta ← getNroInodoDeLaDireccionDelPath sb d ruta
  let inodoRuta ← getInodo sb nroInodoRuta
  if nroInodoRuta ≠ 0 then do
    if (← getNroInodoDeLaDireccionDelPath sb d path) = 0 then do
      let (error, d) ← agregarEntradaDirectorio sb d (← inodoRuta) nombre
      if error = 0 then iniciarDirectorio sb d path ruta mode else some (error, d)
    else some (EEXIST, d)
  else some (ENOENT, d)

def truncarArchivo (d : Disco) (path : Cadena) (offset : Nat) : Option (Nat × Disco) := do
  let (ruta, _) := separarPathParaNewDirEntry path
  if (← getNroInodoDeLaDireccionDelPath sb d ruta) ≠ 0 then do
    let nroInodo ← getNroInodoDeLaDireccionDelPath sb d path
    if nroInodo ≠ 0 then do
      let inodoPath ← (← getInodo sb nroInodo)
      truncarInodo sb d inodoPath offset
    else some (ENOENT, d)
  else some (ENOENT, d)

def eliminarArchivo (d : Disco) (path : Cadena) : Option (Nat × Disco) := do
  let (ruta, nombre) := separarPathParaNewDirEntry path
  let nroInodoRuta ← getNroInodoDeLaDireccionDelPath sb d ruta
  let inodoRuta ← getInodo sb nroInodoRuta
  if nroInodoRuta ≠ 0 then do
    let nroInodoArchivo ← getNroInodoDeLaDireccionDelPath sb d path
    if nroInodoArchivo ≠ 0 then do
      let (_, d) ← truncarArchivo sb d path 0
      let d ← liberarInodo sb d nroInodoArchivo
      let d ← eliminarEntradaDirectorio sb d (← inodoRuta) nombre
      some (0, d)
    else some (ENOENT, d)
  else some (ENOENT, d)

/-- Looks at the entry twelve bytes into the first block. -/
def directorioVacio (d : Disco) (nroInodoDirectorio : Nat) : Option Bool := do
  let x ← (← getInodo sb nroInodoDirectorio)
  if (d.inodo x).size.toNat > tamanioDeBloque sb then some false
  else do
    let ptr ← posicionarme sb d x 0 12
    some ((leerEntrada d ptr).entryLen = tamanioDeBloque sb - 12)

def eliminarDirectorio (d : Disco) (path : Cadena) : Option (Nat × Disco) := do
  let (ruta, nombre) := separarPathParaNewDirEntry path
  let nroInodoRuta ← getNroInodoDeLaDireccionDelPath sb d ruta
  let inodoRuta ← getInodo sb nroInodoRuta
  if nroInodoRuta ≠ 0 then do
    let nroInodoDirectorio ← getNroInodoDeLaDireccionDelPath sb d path
    if nroInodoDirectorio ≠ 0 then do
      if ← directorioVacio sb d nroInodoDirectorio then do
        let d ← eliminarEntradaDirectorio sb d (← inodoRuta) nombre
        let d ← liberarInodo sb d nroInodoDirectorio
        let d ← contarDirectorio sb d nroInodoRuta (· - 1)
        some (0, d)
      else some (ENOTEMPTY, d)
    else some (ENOENT, d)
  else some (ENOENT, d)

end LosAltos.Rfs
