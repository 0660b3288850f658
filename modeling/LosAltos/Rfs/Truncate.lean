import LosAltos.Rfs.Disk

/-!
# Growing and shrinking a file

`truncarArchivo` once its path is resolved, `funciones_rfs.c:482-649`, with
`completarBloque` (`:794`), `liberarInodo` (`:1201`) and `hayEspacioSuficiente` (`:1334`).
The `int32_t` and `uint32_t` counters of the two loops are natural numbers here: within
a loop they stay in range, and the one subtraction that may not is `truncarInodo`'s.
-/
namespace LosAltos.Rfs

open Lib

variable (sb : Superblock)

/-- `inodo->nr_blocks += tamanioDeBloque() / 512`. -/
def sumaBloques (d : Disco) (x : Nat) : Disco :=
  let n := d.inodo x
  d.ponInodo x { n with nrBlocks := n.nrBlocks + .ofNat (tamanioDeBloque sb / 512) }

def restaBloques (d : Disco) (x : Nat) : Disco :=
  let n := d.inodo x
  d.ponInodo x { n with nrBlocks := n.nrBlocks - .ofNat (tamanioDeBloque sb / 512) }

/-! ### The shrink branch -/

/-- `liberarBloque(slot)` where `condicion` holds, and its block taken off the inode. -/
def liberarSi (condicion : Bool) (d : Disco) (x : Nat) (slot : Slot) : Option Disco :=
  if condicion then do
    let d ← liberarBloque sb d slot
    some (restaBloques sb d x)
  else some d

/-- The indirection blocks that go with logical block `k`, innermost first. Also
`manejarBloquesIndireccionesParaEliminar`. -/
def liberarIndirecciones (d : Disco) (x k : Nat) : Option Disco :=
  let p := ptrsPorBloque sb
  if esIndireccionSimple sb k then liberarSi sb (k = 12) d x (.inodo x 12)
  else if esIndireccionDoble sb k then do
    let pos := (k - inicioDoble sb) / p
    let d ← liberarSi sb ((k - 12) % p = 0) d x
      (slotDeBloque sb (leerSlot d (.inodo x 13)) pos)
    liberarSi sb (k = inicioDoble sb) d x (.inodo x 13)
  else if esIndireccionTriple sb k then do
    let ptrIndDoble := getPtrBloqueIndDoble sb d (leerSlot d (.inodo x 14)) k
    let ptrIndTriple := getPtrBloqueIndTriple sb (leerSlot d (.inodo x 14)) k
    let d ← liberarSi sb ((k - inicioTriple sb) % p = 0) d x ptrIndDoble
    let d ← liberarSi sb ((k - inicioTriple sb) % (p * p) = 0) d x ptrIndTriple
    liberarSi sb (k = inicioTriple sb) d x (.inodo x 14)
  else some d

/-- The body of the shrink loop for a block that goes whole. -/
def quitarBloque (d : Disco) (x k : Nat) : Option Disco := do
  let slot ← getPtrNroBloqueLogicoDentroInodo sb d x k
  let d ← liberarBloque sb d slot
  liberarIndirecciones sb (restaBloques sb d x) x k

/-- `while(size < 0)` with `falta = -size`; each round takes off at least one byte. -/
def achicar : Nat → Disco → Nat → Nat → Nat → Option (Disco × Nat)
  | 0, _, _, _, _ => none
  | fuel + 1, d, x, eof, falta =>
    if falta = 0 then some (d, eof)
    else
      let desplazamiento := desplazamientoDentroDelBloque sb (eof - 1) + 1
      if desplazamiento ≤ falta then do
        let d ← quitarBloque sb d x (nroBloqueDentroDelInodo sb (eof - 1))
        achicar fuel d x (eof - desplazamiento) (falta - desplazamiento)
      else achicar fuel d x (eof - falta) 0

/-! ### The grow branch -/

/-- A block is asked for and its number stored, where `condicion` holds. -/
def pedirSi (condicion : Bool) (d : Disco) (slot : Slot) : Option Disco :=
  if condicion then do
    let (b, d) ← getBloqueLibre sb d
    some (asignar d slot b)
  else some d

/-- `pedirSi`, and the block is counted in `nr_blocks`. -/
def pedirContadoSi (condicion : Bool) (d : Disco) (x : Nat) (slot : Slot) : Option Disco := do
  let d ← pedirSi sb condicion d slot
  some (if condicion then sumaBloques sb d x else d)

/-- The indirection blocks logical block `k` needs, outermost first. The simple one is
not counted. -/
def pedirIndirecciones (d : Disco) (x k : Nat) : Option Disco :=
  let p := ptrsPorBloque sb
  if esIndireccionSimple sb k then pedirSi sb (k = 12) d (.inodo x 12)
  else if esIndireccionDoble sb k then do
    let d ← pedirContadoSi sb (k = inicioDoble sb) d x (.inodo x 13)
    let pos := (k - inicioDoble sb) / p
    pedirContadoSi sb ((k - 12) % p = 0) d x (slotDeBloque sb (leerSlot d (.inodo x 13)) pos)
  else if esIndireccionTriple sb k then do
    let d ← pedirContadoSi sb (k = inicioTriple sb) d x (.inodo x 14)
    let pos := (k - inicioTriple sb) / (p * p)
    let d ← pedirContadoSi sb ((k - inicioTriple sb) % (p * p) = 0) d x
      (slotDeBloque sb (leerSlot d (.inodo x 14)) pos)
    let doble := leerSlot d (getPtrBloqueIndTriple sb (leerSlot d (.inodo x 14)) k)
    let pos := (k - inicioTriple sb) % (p * p) / p
    pedirContadoSi sb ((k - inicioTriple sb) % p = 0) d x (slotDeBloque sb doble pos)
  else some d

/-- The block of the grow loop that maps logical block `k`. -/
def agregarBloque (d : Disco) (x k : Nat) : Option Disco := do
  let (b, d) ← getBloqueLibre sb d
  let d ← pedirIndirecciones sb (sumaBloques sb d x) x k
  agregarAInodo sb d x k b

/-- A file that ends with a block gets another one. -/
def agregarBloqueSi (condicion : Bool) (d : Disco) (x k : Nat) : Option Disco :=
  if condicion then agregarBloque sb d x k else some d

/-- `escribirBloque` writes `size` zeros. -/
def completarBloque (d : Disco) (x offset size : Nat) : Option Disco := do
  let ptr ← posicionarme sb d x (nroBloqueDentroDelInodo sb offset)
    (desplazamientoDentroDelBloque sb offset)
  some (d.copia ptr (List.replicate size 0))

/-- `while(size > 0)`; each round adds at least one byte. -/
def agrandar : Nat → Disco → Nat → Nat → Nat → Option (Disco × Nat)
  | 0, _, _, _, _ => none
  | fuel + 1, d, x, eof, falta =>
    if falta = 0 then some (d, eof)
    else do
      let resto := tamanioDeBloque sb - desplazamientoDentroDelBloque sb eof
      let d ← agregarBloqueSi sb (resto = tamanioDeBloque sb) d x (nroBloqueDentroDelInodo sb eof)
      let n := if resto ≥ falta then falta else resto
      let d ← completarBloque sb d x eof n
      agrandar fuel d x ((eof + n) % 2 ^ 32) (falta - n)

def hayEspacioSuficiente (d : Disco) (size : Nat) : Bool :=
  tamanioDeBloque sb * d.freeBlocks.toNat % 2 ^ 32 ≥ size

def EINVAL : Nat := 22
def ENOSPC : Nat := 28

/-- `int32_t size = offset - offsetEOF`. -/
def diferencia (offset eof : Nat) : Int :=
  if resta32 offset eof < 2 ^ 31 then resta32 offset eof else (resta32 offset eof : Int) - 2 ^ 32

def ponSize (d : Disco) (x size : Nat) : Disco :=
  d.ponInodo x { d.inodo x with size := .ofNat size }

/-- `truncarArchivo` on the inode of the path. -/
def truncarInodo (d : Disco) (x offset : Nat) : Option (Nat × Disco) :=
  let eof := (d.inodo x).size.toNat
  let size := diferencia offset eof
  if size < 0 then
    if eof < size.natAbs then some (EINVAL, d)
    else do
      let (d, eof) ← achicar sb (size.natAbs + 1) d x eof size.natAbs
      some (0, ponSize d x eof)
  else if hayEspacioSuficiente sb d size.toNat then do
    let d := d.anota (.crece eof offset)
    let (d, eof) ← agrandar sb (size.toNat + 1) d x eof size.toNat
    some (0, ponSize d x eof)
  else some (ENOSPC, d)

/-! ### Releasing an inode -/

/-- Number of logical blocks below `size`. -/
def bloquesDe (size : Nat) : Nat := (size + tamanioDeBloque sb - 1) / tamanioDeBloque sb

def liberarBloques (d : Disco) (x : Nat) : List Nat → Option Disco
  | [] => some d
  | k :: ks => do
    let slot ← getPtrNroBloqueLogicoDentroInodo sb d x k
    let d ← liberarBloque sb d slot
    liberarBloques d x ks

/-- `offset < size; offset += tamanioDeBloque()` never ends when it wraps. -/
def terminaOffset (size : Nat) : Bool := bloquesDe sb size * tamanioDeBloque sb < 2 ^ 32

def liberarInodo (d : Disco) (nroInodo : Nat) : Option Disco := do
  let x ← (← getInodo sb nroInodo)
  let size := (d.inodo x).size.toNat
  if terminaOffset sb size then do
    let d ← liberarBloques sb d x (List.range (bloquesDe sb size))
    let g := resta32 nroInodo sb.firstDataBlock / sb.inodesPerGroup
    let grupo ← leerGroupDescriptor sb d g
    let d := d.ponBitInodo g (resta32 (reducir nroInodo sb.inodesPerGroup) 1) false
    let d := d.ponGrupo g { grupo with freeInodesCount := grupo.freeInodesCount + 1 }
    let d := { d with freeInodes := d.freeInodes + 1 }
    some (d.ponInodo x { d.inodo x with mode := 0, links := 0, size := 0 })
  else none

end LosAltos.Rfs
