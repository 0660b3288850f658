import LosAltos.Lib.LittleEndian
import LosAltos.Lib.Memory

/-!
# The mapped disk of the remote filesystem

`rfs/src/funciones_rfs.c:80-243, 376-480, 651-830`, `rfs/src/funciones_rfs.h:22-106`.

The image is one `mmap` of an ext2 volume. Its superblock, group descriptors, bitmaps
and inode tables are held here as records, each under its own number, and everything
else as bytes; on a consistent image no block of a file lies over those tables. The
position of a block is a product of `uint32_t`s and wraps at 4 GiB.

A function answers `none` where the code dereferences a null pointer, uses a variable
it never set, or does not return. `hechos` is a trace that only the proofs read.
-/
namespace LosAltos.Rfs

open Lib

/-- The fields of `struct Superblock` that RFS reads and never writes. The code divides
by the two group sizes. -/
structure Superblock where
  inodes : Nat
  blocks : Nat
  firstDataBlock : Nat
  logBlockSize : Nat
  blocksPerGroup : Nat
  inodesPerGroup : Nat
  blocksPerGroup_pos : 0 < blocksPerGroup := by decide
  inodesPerGroup_pos : 0 < inodesPerGroup := by decide

structure GroupDesc where
  freeBlocksCount : UInt16
  freeInodesCount : UInt16
  usedDirsCount : UInt16
  deriving DecidableEq

/-- Words 12, 13 and 14 of `blocks` are `iblock`, `iiblock` and `iiiblock`. -/
structure INode where
  mode : UInt16
  size : UInt32
  links : UInt16
  nrBlocks : UInt32
  blocks : Nat → UInt32

/-- Where a block number is stored: a word of an inode or a word of the mapped file. -/
inductive Slot where
  | inodo (x i : Nat)
  | disco (dir : Int)
  deriving DecidableEq

inductive Hecho where
  /-- `getBloqueLibre` answered `b`. -/
  | pide (b : Nat)
  /-- `liberarBloque` was given a slot that holds `b`. -/
  | libera (b : Nat)
  /-- `b` was stored in a slot of an inode. -/
  | asigna (b : Nat)
  /-- `n` bytes were written at `dir`, other than through `grabarBloque`. -/
  | escribe (dir : Int) (n : Nat)
  /-- `truncarArchivo` entered its grow branch. -/
  | crece (eof offset : Nat)
  /-- `len` bytes of a directory entry were written `desp` bytes into a directory block. -/
  | entrada (desp len : Nat)
  /-- `agregarEntradaDirectorio` gave the directory a block at logical number `k`. -/
  | ensancha (k : Nat)
  /-- `eliminarEntradaDirectorio` freed the block of the entry. -/
  | vacia
  deriving DecidableEq

structure Disco where
  freeBlocks : UInt32
  freeInodes : UInt32
  grupo : Nat → GroupDesc
  bitmapBloques : Nat → Nat → Bool
  bitmapInodos : Nat → Nat → Bool
  inodo : Nat → INode
  mem : Memoria
  /-- The static `nro_de_grupo`. -/
  nroDeGrupo : Nat
  /-- What `malloc` leaves in the `type` of a new directory entry. -/
  basura : UInt8
  hechos : List Hecho

namespace Disco

def anota (d : Disco) (h : Hecho) : Disco := { d with hechos := h :: d.hechos }

def ponInodo (d : Disco) (x : Nat) (i : INode) : Disco :=
  { d with inodo := fun y => if y = x then i else d.inodo y }

def ponGrupo (d : Disco) (g : Nat) (desc : GroupDesc) : Disco :=
  { d with grupo := fun h => if h = g then desc else d.grupo h }

def ponBitBloque (d : Disco) (g i : Nat) (v : Bool) : Disco :=
  { d with bitmapBloques := fun h j => if h = g ∧ j = i then v else d.bitmapBloques h j }

def ponBitInodo (d : Disco) (g i : Nat) (v : Bool) : Disco :=
  { d with bitmapInodos := fun h j => if h = g ∧ j = i then v else d.bitmapInodos h j }

/-- A `memcpy` into the mapped file. -/
def copia (d : Disco) (dir : Int) (bytes : List UInt8) : Disco :=
  { d with mem := escribir d.mem dir bytes, hechos := .escribe dir bytes.length :: d.hechos }

end Disco

/-- Subtraction of `uint32_t`s. -/
def resta32 (a b : Nat) : Nat := (a + 2 ^ 32 - b % 2 ^ 32) % 2 ^ 32

/-- `while(n > m) n -= m;` -/
def reducir (n m : Nat) : Nat := if n = 0 then 0 else (n - 1) % m + 1

def leer32 (d : Disco) (dir : Int) : Nat := fromLe (leer d.mem dir 4)

section
variable (sb : Superblock)

def tamanioDeBloque : Nat := 1024 <<< sb.logBlockSize

/-- `cantPtrEnIndireccionSimple`. -/
def ptrsPorBloque : Nat := tamanioDeBloque sb / 4

def cantidadDeGrupos : Nat :=
  if sb.inodes % sb.inodesPerGroup ≠ 0 then sb.inodes / sb.inodesPerGroup + 1
  else sb.inodes / sb.inodesPerGroup

def leerGroupDescriptor (d : Disco) (nroGrupo : Nat) : Option GroupDesc :=
  if nroGrupo < cantidadDeGrupos sb then some (d.grupo nroGrupo) else none

def nroBloqueInicioDeGrupo (nroGrupo : Nat) : Nat :=
  (sb.firstDataBlock + sb.blocksPerGroup * nroGrupo) % 2 ^ 32

def nroInodoInicioDeGrupo (nroGrupo : Nat) : Nat := (sb.inodesPerGroup * nroGrupo + 1) % 2 ^ 32

/-- The inner `none` is `NULL`. An inode is known by its number. -/
def getInodo (nroInodo : Nat) : Option (Option Nat) :=
  if nroInodo < 1 then some none
  else if (nroInodo - 1) / sb.inodesPerGroup < cantidadDeGrupos sb then some (some nroInodo)
  else none

/-- `posicionarInicioBloque` and `obtenerBloque`, from the start of the image. -/
def posicionarInicioBloque (nroBloque : Nat) : Int := (nroBloque * tamanioDeBloque sb % 2 ^ 32 : Nat)

/-- `desplazarme`. -/
def desplazarme (nroBloqueDeDato desplazamiento : Nat) : Int :=
  posicionarInicioBloque sb nroBloqueDeDato + desplazamiento

def nroBloqueDentroDelInodo (offset : Nat) : Nat := offset / tamanioDeBloque sb

def desplazamientoDentroDelBloque (offset : Nat) : Nat := offset % tamanioDeBloque sb

end

def leerSlot (d : Disco) : Slot → Nat
  | .inodo x i => ((d.inodo x).blocks i).toNat
  | .disco dir => leer32 d dir

def INode.ponBloque (n : INode) (i b : Nat) : INode :=
  { n with blocks := fun j => if j = i then .ofNat b else n.blocks j }

def grabarSlot (d : Disco) (s : Slot) (b : Nat) : Disco :=
  match s with
  | .inodo x i => d.ponInodo x ((d.inodo x).ponBloque i b)
  | .disco dir => d.copia dir (toLe 4 b)

/-! ### From logical to physical blocks, `funciones_rfs.c:377-470, 653-702` -/

section
variable (sb : Superblock)

def esBloqueDirecto (k : Nat) : Bool := k < 12

/-- First logical block of the double and of the triple indirection. -/
def inicioDoble : Nat := 12 + ptrsPorBloque sb

def inicioTriple : Nat := 12 + ptrsPorBloque sb + ptrsPorBloque sb * ptrsPorBloque sb

def esIndireccionSimple (k : Nat) : Bool := 12 ≤ k && k < inicioDoble sb

def esIndireccionDoble (k : Nat) : Bool := inicioDoble sb ≤ k && k < inicioTriple sb

def esIndireccionTriple (k : Nat) : Bool :=
  inicioTriple sb ≤ k &&
    k < inicioTriple sb + ptrsPorBloque sb * ptrsPorBloque sb * ptrsPorBloque sb

/-- Slot `i` of the indirection block `nroBloque`. -/
def slotDeBloque (nroBloque i : Nat) : Slot := .disco (desplazarme sb nroBloque (i * 4))

def posicionarIndireccionSimple (nroBloqueIndireccion k : Nat) : Slot :=
  slotDeBloque sb nroBloqueIndireccion (k - 12)

def posicionarIndireccionDoble (d : Disco) (nroBloqueIndireccion k : Nat) : Slot :=
  let n := k - inicioDoble sb
  let simple := leerSlot d (slotDeBloque sb nroBloqueIndireccion (n / ptrsPorBloque sb))
  slotDeBloque sb simple (n % ptrsPorBloque sb)

/-- The slot of the double indirection, inside the triple one. -/
def getPtrBloqueIndTriple (nroBloqueIndireccion k : Nat) : Slot :=
  let n := k - inicioTriple sb
  slotDeBloque sb nroBloqueIndireccion (n / (ptrsPorBloque sb * ptrsPorBloque sb))

/-- The slot of the simple indirection, inside the double one of the triple one. -/
def getPtrBloqueIndDoble (d : Disco) (nroBloqueIndireccion k : Nat) : Slot :=
  let n := k - inicioTriple sb
  let doble := leerSlot d (getPtrBloqueIndTriple sb nroBloqueIndireccion k)
  slotDeBloque sb doble (n % (ptrsPorBloque sb * ptrsPorBloque sb) / ptrsPorBloque sb)

def posicionarIndireccionTriple (d : Disco) (nroBloqueIndireccion k : Nat) : Slot :=
  let n := k - inicioTriple sb
  let simple := leerSlot d (getPtrBloqueIndDoble sb d nroBloqueIndireccion k)
  slotDeBloque sb simple (n % (ptrsPorBloque sb * ptrsPorBloque sb) % ptrsPorBloque sb)

/-- `none`: the pointer returned was never set. -/
def getPtrNroBloqueLogicoDentroInodo (d : Disco) (x k : Nat) : Option Slot :=
  if esBloqueDirecto k then some (.inodo x k)
  else if esIndireccionSimple sb k then
    some (posicionarIndireccionSimple sb (leerSlot d (.inodo x 12)) k)
  else if esIndireccionDoble sb k then
    some (posicionarIndireccionDoble sb d (leerSlot d (.inodo x 13)) k)
  else if esIndireccionTriple sb k then
    some (posicionarIndireccionTriple sb d (leerSlot d (.inodo x 14)) k)
  else none

def posicionarme (d : Disco) (x k desplazamiento : Nat) : Option Int := do
  let slot ← getPtrNroBloqueLogicoDentroInodo sb d x k
  some (desplazarme sb (leerSlot d slot) desplazamiento)

end

/-! ### Allocation of blocks, `funciones_rfs.c:704-784, 1110-1131` -/

section
variable (sb : Superblock)

/-- Bit `i` of group `g` and the two counters, as a block comes back. -/
def Disco.devolver (d : Disco) (g i : Nat) : Disco :=
  let grupo := d.grupo g
  let d := d.ponBitBloque g i false
  let d := d.ponGrupo g { grupo with freeBlocksCount := grupo.freeBlocksCount + 1 }
  { d with freeBlocks := d.freeBlocks + 1 }

def Disco.ocupar (d : Disco) (g i : Nat) : Disco :=
  let grupo := d.grupo g
  let d := d.ponBitBloque g i true
  let d := d.ponGrupo g { grupo with freeBlocksCount := grupo.freeBlocksCount - 1 }
  { d with freeBlocks := d.freeBlocks - 1 }

def liberarBloque (d : Disco) (slot : Slot) : Option Disco := do
  let b := leerSlot d slot
  let g := resta32 b sb.firstDataBlock / sb.blocksPerGroup
  let _ ← leerGroupDescriptor sb d g
  let d := (d.anota (.libera b)).devolver g (resta32 (reducir b sb.blocksPerGroup) 1)
  some (grabarSlot d slot 0)

def getBloqueLibreDelBitmap (d : Disco) (g : Nat) : Nat :=
  match (List.range sb.blocksPerGroup).find? fun i => !d.bitmapBloques g i with
  | some i => (nroBloqueInicioDeGrupo sb g + i) % 2 ^ 32
  | none => 0

def actualizarEstructurasCuandoPidoBloque (d : Disco) (b : Nat) : Option Disco := do
  let g := resta32 b sb.firstDataBlock / sb.blocksPerGroup
  let _ ← leerGroupDescriptor sb d g
  some (d.ocupar g (resta32 (reducir b sb.blocksPerGroup) sb.firstDataBlock))

/-- The `while` of `getBloqueLibre`: the cursor at its end, and whether it gave up. The
loop ends before the cursor, a `uint32_t`, has gone round twice. -/
def buscarGrupo (d : Disco) : Nat → Nat → Bool → Option (Nat × Bool)
  | 0, _, _ => none
  | fuel + 1, nro, diLaVuelta =>
    if nro < cantidadDeGrupos sb ∧ (d.grupo nro).freeBlocksCount ≠ 0 then some (nro, false)
    else
      let siguiente := (nro + 1) % 2 ^ 32
      if siguiente = cantidadDeGrupos sb then
        if diLaVuelta then some (siguiente, true) else buscarGrupo d fuel 0 true
      else buscarGrupo d fuel siguiente diLaVuelta

def getBloqueLibre (d : Disco) : Option (Nat × Disco) := do
  let (nro, lleno) ← buscarGrupo sb d (2 ^ 34) d.nroDeGrupo false
  let d := { d with nroDeGrupo := nro }
  if lleno then some (0, d.anota (.pide 0))
  else do
    let b := getBloqueLibreDelBitmap sb d nro
    let d ← actualizarEstructurasCuandoPidoBloque sb d b
    some (b, d.anota (.pide b))

/-- A block number goes into a slot of an inode. -/
def asignar (d : Disco) (slot : Slot) (b : Nat) : Disco := (grabarSlot d slot b).anota (.asigna b)

def agregarAInodo (d : Disco) (x k b : Nat) : Option Disco := do
  let slot ← getPtrNroBloqueLogicoDentroInodo sb d x k
  some (asignar d slot b)

end

end LosAltos.Rfs
