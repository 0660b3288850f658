import LosAltos.Nipc.Requests
import LosAltos.Rfs.Directory
import LosAltos.Rfs.OpenFiles

/-!
# The handlers of the server

`rfs/src/main_rfs.c:96-568, 622-675`, `funciones_rfs.c:218-241, 285-328, 1357-1566`,
`memcached_uses.c:30-58, 106-129`, `administracion.c:73-125`. A handler takes the state to
the next one and the replies it sends, in order. It has no result where it uses a null or
freed pointer, reads outside a block, or does not return.

The remote cache is an ideal one: it never evicts, a block is found under its number, and
storing overwrites. `archivos_por_cliente` is found by the hash of the client id alone.
-/
namespace LosAltos.Rfs

open Lib Nipc

/-- `struct readdir_entry`. -/
structure ReaddirEntry where
  path : List UInt8
  mode : UInt16
  size : UInt32
  nLink : UInt16
  blocks : UInt32
  deriving DecidableEq

inductive Respuesta where
  | ok
  | error (codigo : Int)
  | readResponse (data : List UInt8)
  | readdirResponse (entries : List ReaddirEntry)
  | getattrResponse (mode : UInt16) (nLink : UInt16) (size blocks : UInt32)
  deriving DecidableEq

structure Servidor where
  disco : Disco
  abiertos : Abiertos
  /-- `archivos_por_cliente`: the inodes open under a hash. -/
  clientes : UInt32 → Option (List Nat)
  /-- `remote_cache`, by block number. -/
  cache : Nat → Option (List UInt8)

/-- `dictionary_hash`. -/
def dictionaryHash (key : List UInt8) : UInt32 :=
  let mezcla (hash : UInt32) (c : UInt8) : UInt32 :=
    let hash := hash + c.toUInt32
    let hash := hash + (hash <<< 10)
    hash ^^^ (hash >>> 6)
  let hash := key.foldl mezcla 0
  let hash := hash + (hash <<< 3)
  let hash := hash ^^^ (hash >>> 11)
  hash + (hash <<< 15)

/-- `string_from_uint32`. -/
def stringFromUint32 (n : UInt32) : List UInt8 :=
  (Nat.toDigits 10 n.toNat).map fun c => .ofNat c.toNat

/-- What `dictionary_get` compares of the key of a client. -/
def claveDe (clientId : UInt32) : UInt32 := dictionaryHash (stringFromUint32 clientId)

namespace Servidor

def ponDisco (s : Servidor) (disco : Disco) : Servidor := { s with disco }

def ponCache (s : Servidor) (b : Nat) (valor : Option (List UInt8)) : Servidor :=
  { s with cache := fun c => if c = b then valor else s.cache c }

def ponCliente (s : Servidor) (clave : UInt32) (lista : Option (List Nat)) : Servidor :=
  { s with clientes := fun k => if k = clave then lista else s.clientes k }

/-- `obtener_o_crear_lista_del_cliente` and `registrar_apertura_cliente`. -/
def registrarAperturaCliente (s : Servidor) (clientId : UInt32) (numeroInodo : Nat) : Servidor :=
  s.ponCliente (claveDe clientId)
    (some ((s.clientes (claveDe clientId)).getD [] ++ [numeroInodo]))

/-- The loop goes on from the list element it has just freed; it must end there. -/
def quitarDeLista (lista : List Nat) (numeroInodo : Nat) : Option (List Nat) :=
  match lista.idxOf? numeroInodo with
  | none => some lista
  | some i => if i + 2 < lista.length then none else some (lista.eraseIdx i)

def registrarCierreCliente (s : Servidor) (clientId : UInt32) (numeroInodo : Nat) :
    Option Servidor := do
  let lista ← s.clientes (claveDe clientId)
  let lista ← quitarDeLista lista numeroInodo
  some (s.ponCliente (claveDe clientId) (if lista = [] then none else some lista))

/-- `bloquearLectura`, `bloquearEscritura` and `desbloquear`: one request at a time never
waits for a lock, and the entry is there afterwards. -/
def bloquear (s : Servidor) (numeroInodo : Nat) : Servidor :=
  { s with abiertos := (s.abiertos.obtenerOCrearArchivoAbierto numeroInodo).2 }

/-- Both registers of an open. -/
def abrir (s : Servidor) (clientId : UInt32) (numeroInodo : Nat) : Option Servidor := do
  let (nodo, abiertos) := s.abiertos.obtenerOCrearArchivoAbierto numeroInodo
  let abiertos ← abiertos.registrarApertura nodo
  some (registrarAperturaCliente { s with abiertos } clientId numeroInodo)

def cerrar (s : Servidor) (clientId : UInt32) (numeroInodo : Nat) : Option Servidor := do
  let (nodo, abiertos) := s.abiertos.obtenerOCrearArchivoAbierto numeroInodo
  let abiertos ← abiertos.registrarCierre nodo
  registrarCierreCliente { s with abiertos } clientId numeroInodo

end Servidor

section
variable (sb : Superblock)

/-! ### Blocks -/

def traerBloqueDeDisco (d : Disco) (b : Nat) : List UInt8 :=
  leer d.mem (posicionarInicioBloque sb b) (tamanioDeBloque sb)

/-- The `for` of `numerosDeBloques`. -/
def leerNumeros (d : Disco) (x : Nat) : List Nat → Option (List Nat)
  | [] => some []
  | k :: ks => do
    let slot ← getPtrNroBloqueLogicoDentroInodo sb d x k
    let resto ← leerNumeros d x ks
    some (leerSlot d slot :: resto)

def numerosDeBloques (d : Disco) (x offset size : Nat) : Option (List Nat) :=
  let inicio := nroBloqueDentroDelInodo sb offset
  let fin := nroBloqueDentroDelInodo sb (resta32 (offset + size) 1)
  leerNumeros sb d x (List.range' inicio (fin + 1 - inicio))

/-- Where the cache is on, the block is taken from it, if it is there. -/
def deCache (cacheActive : Bool) (s : Servidor) (b : Nat) : Option (List UInt8) :=
  if cacheActive then s.cache b else none

def traerBloque (cacheActive : Bool) (s : Servidor) (b : Nat) : List UInt8 :=
  (deCache cacheActive s b).getD (traerBloqueDeDisco sb s.disco b)

/-- `guardarBloqueEnCache`, where the cache is on. -/
def guardarBloque (cacheActive : Bool) (s : Servidor) (b : Nat) (bloque : List UInt8) : Servidor :=
  if cacheActive then s.ponCache b (some bloque) else s

def grabarBloque (cacheActive : Bool) (s : Servidor) (b : Nat) (bloque : List UInt8) : Servidor :=
  let s := guardarBloque cacheActive s b bloque
  s.ponDisco { s.disco with
    mem := escribir s.disco.mem (posicionarInicioBloque sb b) (bloque.take (tamanioDeBloque sb)) }

def cantidadDeBloques (n : INode) : Nat := n.nrBlocks.toNat * 512 % 2 ^ 32 / tamanioDeBloque sb

/-- A block is asked for and stored where `condicion` holds, unless there is none: then
the rest is skipped, which is the inner `none`. -/
def pedirParaAgregar (condicion : Bool) (d : Disco) (x : Nat) (slot : Slot) :
    Option (Bool × Disco) :=
  if condicion then do
    let (b, d) ← getBloqueLibre sb d
    if b = 0 then some (false, d) else some (true, sumaBloques sb (asignar d slot b) x)
  else some (true, d)

/-- `manejarBloquesIndireccionesParaAgregar`; its code is not looked at. -/
def manejarBloquesIndireccionesParaAgregar (d : Disco) (x k : Nat) : Option Disco :=
  let p := ptrsPorBloque sb
  if esIndireccionSimple sb k then do
    let (_, d) ← pedirParaAgregar sb (k = 12) d x (.inodo x 12)
    some d
  else if esIndireccionDoble sb k then do
    let (sigue, d) ← pedirParaAgregar sb (k = inicioDoble sb) d x (.inodo x 13)
    let (_, d) ← pedirParaAgregar sb (sigue && (k - 12) % p = 0) d x
      (slotDeBloque sb (leerSlot d (.inodo x 13)) ((k - inicioDoble sb) / p))
    some d
  else if esIndireccionTriple sb k then do
    let (sigue, d) ← pedirParaAgregar sb (k = inicioTriple sb) d x (.inodo x 14)
    let (sigue, d) ← if sigue then
        pedirParaAgregar sb ((k - inicioTriple sb) % (p * p) = 0) d x
          (slotDeBloque sb (leerSlot d (.inodo x 14)) ((k - inicioTriple sb) / (p * p)))
      else some (false, d)
    let doble := leerSlot d (getPtrBloqueIndTriple sb (leerSlot d (.inodo x 14)) k)
    let (_, d) ← pedirParaAgregar sb (sigue && (k - inicioTriple sb) % p = 0) d x
      (slotDeBloque sb doble ((k - inicioTriple sb) % (p * p) / p))
    some d
  else some d

def agregarBloqueNuevo (d : Disco) (x : Nat) : Option Disco := do
  let d ← manejarBloquesIndireccionesParaAgregar sb d x (cantidadDeBloques sb (d.inodo x))
  let (b, d) ← getBloqueLibre sb d
  if b = 0 then some d
  else do
    let slot ← getPtrNroBloqueLogicoDentroInodo sb d x (cantidadDeBloques sb (d.inodo x))
    some (sumaBloques sb (asignar d slot b) x)

/-- `while(cantidadDeBloques(inodo) <= final)`. A turn takes a free block or finds none left,
and then so does every later one. -/
def agregarHasta (final : Nat) : Nat → Disco → Nat → Option Disco
  | 0, _, _ => none
  | fuel + 1, d, x =>
    if cantidadDeBloques sb (d.inodo x) ≤ final then do
      agregarHasta final fuel (← agregarBloqueNuevo sb d x) x
    else some d

/-! ### Reads and writes -/

/-- The blocks of a read, each kept in the cache. -/
def traerBloques (cacheActive : Bool) (s : Servidor) : List Nat → List (List UInt8) × Servidor
  | [] => ([], s)
  | b :: bs =>
    let bloque := traerBloque sb cacheActive s b
    let s := if (deCache cacheActive s b).isSome then s else guardarBloque cacheActive s b bloque
    let resto := traerBloques cacheActive s bs
    (bloque :: resto.1, resto.2)

/-- The copies out of the blocks, the first one from `offsetBloque` on and the last one
short. No result where a copy runs past its block. -/
def juntarBloques (offsetBloque ultimo : Nat) : List (List UInt8) → Option (List UInt8)
  | [] => some []
  | bloque :: resto =>
    let sizeALeer := if resto.isEmpty then ultimo else tamanioDeBloque sb
    if offsetBloque + sizeALeer ≤ bloque.length then do
      let siguen ← juntarBloques 0 ultimo resto
      some ((bloque.drop offsetBloque).take sizeALeer ++ siguen)
    else none

/-- `bytesALeer`. -/
def bytesALeer (fileSize offset size : Nat) : Nat :=
  if fileSize < (offset + size) % 2 ^ 32 then resta32 fileSize offset else size

def serveRead (cacheActive : Bool) (s : Servidor) (path : Cadena) (size offset : Nat) :
    Option (Servidor × List Respuesta) := do
  let numeroInodo ← getNroInodoDeLaDireccionDelPath sb s.disco path
  let s := s.bloquear numeroInodo
  let x ← (← getInodo sb numeroInodo)
  let n := bytesALeer (s.disco.inodo x).size.toNat offset size
  if n = 0 then some (s.bloquear numeroInodo, [.readResponse []])
  else do
    let numeros ← numerosDeBloques sb s.disco x offset n
    let (bloques, s) := traerBloques sb cacheActive s numeros
    let output ← juntarBloques sb (desplazamientoDentroDelBloque sb offset)
      (desplazamientoDentroDelBloque sb (n - 1) + 1) bloques
    some (s.bloquear numeroInodo, [.readResponse output])

/-- The bytes of a write that go into one block. -/
def ponerEnBloque (bloque : List UInt8) (pos : Nat) (bytes : List UInt8) : List UInt8 :=
  bloque.take pos ++ bytes ++ bloque.drop (pos + bytes.length)

/-- `while(elemento != NULL)`: the blocks of a write and how many bytes went into them. -/
def escribirBloques (cacheActive : Bool) (data : List UInt8) (size offset : Nat) :
    Servidor → Nat → List Nat → Servidor × Nat
  | s, escritos, [] => (s, escritos)
  | s, escritos, b :: bs =>
    let pos := desplazamientoDentroDelBloque sb ((offset + escritos) % 2 ^ 32)
    let libre := tamanioDeBloque sb - pos
    let n := if (escritos + libre) % 2 ^ 32 > size then resta32 size escritos else libre
    let bloque := if pos ≠ 0 ∨ n ≠ tamanioDeBloque sb then traerBloque sb cacheActive s b
      else List.replicate (tamanioDeBloque sb) 0
    let bloque := ponerEnBloque bloque pos ((data.drop escritos).take n)
    let s := grabarBloque sb cacheActive s b bloque
    escribirBloques cacheActive data size offset s ((escritos + n) % 2 ^ 32) bs

/-- Turns the loop that adds blocks may take before it is known to go on for ever. -/
def vueltasMaximas : Nat := 2 ^ 33

def serveWrite (cacheActive : Bool) (s : Servidor) (path : Cadena) (data : List UInt8)
    (size offset : Nat) : Option (Servidor × List Respuesta) := do
  let numeroInodo ← getNroInodoDeLaDireccionDelPath sb s.disco path
  let inodoArchivo ← getInodo sb numeroInodo
  let s := s.bloquear numeroInodo
  let final := nroBloqueDentroDelInodo sb (resta32 (offset + size) 1)
  let x ← inodoArchivo
  let d ← agregarHasta sb final vueltasMaximas s.disco x
  let s := s.ponDisco d
  let numeros ← numerosDeBloques sb d x offset size
  let (s, escritos) := escribirBloques sb cacheActive data size offset s 0 numeros
  some (s.bloquear numeroInodo, [if escritos = size then .ok else .error (-1)])

/-! ### The other handlers -/

/-- `send_no_ok`, or `send_ok` where the code is 0. -/
def contestar (codigo : Nat) : Respuesta := if codigo ≠ 0 then .error (-codigo) else .ok

/-- `getInodoDeLaDireccionDelPath`: the inner `none` is `NULL`. -/
def getInodoDeLaDireccionDelPath (d : Disco) (path : Cadena) : Option (Option Nat) := do
  let nro ← getNroInodoDeLaDireccionDelPath sb d path
  if nro = 0 then some none else getInodo sb nro

def serveOpen (s : Servidor) (clientId : UInt32) (path : Cadena) :
    Option (Servidor × List Respuesta) := do
  let numeroInodo ← getNroInodoDeLaDireccionDelPath sb s.disco path
  if numeroInodo ≠ 0 then do
    let s ← s.abrir clientId numeroInodo
    some (s, [.ok])
  else some (s, [.error (-ENOENT)])

def serveCreate (s : Servidor) (clientId : UInt32) (path : Cadena) (mode : UInt32) :
    Option (Servidor × List Respuesta) := do
  let (codError, d) ← crearArchivo sb s.disco path mode
  let s := s.ponDisco d
  if codError ≠ 0 then some (s, [.error (-codError)])
  else do
    let numeroInodo ← getNroInodoDeLaDireccionDelPath sb s.disco path
    if numeroInodo ≠ 0 then do
      let s ← s.abrir clientId numeroInodo
      some (s, [.ok, .ok])
    else some (s, [.error (-ENOENT), .ok])

def serveRelease (s : Servidor) (clientId : UInt32) (path : Cadena) :
    Option (Servidor × List Respuesta) := do
  let numeroInodo ← getNroInodoDeLaDireccionDelPath sb s.disco path
  if numeroInodo ≠ 0 then do
    let s ← s.cerrar clientId numeroInodo
    some (s, [.ok])
  else some (s, [.error (-ENOENT)])

/-- `delete_memcached`: the blocks numbered from the first to the last of the file. -/
def deleteMemcached (s : Servidor) (path : Cadena) : Option Servidor := do
  let x ← (← getInodoDeLaDireccionDelPath sb s.disco path)
  let size := (s.disco.inodo x).size.toNat
  -- for an empty file `transform_query` answers `NULL`
  if size = 0 then none
  else do
    let primero ← getPtrNroBloqueLogicoDentroInodo sb s.disco x (nroBloqueDentroDelInodo sb 0)
    let ultimo ← getPtrNroBloqueLogicoDentroInodo sb s.disco x (nroBloqueDentroDelInodo sb (size - 1))
    let inicial := leerSlot s.disco primero
    let final := leerSlot s.disco ultimo
    -- `bloqueBorrado`, a `uint32_t`, never passes the largest one
    if final = 2 ^ 32 - 1 then none
    else some { s with cache := fun b => if inicial ≤ b ∧ b ≤ final then none else s.cache b }

/-- `delete_memcached`, where the cache is on. -/
def olvidarBloques (cacheActive : Bool) (s : Servidor) (path : Cadena) : Option Servidor :=
  if cacheActive then deleteMemcached sb s path else some s

def serveUnlink (cacheActive : Bool) (s : Servidor) (path : Cadena) :
    Option (Servidor × List Respuesta) := do
  let s ← olvidarBloques sb cacheActive s path
  let (codError, d) ← eliminarArchivo sb s.disco path
  some (s.ponDisco d, [contestar codError])

def serveMkdir (s : Servidor) (path : Cadena) (mode : UInt32) :
    Option (Servidor × List Respuesta) := do
  let (codError, d) ← crearDirectorio sb s.disco path mode
  some (s.ponDisco d, [contestar codError])

def serveRmdir (s : Servidor) (path : Cadena) : Option (Servidor × List Respuesta) := do
  let (codError, d) ← eliminarDirectorio sb s.disco path
  some (s.ponDisco d, [contestar codError])

def serveTruncate (s : Servidor) (path : Cadena) (offset : Nat) :
    Option (Servidor × List Respuesta) := do
  let (codError, d) ← truncarArchivo sb s.disco path offset
  some (s.ponDisco d, [contestar codError])

/-- The entries of one directory block, up to one without an inode. -/
def listarBloque (d : Disco) (inicio : Int) : Nat → Nat → Option (List ReaddirEntry)
  | 0, _ => none
  | fuel + 1, desp =>
    if tamanioDeBloque sb ≤ desp % 2 ^ 16 then some []
    else do
      let e := leerEntrada d (inicio + desp)
      match ← getInodo sb e.inode with
      | none => some []
      | some y => do
        let resto ← listarBloque d inicio fuel (desp + e.entryLen)
        let n := d.inodo y
        some (⟨cadena e.name, n.mode, n.size, n.links, n.nrBlocks⟩ :: resto)

def listarBloques (d : Disco) (x : Nat) : List Nat → Option (List ReaddirEntry)
  | [] => some []
  | k :: ks => do
    let inicio ← posicionarme sb d x k 0
    let entradas ← listarBloque sb d inicio pasosMaximos 0
    let resto ← listarBloques d x ks
    some (entradas ++ resto)

def cargarEntradasDirectorioALista (d : Disco) (x : Nat) : Option (List ReaddirEntry) :=
  let size := (d.inodo x).size.toNat
  if terminaOffset sb size then listarBloques sb d x (List.range (bloquesDe sb size)) else none

def listarDirectorio (d : Disco) (path : Cadena) : Option (List ReaddirEntry) := do
  let (ruta, _) := separarPathParaNewDirEntry path
  if (← getNroInodoDeLaDireccionDelPath sb d ruta) ≠ 0 then do
    let nroInodoDeDirectorio ← getNroInodoDeLaDireccionDelPath sb d path
    if nroInodoDeDirectorio ≠ 0 then do
      cargarEntradasDirectorioALista sb d (← (← getInodo sb nroInodoDeDirectorio))
    else some []
  else some []

def serveReaddir (s : Servidor) (path : Cadena) : Option (Servidor × List Respuesta) := do
  let entradas ← listarDirectorio sb s.disco path
  some (s, [if entradas.isEmpty then .error (-ENOENT) else .readdirResponse entradas])

def serveGetattr (s : Servidor) (path : Cadena) : Option (Servidor × List Respuesta) := do
  match ← getInodoDeLaDireccionDelPath sb s.disco path with
  | none => some (s, [.error (-ENOENT)])
  | some x =>
    let n := s.disco.inodo x
    some (s, [.getattrResponse n.mode n.links n.size n.nrBlocks])

/-- `serveRequest`, for the eleven requests of a file system. -/
def serveRequest (cacheActive : Bool) (s : Servidor) :
    Pedido → Option (Servidor × List Respuesta)
  | .nipcOpen c p _ => serveOpen sb s c p.bytes
  | .nipcCreate c p mode => serveCreate sb s c p.bytes mode
  | .nipcRead _ p size offset => serveRead sb cacheActive s p.bytes size.toNat offset.toNat
  | .nipcWrite _ p data size offset _ =>
    serveWrite sb cacheActive s p.bytes data size.toNat offset.toNat
  | .nipcRelease c p _ => serveRelease sb s c p.bytes
  | .nipcUnlink _ p => serveUnlink sb cacheActive s p.bytes
  | .nipcMkdir _ p mode => serveMkdir sb s p.bytes mode
  | .nipcReaddir _ p _ => serveReaddir sb s p.bytes
  | .nipcRmdir _ p => serveRmdir sb s p.bytes
  | .nipcGetattr _ p => serveGetattr sb s p.bytes
  | .nipcTruncate _ p offset => serveTruncate sb s p.bytes offset.toNat

end

end LosAltos.Rfs
