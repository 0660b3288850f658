import LosAltos.Lib.Locks

/-!
# The locks of the server

The mutexes of `funciones_rfs.c:38-46`, those of `administracion.c:8-9`, that of each client and
of the client numbers, and the read-write lock of each open file, as the requests of
`main_rfs.c:172-606` take them. A definition here has the name of the function whose locks it
gives, and a choice where the function branches. `serve_release` is left out: its last close
frees the lock of the file with the lock taken.
-/
namespace LosAltos.Rfs.Cerrojos

open Lib LockCode

inductive Cerrojo where
  | semLiberarBloque
  | semPedirBloque
  | semCrearDir
  | semInodoNewDir
  | semSepararPath
  | semLiberarInodo
  | semCrearArchivo
  | semEliminarArchivo
  | semTruncarArchivo
  | lockArchivosAbiertos
  | lockArchivosClientes
  | mutexClientId
  /-- The lock of the open file of an inode. -/
  | archivo (numeroInodo : Nat)
  | cliente (clientId : UInt32)
  deriving DecidableEq

/-! ### Blocks, entries and inodes -/

def separarPathParaNewDirEntry : LockCode Cerrojo := locked .semSepararPath skip

/-- The mutex is given back in two places. -/
def getBloqueLibre : LockCode Cerrojo :=
  seq (act (.write .semPedirBloque))
    (choice (act (.free .semPedirBloque)) (act (.free .semPedirBloque)))

def liberarBloque : LockCode Cerrojo := locked .semLiberarBloque skip

def agregarNuevaEntrada : LockCode Cerrojo := locked .semInodoNewDir skip

def agregarEntradaDirectorio : LockCode Cerrojo :=
  choice agregarNuevaEntrada (seq getBloqueLibre (opt agregarNuevaEntrada))

def setearInodo : LockCode Cerrojo := opt getBloqueLibre

def eliminarEntradaDirectorio : LockCode Cerrojo := opt liberarBloque

def liberarInodo : LockCode Cerrojo := locked .semLiberarInodo (loop liberarBloque)

/-! ### Operations -/

def crearDirectorio : LockCode Cerrojo :=
  locked .semCrearDir (seq separarPathParaNewDirEntry
    (opt (seq agregarEntradaDirectorio (opt setearInodo))))

def crearArchivo : LockCode Cerrojo :=
  locked .semCrearArchivo (seq separarPathParaNewDirEntry
    (opt (seq agregarEntradaDirectorio (opt setearInodo))))

/-- A turn of the loop that shrinks: the data block, and the indirection blocks that go with
it. -/
def achicar : LockCode Cerrojo :=
  opt (seq liberarBloque (seq (opt liberarBloque)
    (seq (opt (seq (opt liberarBloque) (opt liberarBloque)))
      (opt (seq (opt liberarBloque) (seq (opt liberarBloque) (opt liberarBloque)))))))

/-- A turn of the loop that grows. -/
def agrandar : LockCode Cerrojo :=
  opt (seq getBloqueLibre (seq (opt getBloqueLibre)
    (seq (opt (seq (opt getBloqueLibre) (opt getBloqueLibre)))
      (opt (seq (opt getBloqueLibre) (seq (opt getBloqueLibre) (opt getBloqueLibre)))))))

def truncarArchivo : LockCode Cerrojo :=
  locked .semTruncarArchivo (seq separarPathParaNewDirEntry
    (opt (choice (loop achicar) (loop agrandar))))

def eliminarArchivo : LockCode Cerrojo :=
  locked .semEliminarArchivo (seq separarPathParaNewDirEntry
    (opt (seq truncarArchivo (seq liberarInodo eliminarEntradaDirectorio))))

def eliminarDirectorio : LockCode Cerrojo :=
  seq separarPathParaNewDirEntry (opt (seq eliminarEntradaDirectorio liberarInodo))

/-- `listarDirectorio`; the rest of the listing takes no lock. -/
def listarDirectorio : LockCode Cerrojo := separarPathParaNewDirEntry

/-- Each block asked for may be the last one there is, and end the function. -/
def manejarBloquesIndireccionesParaAgregar : LockCode Cerrojo :=
  seq (opt getBloqueLibre) (opt (choice
    (seq (opt getBloqueLibre) (opt getBloqueLibre))
    (seq (opt getBloqueLibre) (opt (seq (opt getBloqueLibre) (opt getBloqueLibre))))))

def agregarBloqueNuevo : LockCode Cerrojo :=
  seq manejarBloquesIndireccionesParaAgregar getBloqueLibre

/-! ### Open files -/

def obtenerOCrearArchivoAbierto : LockCode Cerrojo := locked .lockArchivosAbiertos skip

def registrarApertura (numeroInodo : Nat) : LockCode Cerrojo := locked (.archivo numeroInodo) skip

def obtenerOCrearListaDelCliente : LockCode Cerrojo := locked .lockArchivosClientes skip

def registrarAperturaCliente (clientId : UInt32) : LockCode Cerrojo :=
  locked (.cliente clientId) skip

def bloquearLectura (numeroInodo : Nat) : LockCode Cerrojo :=
  seq obtenerOCrearArchivoAbierto (act (.read (.archivo numeroInodo)))

def bloquearEscritura (numeroInodo : Nat) : LockCode Cerrojo :=
  seq obtenerOCrearArchivoAbierto (act (.write (.archivo numeroInodo)))

def desbloquear (numeroInodo : Nat) : LockCode Cerrojo :=
  seq obtenerOCrearArchivoAbierto (act (.free (.archivo numeroInodo)))

/-! ### Requests -/

def abrir (numeroInodo : Nat) (clientId : UInt32) : LockCode Cerrojo :=
  seq obtenerOCrearArchivoAbierto (seq (registrarApertura numeroInodo)
    (seq obtenerOCrearListaDelCliente (registrarAperturaCliente clientId)))

def serveOpen (numeroInodo : Nat) (clientId : UInt32) : LockCode Cerrojo :=
  opt (abrir numeroInodo clientId)

def serveCreate (numeroInodo : Nat) (clientId : UInt32) : LockCode Cerrojo :=
  seq crearArchivo (opt (opt (abrir numeroInodo clientId)))

def serveRead (numeroInodo : Nat) : LockCode Cerrojo :=
  seq (bloquearLectura numeroInodo) (desbloquear numeroInodo)

def serveWrite (numeroInodo : Nat) : LockCode Cerrojo :=
  seq (bloquearEscritura numeroInodo) (seq (loop agregarBloqueNuevo) (desbloquear numeroInodo))

/-- `serve_handshake`, with `generate_client_id`. -/
def serveHandshake : LockCode Cerrojo := opt (locked .mutexClientId skip)

inductive Atencion where
  | open (numeroInodo : Nat) (clientId : UInt32)
  | create (numeroInodo : Nat) (clientId : UInt32)
  | read (numeroInodo : Nat)
  | write (numeroInodo : Nat)
  | unlink
  | mkdir
  | readdir
  | rmdir
  | getattr
  | truncate
  | handshake

/-- `serveRequest`. -/
def Atencion.code : Atencion → LockCode Cerrojo
  | .open n c => serveOpen n c
  | .create n c => serveCreate n c
  | .read n => serveRead n
  | .write n => serveWrite n
  | .unlink => eliminarArchivo
  | .mkdir => crearDirectorio
  | .readdir => listarDirectorio
  | .rmdir => eliminarDirectorio
  | .getattr => skip
  | .truncate => truncarArchivo
  | .handshake => serveHandshake

/-! ### Their order -/

def rango : Cerrojo → Nat
  | .semCrearDir | .semCrearArchivo | .semEliminarArchivo => 0
  | .semTruncarArchivo | .archivo _ => 1
  | .semLiberarInodo => 2
  | .semLiberarBloque | .semPedirBloque | .semInodoNewDir | .semSepararPath => 3
  | .lockArchivosAbiertos | .lockArchivosClientes | .mutexClientId | .cliente _ => 3

theorem balanced_last {l : Cerrojo} (last : rango l = 3) : Balanced rango 3 (locked l skip) :=
  Balanced.skip.locked last

theorem balanced_getBloqueLibre : Balanced rango 3 getBloqueLibre := by
  intro held below
  have take := @Leads.write _ _ rango held .semPedirBloque below
  exact take.seq (Leads.free.choice .free)

theorem balanced_separar : Balanced rango 3 separarPathParaNewDirEntry := balanced_last rfl

theorem balanced_liberarBloque : Balanced rango 3 liberarBloque := balanced_last rfl

theorem balanced_agregarEntradaDirectorio : Balanced rango 3 agregarEntradaDirectorio := by
  have entry : Balanced rango 3 agregarNuevaEntrada := balanced_last rfl
  exact entry.choice (balanced_getBloqueLibre.seq entry.opt)

theorem balanced_liberarInodo : Balanced rango 2 liberarInodo :=
  balanced_liberarBloque.loop.locked rfl

theorem balanced_crear {l : Cerrojo} (first : rango l = 0) :
    Balanced rango 0 (locked l (seq separarPathParaNewDirEntry
      (opt (seq agregarEntradaDirectorio (opt setearInodo))))) := by
  have node : Balanced rango 3 setearInodo := balanced_getBloqueLibre.opt
  have whole := balanced_separar.seq (balanced_agregarEntradaDirectorio.seq node.opt).opt
  exact (whole.mono (by omega)).locked first

theorem balanced_truncarArchivo : Balanced rango 1 truncarArchivo := by
  have turn : ∀ {block : LockCode Cerrojo}, Balanced rango 3 block →
      Balanced rango 3 (opt (seq block (seq (opt block) (seq (opt (seq (opt block) (opt block)))
        (opt (seq (opt block) (seq (opt block) (opt block)))))))) := fun one =>
    (one.seq (one.opt.seq ((one.opt.seq one.opt).opt.seq
      (one.opt.seq (one.opt.seq one.opt)).opt))).opt
  have less := (turn balanced_liberarBloque).loop
  have more := (turn balanced_getBloqueLibre).loop
  have whole := balanced_separar.seq (less.choice more).opt
  exact (whole.mono (by omega)).locked rfl

theorem balanced_eliminarArchivo : Balanced rango 0 eliminarArchivo := by
  have entry : Balanced rango 3 eliminarEntradaDirectorio := balanced_liberarBloque.opt
  have parts := balanced_truncarArchivo.seq
    ((balanced_liberarInodo.mono (by omega)).seq (entry.mono (by omega)))
  exact ((balanced_separar.mono (by omega)).seq parts.opt).locked rfl

theorem balanced_eliminarDirectorio : Balanced rango 2 eliminarDirectorio := by
  have entry : Balanced rango 3 eliminarEntradaDirectorio := balanced_liberarBloque.opt
  exact (balanced_separar.mono (by omega)).seq
    ((entry.mono (by omega)).seq balanced_liberarInodo).opt

theorem balanced_agregarBloqueNuevo : Balanced rango 3 agregarBloqueNuevo := by
  have one := balanced_getBloqueLibre
  have simple := one.opt.seq one.opt
  exact (one.opt.seq (simple.choice (one.opt.seq simple.opt)).opt).seq one

theorem balanced_obtener : Balanced rango 3 obtenerOCrearArchivoAbierto := balanced_last rfl

theorem balanced_abrir (numeroInodo : Nat) (clientId : UInt32) :
    Balanced rango 1 (abrir numeroInodo clientId) := by
  have lists : Balanced rango 3 obtenerOCrearListaDelCliente := balanced_last rfl
  have client : Balanced rango 3 (registrarAperturaCliente clientId) := balanced_last rfl
  have file : Balanced rango 1 (registrarApertura numeroInodo) := Balanced.skip.locked rfl
  exact (balanced_obtener.mono (by omega)).seq (file.seq ((lists.seq client).mono (by omega)))

/-- The list of the open files is looked at before the lock of a file is taken, and again with
the lock held. -/
theorem leads_bloquear {numeroInodo : Nat} {mode : Bool} {x : LockAction Cerrojo}
    {held : List (Cerrojo × Bool)} (below : ∀ m ∈ held, rango m.1 < 1)
    (take : Leads rango held (act x) ((.archivo numeroInodo, mode) :: held)) :
    Leads rango held (seq obtenerOCrearArchivoAbierto (act x))
      ((.archivo numeroInodo, mode) :: held) :=
  ((balanced_obtener.mono (by omega)) held below).seq take

theorem leads_desbloquear {numeroInodo : Nat} {mode : Bool} {held : List (Cerrojo × Bool)}
    (below : ∀ m ∈ (.archivo numeroInodo, mode) :: held, rango m.1 < 2) :
    Leads rango ((.archivo numeroInodo, mode) :: held) (desbloquear numeroInodo) held :=
  ((balanced_obtener.mono (by omega)) _ below).seq .free

theorem balanced_serveRead (numeroInodo : Nat) : Balanced rango 1 (serveRead numeroInodo) := by
  intro held below
  have above : ∀ m ∈ (.archivo numeroInodo, false) :: held, rango m.1 < 2 := below_cons below false
  exact (leads_bloquear below (.read below)).seq (leads_desbloquear above)

theorem balanced_serveWrite (numeroInodo : Nat) : Balanced rango 1 (serveWrite numeroInodo) := by
  intro held below
  have above : ∀ m ∈ (.archivo numeroInodo, true) :: held, rango m.1 < 2 := below_cons below true
  have blocks : Balanced rango 2 (loop agregarBloqueNuevo) :=
    balanced_agregarBloqueNuevo.loop.mono (by omega)
  exact (leads_bloquear below (.write below)).seq
    ((blocks _ above).seq (leads_desbloquear above))

theorem balanced_code (a : Atencion) : Balanced rango 0 a.code := by
  have zero : ∀ {k : Nat} {code : LockCode Cerrojo}, Balanced rango k code →
      Balanced rango 0 code := fun code => code.mono (Nat.zero_le _)
  cases a with
  | «open» n c => exact zero (balanced_abrir n c).opt
  | create n c => exact (balanced_crear rfl).seq (zero (balanced_abrir n c)).opt.opt
  | read n => exact zero (balanced_serveRead n)
  | write n => exact zero (balanced_serveWrite n)
  | unlink => exact balanced_eliminarArchivo
  | mkdir => exact balanced_crear rfl
  | readdir => exact zero balanced_separar
  | rmdir => exact zero balanced_eliminarDirectorio
  | getattr => exact .skip
  | truncate => exact zero balanced_truncarArchivo
  | handshake => exact zero (balanced_last (l := .mutexClientId) rfl).opt

/-! ### Any requests at once -/

section
variable {ι : Type} [DecidableEq ι]

/-- Each thread at the start of its request, with what it is going to do with the locks. -/
def comienzo (trazas : ι → List (LockAction Cerrojo)) : ι → Thread Cerrojo :=
  fun i => ⟨[], trazas i⟩

variable {atenciones : ι → Atencion} {trazas : ι → List (LockAction Cerrojo)}

omit [DecidableEq ι] in
theorem comienzo_disciplined (corren : ∀ i, (atenciones i).code.Runs (trazas i)) :
    Disciplined rango (comienzo trazas) := by
  intro i
  exact (balanced_code (atenciones i)).ordered (corren i)

omit [DecidableEq ι] in
theorem comienzo_exclusive : Exclusive (comienzo trazas) := by
  intro i j l b _ member
  cases member

/-- Whatever the requests and the order of their steps, a lock taken for writing is alone, the
requests never wait for one another in a circle, and they can always all end. -/
theorem sin_abrazo_mortal [Fintype ι] (atenciones : ι → Atencion)
    (trazas : ι → List (LockAction Cerrojo))
    (corren : ∀ i, (atenciones i).code.Runs (trazas i)) (s : ι → Thread Cerrojo)
    (alcanzado : Reachable (comienzo trazas) s) :
    Exclusive s ∧ ((∀ s', ¬Step s s') → Finished s) ∧ ∃ s', Reachable s s' ∧ Finished s' := by
  have kept : Disciplined rango s := alcanzado.disciplined (comienzo_disciplined corren)
  have alone : Exclusive s := alcanzado.exclusive comienzo_exclusive
  exact ⟨alone, finished_of_stuck kept, exists_finished kept⟩

/-- A read and a write of one file. -/
theorem sin_abrazo_mortal_dos :
    let lectura : List (LockAction Cerrojo) :=
      [.write .lockArchivosAbiertos, .free .lockArchivosAbiertos, .read (.archivo 2),
        .write .lockArchivosAbiertos, .free .lockArchivosAbiertos, .free (.archivo 2)]
    let escritura : List (LockAction Cerrojo) :=
      [.write .lockArchivosAbiertos, .free .lockArchivosAbiertos, .write (.archivo 2),
        .write .lockArchivosAbiertos, .free .lockArchivosAbiertos, .free (.archivo 2)]
    let s : Bool → Thread Cerrojo := comienzo fun lee => if lee then lectura else escritura
    Exclusive s ∧ ((∀ s', ¬Step s s') → Finished s) ∧ ∃ s', Reachable s s' ∧ Finished s' := by
  intro lectura escritura s
  have list : obtenerOCrearArchivoAbierto.Runs
      [.write .lockArchivosAbiertos, .free .lockArchivosAbiertos] :=
    .seq (.act _) (.seq .skip (.act _))
  have reads : (serveRead 2).Runs lectura := .seq (.seq list (.act _)) (.seq list (.act _))
  have writes : (serveWrite 2).Runs escritura :=
    .seq (.seq list (.act _)) (.seq .done (.seq list (.act _)))
  exact sin_abrazo_mortal (fun lee => if lee then .read 2 else .write 2) _
    (fun lee => by cases lee; exacts [writes, reads]) s .refl

end

end LosAltos.Rfs.Cerrojos
