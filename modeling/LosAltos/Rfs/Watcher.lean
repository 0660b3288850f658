import LosAltos.Lib.LittleEndian
import LosAltos.Lib.Memory
import LosAltos.Lib.Turns

/-!
# The watcher of the configuration

`main_rfs.c:680-733`.

One `read` fills `buffer` with inotify events, and the inner loop of `listen_config` goes through
them. `length` is at most 40960, and `offset` stays an `int`. What `config_create` finds
in `rfs.conf` each time it is read is given. `visitados` only the proofs read.
-/
namespace LosAltos.Rfs

open Lib

structure InotifyEvent where
  wd : UInt32
  mask : UInt32
  cookie : UInt32
  name : List UInt8

def IN_MODIFY : Nat := 0x00000002
def IN_IGNORED : Nat := 0x00008000
def IN_ISDIR : Nat := 0x40000000

/-- What `config_get_string_value` answers for the two keys; `none` is `NULL`. -/
structure Lectura where
  sleepTime : Option Int
  sleepType : Option (List UInt8)

structure Vigilante where
  offset : Nat
  /-- How often `rfs.conf` was read. -/
  leidas : Nat
  sleepTime : Int
  sleepType : List UInt8
  /-- The offsets at which an event was looked at. -/
  visitados : List Nat
  deriving DecidableEq

/-- `event->mask` and `event->len` of the event at `offset`. -/
def maskEn (buffer : Memoria) (offset : Nat) : Nat := fromLe (leer buffer (offset + 4 : Nat) 4)
def lenEn (buffer : Memoria) (offset : Nat) : Nat := fromLe (leer buffer (offset + 12 : Nat) 4)

/-- `while (offset < length)`; both keys are dereferenced. -/
def listenConfig (buffer : Memoria) (length : Int) (lecturas : Nat → Lectura) (s : Vigilante) :
    Turn Vigilante Vigilante :=
  if s.offset < length then
    let visto := { s with visitados := s.visitados ++ [s.offset] }
    if maskEn buffer s.offset &&& IN_MODIFY ≠ 0 then
      if maskEn buffer s.offset &&& IN_ISDIR ≠ 0 then .again visto
      else
        match lecturas s.leidas with
        | ⟨some sleepTime, some sleepType⟩ =>
          .again { visto with
            sleepTime, sleepType
            leidas := s.leidas + 1
            offset := s.offset + (16 + lenEn buffer s.offset) }
        | _ => .fault
    else .again visto
  else .done s

/-! ### Buffers of events -/

namespace InotifyEvent

def bytes (e : InotifyEvent) : List UInt8 :=
  toLe 4 e.wd.toNat ++ (toLe 4 e.mask.toNat ++
    (toLe 4 e.cookie.toNat ++ (toLe 4 e.name.length ++ e.name)))

def tamanio (e : InotifyEvent) : Nat := 16 + e.name.length

/-- The contents of a file changed. -/
def Modifica (e : InotifyEvent) : Prop :=
  e.mask.toNat &&& IN_MODIFY ≠ 0 ∧ e.mask.toNat &&& IN_ISDIR = 0

instance (e : InotifyEvent) : Decidable e.Modifica := inferInstanceAs (Decidable (_ ∧ _))

end InotifyEvent

def bytesDeEventos (es : List InotifyEvent) : List UInt8 := es.flatMap (·.bytes)

/-- Where each event starts, the first one at `offset`. -/
def comienzos : Nat → List InotifyEvent → List Nat
  | _, [] => []
  | offset, e :: es => offset :: comienzos (offset + e.tamanio) es

/-- From `offset` to `length` the buffer holds the events. -/
structure Contiene (buffer : Memoria) (offset : Nat) (length : Int) (es : List InotifyEvent) :
    Prop where
  bytes : leer buffer offset (bytesDeEventos es).length = bytesDeEventos es
  length : length = (offset + (bytesDeEventos es).length : Nat)
  nombres : ∀ e ∈ es, e.name.length < 2 ^ 32

/-- Reading `rfs.conf` finds both keys. -/
def Lectura.Completa (l : Lectura) : Prop := l.sleepTime.isSome ∧ l.sleepType.isSome

/-- From `s` on the loop comes to its end with each event visited once, in their order. -/
def RecorreUnaVez (buffer : Memoria) (length : Int) (lecturas : Nat → Lectura) (s : Vigilante)
    (es : List InotifyEvent) : Prop :=
  ∃ t, (∃ k, run (listenConfig buffer length lecturas) k s = some t) ∧
    t.visitados = s.visitados ++ comienzos s.offset es

variable {buffer : Memoria} {offset : Nat} {length : Int} {lecturas : Nat → Lectura}
  {s t : Vigilante} {e : InotifyEvent} {es : List InotifyEvent}

/-- The first event of a buffer, and the buffer after it. -/
theorem Contiene.primero (holds : Contiene buffer offset length (e :: es)) :
    offset < length ∧ maskEn buffer offset = e.mask.toNat ∧ lenEn buffer offset = e.name.length ∧
      Contiene buffer (offset + e.tamanio) length es := by
  obtain ⟨bytes, total, names⟩ := holds
  have name := names e (List.mem_cons_self ..)
  have mask := e.mask.toNat_lt
  rw [bytesDeEventos, List.flatMap_cons, ← bytesDeEventos] at bytes total
  obtain ⟨first, rest⟩ := leer_append bytes
  obtain ⟨-, first⟩ := leer_append first
  obtain ⟨atMask, first⟩ := leer_append first
  obtain ⟨-, first⟩ := leer_append first
  obtain ⟨atLen, -⟩ := leer_append first
  have size : e.bytes.length = e.tamanio := by
    simp only [InotifyEvent.bytes, List.length_append, toLe_length, InotifyEvent.tamanio]
    omega
  simp only [toLe_length] at atMask atLen
  refine ⟨?_, ?_, ?_, ?_, ?_, fun u member => names u (List.mem_cons_of_mem _ member)⟩
  · rw [total, List.length_append, size, InotifyEvent.tamanio]
    omega
  · rw [maskEn, Nat.cast_add]
    exact (congrArg fromLe atMask).trans (fromLe_toLe_of_lt mask)
  · have place : ((offset + 12 : Nat) : Int) = offset + (4 : Nat) + (4 : Nat) + (4 : Nat) := by omega
    rw [lenEn, place]
    exact (congrArg fromLe atLen).trans (fromLe_toLe_of_lt name)
  · rw [Nat.cast_add, ← size]
    exact rest
  · rw [total, List.length_append, size]
    omega

/-! ### One turn -/

/-- An event that is no change of the file leaves the offset where it is. -/
theorem turno_detenido (inside : s.offset < length)
    (other : ¬(maskEn buffer s.offset &&& IN_MODIFY ≠ 0 ∧
      maskEn buffer s.offset &&& IN_ISDIR = 0)) :
    listenConfig buffer length lecturas s =
      .again { s with visitados := s.visitados ++ [s.offset] } := by
  rw [listenConfig, if_pos inside]
  by_cases modified : maskEn buffer s.offset &&& IN_MODIFY ≠ 0
  · rw [if_pos modified, if_pos fun file => other ⟨modified, file⟩]
  · rw [if_neg modified]

theorem turno_avanza (inside : s.offset < length)
    (file : maskEn buffer s.offset &&& IN_MODIFY ≠ 0 ∧ maskEn buffer s.offset &&& IN_ISDIR = 0)
    {sleepTime : Int} {sleepType : List UInt8}
    (found : lecturas s.leidas = ⟨some sleepTime, some sleepType⟩) :
    listenConfig buffer length lecturas s = .again
      { offset := s.offset + (16 + lenEn buffer s.offset), leidas := s.leidas + 1
        sleepTime, sleepType, visitados := s.visitados ++ [s.offset] } := by
  rw [listenConfig, if_pos inside]
  simp only [if_pos file.1, if_neg (not_not.mpr file.2), found]

theorem turno_sin_clave (inside : s.offset < length)
    (file : maskEn buffer s.offset &&& IN_MODIFY ≠ 0 ∧ maskEn buffer s.offset &&& IN_ISDIR = 0)
    (missing : ¬(lecturas s.leidas).Completa) :
    listenConfig buffer length lecturas s = .fault := by
  rw [listenConfig, if_pos inside]
  simp only [if_pos file.1, if_neg (not_not.mpr file.2)]
  split
  · rename_i found
    rw [found] at missing
    exact absurd ⟨rfl, rfl⟩ missing
  · rfl

/-! ### The whole buffer -/

/-- The loop never leaves an event that is no change of the file. -/
theorem no_termina (inside : s.offset < length)
    (other : ¬(maskEn buffer s.offset &&& IN_MODIFY ≠ 0 ∧
      maskEn buffer s.offset &&& IN_ISDIR = 0)) :
    ¬Ends (listenConfig buffer length lecturas) s := by
  apply not_ends_of_again (P := fun t => t.offset = s.offset) rfl
  intro t same
  rw [← same] at inside other
  exact ⟨_, turno_detenido inside other, same⟩

/-- A buffer is gone through, each event once, when all its events are changes of the file and
each time both keys are found. -/
theorem listenConfig_recorre_iff (buffer : Memoria) (length : Int) (lecturas : Nat → Lectura)
    (s : Vigilante) (es : List InotifyEvent) (holds : Contiene buffer s.offset length es) :
    RecorreUnaVez buffer length lecturas s es ↔
      (∀ e ∈ es, e.Modifica) ∧ ∀ j < es.length, (lecturas (s.leidas + j)).Completa := by
  induction es generalizing s with
  | nil =>
    have last : listenConfig buffer length lecturas s = .done s := by
      have total := holds.length
      rw [listenConfig, if_neg (by rw [total]; simp [bytesDeEventos])]
    refine iff_of_true ⟨s, ⟨1, by rw [run, last]⟩, by simp [comienzos]⟩ ?_
    simp
  | cons e es ih =>
    obtain ⟨inside, mask, len, rest⟩ := holds.primero
    by_cases file : e.Modifica
    swap
    · -- the loop stays at this event
      refine iff_of_false ?_ fun all => file (all.1 e (List.mem_cons_self ..))
      rintro ⟨t, ⟨k, result⟩, -⟩
      exact no_termina inside (by rwa [mask]) (ends_of_run result)
    have here := file
    rw [InotifyEvent.Modifica, ← mask] at here
    by_cases complete : (lecturas s.leidas).Completa
    swap
    · refine iff_of_false ?_ fun all => complete (all.2 0 (Nat.succ_pos _))
      rintro ⟨t, ⟨k, result⟩, -⟩
      rw [run_fault (turno_sin_clave inside here complete)] at result
      cases result
    obtain ⟨sleepTime, sleepType, found⟩ : ∃ u v, lecturas s.leidas = ⟨some u, some v⟩ := by
      obtain ⟨u, time⟩ := Option.isSome_iff_exists.mp complete.1
      obtain ⟨v, type⟩ := Option.isSome_iff_exists.mp complete.2
      exact ⟨u, v, by rw [← time, ← type]⟩
    have next := turno_avanza inside here found
    rw [len] at next
    have after := ih ⟨s.offset + e.tamanio, s.leidas + 1, sleepTime, sleepType,
      s.visitados ++ [s.offset]⟩ rest
    have moved : RecorreUnaVez buffer length lecturas s (e :: es) ↔ RecorreUnaVez buffer length
        lecturas ⟨s.offset + e.tamanio, s.leidas + 1, sleepTime, sleepType,
          s.visitados ++ [s.offset]⟩ es := by
      simp only [RecorreUnaVez, comienzos, List.append_assoc, List.singleton_append]
      refine exists_congr fun t => ?_
      rw [run_again next]
      rfl
    rw [moved, after, List.forall_mem_cons, List.length_cons]
    simp only [file, true_and]
    refine and_congr_right fun _ => ⟨fun all j below => ?_, fun all j below => ?_⟩
    · cases j with
      | zero => exact complete
      | succ j =>
        have found := all j (by omega)
        rwa [Nat.add_assoc, Nat.add_comm 1] at found
    · have found := all (j + 1) (by omega)
      rwa [Nat.add_assoc, Nat.add_comm 1]

/-- Two changes of the file in one buffer. -/
theorem listenConfig_dos_cambios :
    let e : InotifyEvent := ⟨1, 2, 0, []⟩
    RecorreUnaVez (escribir (fun _ => 0) 0 (bytesDeEventos [e, e])) 32
      (fun _ => ⟨some 5, some [77]⟩) ⟨0, 0, 0, [], []⟩ [e, e] := by
  intro e
  refine (listenConfig_recorre_iff _ 32 _ ⟨0, 0, 0, [], []⟩ [e, e] ⟨?_, by decide, by decide⟩).mpr
    ⟨by decide, fun j _ => ⟨rfl, rfl⟩⟩
  exact leer_escribir_self _ 0 _

/-- What the kernel sends once the watched file is gone. -/
def eventoIgnorado : InotifyEvent := ⟨1, .ofNat IN_IGNORED, 0, []⟩

/-- The loop does not come past it. -/
theorem ignorado_no_avanza : ¬∀ (buffer : Memoria) (length : Int) (lecturas : Nat → Lectura)
    (s : Vigilante) (es : List InotifyEvent), Contiene buffer s.offset length es →
    (∀ j, (lecturas j).Completa) → RecorreUnaVez buffer length lecturas s es := by
  intro claim
  obtain ⟨t, ⟨k, result⟩, -⟩ := claim
    (escribir (fun _ => 0) 0 (bytesDeEventos [eventoIgnorado])) 16 (fun _ => ⟨some 5, some [77]⟩)
    ⟨0, 0, 0, [], []⟩ [eventoIgnorado] ⟨leer_escribir_self _ 0 _, by decide, by decide⟩
    fun _ => ⟨rfl, rfl⟩
  exact no_termina (by decide) (by decide) (ends_of_run result)

end LosAltos.Rfs
