import LosAltos.Rfs.DirectoryShape
import LosAltos.Rfs.FreeInodes

/-!
# The sequence of entries of a directory

`agregarEntradaDirectorio` and `eliminarEntradaDirectorio` (`funciones_rfs.c:884-974, 1155-1199`)
as edits of the list of names and inodes that a walk through the blocks of a directory sees.
-/
namespace LosAltos.Rfs

open Lib

/-- What a walk sees of an entry. -/
def DirEntry.par (e : DirEntry) : Cadena × Nat := (e.name, e.inode)

/-- The names and inodes of the blocks `ks`, one block after another. -/
def paresDe (ks : List Nat) (ess : Nat → List DirEntry) : List (Cadena × Nat) :=
  (ks.flatMap ess).map DirEntry.par

/-- The entry is longer than it has to be by what an entry called `nombre` needs. -/
def Holgada (nombre : Cadena) (e : DirEntry) : Prop :=
  tamanioMinEntradaDirectorio e.name + tamanioMinEntradaDirectorio nombre ≤ e.entryLen

instance (nombre : Cadena) (e : DirEntry) : Decidable (Holgada nombre e) :=
  inferInstanceAs (Decidable (_ ≤ _))

/-- The first entry of a directory that satisfies `p`: block `k` is `us ++ e :: vs`. -/
structure PrimeraEn (p : DirEntry → Prop) (n : Nat) (ess : Nat → List DirEntry) (k : Nat)
    (us : List DirEntry) (e : DirEntry) (vs : List DirEntry) : Prop where
  dentro : k < n
  bloque : ess k = us ++ e :: vs
  previos : ∀ l < k, ∀ u ∈ ess l, ¬p u
  antes : ∀ u ∈ us, ¬p u
  aqui : p e

/-- The inode `y` was taken, with size 0, and only bytes of the block `b` were written. -/
structure SoloInserta (sb : Superblock) (b y : Nat) (d d' : Disco) : Prop where
  mem : ∀ dir, ¬(posicionarInicioBloque sb b ≤ dir ∧
    dir < posicionarInicioBloque sb b + tamanioDeBloque sb) → d'.mem dir = d.mem dir
  tomado : InodoTomado sb d d' y
  directorios : ∀ g, (d'.grupo g).usedDirsCount = (d.grupo g).usedDirsCount
  otros : ∀ z, z ≠ y → d'.inodo z = d.inodo z
  nuevo : d'.inodo y = { d.inodo y with size := 0 }

variable {sb : Superblock} {d d' d1 : Disco} {x y k n : Nat} {ess : Nat → List DirEntry}
  {e : DirEntry} {us vs : List DirEntry} {nombre : Cadena} {p : DirEntry → Bool}

/-! ### The search finds an entry that is there -/

theorem primerBloque_total {α : Type} {f : Nat → Option (Option α)} {ks : List Nat}
    (each : ∀ k ∈ ks, ∃ a, f k = some a) : ∃ r, primerBloque f ks = some r := by
  induction ks with
  | nil => exact ⟨none, rfl⟩
  | cons k ks ih =>
    obtain ⟨a, found⟩ := each k (List.mem_cons_self ..)
    rw [primerBloque, found, Option.bind_eq_bind, Option.bind_some]
    cases a with
    | some a => exact ⟨_, rfl⟩
    | none => exact ih fun j member => each j (List.mem_cons_of_mem _ member)

theorem buscarEntrada_encuentra (geo : Geometria sb)
    (chains : Cadenas sb d x (bloquesDe sb (d.inodo x).size.toNat) ess)
    (present : ∃ k < bloquesDe sb (d.inodo x).size.toNat, ∃ e ∈ ess k, p e) :
    ∃ k desp anterior e, buscarEntrada sb d x p = some (some (k, desp, anterior, e)) := by
  have each : ∀ k ∈ List.range (bloquesDe sb (d.inodo x).size.toNat), ∃ a,
      ((posicionarme sb d x k 0).bind fun inicio =>
        recorrerBloque sb d inicio p pasosMaximos 0 0) = some a := fun k member =>
    ⟨_, buscarEnBloque_cadenas geo chains (List.mem_range.mp member)⟩
  obtain ⟨hallada, walked⟩ := primerBloque_total each
  match hallada with
  | some (k, desp, anterior, e) =>
    refine ⟨k, desp, anterior, e, Option.bind_eq_some_iff.mpr ⟨_, walked, ?_⟩⟩
    rfl
  | none =>
    obtain ⟨k, inside, e, member, holds⟩ := present
    have missing := primerBloque_none walked k (List.mem_range.mpr inside)
    rw [buscarEnBloque_cadenas geo chains inside] at missing
    exact absurd holds (primera_none (Option.some.inj missing) e member)

/-! ### Room behind an entry -/

theorem conLugar_iff (sound : e.Sana) (fits : e.Cabe) (plain : 0 ∉ e.name) :
    conLugar nombre e = true ↔ Holgada nombre e := by
  obtain ⟨le, rest⟩ := DirEntry.minimo_le sound fits
  rw [DirEntry.minimo, cadena_of_no_zero plain] at le rest
  rw [conLugar, decide_eq_true_iff, rest, Holgada]
  omega

/-- The search of `agregarEntradaDirectorio`, in a directory of plain names. -/
theorem buscarEntrada_holgada (geo : Geometria sb)
    (chains : Cadenas sb d x (bloquesDe sb (d.inodo x).size.toNat) ess)
    (plain : ∀ k < bloquesDe sb (d.inodo x).size.toNat, ∀ e ∈ ess k, 0 ∉ e.name)
    (slack : ∃ k < bloquesDe sb (d.inodo x).size.toNat, ∃ e ∈ ess k, Holgada nombre e) :
    ∃ k desp anterior e us vs, k < alcance sb ∧
      buscarEntrada sb d x (conLugar nombre) = some (some (k, desp, anterior, e)) ∧
      PrimeraEn (Holgada nombre) (bloquesDe sb (d.inodo x).size.toNat) ess k us e vs ∧
      Hallada sb d (posicionarInicioBloque sb (bloqueLogico sb d x k)) desp e us vs := by
  -- the test of the code and the one of the statement agree on these entries
  have test : ∀ k < bloquesDe sb (d.inodo x).size.toNat, ∀ e ∈ ess k,
      (conLugar nombre e = true ↔ Holgada nombre e) := by
    intro k inside e member
    obtain ⟨-, sound, chain⟩ := chains k inside
    refine conLugar_iff (sound e member) ?_ (plain k inside e member)
    exact chain.cabe member
  obtain ⟨l, inside, u, member, room⟩ := slack
  obtain ⟨k, desp, anterior, e, search⟩ := buscarEntrada_encuentra (p := conLugar nombre) geo chains
    ⟨l, inside, u, member, (test l inside u member).mpr room⟩
  obtain ⟨owned, found, before⟩ := buscarEntrada_cadenas geo chains search
  obtain ⟨limit, sound, chain⟩ := chains k owned
  obtain ⟨us, vs, shape, holds, others, first, here, after, -⟩ := primera_entradas chain found
  have inBlock : ∀ w ∈ us ++ e :: vs, w ∈ ess k := fun w inner => shape ▸ inner
  refine ⟨k, desp, anterior, e, us, vs, limit, search, ?_, first, here, after, shape ▸ sound⟩
  refine ⟨owned, shape, fun j less w inner => ?_, fun w inner => ?_, ?_⟩
  · rw [← test j (by omega) w inner]
    exact before j less w inner
  · rw [← test k owned w (inBlock w (by simp [inner]))]
    exact others w inner
  · exact (test k owned e (inBlock e (by simp))).mp holds

/-- The new entry as it is written, and the lengths of both. -/
theorem entradaNueva_holgada (sound : e.Sana) (fits : e.Cabe) (plain : 0 ∉ e.name)
    (short : nombre.length ≤ 255) (d : Disco) (y : Nat) :
    e.minimo = tamanioMinEntradaDirectorio e.name ∧ 8 + e.nameLen ≤ e.minimo ∧
      entradaNueva d y e.resto nombre =
        ⟨y, e.entryLen - tamanioMinEntradaDirectorio e.name, nombre.length, d.basura, nombre⟩ := by
  obtain ⟨-, rest⟩ := DirEntry.minimo_le sound fits
  have minimo : e.minimo = tamanioMinEntradaDirectorio e.name := by
    rw [DirEntry.minimo, cadena_of_no_zero plain]
  have length : nombre.length % 256 = nombre.length := Nat.mod_eq_of_lt (by omega)
  refine ⟨minimo, ?_, ?_⟩
  · rw [minimo, ← fits.name]
    exact (tamanioMin_bounds e.name).2.1
  · rw [entradaNueva, length, List.take_length, rest, minimo]

/-! ### The new entry is written -/

theorem agregarEntradaDirectorio_holgada {desp anterior : Nat} (bound : k < alcance sb)
    (search : buscarEntrada sb d x (conLugar nombre) = some (some (k, desp, anterior, e)))
    (asked : getInodoLibre sb d = some (y, d1)) (valid : esInodo sb y) :
    agregarEntradaDirectorio sb d x nombre = some (0,
      conEntrada d1 (posicionarInicioBloque sb (bloqueLogico sb d x k)) desp e y nombre) := by
  have place := posicionarme_iff.mpr
    (⟨bound, rfl⟩ : k < alcance sb ∧ _ = posicionarInicioBloque sb (bloqueLogico sb d x k))
  have positive : y ≠ 0 := by
    have := valid.1
    omega
  have wrote : agregarNuevaEntrada sb d (posicionarInicioBloque sb (bloqueLogico sb d x k))
      (desp + e.minimo) nombre e.resto =
        some (0, ponSize (grabarEntrada d1 (posicionarInicioBloque sb (bloqueLogico sb d x k))
          (desp + e.minimo) (entradaNueva d1 y e.resto nombre)) y 0) := by
    refine Option.bind_eq_some_iff.mpr ⟨_, asked, (if_pos positive).trans ?_⟩
    refine Option.bind_eq_some_iff.mpr ⟨_, getInodo_of_esInodo valid, ?_⟩
    rfl
  refine Option.bind_eq_some_iff.mpr ⟨_, search, ?_⟩
  refine Option.bind_eq_some_iff.mpr ⟨_, place, ?_⟩
  refine Option.bind_eq_some_iff.mpr ⟨_, wrote, ?_⟩
  rfl

theorem agregarEntradaDirectorio_sin_inodos {desp anterior : Nat} (bound : k < alcance sb)
    (search : buscarEntrada sb d x (conLugar nombre) = some (some (k, desp, anterior, e)))
    (none_free : d.freeInodes = 0) : agregarEntradaDirectorio sb d x nombre = some (ENOSPC, d) := by
  have place := posicionarme_iff.mpr
    (⟨bound, rfl⟩ : k < alcance sb ∧ _ = posicionarInicioBloque sb (bloqueLogico sb d x k))
  have asked : getInodoLibre sb d = some (0, d) := if_pos none_free
  refine Option.bind_eq_some_iff.mpr ⟨_, search, ?_⟩
  refine Option.bind_eq_some_iff.mpr ⟨_, place, ?_⟩
  refine Option.bind_eq_some_iff.mpr ⟨(ENOSPC, d), ?_, if_neg (by decide)⟩
  exact Option.bind_eq_some_iff.mpr ⟨_, asked, if_neg (by decide)⟩

/-- The counter of free inodes says whether there is one. -/
theorem InodosConsistentes.hay_libre (image : InodosConsistentes sb d) :
    d.freeInodes ≠ 0 ↔ ∃ z, esInodo sb z ∧ ¬asignado sb d z := by
  constructor
  · intro some_free
    obtain ⟨z, d', asked, -⟩ := getInodoLibre_exacto image some_free
    rcases getInodoLibre_asigna image.numerable asked with ⟨-, zero, -⟩ | ⟨-, valid, free, -⟩
    · exact absurd zero some_free
    · exact ⟨z, valid, free⟩
  · rintro ⟨z, valid, free⟩ zero
    have total := image.cuentaTotal
    rw [zero] at total
    have empty := (Finset.sum_eq_zero_iff.mp total.symm) _ (Finset.mem_range.mpr valid.2)
    rw [inodosLibresDe, Finset.card_eq_zero, Finset.filter_eq_empty_iff] at empty
    have set := empty (Finset.mem_range.mpr (Nat.mod_lt (z - 1) sb.inodesPerGroup_pos))
    exact free ⟨valid, by simpa using set⟩

theorem grabarEntrada_mem_fuera {inicio dir : Int} {desp : Nat}
    (inside : desp + (8 + e.name.length) ≤ tamanioDeBloque sb)
    (out : ¬(inicio ≤ dir ∧ dir < inicio + tamanioDeBloque sb)) :
    (grabarEntrada d inicio desp e).mem dir = d.mem dir := by
  have off : ¬(inicio + desp ≤ dir ∧ dir < inicio + desp + e.bytes.length) := by
    rw [DirEntry.bytes_length]
    omega
  simp [grabarEntrada, Disco.anota, Disco.copia, escribir, off]

theorem getInodoLibre_directorios (asked : getInodoLibre sb d = some (y, d1)) (g : Nat) :
    (d1.grupo g).usedDirsCount = (d.grupo g).usedDirsCount ∧ d1.basura = d.basura := by
  rw [getInodoLibre] at asked
  split at asked
  · cases asked
    exact ⟨rfl, rfl⟩
  · simp only [actualizarEstructurasCuandoPidoInodo, Option.bind_eq_bind, Option.bind_eq_some_iff,
      Option.some.injEq] at asked
    obtain ⟨nro, -, after, ⟨grupo, group, rfl⟩, run⟩ := asked
    cases run
    rw [leerGroupDescriptor] at group
    split at group
    · cases group
      by_cases here : g = (y - 1) / sb.inodesPerGroup <;> simp [Disco.ponGrupo, Disco.ponBitInodo, here]
    · cases group

/-- Everything but the block of the entry, the tables of inodes and the new inode is as it was. -/
theorem soloInserta_conEntrada {desp : Nat} {b : Nat}
    (asked : getInodoLibre sb d = some (y, d1)) (tomado : InodoTomado sb d d1 y)
    (behind : desp + e.minimo + (8 + (entradaNueva d1 y e.resto nombre).name.length) ≤
      tamanioDeBloque sb) (front : desp + (8 + e.name.length) ≤ tamanioDeBloque sb) :
    SoloInserta sb b y d (conEntrada d1 (posicionarInicioBloque sb b) desp e y nombre) := by
  obtain ⟨-, mem, inodes⟩ := getInodoLibre_solo asked
  refine ⟨fun dir out => ?_, ?_, fun g => ?_, fun z other => ?_, ?_⟩
  · rw [conEntrada, grabarEntrada_mem_fuera (e := { e with entryLen := e.minimo }) front out]
    change (grabarEntrada d1 _ (desp + e.minimo) _).mem dir = d.mem dir
    rw [grabarEntrada_mem_fuera behind out, mem]
  · have same : ∀ inicio, (conEntrada d1 inicio desp e y nombre).freeInodes = d1.freeInodes ∧
        MismosBloques d1 (conEntrada d1 inicio desp e y nombre) := by
      intro inicio
      refine ⟨?_, ?_, ?_, fun g => by rw [conEntrada_grupo]⟩
      all_goals
        simp only [conEntrada, grabarEntrada, ponSize, Disco.anota, Disco.copia, Disco.ponInodo]
    constructor
    case dentro => exact tomado.dentro
    case libre => exact tomado.libre
    case bits => simpa only [conEntrada_bitmapInodos] using tomado.bits
    case cuentaGrupo => simpa only [conEntrada_grupo] using tomado.cuentaGrupo
    case otrosGrupos => simpa only [conEntrada_grupo] using tomado.otrosGrupos
    case cuentaTotal => rw [(same _).1, tomado.cuentaTotal]
    case bloques => exact tomado.bloques.trans (same _).2
  · exact (getInodoLibre_directorios asked g).1
  · rw [conEntrada_inodo _ _ _ _ _ other, inodes]
  · rw [conEntrada_inodo_self, inodes]

/-! ### The sequence, block by block -/

theorem paresDe_bloque {ks : List Nat} (member : k ∈ ks) (distinct : ks.Nodup)
    (ess : Nat → List DirEntry) : ∃ antes despues, ∀ ws,
      paresDe ks (fun l => if l = k then ws else ess l) =
        antes ++ (ws.map DirEntry.par ++ despues) := by
  obtain ⟨first, last, rfl⟩ := List.append_of_mem member
  have before : ∀ l ∈ first, l ≠ k := fun l inner same =>
    (List.disjoint_of_nodup_append distinct) (same ▸ inner) (List.mem_cons_self ..)
  have after : ∀ l ∈ last, l ≠ k := fun l inner same =>
    (List.nodup_cons.mp distinct.of_append_right).1 (same ▸ inner)
  refine ⟨paresDe first ess, paresDe last ess, fun ws => ?_⟩
  have same : ∀ ls : List Nat, (∀ l ∈ ls, l ≠ k) →
      ls.flatMap (fun l => if l = k then ws else ess l) = ls.flatMap ess := by
    intro ls other
    exact List.flatMap_congr fun l inner => if_neg (other l inner)
  simp only [paresDe, List.flatMap_append, List.flatMap_cons, List.map_append, same first before,
    same last after, ↓reduceIte]

theorem paresDe_igual (ks : List Nat) (ess : Nat → List DirEntry) (k : Nat) :
    paresDe ks (fun l => if l = k then ess k else ess l) = paresDe ks ess := by
  congr 1
  funext l
  split
  · rename_i same
    rw [same]
  · rfl

/-- In a directory of plain names the new entry goes right behind the first one with room. -/
theorem insercion_en_hueco (nombre : Cadena) (image : Consistente sb d)
    (small : sb.blocks * tamanioDeBloque sb < 2 ^ 32) (inodes : InodosConsistentes sb d)
    (allocated : asignado sb d x) (chains : Cadenas sb d x (bloquesDe sb (d.inodo x).size.toNat) ess)
    (plain : ∀ k < bloquesDe sb (d.inodo x).size.toNat, ∀ e ∈ ess k, 0 ∉ e.name)
    (short : nombre.length ≤ 255)
    (slack : ∃ k < bloquesDe sb (d.inodo x).size.toNat, ∃ e ∈ ess k, Holgada nombre e) :
    ((∃ z, esInodo sb z ∧ ¬asignado sb d z) →
      ∃ k us e vs y d' ess', PrimeraEn (Holgada nombre) (bloquesDe sb (d.inodo x).size.toNat) ess k us e vs ∧
        agregarEntradaDirectorio sb d x nombre = some (0, d') ∧
        (∀ l, ess' l = if l = k then
            us ++ { e with entryLen := tamanioMinEntradaDirectorio e.name } ::
              ⟨y, e.entryLen - tamanioMinEntradaDirectorio e.name, nombre.length, d.basura, nombre⟩ ::
                vs
          else ess l) ∧
        (d'.inodo x).size = (d.inodo x).size ∧
        Cadenas sb d' x (bloquesDe sb (d.inodo x).size.toNat) ess' ∧
        (∃ antes despues,
          paresDe (List.range (bloquesDe sb (d.inodo x).size.toNat)) ess =
            antes ++ e.par :: despues ∧
          paresDe (List.range (bloquesDe sb (d.inodo x).size.toNat)) ess' =
            antes ++ e.par :: (nombre, y) :: despues) ∧
        SoloInserta sb (bloqueLogico sb d x k) y d d') ∧
    ((∀ z, esInodo sb z → asignado sb d z) →
      agregarEntradaDirectorio sb d x nombre = some (ENOSPC, d)) := by
  have geo := image.geometria small.le
  obtain ⟨E, obra⟩ := image.duenio
  have few := inodes.numerable
  obtain ⟨k, desp, anterior, e, us, vs, bound, search, first, found⟩ :=
    buscarEntrada_holgada geo chains plain slack
  constructor
  · intro free
    have some_free := inodes.hay_libre.mpr free
    obtain ⟨y, d1, asked, tomado⟩ := getInodoLibre_exacto inodes some_free
    have valid : esInodo sb y := by
      rcases getInodoLibre_asigna few asked with ⟨-, zero, -⟩ | ⟨-, valid, -⟩
      · exact absurd zero some_free
      · exact valid
    have memberE : e ∈ ess k := by
      rw [first.bloque]
      simp
    have noZero := plain k first.dentro e memberE
    obtain ⟨minimo, name, written⟩ := entradaNueva_holgada found.sana found.cabe noZero short d1 y
    have room : conLugar nombre e = true :=
      (conLugar_iff found.sana found.cabe noZero).mpr first.aqui
    have number := getInodoLibre_lt few asked
    obtain ⟨-, mem, same⟩ := getInodoLibre_solo asked
    have member : deTamanio sb d x (camino (ptrsPorBloque sb) k) :=
      (deTamanio_vivo allocated.1 _).mpr ⟨k, first.dentro, inicia_camino bound⟩
    have edit := Edita.conEntrada geo few obra (deTamanio_vivo allocated.1) bound first.dentro rfl
      found room asked
    have blocks := edit.cadenas obra member bound
      (fun q => (deTamanio_vivo allocated.1 q).mpr) chains (found.sanas_conEntrada room number name)
      ((found.congr mem).conEntrada room number name)
    have other : x ≠ y := inodo_nuevo_ne few allocated asked (by have := valid.1; omega)
    rw [written, minimo, (getInodoLibre_directorios asked 0).2] at blocks
    refine ⟨k, us, e, vs, y, _, _, first, agregarEntradaDirectorio_holgada bound search asked valid,
      fun l => rfl, ?_, blocks, ?_, ?_⟩
    · rw [conEntrada_inodo _ _ _ _ _ other, same]
    · obtain ⟨antes, despues, split⟩ := paresDe_bloque (List.mem_range.mpr first.dentro)
        List.nodup_range ess
      refine ⟨antes ++ us.map DirEntry.par, vs.map DirEntry.par ++ despues, ?_, ?_⟩
      · rw [← paresDe_igual _ ess k, split, first.bloque]
        simp
      · rw [split]
        simp [DirEntry.par]
    · have inside := found.inside
      obtain ⟨fits, sound, total⟩ := found.nueva room number d1
      have behind := sound.2
      refine soloInserta_conEntrada asked tomado ?_ ?_
      · rw [fits.name]
        omega
      · have header := found.cabe.name
        have whole := found.sana.2
        omega
  · intro full
    have none_free : d.freeInodes = 0 := by
      by_contra some_free
      obtain ⟨z, valid, free⟩ := inodes.hay_libre.mp some_free
      exact free (full z valid)
    exact agregarEntradaDirectorio_sin_inodos bound search none_free

/-- The entries of the root directory of `imagenConArchivo 0`. -/
theorem imagenConArchivo_cadenas : Cadenas (volumen 0) (imagenConArchivo 0) 2
    (bloquesDe (volumen 0) ((imagenConArchivo 0).inodo 2).size.toNat)
    fun _ => [⟨2, 12, 1, 0, [46]⟩, ⟨2, 12, 2, 0, [46, 46]⟩, ⟨11, 1000, 1, 0, [97]⟩] := by
  intro k below
  have size : bloquesDe (volumen 0) ((imagenConArchivo 0).inodo 2).size.toNat = 1 := rfl
  obtain rfl : k = 0 := by omega
  exact ⟨by decide, by decide, by decide +kernel⟩

/-- The entry `b` behind `a`. -/
theorem insercion_en_hueco_b : ∃ y d',
    agregarEntradaDirectorio (volumen 0) (imagenConArchivo 0) 2 [98] = some (0, d') ∧
      SoloInserta (volumen 0) 10 y (imagenConArchivo 0) d' := by
  have size : bloquesDe (volumen 0) ((imagenConArchivo 0).inodo 2).size.toNat = 1 := rfl
  obtain ⟨free, -⟩ := insercion_en_hueco [98] (imagenConArchivo_consistente (.inl rfl))
    (by decide) imagenConArchivo_inodos ⟨⟨by decide, by decide⟩, rfl⟩ imagenConArchivo_cadenas
    (fun k below => by decide) (by decide)
    ⟨0, by decide, ⟨11, 1000, 1, 0, [97]⟩, by decide, by decide⟩
  obtain ⟨k, us, e, vs, y, d', ess', first, run, -, -, -, -, solo⟩ := free ⟨12, ⟨by decide, by decide⟩,
    fun taken => absurd taken.2 (by decide)⟩
  obtain rfl : k = 0 := by
    have := first.dentro
    omega
  exact ⟨y, d', run, solo⟩

/-- The third entry of the root directory is called `a`, a zero byte and seven `b`s. -/
def imagenConCero : Disco :=
  { imagenConArchivo 0 with
    mem := escribir (imagenConArchivo 0).mem (posicionarInicioBloque (volumen 0) 10 + 24)
      (DirEntry.bytes ⟨11, 1000, 9, 0, [97, 0, 98, 98, 98, 98, 98, 98, 98]⟩) }

theorem imagenConCero_consistente : Consistente (volumen 0) imagenConCero :=
  (imagenConArchivo_consistente (.inl rfl)).otra_memoria _ fun _ _ reached =>
    ⟨0, (alcanza_imagenConArchivo (.inl rfl) reached).2⟩

theorem imagenConCero_inodos : InodosConsistentes (volumen 0) imagenConCero := by
  constructor <;> decide +kernel

/-- The name of the old entry is written over the header of the new one, and the walk stops at an
entry of length 0. -/
theorem insercion_sobre_cero : ¬∀ (sb : Superblock) (d : Disco) (x : Nat)
    (ess : Nat → List DirEntry) (nombre : Cadena), Consistente sb d →
    sb.blocks * tamanioDeBloque sb < 2 ^ 32 → InodosConsistentes sb d → asignado sb d x →
    Cadenas sb d x (bloquesDe sb (d.inodo x).size.toNat) ess →
    0 ∉ nombre → 1 ≤ nombre.length → nombre.length ≤ 255 →
    (∃ k < bloquesDe sb (d.inodo x).size.toNat, ∃ e ∈ ess k, Holgada nombre e) →
    (∃ z, esInodo sb z ∧ ¬asignado sb d z) →
    ∃ (d' : Disco) (ess' : Nat → List DirEntry),
      agregarEntradaDirectorio sb d x nombre = some (0, d') ∧
      ∀ k < bloquesDe sb (d.inodo x).size.toNat,
        Entradas d' (posicionarInicioBloque sb (bloqueLogico sb d' x k)) 0 (tamanioDeBloque sb)
          (ess' k) := by
  intro all
  have size : bloquesDe (volumen 0) (imagenConCero.inodo 2).size.toNat = 1 := rfl
  have chains : Cadenas (volumen 0) imagenConCero 2
      (bloquesDe (volumen 0) (imagenConCero.inodo 2).size.toNat)
      fun _ => [⟨2, 12, 1, 0, [46]⟩, ⟨2, 12, 2, 0, [46, 46]⟩,
        ⟨11, 1000, 9, 0, [97, 0, 98, 98, 98, 98, 98, 98, 98]⟩] := by
    intro k below
    obtain rfl : k = 0 := by omega
    exact ⟨by decide, by decide, by decide +kernel⟩
  obtain ⟨d', ess', run, after⟩ := all (volumen 0) imagenConCero 2 _ [98] imagenConCero_consistente
    (by decide) imagenConCero_inodos ⟨⟨by decide, by decide⟩, rfl⟩ chains (by decide) (by decide)
    (by decide) ⟨0, by decide, _, List.mem_cons_of_mem _ (List.mem_cons_of_mem _
      (List.mem_cons_self ..)), by decide⟩
    ⟨12, ⟨by decide, by decide⟩, fun taken => absurd taken.2 (by decide)⟩
  have lengths : (agregarEntradaDirectorio (volumen 0) imagenConCero 2 [98]).map (fun r =>
      (bloqueLogico (volumen 0) r.2 2 0, [0, 12, 24, 36, 902].map fun desp =>
        (entradaEn r.2 (posicionarInicioBloque (volumen 0) 10) desp).entryLen)) =
      some (10, [12, 12, 12, 866, 0]) := by decide +kernel
  rw [run] at lengths
  simp only [Option.map_some, Option.some.injEq, Prod.mk.injEq, List.map_cons, List.map_nil,
    List.cons.injEq, and_true] at lengths
  obtain ⟨place, first, second, third, fourth, last⟩ := lengths
  have chain := after 0 (by decide)
  rw [place] at chain
  obtain ⟨es, chain⟩ := chain.avanza (by decide)
  rw [first] at chain
  obtain ⟨es, chain⟩ := chain.avanza (by decide)
  rw [second] at chain
  obtain ⟨es, chain⟩ := chain.avanza (by decide)
  rw [third] at chain
  obtain ⟨es, chain⟩ := chain.avanza (by decide)
  rw [fourth] at chain
  exact absurd (chain.sin_avance last) (by decide)

end LosAltos.Rfs
