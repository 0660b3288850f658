import LosAltos.Rc.KeyAreas

/-!
# Items held by two connections

`our_engine.c:267-349, 414-426`, `vector.c:73-197`. Between its allocate and its release a
connection holds a position of the table. Victims, the sort and the compaction look at
neither; a call of the other connection keeps the item when none of them falls on it.
-/
namespace LosAltos.Rc

open Lib

/-! ### Where a search makes room -/

/-- A point of a search at which entries are evicted or moved, with the state there. -/
inductive Ronda where
  /-- `borrar` chooses a victim. -/
  | desaloja (m : Motor)
  /-- `compactarDinam`. -/
  | compacta (m : Motor)
  /-- `elimina_buddy` sorts the table behind the entry. -/
  | ordena (m : Motor) (posicion : Nat)
  /-- A dynamic search settles on an entry; next fit does not ask whether it is free. -/
  | elige (i : Nat)

/-- The points of `hacerLugar`. -/
def rondasDeLugar (c : Config) (m : Motor) (elimina : Bool) : List Ronda :=
  if elimina then [.desaloja m]
  else .compacta m ::
    match compactarDinam c m with
    | some (m, none) => [.desaloja m]
    | _ => []

def rondasNext (c : Config) (espacio : Nat) : Nat → Motor → Nat → Int → List Ronda
  | 0, _, _, _ => []
  | k + 1, m, i, fallidas =>
    let (i, encontrado) := recorrerNext c m espacio i
    if i = m.ultimaPosicion ∧ encontrado = false then
      let fallidas := aInt16 (fallidas + 1)
      let elimina := decide (fallidas < c.freq) || c.freq == -1
      rondasDeLugar c m elimina ++
        match hacerLugar c m i elimina with
        | none => []
        | some (m, i) =>
          if (m.keyVector i).dataSize ≥ espacio then [.elige i]
          else rondasNext c espacio k m i (if elimina then fallidas else 0)
    else if (m.keyVector i).dataSize ≥ espacio then [.elige i]
    else rondasNext c espacio k m 0 fallidas

def rondasWorst (c : Config) (espacio : Nat) :
    Nat → Motor → Nat → Nat → Nat → Bool → List Ronda
  | 0, _, _, _, _, _ => []
  | k + 1, m, i, posMayorTamano, mayorTamano, encontrado =>
    let e := m.keyVector i
    if (encontrado = false ∨ e.dataSize > 0) ∧ i < c.cantRegistros then
      if e.dataSize = 0 then
        if mayorTamano = 0 then
          let elimina := aInt16 c.freq != 0 || c.freq == -1
          rondasDeLugar c m elimina ++
            match hacerLugar c m i elimina with
            | none => []
            | some (m, i) =>
              if (m.keyVector i).dataSize ≥ espacio then
                rondasWorst c espacio k m (i + 1) i ((m.keyVector i).dataSize % 2 ^ 32) true
              else rondasWorst c espacio k m 1 posMayorTamano mayorTamano encontrado
        else rondasWorst c espacio k m (i + 1) posMayorTamano mayorTamano true
      else if e.dataSize ≥ espacio ∧ e.dataSize > mayorTamano ∧ e.libre then
        rondasWorst c espacio k m (i + 1) i (e.dataSize % 2 ^ 32) encontrado
      else rondasWorst c espacio k m (i + 1) posMayorTamano mayorTamano encontrado
    else [.elige posMayorTamano]

def rondasBuddy (c : Config) (fuel espacio : Nat) : Nat → Motor → Nat → Nat → Bool → List Ronda
  | 0, _, _, _, _ => []
  | k + 1, m, i, lugares, encontrado =>
    if encontrado = false ∧ i < c.cantRegistros then
      let e := m.keyVector i
      let l := m.keyVector lugares
      if e.dataSize = 0 then
        if (lugares = 0 ∧ l.dataSize < espacio) ∨ l.libre = false then
          let (m', i) := eliminarParticion c m none
          .desaloja m :: .ordena m' i ::
            match eliminaBuddy c fuel m' i with
            | none => []
            | some (m, i) =>
              if (m.keyVector i).dataSize > espacio ∧ (m.keyVector i).libre then
                rondasBuddy c fuel espacio k m (i + 1) i true
              else rondasBuddy c fuel espacio k m (i + 1) lugares false
        else rondasBuddy c fuel espacio k m (i + 1) lugares true
      else if e.dataSize ≥ espacio ∧ e.libre then
        let lugares :=
          if lugares = c.cantRegistros then i
          else if e.dataSize ≤ l.dataSize then i else lugares
        rondasBuddy c fuel espacio k m (i + 1) lugares false
      else rondasBuddy c fuel espacio k m (i + 1) lugares false
    else []

def rondasDeBusqueda (c : Config) (fuel : Nat) (m : Motor) (espacio : Nat) : List Ronda :=
  match c.esquema with
  | .buddy => rondasBuddy c fuel espacio fuel m 0 c.cantRegistros false
  | .partDinam =>
    match c.particion with
    | .next => rondasNext c espacio fuel m m.ultimaPosicion 0
    | .worst => rondasWorst c espacio fuel m 0 0 0 false

/-- The points of an allocate: none where the value is refused or its key's entry is
large enough. -/
def rondasDeAllocate (c : Config) (fuel : Nat) (m : Motor) (key : List UInt8) (nbytes : Nat) :
    List Ronda :=
  if nbytes > c.cacheSize then []
  else
    match vectorGet c m key with
    | some (j + 1) =>
      if (m.keyVector (j + 1)).dataSize ≥ nbytes then []
      else rondasDeBusqueda c fuel (liberarClave m (j + 1)) (nbytes % 2 ^ 32)
    | _ => rondasDeBusqueda c fuel m (nbytes % 2 ^ 32)

/-- The points of a delete. -/
def rondasDeDelete (c : Config) (m : Motor) (key : List UInt8) : List Ronda :=
  match vectorGet c m key with
  | some res =>
    if c.esquema = .buddy then [.ordena (eliminarParticion c m (some res)).1 res] else []
  | none => []

/-- The victim is not the entry at `h`, neither the compaction nor the sort changes that
entry, the sort does not take it for the one it follows, and the search does not settle
on it. -/
def Ronda.Respeta (c : Config) (h : Nat) : Ronda → Prop
  | .desaloja m => borrar c m ≠ h
  | .compacta m => (compactarDinam c m).all fun r => r.1.keyVector h = m.keyVector h
  | .ordena m posicion =>
    (ordenarVector c m (some posicion)).all fun r =>
      r.1.keyVector h = m.keyVector h ∧ r.2 ≠ h
  | .elige i => i ≠ h

instance (c : Config) (h : Nat) : DecidablePred (Ronda.Respeta c h) := fun r => by
  cases r <;> simp only [Ronda.Respeta] <;> infer_instance

/-! ### A search leaves an entry in use alone -/

/-- An occupied entry with a size, which no step but an eviction or a move may change. -/
structure EnUso (c : Config) (m : Motor) (h : Nat) : Prop where
  bound : h < c.cantRegistros
  ocupada : (m.keyVector h).libre = false
  tamanio : 0 < (m.keyVector h).dataSize

section
variable {c : Config} {m m' : Motor} {h : Nat}

theorem EnUso.congr (use : EnUso c m h) (same : m'.keyVector h = m.keyVector h) :
    EnUso c m' h :=
  ⟨use.bound, same ▸ use.ocupada, same ▸ use.tamanio⟩

theorem EnUso.ne_libre (use : EnUso c m h) {i : Nat} (free : (m.keyVector i).libre) : i ≠ h := by
  rintro rfl
  rw [use.ocupada] at free
  cases free

theorem EnUso.ne_vacia (use : EnUso c m h) {i : Nat} (empty : (m.keyVector i).dataSize = 0) :
    i ≠ h := by
  rintro rfl
  have := use.tamanio
  omega

theorem avanza_le_stop (p : Nat → Bool) (n k : Nat) (stop : p h = false) :
    ∀ {i : Nat}, i ≤ h → avanza p n k i ≤ h := by
  induction k with
  | zero => exact fun le => le
  | succ k ih =>
    intro i le
    unfold avanza
    split
    · rename_i runs
      have passed : i ≠ h := by
        rintro rfl
        simp [stop] at runs
      exact ih (by omega)
    · exact le

/-- With an entry in use there is a victim. -/
theorem borrar_lt (use : EnUso c m h) : borrar c m < c.cantRegistros := by
  apply borrarLoop_victim (· < c.cantRegistros) fun i bound _ => bound
  have first : avanza (fun i => (m.keyVector i).libre) c.cantRegistros c.cantRegistros 0 ≤ h :=
    avanza_le_stop _ _ _ use.ocupada (by omega)
  have := use.bound
  omega

theorem eliminarParticion_respeta (use : EnUso c m h) (spared : borrar c m ≠ h) :
    (eliminarParticion c m none).1.keyVector h = m.keyVector h ∧
      (eliminarParticion c m none).2 = borrar c m := by
  have inside := borrar_lt use
  simp only [eliminarParticion, Option.getD_none]
  rw [if_pos (by omega)]
  exact ⟨by simp [Ne.symm spared], rfl⟩

theorem hacerLugar_respeta (use : EnUso c m h) {i i' : Nat} {elimina : Bool}
    (spares : ∀ r ∈ rondasDeLugar c m elimina, r.Respeta c h)
    (runs : hacerLugar c m i elimina = some (m', i')) : m'.keyVector h = m.keyVector h := by
  unfold hacerLugar at runs
  unfold rondasDeLugar at spares
  split at runs
  · rename_i evicts
    rw [if_pos evicts] at spares
    obtain ⟨kept, victim⟩ := eliminarParticion_respeta use (spares _ List.mem_cons_self)
    have inside := borrar_lt use
    dsimp only at runs
    rw [if_neg (by omega)] at runs
    simp only [Option.some.injEq, Prod.mk.injEq] at runs
    rw [← runs.1, kept]
  · rename_i compacts
    rw [if_neg compacts] at spares
    simp only [Option.bind_eq_bind, Option.bind_eq_some_iff] at runs
    obtain ⟨⟨m₁, compac⟩, compacted, ends⟩ := runs
    have kept : m₁.keyVector h = m.keyVector h := by
      have spared : (Ronda.compacta m).Respeta c h := spares _ List.mem_cons_self
      simpa [Ronda.Respeta, compacted] using spared
    cases compac with
    | none =>
      have spared : borrar c m₁ ≠ h := spares (.desaloja m₁) (by simp [compacted])
      obtain ⟨same, -⟩ := eliminarParticion_respeta (use.congr kept) spared
      simp only [Option.some.injEq] at ends
      rw [ends] at same
      exact same.trans kept
    | some ultimo =>
      simp only [Option.some.injEq, Prod.mk.injEq] at ends
      rw [← ends.1, kept]

theorem buscarNextLoop_respeta (espacio k : Nat) :
    ∀ {m m' : Motor} {i i' : Nat} {fallidas : Int}, EnUso c m h →
      (∀ r ∈ rondasNext c espacio k m i fallidas, r.Respeta c h) →
      buscarNextLoop c espacio k m i fallidas = some (m', i') →
      m'.keyVector h = m.keyVector h ∧ i' ≠ h := by
  induction k with
  | zero => intro m m' i i' fallidas _ _ runs; cases runs
  | succ k ih =>
    intro m m' i i' fallidas use spares runs
    simp only [buscarNextLoop] at runs
    simp only [rondasNext] at spares
    split at runs
    · rename_i full
      rw [if_pos full] at spares
      split at runs
      · cases runs
      · rename_i m₁ i₁ room
        rw [room] at spares
        have kept := hacerLugar_respeta use
          (fun r member => spares r (List.mem_append_left _ member)) room
        have later := fun r member => spares r (List.mem_append_right _ member)
        split at runs
        · rename_i fits
          simp only [Option.some.injEq, Prod.mk.injEq] at runs
          obtain ⟨rfl, rfl⟩ := runs
          exact ⟨kept, later (.elige i₁) (by simp [fits])⟩
        · rename_i small
          simp only [if_neg small] at later
          obtain ⟨same, other⟩ := ih (use.congr kept) later runs
          exact ⟨same.trans kept, other⟩
    · rename_i room
      rw [if_neg room] at spares
      split at runs
      · rename_i fits
        simp only [Option.some.injEq, Prod.mk.injEq] at runs
        obtain ⟨rfl, rfl⟩ := runs
        exact ⟨rfl, spares (.elige _) (by simp [fits])⟩
      · rename_i small
        rw [if_neg small] at spares
        exact ih use spares runs

theorem buscarWorstLoop_respeta (espacio k : Nat) :
    ∀ {m m' : Motor} {i i' posMayor posMayor' mayor : Nat} {encontrado : Bool}, EnUso c m h →
      (∀ r ∈ rondasWorst c espacio k m i posMayor mayor encontrado, r.Respeta c h) →
      buscarWorstLoop c espacio k m i posMayor mayor encontrado = some (m', i', posMayor') →
      m'.keyVector h = m.keyVector h ∧ posMayor' ≠ h := by
  induction k with
  | zero => intro m m' i i' posMayor posMayor' mayor encontrado _ _ runs; cases runs
  | succ k ih =>
    intro m m' i i' posMayor posMayor' mayor encontrado use spares runs
    simp only [buscarWorstLoop] at runs
    simp only [rondasWorst] at spares
    split at runs
    · rename_i inside
      rw [if_pos inside] at spares
      split at runs
      · rename_i empty
        rw [if_pos empty] at spares
        split at runs
        · rename_i none
          rw [if_pos none] at spares
          split at runs
          · cases runs
          · rename_i m₁ i₁ room
            rw [room] at spares
            have kept := hacerLugar_respeta use
              (fun r member => spares r (List.mem_append_left _ member)) room
            have later := fun r member => spares r (List.mem_append_right _ member)
            split at runs
            · rename_i fits
              simp only [if_pos fits] at later
              obtain ⟨same, other⟩ := ih (use.congr kept) later runs
              exact ⟨same.trans kept, other⟩
            · rename_i small
              simp only [if_neg small] at later
              obtain ⟨same, other⟩ := ih (use.congr kept) later runs
              exact ⟨same.trans kept, other⟩
        · rename_i some
          rw [if_neg some] at spares
          exact ih use spares runs
      · rename_i filled
        rw [if_neg filled] at spares
        split at runs
        · rename_i better
          rw [if_pos better] at spares
          exact ih use spares runs
        · rename_i worse
          rw [if_neg worse] at spares
          exact ih use spares runs
    · rename_i outside
      rw [if_neg outside] at spares
      simp only [Option.some.injEq, Prod.mk.injEq] at runs
      obtain ⟨rfl, -, rfl⟩ := runs
      exact ⟨rfl, spares (.elige posMayor) List.mem_cons_self⟩

theorem cumple_libre {actual : Nat} {vecino : Int} (meets : cumple c m actual vecino) :
    (m.keyVector vecino.toNat).libre := by
  unfold cumple at meets
  split at meets
  · simp only [Bool.and_eq_true] at meets
    exact meets.2
  · cases meets

theorem juntarSiCumple_respeta (use : EnUso c m h) {posicion : Nat} (other : posicion ≠ h)
    (vecino : Int) (cuenta : Nat) :
    (juntarSiCumple c m posicion vecino cuenta).1.keyVector h = m.keyVector h := by
  unfold juntarSiCumple
  split
  · rename_i meets
    exact juntarlos_other m (Ne.symm other) (Ne.symm (use.ne_libre (cumple_libre meets)))
  · rfl

theorem eliminaBuddyLoop_respeta {posicion : Nat} (other : posicion ≠ h) (k : Nat) :
    ∀ {m m' : Motor} {siguiente anterior : Int} {s a : Nat}, EnUso c m h →
      eliminaBuddyLoop c posicion k m siguiente anterior s a = some m' →
      m'.keyVector h = m.keyVector h := by
  induction k with
  | zero => intro m m' siguiente anterior s a _ runs; cases runs
  | succ k ih =>
    intro m m' siguiente anterior s a use runs
    simp only [eliminaBuddyLoop] at runs
    split at runs
    · have first : (juntarSiCumple c m posicion siguiente s).1.keyVector h = m.keyVector h :=
        juntarSiCumple_respeta use other siguiente s
      have second := juntarSiCumple_respeta (use.congr first) other anterior a
      split at runs
      · have rest := ih (use.congr (second.trans first)) runs
        exact rest.trans (second.trans first)
      · simp only [Option.some.injEq] at runs
        rw [← runs]
        exact second.trans first
    · simp only [Option.some.injEq] at runs
      rw [← runs]

theorem eliminaBuddy_respeta (use : EnUso c m h) {fuel posicionOrg pos : Nat}
    (spares : (Ronda.ordena m posicionOrg).Respeta c h)
    (runs : eliminaBuddy c fuel m posicionOrg = some (m', pos)) :
    m'.keyVector h = m.keyVector h ∧ pos ≠ h := by
  simp only [eliminaBuddy, Option.bind_eq_bind, Option.bind_eq_some_iff, Option.some.injEq,
    Prod.mk.injEq] at runs
  obtain ⟨⟨sorted, posicion⟩, order, m₁, joins, rfl, rfl⟩ := runs
  obtain ⟨kept, other⟩ : sorted.keyVector h = m.keyVector h ∧ posicion ≠ h := by
    simpa [Ronda.Respeta, order] using spares
  exact ⟨(eliminaBuddyLoop_respeta other _ (use.congr kept) joins).trans kept, other⟩

theorem buscarBuddyLoop_respeta (fuel espacio k : Nat) :
    ∀ {m m' : Motor} {i lugares lugares' : Nat} {encontrado : Bool}, EnUso c m h →
      (∀ r ∈ rondasBuddy c fuel espacio k m i lugares encontrado, r.Respeta c h) →
      buscarBuddyLoop c fuel espacio k m i lugares encontrado = some (m', lugares') →
      m'.keyVector h = m.keyVector h := by
  induction k with
  | zero => intro m m' i lugares lugares' encontrado _ _ runs; cases runs
  | succ k ih =>
    intro m m' i lugares lugares' encontrado use spares runs
    simp only [buscarBuddyLoop] at runs
    simp only [rondasBuddy] at spares
    split at runs
    · rename_i inside
      rw [if_pos inside] at spares
      split at runs
      · rename_i empty
        rw [if_pos empty] at spares
        split at runs
        · rename_i missing
          rw [if_pos missing] at spares
          obtain ⟨evicted, -⟩ := eliminarParticion_respeta use (spares _ List.mem_cons_self)
          split at runs
          · cases runs
          · rename_i m₁ i₁ joins
            have sorts := spares _ (List.mem_cons_of_mem _ List.mem_cons_self)
            have later := fun r member =>
              spares r (List.mem_cons_of_mem _ (List.mem_cons_of_mem _ member))
            simp only [joins] at later
            obtain ⟨joined, -⟩ := eliminaBuddy_respeta (use.congr evicted) sorts joins
            have kept := joined.trans evicted
            split at runs
            · rename_i fits
              simp only [if_pos fits] at later
              exact (ih (use.congr kept) later runs).trans kept
            · rename_i small
              simp only [if_neg small] at later
              exact (ih (use.congr kept) later runs).trans kept
        · rename_i found
          rw [if_neg found] at spares
          exact ih use spares runs
      · rename_i filled
        rw [if_neg filled] at spares
        split at runs
        · rename_i fits
          rw [if_pos fits] at spares
          exact ih use spares runs
        · rename_i worse
          rw [if_neg worse] at spares
          exact ih use spares runs
    · simp only [Option.some.injEq, Prod.mk.injEq] at runs
      rw [← runs.1]

theorem dividir_intacta {lugares pos prox : Nat} (first : h ≠ lugares) (second : h ≠ pos) :
    (dividir m lugares pos prox).keyVector h = m.keyVector h := by
  simp only [dividir, cargarEnVector, actualizarFlags, insertPadreActual, Motor.pon_keyVector,
    if_neg first, if_neg second]
  split
  · simp [first, second]
  · split <;> simp [first, second]

theorem crearArbol_respeta {lugares : Nat} (espacio k : Nat) (other : lugares ≠ h) :
    ∀ {m m' : Motor} {it : Option Nat}, EnUso c m h →
      crearArbol c lugares espacio k m = some (m', it) →
      m'.keyVector h = m.keyVector h ∧ it ≠ some h := by
  induction k with
  | zero => intro m m' it _ runs; cases runs
  | succ k ih =>
    intro m m' it use runs
    simp only [crearArbol] at runs
    split at runs
    · split at runs
      · rename_i pos found
        have apart := use.ne_vacia (buscarPosLibre_some found).2
        have kept : (dividir m lugares pos ((m.keyVector lugares).dataSize / 2 % 2 ^ 32)).keyVector h
            = m.keyVector h := dividir_intacta (Ne.symm other) (Ne.symm apart)
        obtain ⟨same, chosen⟩ := ih (use.congr kept) runs
        exact ⟨same.trans kept, chosen⟩
      · simp only [Option.some.injEq, Prod.mk.injEq] at runs
        obtain ⟨rfl, rfl⟩ := runs
        exact ⟨rfl, by simp⟩
    · simp only [Option.some.injEq, Prod.mk.injEq] at runs
      obtain ⟨rfl, rfl⟩ := runs
      exact ⟨by simp [cerrar, Ne.symm other], by simpa using other⟩

theorem crearParticion_respeta (use : EnUso c m h) {i : Nat} (other : i ≠ h)
    (prueba espacio : Nat) :
    (crearParticion c m prueba i espacio).1.keyVector h = m.keyVector h ∧
      (crearParticion c m prueba i espacio).2 ≠ some h := by
  rcases crearParticion_cases c m prueba i espacio with same | ⟨pos, free, same⟩ | same
  · rw [same]
    exact ⟨rfl, nofun⟩
  · rw [same]
    have apart := use.ne_vacia (buscarPosLibre_some free).2
    refine ⟨?_, by simpa using other⟩
    rw [cortar_other m espacio _ (Ne.symm apart)]
    simp [Ne.symm other]
  · rw [same]
    exact ⟨rfl, by simpa using other⟩

/-- A search whose rounds spare the entry leaves it and finds another one. -/
theorem vectorSearch_respeta (registros : 0 < c.cantRegistros) (table : Tabla c m)
    (use : EnUso c m h) {fuel espacio : Nat} {it : Option Nat}
    (spares : ∀ r ∈ rondasDeBusqueda c fuel m espacio, r.Respeta c h)
    (runs : vectorSearch c fuel m espacio = some (m', it)) :
    m'.keyVector h = m.keyVector h ∧ it ≠ some h := by
  unfold vectorSearch at runs
  unfold rondasDeBusqueda at spares
  split at runs
  · rename_i buddy
    simp only [buddy] at spares
    simp only [buscarLibreBuddy, Option.bind_eq_bind, Option.bind_eq_some_iff] at runs
    obtain ⟨⟨m₁, lugares⟩, search, tree⟩ := runs
    have kept := buscarBuddyLoop_respeta _ _ _ use spares search
    have use₁ := use.congr kept
    obtain ⟨-, block⟩ := buscarBuddyLoop_estable (tabla_estable registros) _ _ _ table (Or.inl rfl)
      search
    have other : lugares ≠ h := by
      rcases block with last | ⟨-, free, -⟩
      · have := use.bound
        omega
      · exact use₁.ne_libre free
    obtain ⟨same, chosen⟩ := crearArbol_respeta _ _ other use₁ tree
    exact ⟨same.trans kept, chosen⟩
  · rename_i dynamic
    simp only [dynamic] at spares
    split at runs
    · rename_i next
      simp only [next] at spares
      simp only [buscarLibreNext, Option.bind_eq_bind, Option.bind_eq_some_iff] at runs
      obtain ⟨⟨m₁, i⟩, search, ends⟩ := runs
      obtain ⟨kept, other⟩ := buscarNextLoop_respeta _ _ use spares search
      simp only [Option.some.injEq] at ends
      have use₁ : EnUso c { m₁ with
          ultimaPosicion := if i + 1 < c.cantRegistros then i + 1 else 0 } h := use.congr kept
      have taken := crearParticion_respeta use₁ other (m₁.keyVector i).dataSize espacio
      rw [ends] at taken
      exact ⟨taken.1.trans kept, taken.2⟩
    · rename_i worst
      simp only [worst] at spares
      simp only [buscarLibreWorst, Option.bind_eq_bind, Option.bind_eq_some_iff] at runs
      obtain ⟨⟨m₁, i, posMayor⟩, search, ends⟩ := runs
      obtain ⟨kept, other⟩ := buscarWorstLoop_respeta _ _ use spares search
      simp only [Option.some.injEq] at ends
      have taken := crearParticion_respeta (use.congr kept) other (m₁.keyVector i).dataSize espacio
      rw [ends] at taken
      exact ⟨taken.1.trans kept, taken.2⟩

/-! ### The areas of the keys -/

theorem areas_punteros (narrow : c.maxKey < 128) :
    DePunteros c fun k => ∀ i < c.cantRegistros, ∀ j < c.cantRegistros, i ≠ j →
      ∀ p q, k i = some p → k j = some q → p + c.maxKey ≤ q ∨ q + c.maxKey ≤ p where
  congr same areas i left j right different p q first second := by
    rw [same i left] at first
    rw [same j right] at second
    exact areas i left j right different p q first second
  permuta bound areas i left j right different p q first second := by
    refine areas _ (Sorter.swap_lt ?_ left) _ (Sorter.swap_lt ?_ right) (by simpa using different)
      p q first second
    · omega
    · omega
  inicia := by
    intro i left j right different p q first second
    simp only [Option.some.injEq] at first second
    rw [← first, ← second]
    exact areas_iniciales narrow different

/-- The areas are apart, and the key bytes are these. -/
def ClavesEn (c : Config) (ks : Memoria) (m : Motor) : Prop :=
  Tabla c m ∧ Areas c m ∧ m.keysSpace = ks

theorem clavesEn_buscada (registros : 0 < c.cantRegistros) (narrow : c.maxKey < 128)
    (ks : Memoria) : Buscada c (ClavesEn c ks) := by
  have both := (conPunteros_buscada registros (areas_punteros narrow)).and
    (mismosBytes_buscada registros ks)
  refine Buscada.congr (fun m => ?_) both
  exact ⟨fun holds => ⟨holds.1.1, holds.1.2, holds.2.2⟩,
    fun holds => ⟨⟨holds.1, holds.2.1⟩, holds.1, holds.2.2⟩⟩

/-! ### The calls of the other connection -/

/-- An entry with another key is not the one `vector_get` finds. -/
theorem vectorGet_ne (table : Tabla c m) {key : List UInt8} {i : Nat}
    (other : clave m h ≠ key.take (strlen key)) (found : vectorGet c m key = some i) : i ≠ h := by
  rintro rfl
  obtain ⟨bound, mine⟩ := vectorGet_some found
  exact other ((tieneClave_iff table bound).mp mine).2

theorem lugarPara_respeta (registros : 0 < c.cantRegistros) (table : Tabla c m)
    (use : EnUso c m h) {fuel nbytes : Nat} {key : List UInt8} {it : Option Nat}
    (other : clave m h ≠ key.take (strlen key)) (fits : nbytes ≤ c.cacheSize)
    (spares : ∀ r ∈ rondasDeAllocate c fuel m key nbytes, r.Respeta c h)
    (runs : lugarPara c fuel m key nbytes = some (m', it)) :
    m'.keyVector h = m.keyVector h ∧ it ≠ some h := by
  unfold lugarPara at runs
  unfold rondasDeAllocate at spares
  rw [if_neg (by omega)] at spares
  split at runs
  · rename_i j found
    have apart := vectorGet_ne table other found
    have kept : (liberarClave m (j + 1)).keyVector h = m.keyVector h := by
      simp [liberarClave, Ne.symm apart]
    have size : ((liberarClave m (j + 1)).keyVector (j + 1)).dataSize =
        (m.keyVector (j + 1)).dataSize := by simp [liberarClave]
    dsimp only at runs
    rw [size] at runs
    simp only [found] at spares
    split at runs
    · simp only [Option.some.injEq, Prod.mk.injEq] at runs
      rw [← runs.1, ← runs.2]
      exact ⟨kept, by simpa using apart⟩
    · rename_i large
      rw [if_neg large] at spares
      have freed := table.liberarClave (vectorGet_some found).1
      obtain ⟨same, chosen⟩ := vectorSearch_respeta registros freed (use.congr kept) spares runs
      exact ⟨same.trans kept, chosen⟩
  · rename_i missing
    split at spares
    · rename_i j found
      exact absurd found (missing j)
    · exact vectorSearch_respeta registros table use spares runs

/-- The key bytes of another entry are not written. -/
theorem clave_ocupar {i nbytes : Nat} {p : Int} {key : List UInt8} {ahora : Tiempo}
    (areas : Areas c m) (bound : i < c.cantRegistros) (area : (m.keyVector i).key = some p)
    (short : (key.length : Int) ≤ c.maxKey) (below : h < c.cantRegistros) (other : i ≠ h)
    (nkey : ((m.keyVector h).nkey : Int) ≤ c.maxKey) :
    clave (ocupar m i p key nbytes ahora) h = clave m h := by
  have entry : (ocupar m i p key nbytes ahora).keyVector h = m.keyVector h := by
    simp [ocupar, Ne.symm other]
  simp only [clave, entry]
  split
  · rename_i q here
    apply leer_escribir_disjoint
    have := areas i bound h below other p q area here
    omega
  · rfl

/-- An allocate keeps the areas apart, and its item has the key it was asked for. -/
theorem dummyNgAllocate_item (registros : 0 < c.cantRegistros) (minima : 0 < c.partMinima)
    (narrow : c.maxKey < 128) (table : Tabla c m) (areas : Areas c m) {fuel nbytes : Nat}
    {key : List UInt8} {ahora : Tiempo} {r : Respuesta}
    (runs : dummyNgAllocate c fuel m key nbytes ahora = some (m', r)) :
    Tabla c m' ∧ Areas c m' ∧
      ∀ i, r = .item i → i < c.cantRegistros ∧ (m'.keyVector i).libre = false ∧
        (m'.keyVector i).dataSize = nbytes ∧ (m'.keyVector i).nkey = key.length ∧
        clave m' i = key := by
  unfold dummyNgAllocate at runs
  split at runs
  · simp only [Option.some.injEq, Prod.mk.injEq] at runs
    obtain ⟨rfl, rfl⟩ := runs
    exact ⟨table, areas, nofun⟩
  · simp only [Option.bind_eq_bind, Option.bind_eq_some_iff] at runs
    obtain ⟨⟨m₁, it⟩, place, ends⟩ := runs
    obtain ⟨table₁, areas₁, -⟩ :=
      lugarPara_buscada (clavesEn_buscada registros narrow m.keysSpace) minima ⟨table, areas, rfl⟩ place
    rcases asignar_cases table₁ ends with ⟨-, rfl, rfl⟩ | ⟨i, -, -, rfl, rfl⟩ |
      ⟨i, p, -, bound, area, rfl, rfl⟩
    · exact ⟨table₁, areas₁, nofun⟩
    · exact ⟨table₁, areas₁, nofun⟩
    · refine ⟨table₁.ocupar bound, areas₁.congr fun j _ => ?_, fun k same => ?_⟩
      · by_cases same : j = i
        · simp [ocupar, same]
        · simp [ocupar, same]
      · obtain rfl : i = k := by simpa using same
        refine ⟨bound, ?_, ?_, ?_, ?_⟩
        · simp [ocupar]
        · simp [ocupar]
        · simp [ocupar]
        · simp [clave, ocupar, area, leer_escribir_self]

/-- An allocate whose rounds spare an entry with another key leaves it and its key. -/
theorem dummyNgAllocate_respeta (registros : 0 < c.cantRegistros) (minima : 0 < c.partMinima)
    (narrow : c.maxKey < 128) (table : Tabla c m) (areas : Areas c m) (use : EnUso c m h)
    (nkey : ((m.keyVector h).nkey : Int) ≤ c.maxKey) {fuel nbytes : Nat} {key : List UInt8}
    {ahora : Tiempo} {r : Respuesta} (short : (key.length : Int) ≤ c.maxKey)
    (other : clave m h ≠ key.take (strlen key))
    (spares : ∀ r ∈ rondasDeAllocate c fuel m key nbytes, r.Respeta c h)
    (runs : dummyNgAllocate c fuel m key nbytes ahora = some (m', r)) :
    m'.keyVector h = m.keyVector h ∧ clave m' h = clave m h ∧ r ≠ .item h := by
  unfold dummyNgAllocate at runs
  split at runs
  · simp only [Option.some.injEq, Prod.mk.injEq] at runs
    obtain ⟨rfl, rfl⟩ := runs
    exact ⟨rfl, rfl, by simp⟩
  · rename_i fits
    simp only [Option.bind_eq_bind, Option.bind_eq_some_iff] at runs
    obtain ⟨⟨m₁, it⟩, place, ends⟩ := runs
    obtain ⟨table₁, areas₁, keys⟩ :=
      lugarPara_buscada (clavesEn_buscada registros narrow m.keysSpace) minima ⟨table, areas, rfl⟩ place
    obtain ⟨kept, chosen⟩ :=
      lugarPara_respeta registros table use other (by omega) spares place
    have sameKey : clave m₁ h = clave m h := by simp only [clave, kept, keys]
    rcases asignar_cases table₁ ends with ⟨-, rfl, rfl⟩ | ⟨i, -, -, rfl, rfl⟩ |
      ⟨i, p, rfl, bound, area, rfl, rfl⟩
    · exact ⟨kept, sameKey, by simp⟩
    · exact ⟨kept, sameKey, by simp⟩
    · have apart : i ≠ h := by simpa using chosen
      refine ⟨?_, ?_, by simpa using apart⟩
      · simpa [ocupar, Ne.symm apart] using kept
      · rw [clave_ocupar areas₁ bound area short use.bound apart (by rwa [kept]), sameKey]

theorem dummyNgItemRelease_other {i : Nat} (other : i ≠ h) :
    (dummyNgItemRelease m i).keyVector h = m.keyVector h := by
  unfold dummyNgItemRelease
  split
  · rfl
  · simp [Ne.symm other]

/-- A delete of another key whose sort spares the entry. -/
theorem dummyNgItemDelete_respeta (table : Tabla c m) (use : EnUso c m h) {fuel : Nat}
    {key : List UInt8} (other : clave m h ≠ key.take (strlen key))
    (spares : ∀ r ∈ rondasDeDelete c m key, r.Respeta c h)
    (runs : dummyNgItemDelete c fuel m key = some m') : m'.keyVector h = m.keyVector h := by
  unfold dummyNgItemDelete at runs
  unfold rondasDeDelete at spares
  split at runs
  · simp only [Option.some.injEq] at runs
    rw [runs]
  · rename_i res found
    have apart := vectorGet_ne table other found
    have inside := (vectorGet_some found).1
    have position : (eliminarParticion c m (some res)).2 = res := by
      simp only [eliminarParticion, Option.getD_some]
      split <;> rfl
    have evicted : (eliminarParticion c m (some res)).1.keyVector h = m.keyVector h := by
      simp only [eliminarParticion, Option.getD_some]
      rw [if_pos (by omega)]
      simp [Ne.symm apart]
    simp only [found] at spares
    dsimp only at runs
    rw [position] at runs
    split at runs
    · rename_i buddy
      rw [if_pos buddy] at spares
      simp only [Option.bind_eq_bind, Option.bind_eq_some_iff, Option.some.injEq] at runs
      obtain ⟨⟨m₁, pos⟩, joins, rfl⟩ := runs
      obtain ⟨joined, elsewhere⟩ :=
        eliminaBuddy_respeta (use.congr evicted) (spares _ List.mem_cons_self) joins
      rw [dummyNgItemRelease_other elsewhere, joined, evicted]
    · simp only [Option.bind_eq_bind, Option.bind_some, Option.some.injEq] at runs
      rw [← runs, dummyNgItemRelease_other apart, evicted]

theorem dummyNgItemDelete_clavesEn (registros : 0 < c.cantRegistros) (narrow : c.maxKey < 128)
    {ks : Memoria} (holds : ClavesEn c ks m) {fuel : Nat} {key : List UInt8}
    (runs : dummyNgItemDelete c fuel m key = some m') : ClavesEn c ks m' := by
  have stable := (clavesEn_buscada registros narrow ks).toEstable
  refine dummyNgItemDelete_estable stable ?_ (fun _ => holds) ?_ runs
  · intro m i before bound
    refine ⟨before.1.pon bound (before.1.claves i bound), before.2.1.congr fun j _ => ?_,
      before.2.2⟩
    refine punteros_pon ?_ j
    rfl
  · intro res found
    obtain ⟨bound, mine⟩ := vectorGet_some found
    exact stable.elimina m res holds bound (tieneClave_libre mine)

end

/-! ### Two connections -/

/-- What a connection holds from its allocate to its release: the position, its key and
the entry as the allocate left it. -/
structure Item where
  pos : Nat
  key : List UInt8
  entrada : KeyElement

inductive Fase where
  | ociosa
  | asignado (x : Item)
  | copiado (x : Item)
  | guardado (x : Item)

def Fase.item : Fase → Option Item
  | .ociosa => none
  | .asignado x | .copiado x | .guardado x => some x

inductive Accion where
  | allocate (key : List UInt8) (nbytes : Nat) (ahora : Tiempo)
  | copia (value : List UInt8)
  | store
  | release
  | get (key : List UInt8) (ahora : Tiempo)
  | delete (key : List UInt8)

/-- The key a call names. -/
def Accion.key : Accion → Option (List UInt8)
  | .allocate key _ _ => some key
  | .get key _ => some key
  | .delete key => some key
  | _ => none

structure Conexiones where
  motor : Motor
  fase : Bool → Fase

namespace Conexiones

def pasaA (s : Conexiones) (m : Motor) (q : Bool) (f : Fase) : Conexiones :=
  ⟨m, Function.update s.fase q f⟩

/-- One step of the connection `q`; each engine call is atomic. -/
def paso (c : Config) (fuel : Nat) (s : Conexiones) (q : Bool) (a : Accion) :
    Option Conexiones :=
  let m := { s.motor with hechos := [] }
  match s.fase q, a with
  | .ociosa, .allocate key nbytes ahora => do
    let (m, r) ← dummyNgAllocate c fuel m key nbytes ahora
    match r with
    | .item i => some (s.pasaA m q (.asignado ⟨i, key, m.keyVector i⟩))
    | _ => some (s.pasaA m q .ociosa)
  | .asignado x, .copia value =>
    if value.length = x.entrada.dataSize then
      some (s.pasaA (copiar m x.pos value) q (.copiado x))
    else none
  | .copiado x, .store => some (s.pasaA (dummyNgStore m x.pos) q (.guardado x))
  | .guardado x, .release => some (s.pasaA (dummyNgItemRelease m x.pos) q .ociosa)
  | .ociosa, .get key ahora => some (s.pasaA (dummyNgGet c m key ahora).1 q .ociosa)
  | .ociosa, .delete key => do
    let m ← dummyNgItemDelete c fuel m key
    some (s.pasaA m q .ociosa)
  | _, _ => none

/-- The call names another key than the item the other connection holds. -/
def OtraClave (s : Conexiones) (q : Bool) (a : Accion) : Prop :=
  ∀ x ∈ (s.fase !q).item, ∀ key ∈ a.key, key ≠ x.key

/-- The interleavings whose steps meet `Cond`, from a fresh engine. -/
inductive Alcanza (c : Config) (Cond : Nat → Conexiones → Bool → Accion → Prop) :
    Conexiones → Prop where
  | inicio (keysSpace cache : Memoria) (m : Motor) :
      dummyNgInitialize c keysSpace cache = some m → Alcanza c Cond ⟨m, fun _ => .ociosa⟩
  | paso (fuel : Nat) (s s' : Conexiones) (q : Bool) (a : Accion) :
      Alcanza c Cond s → s.OtraClave q a → Cond fuel s q a → s.paso c fuel q a = some s' →
      Alcanza c Cond s'

end Conexiones

/-- The slot is occupied and has the item's key, area, data and size, and no other entry
holds any of its bytes. -/
structure Intacto (c : Config) (m : Motor) (x : Item) : Prop where
  ocupada : (m.keyVector x.pos).libre = false
  clave : clave m x.pos = x.key
  area : (m.keyVector x.pos).key = x.entrada.key
  data : (m.keyVector x.pos).data = x.entrada.data
  dataSize : (m.keyVector x.pos).dataSize = x.entrada.dataSize
  solo : ∀ j < c.cantRegistros, j ≠ x.pos → 0 < (m.keyVector j).dataSize →
    (m.keyVector j).data + (m.keyVector j).dataSize ≤ x.entrada.data ∨
      x.entrada.data + x.entrada.dataSize ≤ (m.keyVector j).data

/-- The condition on a step and the state before it. -/
def CuidaItem (c : Config) (fuel : Nat) (s : Conexiones) (q : Bool) (a : Accion) : Prop :=
  let m := { s.motor with hechos := [] }
  c.maxKey < 128 ∧
  match a with
  | .allocate key nbytes ahora =>
    (key.length : Int) ≤ c.maxKey ∧ 0 < nbytes ∧
    SeparaLlamada c fuel s.motor (.allocate key nbytes ahora) ∧
    ∀ x ∈ (s.fase !q).item, key.take (strlen key) ≠ x.key ∧
      ∀ r ∈ rondasDeAllocate c fuel m key nbytes, r.Respeta c x.pos
  | .delete key =>
    SeparaLlamada c fuel s.motor (.delete key) ∧
    ∀ x ∈ (s.fase !q).item, key.take (strlen key) ≠ x.key ∧
      ∀ r ∈ rondasDeDelete c m key, r.Respeta c x.pos
  | _ => True

/-- What the invariant says of an item that is held. -/
structure Tomado (c : Config) (m : Motor) (x : Item) : Prop where
  uso : EnUso c m x.pos
  clave : clave m x.pos = x.key
  nkey : ((m.keyVector x.pos).nkey : Int) ≤ c.maxKey
  area : (m.keyVector x.pos).key = x.entrada.key
  data : (m.keyVector x.pos).data = x.entrada.data
  dataSize : (m.keyVector x.pos).dataSize = x.entrada.dataSize

structure Buenas (c : Config) (s : Conexiones) : Prop where
  registros : 0 < c.cantRegistros
  minima : 0 < c.partMinima
  tabla : Tabla c s.motor
  separadas : Separadas c s.motor
  areas : c.maxKey < 128 → Areas c s.motor
  items : ∀ q, ∀ x ∈ (s.fase q).item, Tomado c s.motor x
  distintas : ∀ q, ∀ x ∈ (s.fase q).item, ∀ y ∈ (s.fase !q).item, x.key ≠ y.key

section
variable {c : Config} {m m' : Motor} {x y : Item} {s s' : Conexiones} {q : Bool}

theorem Tomado.congr (held : Tomado c m x) {stored : Bool} {tp : Tiempo}
    (entry : m'.keyVector x.pos = { m.keyVector x.pos with stored, tp })
    (key : Rc.clave m' x.pos = Rc.clave m x.pos) : Tomado c m' x where
  uso := ⟨held.uso.bound, by rw [entry]; exact held.uso.ocupada, by
    rw [entry]
    exact held.uso.tamanio⟩
  clave := key.trans held.clave
  nkey := by rw [entry]; exact held.nkey
  area := by rw [entry]; exact held.area
  data := by rw [entry]; exact held.data
  dataSize := by rw [entry]; exact held.dataSize

/-- The slot is as it was, and so are the key bytes. -/
theorem Tomado.igual (held : Tomado c m x) (entry : m'.keyVector x.pos = m.keyVector x.pos)
    (keys : m'.keysSpace = m.keysSpace) : Tomado c m' x :=
  held.congr entry (by simp only [Rc.clave, entry, keys])

theorem Tomado.pos_ne (held : Tomado c m x) (other : Tomado c m y) (keys : x.key ≠ y.key) :
    x.pos ≠ y.pos := by
  intro same
  exact keys (by rw [← held.clave, ← other.clave, same])

theorem Tomado.intacto (held : Tomado c m x) (apart : Separadas c m) : Intacto c m x where
  ocupada := held.uso.ocupada
  clave := held.clave
  area := held.area
  data := held.data
  dataSize := held.dataSize
  solo j below other size := by
    have := apart.disjuntas.2 j below x.pos held.uso.bound other size held.uso.tamanio
    rw [held.data, held.dataSize] at this
    exact this

/-- A step of `q` to the motor `m'` and the phase `f`. -/
theorem Buenas.pasaA (good : Buenas c s) {f : Fase} (table : Tabla c m') (apart : Separadas c m')
    (areas : c.maxKey < 128 → Areas c m') (own : ∀ x ∈ f.item, Tomado c m' x)
    (other : ∀ y ∈ (s.fase !q).item, Tomado c m' y)
    (keys : ∀ x ∈ f.item, ∀ y ∈ (s.fase !q).item, x.key ≠ y.key) :
    Buenas c (s.pasaA m' q f) := by
  have here : (s.pasaA m' q f).fase q = f := by simp [Conexiones.pasaA]
  have there : (s.pasaA m' q f).fase (!q) = s.fase !q := by
    simp [Conexiones.pasaA]
  refine ⟨good.registros, good.minima, table, apart, areas, fun r x member => ?_,
    fun r x first y second => ?_⟩
  · rcases Bool.eq_or_eq_not r q with rfl | rfl
    · rw [here] at member
      exact own x member
    · rw [there] at member
      exact other x member
  · rcases Bool.eq_or_eq_not r q with rfl | rfl
    · rw [here] at first
      rw [there] at second
      exact keys x first y second
    · rw [there] at first
      rw [Bool.not_not, here] at second
      exact Ne.symm (keys y second x first)

theorem Tabla.sinHechos (table : Tabla c m) : Tabla c { m with hechos := [] } :=
  ⟨table.claves, table.fin⟩

theorem Buenas.allocate (good : Buenas c s) {fuel nbytes : Nat} {key : List UInt8}
    {ahora : Tiempo} {r : Respuesta} (others : s.OtraClave q (.allocate key nbytes ahora))
    (meets : CuidaItem c fuel s q (.allocate key nbytes ahora))
    (runs : dummyNgAllocate c fuel { s.motor with hechos := [] } key nbytes ahora = some (m', r)) :
    Tabla c m' ∧ Separadas c m' ∧ Areas c m' ∧
      (∀ y ∈ (s.fase !q).item, Tomado c m' y) ∧
      ∀ i, r = .item i → Tomado c m' ⟨i, key, m'.keyVector i⟩ ∧
        ∀ y ∈ (s.fase !q).item, key ≠ y.key := by
  obtain ⟨narrow, short, positive, sound, spares⟩ := meets
  have areas : Areas c { s.motor with hechos := [] } := good.areas narrow
  have attends : atender c fuel s.motor (.allocate key nbytes ahora) = some m' := by
    simp [atender, runs]
  obtain ⟨-, apart⟩ := sound.conserva good.registros good.minima good.tabla good.separadas attends
  obtain ⟨table', areas', item⟩ := dummyNgAllocate_item good.registros good.minima narrow
    good.tabla.sinHechos areas runs
  refine ⟨table', apart, areas', fun y member => ?_, fun i chosen => ⟨?_, fun y member => ?_⟩⟩
  · have held := good.items _ y member
    obtain ⟨different, spared⟩ := spares y member
    have use : EnUso c { s.motor with hechos := [] } y.pos := held.uso.congr rfl
    have other : clave { s.motor with hechos := [] } y.pos ≠ key.take (strlen key) := by
      intro same
      exact different (same.symm.trans held.clave)
    obtain ⟨kept, sameKey, -⟩ := dummyNgAllocate_respeta good.registros good.minima narrow
      good.tabla.sinHechos areas use held.nkey short other spared runs
    exact held.congr kept sameKey
  · obtain ⟨bound, busy, size, nkey, mine⟩ := item i chosen
    exact ⟨⟨bound, busy, by dsimp only; omega⟩, mine, by dsimp only; omega, rfl, rfl, rfl⟩
  · exact others y member key rfl

theorem Buenas.delete (good : Buenas c s) {fuel : Nat} {key : List UInt8}
    (meets : CuidaItem c fuel s q (.delete key))
    (runs : dummyNgItemDelete c fuel { s.motor with hechos := [] } key = some m') :
    Tabla c m' ∧ Separadas c m' ∧ Areas c m' ∧ ∀ y ∈ (s.fase !q).item, Tomado c m' y := by
  obtain ⟨narrow, sound, spares⟩ := meets
  obtain ⟨table', apart⟩ := sound.conserva good.registros good.minima good.tabla good.separadas runs
  have areas : Areas c { s.motor with hechos := [] } := good.areas narrow
  obtain ⟨-, areas', keys⟩ := dummyNgItemDelete_clavesEn good.registros narrow
    ⟨good.tabla.sinHechos, areas, rfl⟩ runs
  refine ⟨table', apart, areas', fun y member => ?_⟩
  have held := good.items _ y member
  obtain ⟨different, spared⟩ := spares y member
  have use : EnUso c { s.motor with hechos := [] } y.pos := held.uso.congr rfl
  have other : clave { s.motor with hechos := [] } y.pos ≠ key.take (strlen key) := by
    intro same
    exact different (same.symm.trans held.clave)
  have kept : m'.keyVector y.pos = s.motor.keyVector y.pos := by
    simpa using dummyNgItemDelete_respeta good.tabla.sinHechos use other spared runs
  exact held.igual kept keys

/-- A step that sets fields of one entry other than its area, data, size and key length. -/
theorem Buenas.toca (good : Buenas c s) {l : Llamada} {fuel : Nat}
    (quiet : hechosDe c fuel s.motor l = []) (asks : l.Pide (· < 2 ^ 32))
    (runs : atender c fuel s.motor l = some m')
    (areas : ∀ i, (m'.keyVector i).key = (s.motor.keyVector i).key) :
    Tabla c m' ∧ Separadas c m' ∧ (c.maxKey < 128 → Areas c m') := by
  have sound : SeparaLlamada c fuel s.motor l := ⟨asks, by rw [quiet]; exact nofun⟩
  obtain ⟨table', apart⟩ := sound.conserva good.registros good.minima good.tabla good.separadas runs
  exact ⟨table', apart, fun narrow => (good.areas narrow).congr fun i _ => areas i⟩

theorem Buenas.copia (good : Buenas c s) {value : List UInt8}
    (holds : s.fase q = .asignado x) :
    Buenas c (s.pasaA (copiar { s.motor with hechos := [] } x.pos value) q (.copiado x)) := by
  have mine : x ∈ (s.fase q).item := by rw [holds]; rfl
  refine good.pasaA ⟨good.tabla.claves, good.tabla.fin⟩ good.separadas good.areas ?_ ?_ ?_
  · intro x' member
    obtain rfl : x = x' := by simpa [Fase.item] using member
    exact (good.items q x mine).igual rfl rfl
  · exact fun y member => (good.items _ y member).igual rfl rfl
  · intro x' member
    obtain rfl : x = x' := by simpa [Fase.item] using member
    exact good.distintas q x mine

theorem Buenas.store (good : Buenas c s) (holds : s.fase q = .copiado x) :
    Buenas c (s.pasaA (dummyNgStore { s.motor with hechos := [] } x.pos) q (.guardado x)) := by
  have mine : x ∈ (s.fase q).item := by rw [holds]; rfl
  have held := good.items q x mine
  have attends : atender c 0 s.motor (.store x.pos) =
      some (dummyNgStore { s.motor with hechos := [] } x.pos) := by
    simp [atender, held.uso.bound]
  have keys : ∀ i, ((dummyNgStore { s.motor with hechos := [] } x.pos).keyVector i).key =
      (s.motor.keyVector i).key := by
    intro i
    by_cases same : i = x.pos
    · simp [dummyNgStore, same]
    · simp [dummyNgStore, same]
  have quiet : hechosDe c 0 s.motor (.store x.pos) = [] := by
    simp [hechosDe, attends, dummyNgStore]
  obtain ⟨table', apart, areas'⟩ := good.toca quiet trivial attends keys
  refine good.pasaA table' apart areas' ?_ ?_ ?_
  · intro x' member
    obtain rfl : x = x' := by simpa [Fase.item] using member
    have entry : (dummyNgStore { s.motor with hechos := [] } x.pos).keyVector x.pos =
        { s.motor.keyVector x.pos with stored := true, tp := (s.motor.keyVector x.pos).tp } := by
      simp [dummyNgStore]
    exact held.congr entry (by simp [clave, dummyNgStore])
  · intro y member
    have other := held.pos_ne (good.items _ y member) (good.distintas q x mine y member)
    exact (good.items _ y member).igual (by simp [dummyNgStore, Ne.symm other]) rfl
  · intro x' member
    obtain rfl : x = x' := by simpa [Fase.item] using member
    exact good.distintas q x mine

theorem Buenas.release (good : Buenas c s) (holds : s.fase q = .guardado x) :
    Buenas c (s.pasaA (dummyNgItemRelease { s.motor with hechos := [] } x.pos) q .ociosa) := by
  have mine : x ∈ (s.fase q).item := by rw [holds]; rfl
  have held := good.items q x mine
  have attends : atender c 0 s.motor (.release x.pos) =
      some (dummyNgItemRelease { s.motor with hechos := [] } x.pos) := by
    simp [atender, held.uso.bound]
  have keys : ∀ i, ((dummyNgItemRelease { s.motor with hechos := [] } x.pos).keyVector i).key =
      (s.motor.keyVector i).key := by
    intro i
    unfold dummyNgItemRelease
    split
    · rfl
    · by_cases same : i = x.pos
      · simp [same]
      · simp [same]
  have rest : (dummyNgItemRelease { s.motor with hechos := [] } x.pos).hechos = [] ∧
      (dummyNgItemRelease { s.motor with hechos := [] } x.pos).keysSpace = s.motor.keysSpace := by
    unfold dummyNgItemRelease
    split <;> exact ⟨rfl, rfl⟩
  have quiet : hechosDe c 0 s.motor (.release x.pos) = [] := by
    simp [hechosDe, attends, rest.1]
  obtain ⟨table', apart, areas'⟩ := good.toca quiet trivial attends keys
  refine good.pasaA table' apart areas' (fun x none => by cases none) (fun y member => ?_)
    fun x none => by cases none
  have other := held.pos_ne (good.items _ y member) (good.distintas q x mine y member)
  exact (good.items _ y member).igual (dummyNgItemRelease_other other) rest.2

theorem Buenas.get (good : Buenas c s) {key : List UInt8} {ahora : Tiempo} :
    Buenas c (s.pasaA (dummyNgGet c { s.motor with hechos := [] } key ahora).1 q .ociosa) := by
  have attends : atender c 0 s.motor (.get key ahora) =
      some (dummyNgGet c { s.motor with hechos := [] } key ahora).1 := rfl
  -- at most the time of the entry found changes
  have entry : ∀ i, ∃ tp, (dummyNgGet c { s.motor with hechos := [] } key ahora).1.keyVector i =
      { s.motor.keyVector i with tp } := by
    intro i
    unfold dummyNgGet
    split
    · exact ⟨_, rfl⟩
    · rename_i res _
      unfold actualizarKey
      split
      · by_cases same : i = res
        · exact ⟨ahora, by simp [same]⟩
        · exact ⟨(s.motor.keyVector i).tp, by simp [same]⟩
      · exact ⟨_, rfl⟩
  have rest : (dummyNgGet c { s.motor with hechos := [] } key ahora).1.hechos = [] ∧
      (dummyNgGet c { s.motor with hechos := [] } key ahora).1.keysSpace = s.motor.keysSpace := by
    unfold dummyNgGet
    split
    · exact ⟨rfl, rfl⟩
    · unfold actualizarKey
      split <;> exact ⟨rfl, rfl⟩
  have quiet : hechosDe c 0 s.motor (.get key ahora) = [] := by
    simp [hechosDe, attends, rest.1]
  obtain ⟨table', apart, areas'⟩ := good.toca quiet trivial attends fun i => by
    obtain ⟨tp, same⟩ := entry i
    rw [same]
  refine good.pasaA table' apart areas' (fun x none => by cases none) (fun y member => ?_)
    fun x none => by cases none
  obtain ⟨tp, same⟩ := entry y.pos
  exact (good.items _ y member).congr same (by simp only [clave, same, rest.2])

/-- A step that meets the condition keeps the items of both connections. -/
theorem Buenas.paso (good : Buenas c s) {fuel : Nat} {a : Accion} (others : s.OtraClave q a)
    (meets : CuidaItem c fuel s q a) (runs : s.paso c fuel q a = some s') : Buenas c s' := by
  unfold Conexiones.paso at runs
  split at runs
  · rename_i key nbytes ahora _
    simp only [Option.bind_eq_bind, Option.bind_eq_some_iff] at runs
    obtain ⟨⟨m₁, r⟩, allocates, ends⟩ := runs
    obtain ⟨table', apart, areas', others', item⟩ := good.allocate others meets allocates
    cases r with
    | item i =>
      simp only [Option.some.injEq] at ends
      rw [← ends]
      refine good.pasaA table' apart (fun _ => areas') ?_ others' ?_
      · intro x member
        obtain rfl : _ = x := by simpa [Fase.item] using member
        exact (item i rfl).1
      · intro x member
        obtain rfl : _ = x := by simpa [Fase.item] using member
        exact (item i rfl).2
    | sinItem =>
      simp only [Option.some.injEq] at ends
      rw [← ends]
      exact good.pasaA table' apart (fun _ => areas') nofun others' nofun
    | enomem =>
      simp only [Option.some.injEq] at ends
      rw [← ends]
      exact good.pasaA table' apart (fun _ => areas') nofun others' nofun
  · rename_i x value holds
    simp only [Option.ite_none_right_eq_some, Option.some.injEq] at runs
    rw [← runs.2]
    exact good.copia holds
  · rename_i x holds
    simp only [Option.some.injEq] at runs
    rw [← runs]
    exact good.store holds
  · rename_i x holds
    simp only [Option.some.injEq] at runs
    rw [← runs]
    exact good.release holds
  · simp only [Option.some.injEq] at runs
    rw [← runs]
    exact good.get
  · simp only [Option.bind_eq_bind, Option.bind_eq_some_iff, Option.some.injEq] at runs
    obtain ⟨m₁, deletes, rfl⟩ := runs
    obtain ⟨table', apart, areas', others'⟩ := good.delete meets deletes
    exact good.pasaA table' apart (fun _ => areas') nofun others' nofun
  · cases runs

theorem alcanza_buenas (reached : Conexiones.Alcanza c (CuidaItem c) s) : Buenas c s := by
  induction reached with
  | inicio keysSpace cache m starts =>
    obtain ⟨registros, minima, same⟩ := dummyNgInitialize_some starts
    refine ⟨registros, minima, inicio_tabla starts, ?_, fun narrow => ?_, fun _ => nofun,
      fun _ => nofun⟩
    · dsimp only
      rw [same]
      exact separadas_inicializa _
    · dsimp only
      rw [same]
      exact areas_inicializa narrow _
  | paso fuel s s' q a _ others meets runs ih => exact ih.paso others meets runs

end

def nextDe32 : Config where
  esquema := .partDinam
  particion := .next
  victim := .fifo
  freq := -1
  maxKey := 40
  cacheSize := 32
  partMinima := 16
  cacheSize_lt := cabe_32

def unaParticion : Config where
  esquema := .partDinam
  particion := .next
  victim := .fifo
  freq := -1
  maxKey := 40
  cacheSize := 16
  partMinima := 16
  cacheSize_lt := cabe_16

end LosAltos.Rc
