import LosAltos.Rc.Indices

/-!
# When the table is indexed in bounds

`rc/src/vector.c:399-642, 681-797`. The indices of `key_vector` that the three searches and
`crear_arbol` read or write, turn by turn, and with them those of a whole engine call. A search
ends behind the table where nothing it scans stops it, and every failed one that sorts compares
with the entry past the last one.
-/
namespace LosAltos.Rc

open Lib

section
variable (c : Config)

/-- The turn that ends the search goes on with the cut. -/
def leeTurnoNext (espacio : Nat) (t : EstadoNext) : List Int :=
  let m := t.1
  let n := c.cantRegistros
  let r := recorrerNext c m espacio t.2.1
  leeAvanza (fun i => !(m.keyVector i).libre) n (n + 1) t.2.1 ++
    leeAvanza (fun i => (m.keyVector i).libre && (m.keyVector i).dataSize == 0) n (n + 1)
      (avanza (fun i => !(m.keyVector i).libre) n n t.2.1) ++
    (if parada c m t.2.1 = n then [] else [(parada c m t.2.1 : Int)]) ++
    (if HaceLugarNext c espacio t then
      leeHacerLugar c m (eliminaNext c t.2.2) ++
        match hacerLugar c m r.1 (eliminaNext c t.2.2) with
        | some (_, i) => [(i : Int)]
        | none => []
    else [(r.1 : Int)]) ++
    match turnoNext c espacio t with
    | .done (m, i) => leeCrearParticion c m i i espacio
    | _ => []

/-- Once `encontrado` is set the loop reads the entry before it compares the index. -/
def leeTurnoWorst (espacio : Nat) (t : EstadoWorst) : List Int :=
  let m := t.1
  let i := t.2.1
  (if t.2.2.2.2 then [(i : Int)] else []) ++
    if (t.2.2.2.2 = false ∨ (m.keyVector i).dataSize > 0) ∧ i < c.cantRegistros then
      (i : Int) :: if HaceLugarWorst c t then
        leeHacerLugar c m (eliminaWorst c) ++
          match hacerLugar c m i (eliminaWorst c) with
          | some (_, i) => [(i : Int)]
          | none => []
      else []
    else leeCrearParticion c m i t.2.2.1 espacio

def leeCrearArbol (lugares espacio : Nat) : Nat → Motor → List Int
  | 0, _ => []
  | k + 1, m =>
    let prox := (m.keyVector lugares).dataSize / 2 % 2 ^ 32
    (lugares : Int) :: if espacio ≤ prox ∧ prox ≥ c.partMinima then
      leePosLibre c m ++
        match buscarPosLibre c m with
        | some pos => (pos : Int) :: leeCrearArbol lugares espacio k (dividir m lugares pos prox)
        | none => []
    else []

/-- Behind an empty entry the loop looks at `lugares`, which starts as the length of the table. -/
def leeTurnoBuddy (fuel espacio k : Nat) (t : EstadoBuddy) : List Int :=
  let m := t.1
  let i := t.2.1
  let lugares := t.2.2.1
  if t.2.2.2 = false ∧ i < c.cantRegistros then
    (i : Int) :: if (m.keyVector i).dataSize = 0 then
      (lugares : Int) :: if HaceLugarBuddy c espacio t then
        let r := eliminarParticion c m none
        leeEliminar c m none ++ leeOrdenar c r.1 (some r.2) ++
          match eliminaBuddy c fuel r.1 r.2 with
          | some (_, i) => [(i : Int)]
          | none => []
      else []
    else if (m.keyVector i).dataSize ≥ espacio ∧ (m.keyVector i).libre ∧
        lugares ≠ c.cantRegistros then [(lugares : Int)]
    else []
  else leeCrearArbol c lugares espacio k m

/-- The search from `m` comes to read or write the entry `j`. -/
def AccedeBusqueda (m : Motor) (espacio : Nat) (j : Int) : Prop :=
  match c.esquema with
  | .buddy => ∃ fuel k t, Visits (turnoBuddy c fuel espacio) (m, 0, c.cantRegistros, false) t ∧
      j ∈ leeTurnoBuddy c fuel espacio k t
  | .partDinam =>
    match c.particion with
    | .next => ∃ t, Visits (turnoNext c espacio) (m, m.ultimaPosicion, 0) t ∧
        j ∈ leeTurnoNext c espacio t
    | .worst => ∃ t, Visits (turnoWorst c espacio) (m, 0, 0, 0, false) t ∧
        j ∈ leeTurnoWorst c espacio t

/-- `dummy_ng_allocate` neither refuses the value nor reuses the slot of its key. -/
def Busca (m : Motor) (key : List UInt8) (nbytes : Nat) : Prop :=
  nbytes ≤ c.cacheSize ∧
    ∀ i, vectorGet c m key = some (i + 1) → (m.keyVector (i + 1)).dataSize < nbytes

/-- The call comes to read or write the entry `j` in one of these functions. -/
def Accede (m : Motor) : Llamada → Int → Prop
  | .allocate key nbytes _, j =>
    Busca c m key nbytes ∧ AccedeBusqueda c (desalojar c m key) (nbytes % 2 ^ 32) j
  | .delete key, j => ∃ p, vectorGet c m key = some p ∧
      (j ∈ leeEliminar c m (some p) ∨
        c.esquema = .buddy ∧ j ∈ leeOrdenar c (eliminarParticion c m (some p)).1 (some p))
  | _, _ => False

/-- Something stops the scan, a failed search makes room within the table, and the table has an
entry for the rest of the partition that is cut. -/
def TurnoNextEnTabla (espacio : Nat) (t : EstadoNext) : Prop :=
  (∃ s, Detiene c t.1 t.2.1 s) ∧
    (HaceLugarNext c espacio t → LugarEnTabla c t.1 (eliminaNext c t.2.2)) ∧
    ∀ m i, turnoNext c espacio t = .done (m, i) → Corta c (m.keyVector i).dataSize espacio →
      ∃ k < c.cantRegistros, (m.keyVector k).dataSize = 0

/-- The scan is still in the table, and a failed search makes room within it. -/
def TurnoWorstEnTabla (t : EstadoWorst) : Prop :=
  t.2.1 < c.cantRegistros ∧ (HaceLugarWorst c t → LugarEnTabla c t.1 (eliminaWorst c))

/-- Every turn of a dynamic search meets its condition; a search for a block finds one without
evicting. -/
def BusquedaEnTabla (m : Motor) (espacio : Nat) : Prop :=
  match c.esquema with
  | .buddy => AlcanzaBuddy c m espacio
  | .partDinam =>
    match c.particion with
    | .next => ∀ t, Visits (turnoNext c espacio) (m, m.ultimaPosicion, 0) t →
        TurnoNextEnTabla c espacio t
    | .worst => ∀ t, Visits (turnoWorst c espacio) (m, 0, 0, 0, false) t → TurnoWorstEnTabla c t

/-- A search stays in the table, and a delete of a block has none to sort but in a table of at
most two entries. -/
def LlamadaEnTabla (m : Motor) : Llamada → Prop
  | .allocate key nbytes _ =>
    Busca c m key nbytes → BusquedaEnTabla c (desalojar c m key) (nbytes % 2 ^ 32)
  | .delete key => c.esquema = .buddy → (∃ p, vectorGet c m key = some p) → c.cantRegistros ≤ 2
  | _ => True

end

variable {c : Config} {m m' : Motor} {espacio i j k n : Nat}

/-! ### The cut -/

theorem leeCrearParticion_dentro {elegida : Nat} (chosen : elegida < c.cantRegistros) :
    Dentro c (leeCrearParticion c m i elegida espacio) ↔ i < c.cantRegistros ∧
      (Corta c (m.keyVector i).dataSize espacio →
        ∃ k < c.cantRegistros, (m.keyVector k).dataSize = 0) := by
  rw [leeCrearParticion, dentro_nat]
  refine and_congr_right fun _ => ?_
  split
  · rename_i cut
    rw [dentro_append, leePosLibre_dentro, imp_iff_right cut]
    refine and_iff_left_of_imp fun _ => ?_
    split
    · rename_i pos found
      exact dentro_nat.mpr ⟨(buscarPosLibre_some found).1, dentro_nat.mpr ⟨chosen, dentro_nil⟩⟩
    · exact dentro_nil
  · rename_i whole
    exact iff_of_true dentro_nil fun cut => absurd cut whole

/-! ### Next -/

/-- The two loops of a scan stay in the table when the scan stops in it. -/
theorem leeParada_dentro :
    (Dentro c (leeAvanza (fun i => !(m.keyVector i).libre) c.cantRegistros
        (c.cantRegistros + 1) i) ∧
      Dentro c (leeAvanza (fun i => (m.keyVector i).libre && (m.keyVector i).dataSize == 0)
        c.cantRegistros (c.cantRegistros + 1)
        (avanza (fun i => !(m.keyVector i).libre) c.cantRegistros c.cantRegistros i))) ↔
      parada c m i < c.cantRegistros := by
  let ocupada : Nat → Bool := fun i => !(m.keyVector i).libre
  let vacia : Nat → Bool := fun i => (m.keyVector i).libre && (m.keyVector i).dataSize == 0
  let n := c.cantRegistros
  let a := avanza ocupada n n i
  have whole : avanza vacia n n a = parada c m i := rfl
  rw [leeAvanza_dentro _ (by omega), leeAvanza_dentro _ (by omega)]
  have start : i ≤ a := avanza_ge ocupada n n i
  have after : a ≤ parada c m i := whole ▸ avanza_ge vacia n n a
  constructor
  · rintro ⟨-, s, low, inside, stops⟩
    by_contra outside
    have passed := avanza_pasa vacia n n a low (by omega)
    rw [show vacia s = false from stops] at passed
    cases passed
  · intro inside
    refine ⟨⟨a, start, by omega, ?_⟩, parada c m i, after, inside, ?_⟩
    · exact avanza_stops ocupada n n i (by omega) (by omega) (by omega)
    · have stops := avanza_stops vacia n n a (by omega) (by omega) (by omega)
      rwa [whole] at stops

theorem detiene_parada : (∃ s, Detiene c m i s) ↔ parada c m i < c.cantRegistros := by
  constructor
  · rintro ⟨s, stops⟩
    obtain ⟨inside, rfl⟩ := detiene_iff.mp stops
    exact inside
  · exact fun inside => ⟨_, detiene_iff.mpr ⟨inside, rfl⟩⟩

/-- Where the scan stops in the table and room is made within it, so is the turn. -/
theorem turnoNext_dentro {t : EstadoNext} (registros : 0 < c.cantRegistros) (table : Tabla c t.1)
    (inside : parada c t.1 t.2.1 < c.cantRegistros)
    (room : HaceLugarNext c espacio t → LugarEnTabla c t.1 (eliminaNext c t.2.2))
    (last : turnoNext c espacio t = .done (m, i)) : i < c.cantRegistros := by
  obtain ⟨m₀, i₀, fallidas⟩ := t
  rw [turnoNext_eq] at last
  dsimp only at inside room
  split at last
  · cases last
    exact inside
  split at last
  · cases last
  rename_i short before
  split at last
  · cases last
  rename_i m' i' made
  split at last
  · cases last
    refine LugarEnTabla.posicion registros table (room ?_) made
    rw [haceLugarNext_iff]
    unfold FaltaLugar
    omega
  · cases last

/-- A search that did not fail stands where its scan stopped. -/
theorem recorrerNext_dentro {t : EstadoNext} (inside : parada c t.1 t.2.1 < c.cantRegistros)
    (found : ¬HaceLugarNext c espacio t) :
    (recorrerNext c t.1 espacio t.2.1).1 < c.cantRegistros := by
  unfold HaceLugarNext at found
  rw [recorrerNext_eq, if_neg inside.ne] at found ⊢
  split at found
  · rename_i fits
    rwa [if_pos fits]
  · rename_i short
    rw [if_neg short]
    have behind : max (parada c t.1 t.2.1) t.1.ultimaPosicion ≠ t.1.ultimaPosicion := by
      intro same
      exact found ⟨same, rfl⟩
    dsimp only
    omega

theorem leeTurnoNext_dentro {t : EstadoNext} (registros : 0 < c.cantRegistros)
    (table : Tabla c t.1) :
    Dentro c (leeTurnoNext c espacio t) ↔ TurnoNextEnTabla c espacio t := by
  rw [leeTurnoNext, TurnoNextEnTabla, detiene_parada, dentro_append, dentro_append, dentro_append,
    dentro_append, leeParada_dentro, and_assoc, and_assoc]
  refine and_congr_right fun inside => ?_
  have stop : Dentro c (if parada c t.1 t.2.1 = c.cantRegistros then []
      else [(parada c t.1 t.2.1 : Int)]) := by
    rw [if_neg inside.ne]
    exact dentro_nat.mpr ⟨inside, dentro_nil⟩
  rw [and_iff_right stop]
  have rooms : Dentro c (if HaceLugarNext c espacio t then
      leeHacerLugar c t.1 (eliminaNext c t.2.2) ++
        match hacerLugar c t.1 (recorrerNext c t.1 espacio t.2.1).1 (eliminaNext c t.2.2) with
        | some (_, i) => [(i : Int)]
        | none => []
      else [((recorrerNext c t.1 espacio t.2.1).1 : Int)]) ↔
      (HaceLugarNext c espacio t → LugarEnTabla c t.1 (eliminaNext c t.2.2)) := by
    by_cases fails : HaceLugarNext c espacio t
    · rw [if_pos fails, dentro_append, leeHacerLugar_dentro registros, imp_iff_right fails]
      refine and_iff_left_of_imp fun room => ?_
      split
      · rename_i made
        exact dentro_nat.mpr ⟨room.posicion registros table made, dentro_nil⟩
      · exact dentro_nil
    · rw [if_neg fails]
      exact iff_of_true (dentro_nat.mpr ⟨recorrerNext_dentro inside fails, dentro_nil⟩)
        fun now => absurd now fails
  refine (and_congr_left' rooms).trans (and_congr_right fun room => ?_)
  cases last : turnoNext c espacio t with
  | done r =>
    obtain ⟨m', i'⟩ := r
    have ends := turnoNext_dentro registros table inside room last
    rw [leeCrearParticion_dentro ends, and_iff_right ends]
    constructor
    · rintro rest m i same cut
      cases same
      exact rest cut
    · exact fun rest => rest m' i' rfl
  | again => exact iff_of_true dentro_nil nofun
  | fault => exact iff_of_true dentro_nil nofun

theorem turnoNext_tabla {t : EstadoNext} (registros : 0 < c.cantRegistros) (table : Tabla c m)
    (visited : Visits (turnoNext c espacio) (m, m.ultimaPosicion, 0) t) : Tabla c t.1 :=
  visited.keeps (P := fun t => Tabla c t.1) table fun _ _ kept next =>
    turnoNext_estable (tabla_estable registros) kept next

/-- `buscarLibreNext` stays in the table where each of its turns does. -/
theorem buscarNext_dentro_iff (registros : 0 < c.cantRegistros) (table : Tabla c m) :
    (∀ j t, Visits (turnoNext c espacio) (m, m.ultimaPosicion, 0) t →
        j ∈ leeTurnoNext c espacio t → 0 ≤ j ∧ j < c.cantRegistros) ↔
      ∀ t, Visits (turnoNext c espacio) (m, m.ultimaPosicion, 0) t →
        TurnoNextEnTabla c espacio t := by
  constructor
  · intro all t visited
    have kept := turnoNext_tabla registros table visited
    exact (leeTurnoNext_dentro registros kept).mp fun j reads => all j t visited reads
  · intro turns j t visited reads
    have kept := turnoNext_tabla registros table visited
    exact (leeTurnoNext_dentro registros kept).mpr (turns t visited) j reads

/-! ### Worst -/

/-- A turn up to the cut, where the choice lies in the table. -/
theorem leeTurnoWorst_dentro {t : EstadoWorst} (registros : 0 < c.cantRegistros)
    (table : Tabla c t.1) (chosen : t.2.2.1 < c.cantRegistros) :
    Dentro c (leeTurnoWorst c espacio t) ↔ TurnoWorstEnTabla c t := by
  rw [leeTurnoWorst, TurnoWorstEnTabla, dentro_append]
  by_cases runs : (t.2.2.2.2 = false ∨ (t.1.keyVector t.2.1).dataSize > 0) ∧
      t.2.1 < c.cantRegistros
  · have first : Dentro c (if t.2.2.2.2 then [(t.2.1 : Int)] else []) := by
      split
      · exact dentro_nat.mpr ⟨runs.2, dentro_nil⟩
      · exact dentro_nil
    rw [if_pos runs, dentro_nat, and_iff_right first]
    refine and_congr_right fun _ => ?_
    by_cases fails : HaceLugarWorst c t
    · rw [if_pos fails, dentro_append, leeHacerLugar_dentro registros, imp_iff_right fails]
      refine and_iff_left_of_imp fun room => ?_
      split
      · rename_i made
        exact dentro_nat.mpr ⟨room.posicion registros table made, dentro_nil⟩
      · exact dentro_nil
    · rw [if_neg fails]
      exact iff_of_true dentro_nil fun now => absurd now fails
  · have quiet : ¬HaceLugarWorst c t := fun fails => runs ⟨fails.1, fails.2.1⟩
    rw [if_neg runs, leeCrearParticion_dentro chosen]
    constructor
    · exact fun all => ⟨all.2.1, fun fails => absurd fails quiet⟩
    · rintro ⟨inside, -⟩
      -- the loop ends within the table at an empty entry
      have empty : t.2.2.2.2 = true ∧ (t.1.keyVector t.2.1).dataSize = 0 := by
        cases enough : t.2.2.2.2 with
        | false => exact absurd ⟨Or.inl enough, inside⟩ runs
        | true =>
          refine ⟨rfl, ?_⟩
          by_contra filled
          exact runs ⟨Or.inr (Nat.pos_of_ne_zero filled), inside⟩
      rw [if_pos empty.1]
      exact ⟨dentro_nat.mpr ⟨inside, dentro_nil⟩, inside, fun _ => ⟨_, inside, empty.2⟩⟩

/-- The choice stays in the table. -/
theorem turnoWorst_elegida {t u : EstadoWorst} (registros : 0 < c.cantRegistros)
    (table : Tabla c t.1) (chosen : t.2.2.1 < c.cantRegistros) (inside : TurnoWorstEnTabla c t)
    (next : turnoWorst c espacio t = .again u) : u.2.2.1 < c.cantRegistros := by
  obtain ⟨m, i, pos, mayor, encontrado⟩ := t
  obtain ⟨-, room⟩ := inside
  simp only [turnoWorst] at next
  split at next
  · rename_i runs
    split at next
    · rename_i empty
      split at next
      · rename_i none
        split at next
        · cases next
        · rename_i made
          have position := (room ⟨runs.1, runs.2, empty, none⟩).posicion registros table made
          split at next
          · cases next
            exact position
          · cases next
            exact chosen
      · cases next
        exact chosen
    · split at next
      · cases next
        exact runs.2
      · cases next
        exact chosen
  · cases next

/-- `buscarLibreWorst` stays in the table where each of its turns does. -/
theorem buscarWorst_dentro_iff (registros : 0 < c.cantRegistros) (table : Tabla c m) :
    (∀ j t, Visits (turnoWorst c espacio) (m, 0, 0, 0, false) t →
        j ∈ leeTurnoWorst c espacio t → 0 ≤ j ∧ j < c.cantRegistros) ↔
      ∀ t, Visits (turnoWorst c espacio) (m, 0, 0, 0, false) t → TurnoWorstEnTabla c t := by
  -- as long as the turns so far stayed in the table, so does the choice
  have keeps : ∀ t, Visits (turnoWorst c espacio) (m, 0, 0, 0, false) t →
      (∀ u, Visits (turnoWorst c espacio) (m, 0, 0, 0, false) u →
        u.2.2.1 < c.cantRegistros → Tabla c u.1 → TurnoWorstEnTabla c u) →
      Tabla c t.1 ∧ t.2.2.1 < c.cantRegistros := by
    intro t visited turns
    induction visited with
    | start => exact ⟨table, registros⟩
    | again visited next ih =>
      refine ⟨turnoWorst_estable (tabla_estable registros) ih.1 next, ?_⟩
      exact turnoWorst_elegida registros ih.1 ih.2 (turns _ visited ih.2 ih.1) next
  constructor
  · intro all t visited
    have turns : ∀ u, Visits (turnoWorst c espacio) (m, 0, 0, 0, false) u →
        u.2.2.1 < c.cantRegistros → Tabla c u.1 → TurnoWorstEnTabla c u :=
      fun u visits chosen kept => (leeTurnoWorst_dentro registros kept chosen).mp
        fun j reads => all j u visits reads
    obtain ⟨kept, chosen⟩ := keeps t visited turns
    exact turns t visited chosen kept
  · intro turns j t visited reads
    obtain ⟨kept, chosen⟩ := keeps t visited fun u visits _ _ => turns u visits
    exact (leeTurnoWorst_dentro registros kept chosen).mpr (turns t visited) j reads

/-! ### Buddy -/

/-- A tree stays in the table where the table has an empty entry for each halving. -/
theorem leeCrearArbol_divide {lugares : Nat} (minima : 0 < c.partMinima)
    (enough : (m.keyVector lugares).dataSize < k)
    (reads : Dentro c (leeCrearArbol c lugares espacio k m)) : lugares < c.cantRegistros ∧
      ∃ d ≤ (vacias c m).card, Divide c espacio (m.keyVector lugares).dataSize d := by
  induction k generalizing m with
  | zero => omega
  | succ k ih =>
    rw [leeCrearArbol] at reads
    obtain ⟨inside, rest⟩ := dentro_nat.mp reads
    refine ⟨inside, ?_⟩
    split at rest
    · rename_i divides
      obtain ⟨first, rest⟩ := dentro_append.mp rest
      obtain ⟨pos, found⟩ := buscarPosLibre_iff.mpr (leePosLibre_dentro.mp first)
      simp only [found] at rest
      obtain ⟨size, fewer⟩ := dividir_vacias minima divides found
      obtain ⟨-, d, few, halves⟩ := ih (by rw [size]; omega) (dentro_nat.mp rest).2
      rw [size] at halves
      exact ⟨d + 1, by omega, .mas _ d divides halves⟩
    · rename_i stays
      exact ⟨0, Nat.zero_le _, .fin _ stays⟩

theorem Divide.leeCrearArbol {lugares s d : Nat} (minima : 0 < c.partMinima)
    (inside : lugares < c.cantRegistros) (halves : Divide c espacio s d) :
    ∀ {k : Nat} {m : Motor}, (m.keyVector lugares).dataSize = s → d ≤ (vacias c m).card →
      Dentro c (leeCrearArbol c lugares espacio k m) := by
  induction halves with
  | fin s stays =>
    intro k m size _
    cases k with
    | zero => exact dentro_nil
    | succ k =>
      subst size
      rw [Rc.leeCrearArbol, dentro_nat, if_neg stays]
      exact ⟨inside, dentro_nil⟩
  | mas s d divides _ ih =>
    intro k m size few
    cases k with
    | zero => exact dentro_nil
    | succ k =>
      subst size
      obtain ⟨pos, found⟩ := buscarPosLibre_vacias (by omega : 0 < (vacias c m).card)
      obtain ⟨free, empty⟩ := buscarPosLibre_some found
      obtain ⟨size, fewer⟩ := dividir_vacias minima divides found
      rw [Rc.leeCrearArbol, dentro_nat, if_pos divides, dentro_append]
      refine ⟨inside, leePosLibre_dentro.mpr ⟨pos, free, empty⟩, ?_⟩
      simp only [found]
      exact dentro_nat.mpr ⟨free, ih size (by omega)⟩

/-- A scan that has evicted nothing would look behind the table before it evicts. -/
theorem RecorreBuddy.quieto {fuel : Nat} {t : EstadoBuddy} (scans : RecorreBuddy c m espacio t)
    (reads : Dentro c (leeTurnoBuddy c fuel espacio k t)) : ¬HaceLugarBuddy c espacio t := by
  rintro ⟨searching, inside, empty, missing⟩
  rw [leeTurnoBuddy, if_pos ⟨searching, inside⟩, dentro_nat, if_pos empty, dentro_nat] at reads
  cases scans with
  | antes i lugares bound filled chosen =>
    rcases chosen with ⟨last, -⟩ | ⟨-, fits, -⟩
    · exact absurd last reads.2.1.ne
    · rcases missing with ⟨-, small⟩ | busy
      · exact absurd fits.2 (Nat.not_le.mpr small)
      · exact absurd (fits.1.symm.trans busy) (by decide)
  | despues => cases searching

/-- A turn of a scan that finds a block stays in the table. -/
theorem AlcanzaBuddy.dentro {fuel : Nat} {t : EstadoBuddy} (reaches : AlcanzaBuddy c m espacio)
    (minima : 0 < c.partMinima) (scans : RecorreBuddy c m espacio t) :
    Dentro c (leeTurnoBuddy c fuel espacio k t) := by
  have quiet := reaches.quieto scans
  rw [leeTurnoBuddy]
  by_cases runs : t.2.2.2 = false ∧ t.2.1 < c.cantRegistros
  · rw [if_pos runs, dentro_nat]
    refine ⟨runs.2, ?_⟩
    cases scans with
    | antes i lugares bound filled chosen =>
      split
      · rename_i empty
        refine dentro_nat.mpr ⟨?_, dentro_nil⟩
        rcases chosen with ⟨-, absent⟩ | ⟨before, -, -⟩
        · obtain ⟨j, ahead, last | ⟨-, serves, -⟩, -⟩ := reaches
          · exact absurd last.1 ahead.1.ne
          refine absurd serves (absent j ?_)
          by_contra behind
          exact ahead.2 i (by omega) empty
        · exact lt_of_lt_of_le before bound
      split
      · rename_i compares
        refine dentro_nat.mpr ⟨?_, dentro_nil⟩
        rcases chosen with ⟨last, -⟩ | ⟨before, -, -⟩
        · exact absurd last compares.2.2
        · exact lt_of_lt_of_le before bound
      · exact dentro_nil
    | despues => cases runs.1
  · rw [if_neg runs]
    have last : turnoBuddy c fuel espacio t = .done (t.1, t.2.2.1) := by
      rw [turnoBuddy]
      exact if_neg runs
    obtain ⟨same, chosen⟩ := scans.fin last
    obtain ⟨⟨before, -⟩, d, few, halves⟩ := reaches.menor chosen
    dsimp only at same
    rw [same]
    exact halves.leeCrearArbol minima before.1 rfl few

/-- `buscarLibreBuddy` stays in the table exactly where it finds a block without evicting. -/
theorem buscarBuddy_dentro_iff (minima : 0 < c.partMinima) :
    (∀ j fuel k t, Visits (turnoBuddy c fuel espacio) (m, 0, c.cantRegistros, false) t →
        j ∈ leeTurnoBuddy c fuel espacio k t → 0 ≤ j ∧ j < c.cantRegistros) ↔
      AlcanzaBuddy c m espacio := by
  constructor
  · intro all
    have quiet : ∀ u, Visits (turnoBuddy c 0 espacio) (m, 0, c.cantRegistros, false) u →
        RecorreBuddy c m espacio u → ¬HaceLugarBuddy c espacio u := fun u visited scans =>
      scans.quieto (k := 0) fun j reads => all j 0 0 u visited reads
    obtain ⟨lugares, search, chosen⟩ := recorreBuddy_acaba (Nat.lt_succ_self c.cantRegistros) quiet
    obtain ⟨t, visited, last⟩ := run_some search
    obtain ⟨same, stops⟩ := turnoBuddy_done last
    have reads : Dentro c (leeTurnoBuddy c 0 espacio ((m.keyVector lugares).dataSize + 1) t) :=
      fun j member => all j 0 _ t visited member
    rw [leeTurnoBuddy, if_neg stops] at reads
    cases same
    obtain ⟨inside, tree⟩ := leeCrearArbol_divide minima (Nat.lt_succ_self _) reads
    refine ⟨_, ?_, chosen, tree⟩
    rcases chosen with ⟨last, -⟩ | ⟨before, -⟩
    · exact absurd last inside.ne
    · exact before
  · intro reaches j fuel k t visited reads
    have scans := recorreBuddy_visita visited fun u _ scans => reaches.quieto scans
    exact reaches.dentro minima scans j reads

/-! ### The calls -/

theorem accedeBusqueda_iff (espacio : Nat) (registros : 0 < c.cantRegistros) (minima : 0 < c.partMinima)
    (table : Tabla c m) :
    (∀ j, AccedeBusqueda c m espacio j → 0 ≤ j ∧ j < c.cantRegistros) ↔
      BusquedaEnTabla c m espacio := by
  unfold AccedeBusqueda BusquedaEnTabla
  cases c.esquema with
  | buddy =>
    rw [← buscarBuddy_dentro_iff minima]
    exact ⟨fun all j fuel k t visited reads => all j ⟨fuel, k, t, visited, reads⟩,
      fun all j ⟨fuel, k, t, visited, reads⟩ => all j fuel k t visited reads⟩
  | partDinam =>
    cases c.particion with
    | next =>
      dsimp only
      rw [← buscarNext_dentro_iff registros table]
      exact ⟨fun all j t visited reads => all j ⟨t, visited, reads⟩,
        fun all j ⟨t, visited, reads⟩ => all j t visited reads⟩
    | worst =>
      dsimp only
      rw [← buscarWorst_dentro_iff registros table]
      exact ⟨fun all j t visited reads => all j ⟨t, visited, reads⟩,
        fun all j ⟨t, visited, reads⟩ => all j t visited reads⟩

end LosAltos.Rc
