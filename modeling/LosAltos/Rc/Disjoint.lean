import LosAltos.Lib.Intervals
import LosAltos.Rc.Stable

/-!
# Partition disjointness

The space an entry holds is its `data_size`, and also its `data_unuse` while it
is occupied: that is what an eviction gives back. No two entries hold a byte in
common as long as no step takes one of the branches in which the code computes a
wrong size or keeps a wrong base pointer.
-/
namespace LosAltos.Rc

open Lib

/-- The length of the interval an entry holds from its `data` on. -/
def extension (e : KeyElement) : Nat :=
  if e.libre then e.dataSize else e.dataSize + e.dataUnuse

def Separadas (c : Config) (m : Motor) : Prop :=
  Separados c.cantRegistros c.cacheSize (fun i => (m.keyVector i).data)
    (fun i => extension (m.keyVector i))

/-- The intervals `[data, data + data_size)` of the non-empty entries lie inside
the cache and are pairwise disjoint. -/
def ParticionesDisjuntas (c : Config) (m : Motor) : Prop :=
  (∀ i < c.cantRegistros, 0 < (m.keyVector i).dataSize →
    (m.keyVector i).data + (m.keyVector i).dataSize ≤ c.cacheSize) ∧
  ∀ i < c.cantRegistros, ∀ j < c.cantRegistros, i ≠ j →
    0 < (m.keyVector i).dataSize → 0 < (m.keyVector j).dataSize →
    (m.keyVector i).data + (m.keyVector i).dataSize ≤ (m.keyVector j).data ∨
    (m.keyVector j).data + (m.keyVector j).dataSize ≤ (m.keyVector i).data

/-- The branches that keep the partitions apart: a cut falls inside its
partition, a partition taken whole has no stale `data_unuse` that exceeds it,
joined partitions touch with the kept base pointer below, and no occupied
partition is moved. -/
def Hecho.Separa : Hecho → Prop
  | .parte dataSize espacio diferencia _ => 0 ≤ diferencia ∧ espacio + diferencia ≤ dataSize
  | .entera dataSize espacio dataUnuse libre =>
    espacio + (if libre then dataUnuse else 0) ≤ dataSize
  | .junta fin inicio _ _ => fin = inicio
  | .mueve => False
  | .reusa .. | .divide .. | .cierra .. | .reinicia .. => True

instance : DecidablePred Hecho.Separa
  | .parte .. => inferInstanceAs (Decidable (_ ∧ _))
  | .entera .. => inferInstanceAs (Decidable (_ ≤ _))
  | .junta .. => inferInstanceAs (Decidable (_ = _))
  | .mueve => inferInstanceAs (Decidable False)
  | .reusa .. | .divide .. | .cierra .. | .reinicia .. => inferInstanceAs (Decidable True)

/-- The invariant of the loops: apart, unless a wrong branch was taken. -/
def SeparadasSiSano (c : Config) (m : Motor) : Prop :=
  Tabla c m ∧ (m.Todos Hecho.Separa → Separadas c m)

theorem extension_sinRotulo (e : KeyElement) : extension e.sinRotulo = extension e := rfl

theorem extension_ge (e : KeyElement) : e.dataSize ≤ extension e := by
  unfold extension
  split <;> omega

theorem Separadas.disjuntas {c : Config} {m : Motor} (apart : Separadas c m) :
    ParticionesDisjuntas c m := by
  have grows := fun i => extension_ge (m.keyVector i)
  constructor
  · intro i bound size
    have := grows i
    have := apart.inside bound (by omega)
    omega
  · intro i left j right different first second
    have := grows i
    have := grows j
    have := apart.apart left right different (by omega) (by omega)
    omega

/-- Entries that hold no more than before stay apart. -/
theorem Separadas.shrink {c : Config} {m m' : Motor} (apart : Separadas c m)
    (smaller : ∀ i < c.cantRegistros, extension (m'.keyVector i) = 0 ∨
      ((m.keyVector i).data = (m'.keyVector i).data ∧
        extension (m'.keyVector i) ≤ extension (m.keyVector i))) : Separadas c m' := by
  refine Separados.shrink apart fun i x bound here => ?_
  simp only [Cubre] at here ⊢
  rcases smaller i bound with empty | ⟨base, size⟩
  · omega
  · omega

theorem separadas_elimina {c : Config} {m : Motor} {i : Nat} (apart : Separadas c m)
    (bound : i < c.cantRegistros) (busy : (m.keyVector i).libre = false) :
    Separadas c (eliminarParticion c m (some i)).1 := by
  refine apart.shrink fun j below => Or.inr ?_
  simp only [eliminarParticion, Option.getD_some]
  rw [if_pos (by omega)]
  by_cases same : j = i
  · subst same
    have whole : extension (m.keyVector j) = (m.keyVector j).dataSize + (m.keyVector j).dataUnuse := by
      simp [extension, busy]
    have fits : extension (m.keyVector j) ≤ c.cacheSize := by
      by_cases size : 0 < extension (m.keyVector j)
      · have := apart.inside below size
        omega
      · omega
    have value := a64_of_lt (x := (m.keyVector j).dataSize + (m.keyVector j).dataUnuse) (by omega)
      (by have := c.cacheSize_lt; omega)
    rw [whole]
    simp only [Motor.pon_keyVector, if_true, extension, true_and]
    omega
  · simp [same]

theorem separadas_permuta {c : Config} {m : Motor} {j : Nat} (apart : Separadas c m)
    (bound : j + 1 < c.cantRegistros) : Separadas c (m.permuta j (j + 1)) := by
  refine Separados.permute apart (Equiv.swap j (j + 1)) (Equiv.injective _) ?_ ?_
  · intro i below
    rw [Equiv.swap_apply_def]
    split
    · exact bound
    · split <;> omega
  · intro i x below here
    simpa only [Cubre, Motor.permuta_keyVector] using here

/-- Two touching entries, the second of them free, become one. -/
theorem separadas_junta {c : Config} {m m' : Motor} {primera segunda queda hueco : Nat}
    (apart : Separadas c m) (first : primera < c.cantRegistros) (second : segunda < c.cantRegistros)
    (pair : (queda = primera ∧ hueco = segunda) ∨ (queda = segunda ∧ hueco = primera))
    (different : primera ≠ segunda)
    (touch : (m.keyVector primera).data + (m.keyVector primera).dataSize =
      (m.keyVector segunda).data)
    (nonempty : 0 < (m.keyVector segunda).dataSize)
    (free : (m.keyVector segunda).libre) (kept : (m'.keyVector queda).libre = (m.keyVector queda).libre)
    (base : (m'.keyVector queda).data = (m.keyVector primera).data)
    (size : (m'.keyVector queda).dataSize =
      a64 ((m.keyVector primera).dataSize + (m.keyVector segunda).dataSize))
    (unuse : (m'.keyVector queda).dataUnuse = (m.keyVector queda).dataUnuse)
    (emptied : extension (m'.keyVector hueco) = 0)
    (others : ∀ i, i ≠ queda → i ≠ hueco → m'.keyVector i = m.keyVector i) : Separadas c m' := by
  have segundaExt : extension (m.keyVector segunda) = (m.keyVector segunda).dataSize := by
    simp [extension, free]
  -- an occupied first entry has no padding, or the two would overlap
  have primeraExt : extension (m.keyVector primera) = (m.keyVector primera).dataSize := by
    by_cases busy : (m.keyVector primera).libre
    · simp [extension, busy]
    · have grows := extension_ge (m.keyVector primera)
      by_contra padded
      have := apart.apart first second different (by omega) (by omega)
      omega
  have total : (m'.keyVector queda).dataSize =
      (m.keyVector primera).dataSize + (m.keyVector segunda).dataSize := by
    have := apart.inside second (by omega)
    have limit := c.cacheSize_lt
    have value := a64_of_lt
      (x := (m.keyVector primera).dataSize + (m.keyVector segunda).dataSize) (by omega) (by omega)
    omega
  have quedaExt : extension (m'.keyVector queda) = (m'.keyVector queda).dataSize := by
    have quedaBefore : extension (m.keyVector queda) = (m.keyVector queda).dataSize := by
      rcases pair with ⟨rfl, _⟩ | ⟨rfl, _⟩
      · exact primeraExt
      · exact segundaExt
    unfold extension at quedaBefore ⊢
    rw [kept, unuse]
    split <;> simp_all
  refine Separados.join apart (q := queda) (h := hueco) ?_ ?_ ?_ ?_ ?_
  · rcases pair with ⟨rfl, _⟩ | ⟨rfl, _⟩ <;> assumption
  · rcases pair with ⟨_, rfl⟩ | ⟨_, rfl⟩ <;> assumption
  · intro x here
    simp only [Cubre] at here ⊢
    rcases pair with ⟨rfl, rfl⟩ | ⟨rfl, rfl⟩ <;> omega
  · intro x _ here
    simp only [Cubre] at here
    omega
  · intro j x _ left right here
    simpa only [Cubre, others j left right] using here

theorem separadas_inicializa {c : Config} (m : Motor) : Separadas c (vectorInicializar c m) := by
  have empty : ∀ i, i < c.cantRegistros → i ≠ 0 →
      extension ((vectorInicializar c m).keyVector i) = 0 := by
    intro i bound positive
    simp [vectorInicializar, positive, bound, extension]
  have whole : extension ((vectorInicializar c m).keyVector 0) = c.cacheSize := by
    simp [vectorInicializar, extension]
  have base : ((vectorInicializar c m).keyVector 0).data = 0 := by simp [vectorInicializar]
  have first : ∀ i x, i < c.cantRegistros →
      Cubre (fun i => ((vectorInicializar c m).keyVector i).data)
        (fun i => extension ((vectorInicializar c m).keyVector i)) i x → i = 0 ∧ x < c.cacheSize := by
    intro i x bound here
    simp only [Cubre] at here
    by_cases zero : i = 0
    · subst zero
      exact ⟨rfl, by omega⟩
    · have := empty i bound zero
      omega
  constructor
  · intro i x bound here
    exact (first i x bound here).2
  · intro i j x left right here there
    rw [(first i x left here).1, (first j x right there).1]

theorem separadas_divide {c : Config} {m : Motor} {lugares pos prox : Nat} (apart : Separadas c m)
    (bound : lugares < c.cantRegistros) (different : lugares ≠ pos)
    (free : (m.keyVector lugares).libre) (nonempty : 0 < prox)
    (half : 2 * prox ≤ (m.keyVector lugares).dataSize) :
    Separadas c (dividir m lugares pos prox) := by
  have whole : extension (m.keyVector lugares) = (m.keyVector lugares).dataSize := by
    simp [extension, free]
  have limit := apart.inside bound (by omega)
  have value := a64_of_lt (x := (m.keyVector lugares).data + prox) (by omega)
    (by have := c.cacheSize_lt; omega)
  have lower := dividir_lugares m prox different
  have upper := dividir_posicionn m prox different
  have lowerExt : extension ((dividir m lugares pos prox).keyVector lugares) = prox := by
    rw [← extension_sinRotulo, lower]
    simp [extension, KeyElement.sinRotulo, free]
  have upperExt : extension ((dividir m lugares pos prox).keyVector pos) = prox := by
    rw [← extension_sinRotulo, upper]
    simp [extension]
  have lowerData : ((dividir m lugares pos prox).keyVector lugares).data =
      (m.keyVector lugares).data := congrArg (·.data) lower
  have upperData : ((dividir m lugares pos prox).keyVector pos).data =
      a64 ((m.keyVector lugares).data + prox) := congrArg (·.data) upper
  refine Separados.split apart ((m.keyVector lugares).data + prox) bound different ?_ ?_ ?_
  · intro x here
    simp only [Cubre] at here ⊢
    omega
  · intro x here
    simp only [Cubre] at here ⊢
    omega
  · intro j x _ left right here
    have same := dividir_other m prox left right
    have size : extension ((dividir m lugares pos prox).keyVector j) =
        extension (m.keyVector j) := by
      rw [← extension_sinRotulo, same, extension_sinRotulo]
    have base : ((dividir m lugares pos prox).keyVector j).data = (m.keyVector j).data :=
      congrArg (·.data) same
    simpa only [Cubre, size, base] using here

theorem separadas_estable {c : Config} (registros : 0 < c.cantRegistros) :
    Estable c (SeparadasSiSano c) where
  tabla _ holds := holds.1
  posicion m i holds := ⟨(tabla_estable registros).posicion m i holds.1, holds.2⟩
  elimina m i holds bound busy := by
    refine ⟨(tabla_estable registros).elimina m i holds.1 bound busy, fun sound => ?_⟩
    refine separadas_elimina (holds.2 ?_) bound busy
    simpa [Motor.Todos, eliminarParticion, apply_ite] using sound
  permuta m j holds bound filled :=
    ⟨(tabla_estable registros).permuta m j holds.1 bound filled,
      fun sound => separadas_permuta (holds.2 sound) bound⟩
  junta m actual vecino holds first second different free size := by
    refine ⟨(tabla_estable registros).junta m actual vecino holds.1 first second different free size,
      fun sound => ?_⟩
    obtain ⟨touch, before⟩ := Motor.todos_cons rfl sound
    have kept := juntarlos_actual m different
    refine separadas_junta (holds.2 before) first second (Or.inl ⟨rfl, rfl⟩) different touch size
      free ?_ ?_ ?_ ?_ ?_ ?_
    · rw [kept]
    · rw [kept]
    · rw [kept]
    · rw [kept]
    · simp [juntarlos_posicion m different, extension, free]
    · intro i left right
      exact juntarlos_other m left right
  uneAdelante m i holds bound first second size := by
    refine ⟨(tabla_estable registros).uneAdelante m i holds.1 bound first second size,
      fun sound => ?_⟩
    obtain ⟨touch, before⟩ := Motor.todos_cons rfl sound
    have different : i + 1 ≠ i := by omega
    have kept := unir_queda m (m.keyVector i).data (m.keyVector i) (m.keyVector (i + 1)) different
    have gone := unir_hueco m (m.keyVector i).data (m.keyVector i) (m.keyVector (i + 1)) different
    refine separadas_junta (holds.2 before) (by omega) bound (Or.inr ⟨rfl, rfl⟩) (by omega) touch
      size second ?_ ?_ ?_ ?_ ?_ ?_
    · rw [kept]
    · rw [kept]
    · rw [kept, Int.add_comm]
    · rw [kept]
    · simp [gone, extension, first]
    · intro j left right
      exact unir_other m _ _ _ left right
  uneAtras m i holds bound first second size := by
    refine ⟨(tabla_estable registros).uneAtras m i holds.1 bound first second size,
      fun sound => ?_⟩
    obtain ⟨touch, before⟩ := Motor.todos_cons rfl sound
    have different : i ≠ i + 1 := by omega
    have kept := unir_queda m (m.keyVector i).data (m.keyVector i) (m.keyVector (i + 1)) different
    have gone := unir_hueco m (m.keyVector i).data (m.keyVector i) (m.keyVector (i + 1)) different
    refine separadas_junta (holds.2 before) (by omega) bound (Or.inl ⟨rfl, rfl⟩) (by omega) touch
      size second ?_ ?_ ?_ ?_ ?_ ?_
    · rw [kept]
    · rw [kept]
    · rw [kept]
    · rw [kept]
    · simp [gone, extension, second]
    · intro j left right
      exact unir_other m _ _ _ left right
  anula m i holds bound free empty := by
    refine ⟨(tabla_estable registros).anula m i holds.1 bound free empty, fun sound => ?_⟩
    refine (holds.2 sound).shrink fun j below => ?_
    by_cases same : j = i
    · subst same
      exact Or.inl (by simp [extension, free, empty])
    · exact Or.inr (by simp [same])
  mueve m i holds bound pair := by
    refine ⟨(tabla_estable registros).mueve m i holds.1 bound pair, fun sound => ?_⟩
    exact absurd (Motor.todos_cons rfl sound).1 id
  inicializa m holds :=
    ⟨(tabla_estable registros).inicializa m holds.1, fun _ => separadas_inicializa m⟩
  divide m lugares pos prox holds first second different free empty nonempty half slot := by
    refine ⟨(tabla_estable registros).divide m lugares pos prox holds.1 first second different free
      empty nonempty half slot, fun sound => ?_⟩
    obtain ⟨record, -, -⟩ := dividir_resto m lugares pos prox
    exact separadas_divide (holds.2 (Motor.todos_cons record sound).2) first different free nonempty
      half

/-- A partition cut inside its bounds and filled. -/
theorem separadas_corta {c : Config} {m : Motor} {i pos espacio : Nat} {dif : Int} {p : Int}
    {key : List UInt8} {ahora : Tiempo} (apart : Separadas c m) (bound : i < c.cantRegistros)
    (empty : (m.keyVector pos).dataSize = 0) (padding : 0 ≤ dif)
    (fits : espacio + dif ≤ (m.keyVector i).dataSize) :
    Separadas c (ocupar (cortar m i pos espacio dif) i p key espacio ahora) := by
  have grows := extension_ge (m.keyVector i)
  have limit := c.cacheSize_lt
  have inside : 0 < (m.keyVector i).dataSize →
      (m.keyVector i).data + extension (m.keyVector i) ≤ c.cacheSize :=
    fun size => apart.inside bound (by omega)
  have pad : (a64 dif : Int) = dif := by
    by_cases size : 0 < (m.keyVector i).dataSize
    · exact a64_of_lt padding (by have := inside size; omega)
    · have : dif = 0 := by omega
      rw [this]
      rfl
  have kept : extension ((ocupar (cortar m i pos espacio dif) i p key espacio ahora).keyVector i) =
      espacio + a64 dif := by
    simp [ocupar, cortar, extension]
  by_cases same : i = pos
  · -- an empty entry chosen by default: nothing is cut and nothing is taken
    subst same
    refine apart.shrink fun j below => ?_
    by_cases here : j = i
    · subst here
      exact Or.inl (by omega)
    · exact Or.inr (by simp [ocupar, cortar, cargarEnVector, here])
  · have base : ((ocupar (cortar m i pos espacio dif) i p key espacio ahora).keyVector i).data =
        (m.keyVector i).data := by
      simp [ocupar, cortar, cargarEnVector, same]
    have other := Ne.symm same
    have rest : extension ((ocupar (cortar m i pos espacio dif) i p key espacio ahora).keyVector pos) =
        a64 ((m.keyVector i).dataSize - espacio - dif) := by
      simp [ocupar, cortar, cargarEnVector, extension, other]
    have start : ((ocupar (cortar m i pos espacio dif) i p key espacio ahora).keyVector pos).data =
        a64 ((m.keyVector i).data + espacio + dif) := by
      simp [ocupar, cortar, cargarEnVector, other]
    refine Separados.split apart ((m.keyVector i).data + espacio + a64 dif) bound same ?_ ?_ ?_
    · intro x here
      simp only [Cubre] at here ⊢
      omega
    · intro x here
      simp only [Cubre] at here ⊢
      have size : 0 < (m.keyVector i).dataSize := by
        by_contra zero
        have : a64 ((m.keyVector i).dataSize - espacio - dif) = 0 := by
          have : ((m.keyVector i).dataSize : Int) - espacio - dif = 0 := by omega
          rw [this]
          rfl
        omega
      have := inside size
      have cut := a64_of_lt (x := (m.keyVector i).dataSize - espacio - dif) (by omega) (by omega)
      have moved := a64_of_lt (x := (m.keyVector i).data + espacio + dif) (by omega) (by omega)
      omega
    · intro j x _ left right here
      simpa only [Cubre, ocupar, cortar, cargarEnVector, Motor.pon_keyVector, left, right, if_false,
        Motor.anota_keyVector] using here

/-- A partition or block that is taken whole holds at most what it held. -/
theorem separadas_ocupa {c : Config} {m m' : Motor} {i nbytes : Nat} {p : Int} {key : List UInt8}
    {ahora : Tiempo} (apart : Separadas c m)
    (others : ∀ j, j ≠ i → m'.keyVector j = m.keyVector j)
    (base : (m'.keyVector i).data = (m.keyVector i).data)
    (fits : nbytes + (m'.keyVector i).dataUnuse ≤ extension (m.keyVector i)) :
    Separadas c (ocupar m' i p key nbytes ahora) := by
  refine apart.shrink fun j _ => Or.inr ?_
  by_cases same : j = i
  · subst same
    simpa [ocupar, extension, base] using fits
  · simp [ocupar, same, others j same]

theorem hallazgo_separadas {c : Config} {m : Motor} {i nbytes : Nat} {p : Int} {key : List UInt8}
    {ahora : Tiempo} (narrow : nbytes < 2 ^ 32) (bound : i < c.cantRegistros) (sound : m.Todos Hecho.Separa)
    (found : Hallazgo c (SeparadasSiSano c) (nbytes % 2 ^ 32) m (some i)) :
    Separadas c (ocupar m i p key nbytes ahora) := by
  rw [Nat.mod_eq_of_lt narrow] at found
  generalize here : some i = it at found
  cases found with
  | nulo => cases here
  | particion m₀ prueba j holds =>
    rcases crearParticion_cases c m₀ prueba j nbytes with same | ⟨pos, free, same⟩ | same
    · simp [same] at here
    · rw [same] at here sound ⊢
      simp only [Option.some.injEq] at here
      subst here
      obtain ⟨⟨padding, fits⟩, before⟩ := Motor.todos_cons rfl sound
      exact separadas_corta (holds.2 before) bound (buscarPosLibre_some free).2 padding fits
    · rw [same] at here sound ⊢
      simp only [Option.some.injEq] at here
      subst here
      obtain ⟨fits, before⟩ := Motor.todos_cons rfl sound
      refine separadas_ocupa (holds.2 before) (fun _ _ => rfl) rfl ?_
      simp only [Hecho.Separa] at fits
      simp only [extension, Motor.anota_keyVector]
      split at fits <;> simp_all
  | bloque m₀ lugares holds block =>
    simp only [Option.some.injEq] at here
    subst here
    obtain ⟨-, before⟩ := Motor.todos_cons rfl sound
    have apart := holds.2 before
    rcases block with last | ⟨-, free, fits⟩
    · omega
    · have whole : extension (m₀.keyVector i) = (m₀.keyVector i).dataSize := by
        simp [extension, free]
      have limit : (m₀.keyVector i).dataSize < 2 ^ 64 := by
        by_cases size : 0 < extension (m₀.keyVector i)
        · have := apart.inside bound size
          have := c.cacheSize_lt
          omega
        · omega
      refine separadas_ocupa apart ?_ ?_ ?_
      · intro j other
        simp [cerrar, other]
      · simp [cerrar]
      · have half : (m₀.keyVector i).dataSize / 2 % 2 ^ 32 ≤ (m₀.keyVector i).dataSize / 2 :=
          Nat.mod_le _ _
        simp only [cerrar, Motor.pon_keyVector, if_true]
        unfold a64
        split <;> omega

/-- A search that ends past the table has changed no partition. -/
theorem hallazgo_separadas_fin {c : Config} {m : Motor} {i espacio : Nat}
    (outside : c.cantRegistros ≤ i) (sound : m.Todos Hecho.Separa)
    (found : Hallazgo c (SeparadasSiSano c) espacio m (some i)) : Separadas c m := by
  generalize here : some i = it at found
  cases found with
  | nulo => cases here
  | particion m₀ prueba j holds =>
    rcases crearParticion_cases c m₀ prueba j espacio with same | ⟨pos, free, same⟩ | same
    · simp [same] at here
    · rw [same] at here sound ⊢
      simp only [Option.some.injEq] at here
      subst here
      obtain ⟨⟨padding, fits⟩, before⟩ := Motor.todos_cons rfl sound
      have empty := (holds.1.fin i outside).1
      have nothing : ((m₀.keyVector i).dataSize : Int) - espacio - diferencia c espacio = 0 := by
        omega
      refine (holds.2 before).shrink fun j below => ?_
      have other : j ≠ i := by omega
      by_cases fresh : j = pos
      · subst fresh
        exact Or.inl (by simp [cortar, cargarEnVector, extension, other, nothing, a64])
      · exact Or.inr (by simp [cortar, cargarEnVector, other, fresh])
    · rw [same] at sound ⊢
      exact holds.2 (Motor.todos_cons rfl sound).2
  | bloque m₀ lugares holds block =>
    simp only [Option.some.injEq] at here
    subst here
    refine (holds.2 (Motor.todos_cons rfl sound).2).shrink fun j below => Or.inr ?_
    have other : j ≠ i := by omega
    simp [cerrar, other]

theorem separadas_atendible {c : Config} (registros : 0 < c.cantRegistros)
    (minima : 0 < c.partMinima) : Atendible c (· < 2 ^ 32) (SeparadasSiSano c) where
  toEstable := separadas_estable registros
  minima := minima
  libera m i holds bound busy := by
    refine ⟨holds.1.pon bound (holds.1.claves i bound), fun sound => ?_⟩
    refine (holds.2 sound).shrink fun j _ => Or.inr ?_
    by_cases same : j = i
    · subst same
      simp [liberarClave, extension, busy]
    · simp [liberarClave, same]
  guarda m i holds bound := by
    refine ⟨holds.1.pon bound (holds.1.claves i bound), fun sound => ?_⟩
    refine (holds.2 sound).shrink fun j _ => Or.inr ?_
    by_cases same : j = i
    · subst same
      simp [dummyNgStore, extension]
    · simp [dummyNgStore, same]
  suelta m i holds bound := by
    refine ⟨holds.1.pon bound (holds.1.claves i bound), fun sound => ?_⟩
    refine (holds.2 sound).shrink fun j _ => Or.inr ?_
    by_cases same : j = i
    · subst same
      simpa [extension] using extension_ge (m.keyVector j)
    · simp [same]
  toca m i ahora holds bound := by
    refine ⟨holds.1.pon bound (holds.1.claves i bound), fun sound => ?_⟩
    refine (holds.2 sound).shrink fun j _ => Or.inr ?_
    by_cases same : j = i
    · subst same
      simp [extension]
    · simp [same]
  reusa m i p key nbytes ahora holds bound busy fits := by
    refine ⟨?_, fun sound => ?_⟩
    · exact ((holds.1.liberarClave bound).anota _).ocupar bound
    · obtain ⟨-, before⟩ := Motor.todos_cons rfl sound
      refine separadas_ocupa (holds.2 before) ?_ ?_ ?_
      · intro j other
        simp [liberarClave, other]
      · simp [liberarClave]
      · simp [liberarClave, extension, busy, fits]
  aloja m i p key nbytes ahora found narrow bound :=
    ⟨(found.tabla (separadas_estable registros)).ocupar bound,
      fun sound => hallazgo_separadas narrow bound sound found⟩
  rehusa m i nbytes found _ outside :=
    ⟨found.tabla (separadas_estable registros),
      fun sound => hallazgo_separadas_fin outside sound found⟩

/-- The call asks for less than 4 GiB and takes no branch that mixes partitions. -/
def SeparaLlamada (c : Config) (fuel : Nat) (m : Motor) (l : Llamada) : Prop :=
  l.Pide (· < 2 ^ 32) ∧ ∀ h ∈ hechosDe c fuel m l, h.Separa

theorem SeparaLlamada.conserva {c : Config} {fuel : Nat} {m m' : Motor} {l : Llamada}
    (registros : 0 < c.cantRegistros) (minima : 0 < c.partMinima) (table : Tabla c m)
    (apart : Separadas c m) (meets : SeparaLlamada c fuel m l)
    (runs : atender c fuel m l = some m') : Tabla c m' ∧ Separadas c m' := by
  have start : SeparadasSiSano c { m with hechos := [] } :=
    ⟨⟨table.claves, table.fin⟩, fun _ => apart⟩
  obtain ⟨table', apart'⟩ :=
    atender_estable (separadas_atendible registros minima) start meets.1 runs
  refine ⟨table', apart' ?_⟩
  simpa [Motor.Todos, hechosDe, runs] using meets.2

theorem alcanzable_separadas {c : Config} {m : Motor} (reached : Alcanzable c (SeparaLlamada c) m) :
    0 < c.cantRegistros ∧ 0 < c.partMinima ∧ Tabla c m ∧ Separadas c m := by
  induction reached with
  | inicio keysSpace cache m starts =>
    obtain ⟨registros, minima, same⟩ := dummyNgInitialize_some starts
    refine ⟨registros, minima, inicio_tabla starts, ?_⟩
    rw [same]
    exact separadas_inicializa _
  | llamada fuel m m' l _ meets runs ih =>
    obtain ⟨registros, minima, table, apart⟩ := ih
    exact ⟨registros, minima, meets.conserva registros minima table apart runs⟩

def buddyDe64 : Config where
  esquema := .buddy
  particion := .next
  victim := .fifo
  freq := 1
  maxKey := 40
  cacheSize := 64
  partMinima := 8
  cacheSize_lt := cabe_64

def nextDe40 : Config where
  esquema := .partDinam
  particion := .next
  victim := .fifo
  freq := -1
  maxKey := 40
  cacheSize := 40
  partMinima := 16

end LosAltos.Rc
