import LosAltos.Lib.Chain
import LosAltos.Rfs.Runs

/-!
# The entries of a directory block

`leerEntrada`, `grabarEntrada` and the `while(tamanioDeBloque() > cantidad)` loops of
`funciones_rfs.c:243-296, 884-947, 1155-1199` over a block that is a chain of entries. On such
a block the walk is a search in the list of its entries.
-/
namespace LosAltos.Rfs

open Lib

/-! ### One entry -/

/-- The fields fit the widths of `struct DirEntry`. -/
structure DirEntry.Cabe (e : DirEntry) : Prop where
  inode : e.inode < 2 ^ 32
  entryLen : e.entryLen < 2 ^ 16
  nameLen : e.nameLen < 2 ^ 8
  name : e.name.length = e.nameLen

/-- A length in words that leaves room for the name. -/
def DirEntry.Sana (e : DirEntry) : Prop := 4 ∣ e.entryLen ∧ 8 + e.nameLen ≤ e.entryLen

instance (e : DirEntry) : Decidable e.Sana := inferInstanceAs (Decidable (_ ∧ _))

variable {d d' : Disco} {ptr inicio : Int} {e : DirEntry}

theorem DirEntry.Sana.positive (sound : e.Sana) : 0 < e.entryLen := by
  have := sound.2
  omega

theorem DirEntry.bytes_length (e : DirEntry) : e.bytes.length = 8 + e.name.length := by
  simp only [bytes, List.length_append, toLe_length, List.length_singleton]
  omega

theorem fromLe_leer_lt (mem : Memoria) (dir : Int) (n : Nat) : fromLe (leer mem dir n) < 256 ^ n := by
  have bound := fromLe_lt (leer mem dir n)
  rwa [leer_length] at bound

theorem leerEntrada_cabe (d : Disco) (ptr : Int) : (leerEntrada d ptr).Cabe where
  inode := fromLe_leer_lt d.mem ptr 4
  entryLen := fromLe_leer_lt d.mem (ptr + 4) 2
  nameLen := fromLe_leer_lt d.mem (ptr + 6) 1
  name := leer_length ..

/-- An entry is its eight bytes of header and its name. -/
theorem leerEntrada_congr
    (same : ∀ j : Nat, j < 8 + (leerEntrada d ptr).nameLen → d'.mem (ptr + j) = d.mem (ptr + j)) :
    leerEntrada d' ptr = leerEntrada d ptr := by
  have part : ∀ off n : Nat, off + n ≤ 8 + (leerEntrada d ptr).nameLen →
      leer d'.mem (ptr + off) n = leer d.mem (ptr + off) n := by
    intro off n inside
    apply leer_congr
    intro j below
    have byte := same (off + j) (by omega)
    rwa [Nat.cast_add, ← Int.add_assoc] at byte
  have inode : leer d'.mem ptr 4 = leer d.mem ptr 4 := by simpa using part 0 4 (by omega)
  have entryLen := part 4 2 (by omega)
  have nameLen := part 6 1 (by omega)
  have type : d'.mem (ptr + 7) = d.mem (ptr + 7) := same 7 (by omega)
  have name := part 8 (leerEntrada d ptr).nameLen (Nat.le_refl _)
  push_cast at entryLen nameLen name
  simp only [leerEntrada] at name ⊢
  rw [inode, entryLen, nameLen, type, name]

theorem leerEntrada_copia_self (fits : e.Cabe) : leerEntrada (d.copia ptr e.bytes) ptr = e := by
  have inode := leer_escribir_part d.mem ptr [] (toLe 4 e.inode)
    (toLe 2 e.entryLen ++ (toLe 1 e.nameLen ++ ([e.type] ++ e.name)))
  have entryLen := leer_escribir_part d.mem ptr (toLe 4 e.inode) (toLe 2 e.entryLen)
    (toLe 1 e.nameLen ++ ([e.type] ++ e.name))
  have nameLen := leer_escribir_part d.mem ptr (toLe 4 e.inode ++ toLe 2 e.entryLen)
    (toLe 1 e.nameLen) ([e.type] ++ e.name)
  have type := leer_escribir_part d.mem ptr
    (toLe 4 e.inode ++ (toLe 2 e.entryLen ++ toLe 1 e.nameLen)) [e.type] e.name
  have name := leer_escribir_part d.mem ptr
    (toLe 4 e.inode ++ (toLe 2 e.entryLen ++ (toLe 1 e.nameLen ++ [e.type]))) e.name []
  simp only [List.append_assoc, List.nil_append, List.append_nil, List.length_append, toLe_length,
    List.length_nil, List.length_singleton] at inode entryLen nameLen type name
  push_cast at inode entryLen nameLen type name
  norm_num at inode entryLen nameLen type name
  have byte : (d.copia ptr e.bytes).mem (ptr + 7) = e.type := by
    simpa [leer, Disco.copia, DirEntry.bytes] using type
  have length : fromLe (toLe 1 e.nameLen) = e.nameLen := fromLe_toLe_of_lt fits.nameLen
  rw [fits.name] at name
  simp only [leerEntrada, byte]
  simp only [Disco.copia, DirEntry.bytes, List.singleton_append]
  rw [inode, entryLen, nameLen, length, name, fromLe_toLe_of_lt fits.inode,
    fromLe_toLe_of_lt fits.entryLen]

/-! ### One block -/

/-- The entry `desp` bytes into the block at `inicio`. -/
def entradaEn (d : Disco) (inicio : Int) (desp : Nat) : DirEntry := leerEntrada d (inicio + desp)

/-- The entries of a block from `desp` to `hasta`, one after another. -/
abbrev Entradas (d : Disco) (inicio : Int) (desp hasta : Nat) (es : List DirEntry) : Prop :=
  Tramo (entradaEn d inicio) DirEntry.entryLen desp hasta es

theorem Entradas.cabe {desp hasta : Nat} {es : List DirEntry}
    (chain : Entradas d inicio desp hasta es) (member : e ∈ es) : e.Cabe := by
  obtain ⟨p, rfl⟩ := chain.leido member
  exact leerEntrada_cabe d _

/-- The first entry that satisfies `p`: its displacement, the length of the entry before
it, and the entry. -/
def primera (p : DirEntry → Bool) : Nat → Nat → List DirEntry → Option (Nat × Nat × DirEntry)
  | _, _, [] => none
  | desp, anterior, e :: es =>
    if p e then some (desp, anterior, e) else primera p (desp + e.entryLen) e.entryLen es

section
variable {sb : Superblock} {p : DirEntry → Bool} {es : List DirEntry} {desp anterior : Nat}

theorem recorrerBloque_entradas (small : tamanioDeBloque sb < 2 ^ 16) {fuel : Nat}
    (chain : Entradas d inicio desp (tamanioDeBloque sb) es)
    (positive : ∀ e ∈ es, 0 < e.entryLen) (enough : es.length < fuel) :
    recorrerBloque sb d inicio p fuel desp anterior = some (primera p desp anterior es) := by
  induction es generalizing fuel desp anterior with
  | nil =>
    obtain ⟨fuel, rfl⟩ := Nat.exists_eq_add_of_lt enough
    have last := Tramo.nil_iff.mp chain
    rw [recorrerBloque, if_pos (by omega), primera]
  | cons e es ih =>
    obtain ⟨fuel, rfl⟩ : ∃ n, fuel = n + 1 := ⟨fuel - 1, by simp at enough; omega⟩
    obtain ⟨here, rest⟩ := Tramo.cons_iff.mp chain
    have length := positive e (by simp)
    have inside := rest.le
    rw [recorrerBloque, if_neg (by omega)]
    simp only
    rw [show leerEntrada d (inicio + desp) = e from here, primera]
    split
    · rfl
    · exact ih rest (fun u member => positive u (by simp [member])) (by simpa using enough)

/-- The first entry, with what lies before and after it. -/
theorem primera_entradas {a previo hasta : Nat} (chain : Entradas d inicio desp hasta es)
    (found : primera p desp anterior es = some (a, previo, e)) :
    ∃ us vs, es = us ++ e :: vs ∧ p e ∧ (∀ u ∈ us, ¬p u) ∧ Entradas d inicio desp a us ∧
      entradaEn d inicio a = e ∧ Entradas d inicio (a + e.entryLen) hasta vs ∧
      (us = [] ∧ previo = anterior ∨ ∃ ws w, us = ws ++ [w] ∧ previo = w.entryLen) := by
  induction es generalizing desp anterior with
  | nil => cases found
  | cons u es ih =>
    obtain ⟨here, rest⟩ := Tramo.cons_iff.mp chain
    rw [primera] at found
    split at found
    · rename_i holds
      cases found
      exact ⟨[], es, rfl, holds, by simp, .nil, here, rest, .inl ⟨rfl, rfl⟩⟩
    · rename_i other
      obtain ⟨us, vs, rfl, holds, others, before, there, after, shape⟩ := ih rest found
      refine ⟨u :: us, vs, rfl, holds, ?_, Tramo.cons_iff.mpr ⟨here, before⟩, there, after, .inr ?_⟩
      · intro w member
        rcases List.mem_cons.mp member with rfl | later
        · exact other
        · exact others w later
      · rcases shape with ⟨rfl, rfl⟩ | ⟨ws, w, rfl, rfl⟩
        · exact ⟨[], u, rfl, rfl⟩
        · exact ⟨u :: ws, w, rfl, rfl⟩

/-! ### Writing in a block -/

theorem entradaEn_grabarEntrada_self (fits : e.Cabe) :
    entradaEn (grabarEntrada d inicio desp e) inicio desp = e :=
  leerEntrada_copia_self fits

/-- An entry that does not overlap the one written. -/
theorem entradaEn_grabarEntrada_other {a : Nat}
    (apart : a + (8 + (entradaEn d inicio a).nameLen) ≤ desp ∨ desp + (8 + e.name.length) ≤ a) :
    entradaEn (grabarEntrada d inicio desp e) inicio a = entradaEn d inicio a := by
  apply leerEntrada_congr
  intro j below
  change j < 8 + (entradaEn d inicio a).nameLen at below
  have off : ¬(inicio + (desp : Int) ≤ inicio + (a : Int) + j ∧
      inicio + (a : Int) + j < inicio + (desp : Int) + e.bytes.length) := by
    rw [DirEntry.bytes_length]
    omega
  simp [grabarEntrada, Disco.anota, Disco.copia, escribir, off]

/-- The entries before the one written. -/
theorem Entradas.previas {us : List DirEntry} {a c : Nat} (chain : Entradas d inicio a c us)
    (sound : ∀ u ∈ us, u.Sana) (before : c ≤ desp) :
    Entradas (grabarEntrada d inicio desp e) inicio a c us := by
  refine chain.congr fun p _ inside member => entradaEn_grabarEntrada_other (.inl ?_)
  have := (sound _ member).2
  omega

/-- Entries are read from the mapped file alone. -/
theorem entradaEn_mem (same : d'.mem = d.mem) (inicio : Int) :
    entradaEn d' inicio = entradaEn d inicio := by
  funext desp
  exact leerEntrada_congr fun j _ => by rw [same]

variable {us vs : List DirEntry} {a m hasta : Nat} {nueva : DirEntry}

/-- An entry gives what it does not need to a new one behind it. -/
theorem Entradas.partir (before : Entradas d inicio desp a us) (here : entradaEn d inicio a = e)
    (after : Entradas d inicio (a + e.entryLen) hasta vs)
    (sound : ∀ u ∈ us, u.Sana) (room : 8 + e.nameLen ≤ m) (fits : nueva.Cabe)
    (inside : m + nueva.entryLen = e.entryLen) (name : nueva.Sana)
    (mem : d'.mem = (grabarEntrada d inicio (a + m) nueva).mem) :
    Entradas (grabarEntrada d' inicio a { e with entryLen := m }) inicio desp hasta
      (us ++ { e with entryLen := m } :: nueva :: vs) := by
  have header := leerEntrada_cabe d (inicio + a)
  rw [show leerEntrada d (inicio + a) = e from here] at header
  have width : m < 2 ^ 16 := by
    have := header.entryLen
    omega
  have short : DirEntry.Cabe { e with entryLen := m } :=
    ⟨header.inode, width, header.nameLen, header.name⟩
  have first : entradaEn (grabarEntrada d' inicio a { e with entryLen := m }) inicio a =
      { e with entryLen := m } := entradaEn_grabarEntrada_self short
  have read : ∀ p, entradaEn d' inicio p = entradaEn (grabarEntrada d inicio (a + m) nueva) inicio p :=
    fun p => congrFun (entradaEn_mem mem inicio) p
  have written : entradaEn d' inicio (a + m) = nueva := by
    rw [read, entradaEn_grabarEntrada_self fits]
  have second : entradaEn (grabarEntrada d' inicio a { e with entryLen := m }) inicio (a + m) =
      nueva := by
    rw [entradaEn_grabarEntrada_other (.inr ?_), written]
    have := header.name
    simp only
    omega
  -- what lies before `a` or after the old entry is read as it was
  have others : ∀ p, (p + (8 + (entradaEn d inicio p).nameLen) ≤ a ∨ a + e.entryLen ≤ p) →
      entradaEn (grabarEntrada d' inicio a { e with entryLen := m }) inicio p =
        entradaEn d inicio p := by
    intro p apart
    have behind := name.2
    have width := header.name
    have width' := fits.name
    have once : entradaEn d' inicio p = entradaEn d inicio p := by
      rw [read]
      exact entradaEn_grabarEntrada_other (by omega)
    rw [entradaEn_grabarEntrada_other (by rw [once]; simp only; omega), once]
  have middle : Entradas (grabarEntrada d' inicio a { e with entryLen := m }) inicio a
      (a + e.entryLen) [{ e with entryLen := m }, nueva] := by
    refine Tramo.cons_iff.mpr ⟨first, Tramo.cons_iff.mpr ⟨second, Tramo.nil_iff.mpr ?_⟩⟩
    simp only
    omega
  refine before.reemplazar middle after (fun p below member => others p (.inl ?_))
    fun p above _ => others p (.inr above)
  have := (sound _ member).2
  omega

/-- An entry takes in what lies behind it, up to `hasta`. -/
theorem Entradas.juntar (before : Entradas d inicio desp a us) (here : entradaEn d inicio a = e)
    (sound : ∀ u ∈ us, u.Sana) (room : 8 + e.nameLen ≤ m) (width : m < 2 ^ 16)
    (after : Entradas d inicio (a + m) hasta vs) :
    Entradas (grabarEntrada d inicio a { e with entryLen := m }) inicio desp hasta
      (us ++ { e with entryLen := m } :: vs) := by
  have header := leerEntrada_cabe d (inicio + a)
  rw [show leerEntrada d (inicio + a) = e from here] at header
  have long : DirEntry.Cabe { e with entryLen := m } :=
    ⟨header.inode, width, header.nameLen, header.name⟩
  have others : ∀ p, (p + (8 + (entradaEn d inicio p).nameLen) ≤ a ∨ a + m ≤ p) →
      entradaEn (grabarEntrada d inicio a { e with entryLen := m }) inicio p =
        entradaEn d inicio p := by
    intro p apart
    have := header.name
    exact entradaEn_grabarEntrada_other (by simp only; omega)
  have middle : Entradas (grabarEntrada d inicio a { e with entryLen := m }) inicio a (a + m)
      [{ e with entryLen := m }] :=
    Tramo.cons_iff.mpr ⟨entradaEn_grabarEntrada_self long, Tramo.nil_iff.mpr rfl⟩
  refine before.reemplazar middle after (fun p below member => others p (.inl ?_))
    fun p above _ => others p (.inr above)
  have := (sound _ member).2
  omega

end

end LosAltos.Rfs
