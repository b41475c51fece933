import Mathlib.Data.List.Basic
import Mathlib.Data.List.GetD

/-!
# Buffer

Arrays of a fixed size whose elements may be uninitialized. Every access is
checked: a store or a load outside the array, and a load of an element that
was never stored, has no result. `b.Holds l`: the array starts with the
elements of `l`.
-/

namespace Diffsecp

/-- An array of `n` elements, `none` where nothing was stored yet. -/
abbrev Buf (α : Type) (n : ℕ) := Vector (Option α) n

namespace Buf

variable {α : Type} {n : ℕ}

def uninit (n : ℕ) : Buf α n := Vector.replicate n none

/-- Store one element. -/
def store? (b : Buf α n) (i : ℕ) (x : α) : Option (Buf α n) :=
  if h : i < n then some (b.set i (some x) h) else none

/-- Load one element. -/
def load? (b : Buf α n) (i : ℕ) : Option α := (b[i]?).join

/-- Store a list at `i`, as `memcpy` does. -/
def storeList? (b : Buf α n) (i : ℕ) : List α → Option (Buf α n)
  | [] => some b
  | x :: l => (b.store? i x).bind fun b => b.storeList? (i + 1) l

/-- Load `count` elements from `i` on. -/
def loadList? (b : Buf α n) (i : ℕ) : ℕ → Option (List α)
  | 0 => some []
  | count + 1 => (b.load? i).bind fun x => (b.loadList? (i + 1) count).map (x :: ·)

/-- Move `count` elements inside the array, as `memmove` does. -/
def moveList? (b : Buf α n) (dst src count : ℕ) : Option (Buf α n) :=
  (b.loadList? src count).bind (b.storeList? dst)

/-- The array starts with `l`. -/
def Holds (b : Buf α n) (l : List α) : Prop := ∀ j, j < l.length → b[j]? = some l[j]?

/-! ## Stores -/

theorem store?_of_lt {b : Buf α n} {i : ℕ} {x : α} (h : i < n) :
    ∃ b', b.store? i x = some b' ∧ ∀ j : ℕ, b'[j]? = if j = i then some (some x)
      else b[j]? := by
  refine ⟨b.set i (some x) h, by rw [store?, dif_pos h], fun j => ?_⟩
  rw [Vector.getElem?_set h]
  by_cases hj : i = j
  · rw [if_pos hj, if_pos hj.symm]
  · rw [if_neg hj, if_neg fun hji => hj hji.symm]

/-- A list that fits is stored, and nothing else changes. -/
theorem storeList?_of_le {b : Buf α n} {i : ℕ} {l : List α} (h : i + l.length ≤ n) :
    ∃ b', b.storeList? i l = some b' ∧
      ∀ j : ℕ, b'[j]? = if i ≤ j ∧ j < i + l.length then some l[j - i]? else b[j]? := by
  induction l generalizing b i with
  | nil => exact ⟨b, rfl,
        fun j => (if_neg fun hj => by simp only [List.length_nil] at hj; omega).symm⟩
  | cons x l ih =>
      rw [List.length_cons] at h
      obtain ⟨b₁, hb₁, hget₁⟩ := store?_of_lt (b := b) (x := x) (by omega : i < n)
      obtain ⟨b₂, hb₂, hget₂⟩ := ih (b := b₁) (i := i + 1) (by omega)
      refine ⟨b₂, by rw [storeList?, hb₁, Option.bind_some, hb₂], fun j => ?_⟩
      rw [hget₂, hget₁, List.length_cons]
      rcases Nat.lt_trichotomy j i with hj | rfl | hj
      · rw [if_neg (by omega), if_neg (by omega), if_neg (by omega)]
      · rw [if_neg (by omega), if_pos rfl, if_pos (by omega), Nat.sub_self,
          List.getElem?_cons_zero]
      · have hsucc : j - i = (j - (i + 1)) + 1 := by omega
        rw [hsucc, List.getElem?_cons_succ, if_neg (by omega : j ≠ i)]
        by_cases hend : j < i + (l.length + 1)
        · rw [if_pos (by omega), if_pos (by omega)]
        · rw [if_neg (by omega), if_neg (by omega)]

/-! ## What an array holds -/

theorem holds_nil (b : Buf α n) : b.Holds [] := nofun

theorem Holds.length_le {b : Buf α n} {l : List α} (hb : b.Holds l) : l.length ≤ n := by
  by_contra hlt
  have hget := hb n (by omega)
  rw [Vector.getElem?_eq_none (Nat.le_refl n)] at hget
  cases hget

/-- What fills an array determines it. -/
theorem Holds.eq {b b' : Buf α n} {l : List α} (hb : b.Holds l) (hb' : b'.Holds l)
    (h : n ≤ l.length) : b = b' := by
  ext j hj : 1
  have hget :=
    (hb j (Nat.lt_of_lt_of_le hj h)).trans (hb' j (Nat.lt_of_lt_of_le hj h)).symm
  rwa [Vector.getElem?_eq_getElem hj, Vector.getElem?_eq_getElem hj,
    Option.some_inj] at hget

/-- A list stored at the start. -/
theorem holds_store {l : List α} (b : Buf α n) (h : l.length ≤ n) :
    ∃ b', b.storeList? 0 l = some b' ∧ b'.Holds l := by
  obtain ⟨b', hb', hget⟩ := storeList?_of_le (b := b) (i := 0) (l := l) (by omega)
  refine ⟨b', hb', fun j hj => ?_⟩
  rw [hget, if_pos (by omega), Nat.sub_zero]

/-- A list stored right after what is held. -/
theorem Holds.append {b : Buf α n} {l : List α} (hb : b.Holds l) {m : List α}
    (h : l.length + m.length ≤ n) :
    ∃ b', b.storeList? l.length m = some b' ∧ b'.Holds (l ++ m) := by
  obtain ⟨b', hb', hget⟩ := storeList?_of_le (b := b) (i := l.length) (l := m) h
  refine ⟨b', hb', fun j hj => ?_⟩
  rw [List.length_append] at hj
  rw [hget]
  by_cases hlt : j < l.length
  · rw [if_neg (by omega), hb j hlt, List.getElem?_append_left hlt]
  · rw [if_pos (by omega), List.getElem?_append_right (by omega)]

/-- An element stored right after what is held. -/
theorem Holds.push {b : Buf α n} {l : List α} (hb : b.Holds l) {x : α}
    (h : l.length < n) :
    ∃ b', b.store? l.length x = some b' ∧ b'.Holds (l ++ [x]) := by
  obtain ⟨b', hb', hholds⟩ := hb.append (m := [x]) h
  rw [storeList?, Option.bind_eq_some_iff] at hb'
  obtain ⟨b₁, hb₁, heq⟩ := hb'
  cases heq
  exact ⟨b', hb₁, hholds⟩

/-- An element stored back over the one it is computed from. -/
theorem Holds.modify {b : Buf α n} {l : List α} (hb : b.Holds l) {i : ℕ}
    (h : i < l.length) (f : α → α) :
    ∃ b', b.store? i (f l[i]) = some b' ∧ b'.Holds (l.modify i f) := by
  obtain ⟨b', hb', hget⟩ :=
    store?_of_lt (b := b) (x := f l[i]) (Nat.lt_of_lt_of_le h hb.length_le)
  refine ⟨b', hb', fun j hj => ?_⟩
  rw [List.length_modify] at hj
  rw [hget]
  by_cases hji : j = i
  · subst hji
    rw [if_pos rfl, List.getElem?_modify_eq, List.getElem?_eq_getElem h]
    rfl
  · rw [if_neg hji, List.getElem?_modify_ne f l (Ne.symm hji), hb j hj]

/-! ## Loads -/

theorem Holds.load? {b : Buf α n} {l : List α} (hb : b.Holds l) {i : ℕ}
    (h : i < l.length) :
    b.load? i = some l[i] := by
  rw [Buf.load?, hb i h, Option.join_some, List.getElem?_eq_getElem h]

theorem Holds.loadList? {b : Buf α n} {l : List α} (hb : b.Holds l) {i count : ℕ}
    (h : i + count ≤ l.length) : b.loadList? i count = some ((l.drop i).take count) := by
  induction count generalizing i with
  | zero => rw [Buf.loadList?, List.take_zero]
  | succ count ih =>
      have hi : i < l.length := by omega
      rw [Buf.loadList?, hb.load? hi, Option.bind_some, ih (by omega), Option.map_some,
        List.drop_eq_getElem_cons hi, List.take_succ_cons]

/-! ## Making room -/

/-- Moving what is held from `i` on up by one makes room for an element at
`i`. -/
theorem Holds.insert {b : Buf α n} {l : List α} (hb : b.Holds l) {i : ℕ}
    (hi : i ≤ l.length) (h : l.length < n) (x : α) :
    ∃ b₁ b₂, b.moveList? (i + 1) i (l.length - i) = some b₁ ∧ b₁.store? i x = some b₂ ∧
      b₂.Holds (l.insertIdx i x) := by
  have hload : b.loadList? i (l.length - i) = some (l.drop i) := by
    rw [hb.loadList? (by omega), List.take_of_length_le (Nat.le_of_eq List.length_drop)]
  have hfits : i + 1 + (l.drop i).length ≤ n := by
    rw [List.length_drop]
    omega
  obtain ⟨b₁, hb₁, hget₁⟩ := storeList?_of_le (b := b) hfits
  obtain ⟨b₂, hb₂, hget₂⟩ := store?_of_lt (b := b₁) (x := x) (by omega : i < n)
  refine ⟨b₁, b₂, by rw [moveList?, hload, Option.bind_some, hb₁], hb₂, fun j hj => ?_⟩
  rw [List.length_insertIdx_of_le_length hi] at hj
  rw [hget₂, hget₁, List.length_drop]
  rcases Nat.lt_trichotomy j i with hlt | rfl | hgt
  · rw [if_neg (by omega), if_neg (by omega), hb j (by omega),
      List.getElem?_insertIdx_of_lt hlt]
  · rw [if_pos rfl, List.getElem?_insertIdx_self, if_pos hi]
  · rw [if_neg (by omega), if_pos (by omega), List.getElem?_insertIdx_of_gt hgt,
      List.getElem?_drop]
    have hidx : i + (j - (i + 1)) = j - 1 := by omega
    rw [hidx]

end Buf

end Diffsecp
