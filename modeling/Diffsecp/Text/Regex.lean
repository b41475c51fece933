import Mathlib.Data.List.TakeWhile

/-!
# Text — Regex

Regular expressions as a backtracking matcher runs them: a pattern is a list
of atoms, tried from the left, each taking as much as it can first. `finditer`
lists the matches from left to right, none overlapping the one before it. A
position counts the characters before it.
-/

namespace Diffsecp.Text

variable {α : Type}

/-- What one part of a pattern takes. -/
inductive Atom (α : Type) where
  | one (p : α → Bool)
  /-- As many as there are, then fewer. -/
  | many (p : α → Bool)
  /-- Nothing, where the characters before and after the position pass. -/
  | here (test : Option α → Option α → Bool)

abbrev Regex (α : Type) := List (Atom α)

/-- The character before a position. -/
def before (t : List α) : ℕ → Option α
  | 0 => none
  | i + 1 => t[i]?

/-- Where an atom tried at `i` can stop, in the order it is tried in. -/
def Atom.ends (t : List α) (i : ℕ) : Atom α → List ℕ
  | .one p => if (t[i]?).any p then [i + 1] else []
  | .many p => ((List.range (((t.drop i).takeWhile p).length + 1)).map (i + ·)).reverse
  | .here test => if test (before t i) t[i]? then [i] else []

/-- Where a pattern tried at `i` can stop, in the order it is tried in. -/
def Regex.ends (t : List α) : Regex α → ℕ → List ℕ
  | [], i => [i]
  | a :: r, i => (a.ends t i).flatMap (Regex.ends t r)

/-- The pattern that spells a word. -/
def Regex.word [DecidableEq α] (w : List α) : Regex α := w.map fun c => .one (· = c)

/-- The matches from position `i` on, which is reached with `fuel` positions
left to try. -/
def finditerFrom (t : List α) (r : Regex α) : (fuel i : ℕ) → List (ℕ × ℕ)
  | 0, _ => []
  | fuel + 1, i =>
      if t.length < i then []
      else
        match (r.ends t i).head? with
        | none => finditerFrom t r fuel (i + 1)
        -- an empty match is stepped over
        | some e => (i, e) :: finditerFrom t r fuel (if e = i then i + 1 else e)

def finditer (t : List α) (r : Regex α) : List (ℕ × ℕ) :=
  finditerFrom t r (t.length + 1) 0

/-- `w` stands at position `i`. -/
def Occurs (t w : List α) (i : ℕ) : Prop := w <+: t.drop i

instance [DecidableEq α] (t w : List α) (i : ℕ) : Decidable (Occurs t w i) :=
  inferInstanceAs (Decidable (w <+: t.drop i))

/-- The first place from `start` on where `w` stands. -/
def find [DecidableEq α] (t w : List α) (start : ℕ) : Option ℕ :=
  (List.range' start (t.length + 1 - start)).find? fun i => Occurs t w i

/-- The part of a text from `i` to `j`. -/
def slice (t : List α) (i j : ℕ) : List α := (t.take j).drop i

/-- The characters from `i` to `j` all pass. -/
def Run (p : α → Bool) (t : List α) (i j : ℕ) : Prop :=
  ∀ x, i ≤ x → x < j → ∃ c, t[x]? = some c ∧ p c = true

section Ends

variable {t : List α} {r s : Regex α} {p : α → Bool} {i j e : ℕ}

theorem mem_ends_nil : e ∈ Regex.ends t [] i ↔ e = i := List.mem_singleton

theorem mem_ends_cons {a : Atom α} :
    e ∈ Regex.ends t (a :: r) i ↔ ∃ j ∈ a.ends t i, e ∈ r.ends t j :=
  List.mem_flatMap

theorem mem_ends_append :
    e ∈ Regex.ends t (r ++ s) i ↔ ∃ j ∈ r.ends t i, e ∈ s.ends t j := by
  induction r generalizing i with
  | nil => simp [Regex.ends]
  | cons a r ih =>
      simp only [List.cons_append, mem_ends_cons, ih]
      constructor
      · rintro ⟨k, hk, j, hj, he⟩
        exact ⟨j, ⟨k, hk, hj⟩, he⟩
      · rintro ⟨j, ⟨k, hk, hj⟩, he⟩
        exact ⟨k, hk, j, hj, he⟩

theorem mem_ends_one :
    j ∈ (Atom.one p).ends t i ↔ j = i + 1 ∧ ∃ c, t[i]? = some c ∧ p c = true := by
  rw [Atom.ends]
  cases hc : t[i]? with
  | none => simp
  | some c =>
      by_cases hp : p c = true
      · simp [hp]
      · simp [hp]

theorem mem_ends_here {test : Option α → Option α → Bool} :
    j ∈ (Atom.here test).ends t i ↔ j = i ∧ test (before t i) t[i]? = true := by
  rw [Atom.ends]
  split
  next h => simp [h]
  next h => simp [h]

/-- What a repetition takes is a run. -/
theorem mem_ends_many : j ∈ (Atom.many p).ends t i ↔ i ≤ j ∧ Run p t i j := by
  rw [Atom.ends, List.mem_reverse]
  constructor
  · intro h
    obtain ⟨d, hd, rfl⟩ := List.mem_map.mp h
    rw [List.mem_range, Nat.lt_succ_iff] at hd
    refine ⟨Nat.le_add_right i d, fun x hx hxd => ?_⟩
    have hlt : x - i < ((t.drop i).takeWhile p).length := by omega
    have hget := List.getElem_mem hlt
    have htaken := (List.takeWhile_prefix p (l := t.drop i)).getElem hlt
    refine ⟨_, ?_, List.mem_takeWhile_imp hget⟩
    rw [htaken, List.getElem_drop, List.getElem?_eq_some_iff]
    have hlen := (List.takeWhile_prefix p (l := t.drop i)).length_le
    rw [List.length_drop] at hlen
    exact ⟨by omega, by congr 1; omega⟩
  · rintro ⟨hij, hrun⟩
    obtain ⟨d, rfl⟩ := Nat.exists_eq_add_of_le hij
    have htaken : d ≤ ((t.drop i).takeWhile p).length := by
      clear hij
      induction d generalizing i with
      | zero => exact Nat.zero_le _
      | succ d ih =>
          obtain ⟨c, hc, hpass⟩ := hrun i (Nat.le_refl i) (by omega)
          obtain ⟨hlt, rfl⟩ := List.getElem?_eq_some_iff.mp hc
          rw [List.drop_eq_getElem_cons hlt, List.takeWhile_cons_of_pos hpass,
            List.length_cons]
          exact Nat.succ_le_succ (ih fun x hx hxd => hrun x (by omega) (by omega))
    exact List.mem_map.mpr ⟨d, List.mem_range.mpr (Nat.lt_succ_of_le htaken), rfl⟩

/-- A word takes itself. -/
theorem mem_ends_word [DecidableEq α] {w : List α} :
    e ∈ (Regex.word w).ends t i ↔ e = i + w.length ∧ Occurs t w i := by
  induction w generalizing i with
  | nil => simp [Regex.word, Regex.ends, Occurs]
  | cons c w ih =>
      rw [Regex.word, List.map_cons, mem_ends_cons, Occurs]
      constructor
      · rintro ⟨j, hj, he⟩
        obtain ⟨rfl, c', hc', hpass⟩ := mem_ends_one.mp hj
        obtain ⟨rfl, hoccurs⟩ := ih.mp he
        obtain rfl := of_decide_eq_true hpass
        obtain ⟨hlt, rfl⟩ := List.getElem?_eq_some_iff.mp hc'
        refine ⟨by rw [List.length_cons]; omega, ?_⟩
        rw [List.drop_eq_getElem_cons hlt]
        exact List.cons_prefix_cons.mpr ⟨rfl, hoccurs⟩
      · rintro ⟨rfl, hoccurs⟩
        have hlt : i < t.length := by
          have hlen := hoccurs.length_le
          rw [List.length_cons, List.length_drop] at hlen
          omega
        rw [List.drop_eq_getElem_cons hlt, List.cons_prefix_cons] at hoccurs
        refine ⟨i + 1, mem_ends_one.mpr ⟨rfl, t[i], List.getElem?_eq_getElem hlt, ?_⟩,
          ih.mpr ⟨?_, hoccurs.2⟩⟩
        · exact decide_eq_true hoccurs.1.symm
        · rw [List.length_cons]
          omega

end Ends

section Search

variable {t : List α} {r : Regex α}

/-- A match that is listed is one. -/
theorem mem_finditer {m : ℕ × ℕ} (h : m ∈ finditer t r) :
    m.1 ≤ t.length ∧ m.2 ∈ r.ends t m.1 := by
  have hfrom (fuel i : ℕ) (h : m ∈ finditerFrom t r fuel i) :
      m.1 ≤ t.length ∧ m.2 ∈ r.ends t m.1 := by
    induction fuel generalizing i with
    | zero => nomatch h
    | succ fuel ih =>
        rw [finditerFrom] at h
        split at h
        next => nomatch h
        next hi =>
          split at h
          next => exact ih _ h
          next e he =>
            rcases List.mem_cons.mp h with rfl | h
            · exact ⟨Nat.le_of_not_lt hi, List.mem_of_mem_head? he⟩
            · exact ih _ h
  exact hfrom _ _ h

/-- Nothing is listed where the pattern matches nowhere. -/
theorem finditerFrom_eq_nil {fuel i : ℕ} (hfuel : t.length < fuel + i) :
    finditerFrom t r fuel i = [] ↔ ∀ j, i ≤ j → j ≤ t.length → r.ends t j = [] := by
  induction fuel generalizing i with
  | zero => exact iff_of_true rfl fun j hij hj => by omega
  | succ fuel ih =>
      rw [finditerFrom]
      by_cases hi : t.length < i
      · rw [if_pos hi]
        exact iff_of_true rfl fun j hij hj => by omega
      rw [if_neg hi]
      cases hends : (r.ends t i).head? with
      | none =>
          dsimp only
          rw [ih (by omega)]
          constructor
          · intro h j hij hj
            rcases Nat.eq_or_lt_of_le hij with rfl | hlt
            · exact List.head?_eq_none_iff.mp hends
            · exact h j hlt hj
          · intro h j hij hj
            exact h j (by omega) hj
      | some e =>
          refine iff_of_false (List.cons_ne_nil _ _) fun h => ?_
          rw [h i (Nat.le_refl i) (Nat.le_of_not_lt hi)] at hends
          nomatch hends

/-- One match is listed where the pattern matches there first, and nowhere
from its end on. -/
theorem finditerFrom_eq_singleton (hne : ∀ i, ∀ e ∈ r.ends t i, i < e) {fuel i : ℕ}
    (hfuel : t.length < fuel + i) {m : ℕ × ℕ} :
    finditerFrom t r fuel i = [m] ↔ i ≤ m.1 ∧ m.1 ≤ t.length ∧
    (r.ends t m.1).head? = some m.2 ∧
      (∀ j, i ≤ j → j < m.1 → r.ends t j = []) ∧ ∀ j, m.2 ≤ j → j ≤ t.length →
        r.ends t j = [] := by
  induction fuel generalizing i with
  | zero => exact iff_of_false (List.cons_ne_nil m []).symm fun h => by omega
  | succ fuel ih =>
      rw [finditerFrom]
      by_cases hi : t.length < i
      · rw [if_pos hi]
        exact iff_of_false (List.cons_ne_nil m []).symm fun h => by omega
      rw [if_neg hi]
      cases hends : (r.ends t i).head? with
      | none =>
          have hnil := List.head?_eq_none_iff.mp hends
          dsimp only
          rw [ih (by omega)]
          constructor
          · rintro ⟨hle, hm, hfirst, hbefore, hafter⟩
            refine ⟨by omega, hm, hfirst, fun j hij hj => ?_, hafter⟩
            rcases Nat.eq_or_lt_of_le hij with rfl | hlt
            · exact hnil
            · exact hbefore j hlt hj
          · rintro ⟨hle, hm, hfirst, hbefore, hafter⟩
            have hlt : i < m.1 := by
              refine Nat.lt_of_le_of_ne hle fun heq => ?_
              rw [← heq, hends] at hfirst
              nomatch hfirst
            exact ⟨hlt, hm, hfirst, fun j hij hj => hbefore j (by omega) hj, hafter⟩
      | some e =>
          have hlt : i < e := hne i e (List.mem_of_mem_head? hends)
          have hrest : finditerFrom t r fuel e = [] ↔ ∀ j, e ≤ j → j ≤ t.length →
              r.ends t j = [] :=
            finditerFrom_eq_nil (by omega)
          dsimp only
          rw [if_neg (by omega), List.cons_eq_cons]
          constructor
          · rintro ⟨rfl, hnil⟩
            exact ⟨Nat.le_refl i, Nat.le_of_not_lt hi, hends, fun j hij hj =>
              absurd hj (Nat.not_lt.mpr hij), hrest.mp hnil⟩
          · rintro ⟨hle, hm, hfirst, hbefore, hafter⟩
            have heq : m.1 = i := by
              refine Nat.le_antisymm (Nat.le_of_not_lt fun hlt' => ?_) hle
              rw [hbefore i (Nat.le_refl i) hlt'] at hends
              nomatch hends
            rw [heq, hends] at hfirst
            obtain rfl := Option.some.inj hfirst
            exact ⟨Prod.ext heq.symm rfl, hrest.mpr hafter⟩

theorem finditer_eq_singleton (hne : ∀ i, ∀ e ∈ r.ends t i, i < e) {m : ℕ × ℕ} :
    finditer t r = [m] ↔ m.1 ≤ t.length ∧ (r.ends t m.1).head? = some m.2 ∧
    (∀ j < m.1, r.ends t j = []) ∧
      ∀ j, m.2 ≤ j → j ≤ t.length → r.ends t j = [] := by
  rw [finditer, finditerFrom_eq_singleton hne (Nat.lt_succ_self _)]
  simp

variable [DecidableEq α]

/-- `w` stands at `p` in the part of the text from `a` to `b`. -/
def OccursIn (t w : List α) (a b p : ℕ) : Prop := a ≤ p ∧ p + w.length ≤ b ∧ Occurs t w p

instance (t w : List α) (a b p : ℕ) : Decidable (OccursIn t w a b p) :=
  inferInstanceAs (Decidable (a ≤ p ∧ p + w.length ≤ b ∧ Occurs t w p))

/-- `p` is the first place of `w` in the part of the text, and every other one
begins inside the `w` at `p`. -/
def Lone (t w : List α) (a b p : ℕ) : Prop :=
  OccursIn t w a b p ∧ ∀ q, OccursIn t w a b q → p ≤ q ∧ q < p + w.length

omit [DecidableEq α] in
/-- What stands in a part of a text. -/
theorem occurs_slice {w : List α} {a b q : ℕ} (hw : w ≠ []) :
    Occurs (slice t a b) w q ↔ a + q + w.length ≤ b ∧ Occurs t w (a + q) := by
  have hpos : 0 < w.length := List.length_pos_iff.mpr hw
  rw [Occurs, slice, List.drop_drop, List.drop_take, List.prefix_take_iff, Occurs]
  constructor
  · rintro ⟨hoccurs, hle⟩
    exact ⟨by omega, hoccurs⟩
  · rintro ⟨hle, hoccurs⟩
    exact ⟨hoccurs, by omega⟩

/-- A scan for a word lists one match exactly where the word stands there and
every other place of it begins inside the match. -/
theorem finditer_word_eq_singleton {w : List α} (hw : w ≠ []) {a b : ℕ} {m : ℕ × ℕ} :
    finditer (slice t a b) (Regex.word w) = [m] ↔ m.2 = m.1 + w.length ∧
    Lone t w a b (a + m.1) := by
  have hpos : 0 < w.length := List.length_pos_iff.mpr hw
  have hends (j : ℕ) : (Regex.word w).ends (slice t a b) j = [] ↔
      ¬ Occurs (slice t a b) w j := by
    rw [List.eq_nil_iff_forall_not_mem]
    constructor
    · exact fun h hoccurs => h (j + w.length) (mem_ends_word.mpr ⟨rfl, hoccurs⟩)
    · exact fun h e he => h (mem_ends_word.mp he).2
  have hhead (j e : ℕ) : ((Regex.word w).ends (slice t a b) j).head? = some e ↔
      e = j + w.length ∧ Occurs (slice t a b) w j := by
    constructor
    · exact fun h => mem_ends_word.mp (List.mem_of_mem_head? h)
    · rintro ⟨rfl, hoccurs⟩
      have hmem := mem_ends_word.mpr ⟨rfl, hoccurs⟩
      cases hlist : (Regex.word w).ends (slice t a b) j with
      | nil =>
          rw [hlist] at hmem
          nomatch hmem
      | cons e es =>
          have he : e ∈ (Regex.word w).ends (slice t a b) j := by
            rw [hlist]; exact List.mem_cons_self ..
          rw [List.head?_cons, (mem_ends_word.mp he).1]
  rw [finditer_eq_singleton fun i e he => by rw [(mem_ends_word.mp he).1]; omega]
  simp only [hends, hhead, occurs_slice hw]
  constructor
  · rintro ⟨hm, ⟨hlen, hle, hoccurs⟩, hbefore, hafter⟩
    refine ⟨hlen, ⟨Nat.le_add_right a _, hle, hoccurs⟩, ?_⟩
    rintro q ⟨haq, hqb, hq⟩
    obtain ⟨q, rfl⟩ := Nat.exists_eq_add_of_le haq
    have hslice : (slice t a b).length = min b t.length - a := by
      rw [slice, List.length_drop, List.length_take]
    have hqt := hq.length_le
    rw [List.length_drop] at hqt
    constructor
    · refine Nat.le_of_not_lt fun hlt => hbefore q (by omega) ⟨hqb, hq⟩
    · refine Nat.lt_of_not_le fun hge => hafter q (by omega) (by omega) ⟨hqb, hq⟩
  · rintro ⟨hlen, ⟨-, hle, hoccurs⟩, hothers⟩
    have hslice : (slice t a b).length = min b t.length - a := by
      rw [slice, List.length_drop, List.length_take]
    have hmt := hoccurs.length_le
    rw [List.length_drop] at hmt
    refine ⟨by omega, ⟨hlen, hle, hoccurs⟩, fun j hj h => ?_, fun j hj _ h => ?_⟩
    · have hother := hothers (a + j) ⟨Nat.le_add_right a j, h⟩
      omega
    · have hother := hothers (a + j) ⟨Nat.le_add_right a j, h⟩
      omega

/-- A word found in a part of a text stands there in the whole. -/
theorem occurs_of_finditer {w : List α} {a b : ℕ} {m : ℕ × ℕ} (hab : a ≤ b)
    (h : m ∈ finditer (slice t a b) (Regex.word w)) :
    m.2 = m.1 + w.length ∧ Occurs t w (a + m.1) ∧ a + m.1 + w.length ≤ b := by
  obtain ⟨hle, hend⟩ := mem_finditer h
  obtain ⟨hlen, hoccurs⟩ := mem_ends_word.mp hend
  rw [Occurs, slice, List.drop_drop, List.drop_take] at hoccurs
  rw [slice, List.length_drop, List.length_take] at hle
  have hshort := hoccurs.length_le
  rw [List.length_take] at hshort
  exact ⟨hlen, hoccurs.trans (List.take_prefix _ _), by omega⟩

/-- The place found is the first one. -/
theorem find_eq_some {w : List α} (hw : w ≠ []) {start i : ℕ} :
    find t w start = some i ↔ start ≤ i ∧ Occurs t w i ∧ ∀ j, start ≤ j → j < i →
      ¬ Occurs t w j := by
  rw [find, List.find?_range'_eq_some]
  constructor
  · rintro ⟨hoccurs, hmem, hbefore⟩
    refine ⟨(List.mem_range'_1.mp hmem).1, of_decide_eq_true hoccurs,
      fun j hstart hlt => ?_⟩
    simpa using hbefore j hstart hlt
  · rintro ⟨hstart, hoccurs, hbefore⟩
    have hpos : 0 < w.length := List.length_pos_iff.mpr hw
    have hlen := hoccurs.length_le
    rw [List.length_drop] at hlen
    refine ⟨decide_eq_true hoccurs, List.mem_range'_1.mpr ⟨hstart, by omega⟩,
      fun j hj hlt => ?_⟩
    simpa using hbefore j hj hlt

end Search

end Diffsecp.Text
