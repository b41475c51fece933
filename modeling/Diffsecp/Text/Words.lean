import Mathlib.Data.List.TakeWhile

/-!
# Text — Words

The words of a text: its longest runs of characters that are no separators.
-/

namespace Diffsecp.Text

variable {α : Type}

def words (sep : α → Bool) (s : List α) : List (List α) :=
  (s.splitOnP sep).filter (· ≠ [])

variable {sep : α → Bool} {s w lead : List α} {ws : List (List α)} {c : α}

/-- What lies between separators has none. -/
theorem not_sep_of_mem_splitOnP {l : List α} (hl : l ∈ s.splitOnP sep) (hc : c ∈ l) :
    sep c = false := by
  induction s generalizing l with
  | nil =>
      rw [List.splitOnP_nil, List.mem_singleton] at hl
      rw [hl] at hc
      nomatch hc
  | cons a s ih =>
      rw [List.splitOnP_cons_eq_if_modifyHead] at hl
      cases ha : sep a with
      | true =>
          rw [ha, if_pos rfl] at hl
          rcases List.mem_cons.mp hl with rfl | hl
          · nomatch hc
          · exact ih hl hc
      | false =>
          rw [ha, if_neg Bool.false_ne_true] at hl
          obtain ⟨h, t, hsplit⟩ := List.exists_cons_of_ne_nil (List.splitOnP_ne_nil sep s)
          rw [hsplit, List.modifyHead_cons] at hl
          rw [hsplit] at ih
          rcases List.mem_cons.mp hl with rfl | hl
          · rcases List.mem_cons.mp hc with rfl | hc
            · exact ha
            · exact ih (List.mem_cons_self ..) hc
          · exact ih (List.mem_cons_of_mem _ hl) hc

@[simp] theorem words_nil : words sep [] = [] := by simp [words]

@[simp] theorem words_sep (hc : sep c = true) : words sep (c :: s) = words sep s := by
  have hfirst :=
    List.splitOnP_append_cons_of_forall_mem (p := sep) (List.forall_mem_nil _) c hc s
  rw [List.nil_append] at hfirst
  rw [words, hfirst, List.filter_cons_of_neg (by simp), words]

theorem words_append_left (hlead : ∀ c ∈ lead, sep c = true) :
    words sep (lead ++ s) = words sep s := by
  induction lead with
  | nil => rfl
  | cons c lead ih =>
      rw [List.forall_mem_cons] at hlead
      rw [List.cons_append, words_sep hlead.1, ih hlead.2]

/-- A run that ends at a separator, or with the text, is a word. -/
theorem words_word (hne : w ≠ []) (hw : ∀ c ∈ w, sep c = false)
    (hs : ∀ c ∈ s.head?, sep c = true) :
    words sep (w ++ s) = w :: words sep s := by
  cases s with
  | nil =>
      rw [List.append_nil, words, List.splitOnP_eq_singleton hw, words_nil]
      simp [hne]
  | cons c s =>
      have hc := hs c rfl
      rw [words, List.splitOnP_append_cons_of_forall_mem hw c hc s, words_sep hc, words,
        List.filter_cons_of_pos (by simp [hne])]

/-- A word begins where a character that is no separator does. -/
theorem exists_word (hc : sep c = false) (s : List α) :
    ∃ w rest, c :: s = w ++ rest ∧ w ≠ [] ∧ (∀ c ∈ w, sep c = false) ∧
      ∀ c ∈ rest.head?, sep c = true := by
  refine ⟨(c :: s).takeWhile (fun c => !sep c), (c :: s).dropWhile (fun c => !sep c),
    List.takeWhile_append_dropWhile.symm, by simp [hc], fun c' hc' =>
      ?_, fun c' hc' => ?_⟩
  · simpa using List.mem_takeWhile_imp hc'
  · have hnot := List.head?_dropWhile_not (fun c => !sep c) (c :: s)
    rw [Option.mem_def.mp hc'] at hnot
    simpa using hnot

/-- The first word and what follows it. -/
theorem words_eq_cons :
    words sep s = w :: ws ↔ ∃ lead rest, s = lead ++ (w ++ rest) ∧
      (∀ c ∈ lead, sep c = true) ∧ w ≠ [] ∧
      (∀ c ∈ w, sep c = false) ∧ (∀ c ∈ rest.head?, sep c = true) ∧
        words sep rest = ws := by
  constructor
  · intro h
    induction s with
    | nil => simp at h
    | cons c s ih =>
        cases hc : sep c with
        | true =>
            rw [words_sep hc] at h
            obtain ⟨lead, rest, rfl, hlead, hrest⟩ := ih h
            exact ⟨c :: lead, rest, rfl, List.forall_mem_cons.mpr ⟨hc, hlead⟩, hrest⟩
        | false =>
            obtain ⟨w', rest, hsplit, hne, hw', hrest⟩ := exists_word hc s
            rw [hsplit, words_word hne hw' hrest] at h
            obtain ⟨rfl, hws⟩ := List.cons.inj h
            exact ⟨[], rest, hsplit, nofun, hne, hw', hrest, hws⟩
  · rintro ⟨lead, rest, rfl, hlead, hne, hw, hrest, rfl⟩
    rw [words_append_left hlead, words_word hne hw hrest]

theorem words_eq_nil : words sep s = [] ↔ ∀ c ∈ s, sep c = true := by
  induction s with
  | nil => simp
  | cons c s ih =>
      rw [List.forall_mem_cons]
      cases hc : sep c with
      | true => rw [words_sep hc, ih, eq_self, true_and]
      | false =>
          obtain ⟨w, rest, hsplit, hne, hw, hrest⟩ := exists_word hc s
          rw [hsplit, words_word hne hw hrest]
          exact iff_of_false (List.cons_ne_nil _ _) fun h => absurd h.1 Bool.false_ne_true

theorem words_length_le (s : List α) : (words sep s).length ≤ s.length := by
  induction hlen : s.length using Nat.strong_induction_on generalizing s with
  | _ n ih =>
      cases hwords : words sep s with
      | nil => exact Nat.zero_le n
      | cons w ws =>
          obtain ⟨lead, rest, rfl, -, hne, -, -, rfl⟩ := words_eq_cons.mp hwords
          have hpos : 0 < w.length := List.length_pos_iff.mpr hne
          rw [List.length_append, List.length_append] at hlen
          have hrest := ih rest.length (by omega) rest rfl
          rw [List.length_cons]
          omega

/-- Words put together with a separator are read back. -/
theorem words_intercalate (hc : sep c = true)
    (hws : ∀ w ∈ ws, w ≠ [] ∧ ∀ c ∈ w, sep c = false) :
    words sep ([c].intercalate ws) = ws := by
  induction ws with
  | nil => exact words_nil
  | cons w ws ih =>
      rw [List.forall_mem_cons] at hws
      cases ws with
      | nil =>
          rw [List.intercalate_singleton, ← List.append_nil w,
            words_word hws.1.1 hws.1.2 (by simp), words_nil, List.append_nil]
      | cons v ws =>
          rw [List.intercalate_cons_cons, List.append_assoc, words_word hws.1.1 hws.1.2,
            List.singleton_append, words_sep hc, ih hws.2]
          intro c' hc'
          obtain rfl := Option.some.inj hc'
          exact hc

end Diffsecp.Text
