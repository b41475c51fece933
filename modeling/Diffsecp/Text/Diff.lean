import Mathlib.Data.List.Basic

/-!
# Text — Diff

What `diff` says about two files: the stretches they share, and between them
hunks of lines removed from the one and added in the other.
-/

namespace Diffsecp.Text

variable {α : Type}

structure Hunk (α : Type) where
  removed : List α
  added : List α

/-- The hunks turn the first file into the second. -/
inductive Hunks : List α → List α → List (Hunk α) → Prop where
  | same (l : List α) : Hunks l l []
  | hunk (l : List α) (h : Hunk α) {a b : List α} {hs : List (Hunk α)}
      (rest : Hunks a b hs) : Hunks (l ++ h.removed ++ a) (l ++ h.added ++ b) (h :: hs)

variable {a b : List α} {hs : List (Hunk α)} {h : Hunk α} {x : α}

/-- What a hunk adds is in the second file. -/
theorem Hunks.mem_of_added (hh : Hunks a b hs) (hmem : h ∈ hs)
    (hx : x ∈ h.added) : x ∈ b := by
  induction hh with
  | same l => exact absurd hmem List.not_mem_nil
  | hunk l h' rest ih =>
      rcases List.mem_cons.mp hmem with rfl | hmem
      · exact List.mem_append_left _ (List.mem_append_right _ hx)
      · exact List.mem_append_right _ (ih hmem)

/-- A line that only the second file has is added. -/
theorem Hunks.added_of_mem (hh : Hunks a b hs) (hb : x ∈ b) (ha : x ∉ a) :
    ∃ h ∈ hs, x ∈ h.added := by
  induction hh with
  | same l => exact absurd hb ha
  | @hunk l h' a b hs rest ih =>
      simp only [List.mem_append, not_or] at ha hb
      obtain ⟨⟨hl, hremoved⟩, ha⟩ := ha
      rcases hb with (hb | hb) | hb
      · exact absurd hb hl
      · exact ⟨h', List.mem_cons_self, hb⟩
      · obtain ⟨h, hmem, hx⟩ := ih hb ha
        exact ⟨h, List.mem_cons_of_mem _ hmem, hx⟩

/-- A program that compares files: it says how one becomes the other, and
nothing of equal ones. -/
structure DiffTool (α : Type) where
  hunks : List α → List α → List (Hunk α)
  correct : ∀ a b, Hunks a b (hunks a b)
  silent : ∀ a, hunks a a = []

namespace DiffTool

/-- The plainest one: different files are one hunk. -/
def whole [DecidableEq α] : DiffTool α where
  hunks a b := if a = b then [] else [⟨a, b⟩]
  correct a b := by
    split
    · rename_i h
      rw [h]
      exact .same b
    · simpa using Hunks.hunk [] ⟨a, b⟩ (.same [])
  silent a := if_pos rfl

end DiffTool

end Diffsecp.Text
