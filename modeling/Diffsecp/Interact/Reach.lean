import Mathlib.Logic.Function.Basic
import Mathlib.Order.Nat

/-!
# Interact — Reach

Systems that take step after step. What holds at the start and is kept by each
step holds in every reachable state. In a system of several parties a step
moves one of them, and what is said of each is shown for that one.
-/

namespace Diffsecp.Interact

/-- A system that starts in `init`. -/
structure System (σ : Type) where
  init : σ
  Step : σ → σ → Prop

inductive System.Reachable {σ : Type} (S : System σ) : σ → Prop where
  | init : S.Reachable S.init
  | step {s s' : σ} (h : S.Reachable s) (hstep : S.Step s s') : S.Reachable s'

/-- The rule of invariants. -/
theorem System.Reachable.invariant {σ : Type} {S : System σ} {I : σ → Prop}
    (hinit : I S.init) (hstep : ∀ s s', I s → S.Step s s' → I s') {s : σ}
    (h : S.Reachable s) : I s := by
  induction h with
  | init => exact hinit
  | step _ hs ih => exact hstep _ _ ih hs

/-- An endless run from a reachable state. -/
structure System.Run {σ : Type} (S : System σ) (run : ℕ → σ) : Prop where
  start : S.Reachable (run 0)
  step (k : ℕ) : S.Step (run k) (run (k + 1))

theorem System.Run.reachable {σ : Type} {S : System σ} {run : ℕ → σ}
    (h : S.Run run) (k : ℕ) :
    S.Reachable (run k) := by
  induction k with
  | zero => exact h.start
  | succ k ih => exact .step ih (h.step k)

/-- The rule of variants: a run that does not stand still in `P`, where each
change lowers the variant, leaves `P`. -/
theorem System.Run.leaves {σ : Type} {S : System σ} {run : ℕ → σ} (h : S.Run run)
    {P : σ → Prop} (variant : σ → ℕ)
    (hlower : ∀ s s', S.Reachable s → P s → S.Step s s' → P s' → s' ≠ s →
      variant s' < variant s)
    (hmoves : ∀ k, P (run k) → ∃ m, k ≤ m ∧ run m ≠ run k) (k : ℕ) :
    ∃ m, k ≤ m ∧ ¬ P (run m) := by
  induction hv : variant (run k) using Nat.strong_induction_on generalizing k with
  | _ v ih =>
      by_cases hP : P (run k)
      · -- the first change after `k`
        have hchange : ∃ d, run (k + d) ≠ run k := by
          obtain ⟨m, hkm, hm⟩ := hmoves k hP
          obtain ⟨d, rfl⟩ := Nat.exists_eq_add_of_le hkm
          exact ⟨d, hm⟩
        classical
        obtain ⟨d, hd, hfirst⟩ : ∃ d, run (k + d) ≠ run k ∧
            ∀ e < d, run (k + e) = run k :=
          ⟨Nat.find hchange, Nat.find_spec hchange,
            fun e he => not_not.mp (Nat.find_min hchange he)⟩
        cases d with
        | zero => exact absurd rfl hd
        | succ d =>
            have hsame : run (k + d) = run k := hfirst d (Nat.lt_succ_self d)
            have hstep := h.step (k + d)
            rw [hsame] at hstep
            by_cases hP' : P (run (k + (d + 1)))
            · have hlt := hlower _ _ (h.reachable k) hP hstep hP' hd
              obtain ⟨m, hm, hnot⟩ := ih _ (hv ▸ hlt) (k + (d + 1)) rfl
              exact ⟨m, by omega, hnot⟩
            · exact ⟨k + (d + 1), by omega, hP'⟩
      · exact ⟨k, le_rfl, hP⟩

variable {ι β : Type} [DecidableEq ι] {f : ι → β} {i : ι} {b : β}

/-- A step moves party `i` and may change how the others are seen. -/
theorem forall_update (P P' : ι → β → Prop) (h : ∀ j, P j (f j)) (hi : P' i b)
    (hother : ∀ j, j ≠ i → P j (f j) → P' j (f j)) :
    ∀ j, P' j (Function.update f i b j) := by
  intro j
  by_cases hj : j = i
  · subst hj
    rw [Function.update_self]
    exact hi
  · rw [Function.update_of_ne hj]
    exact hother j hj (h j)

end Diffsecp.Interact
