import Diffsecp.Fuzz.Driver
import Diffsecp.Interact.Refine

/-!
# Mutants — Schemata

The schemata of `mutants/gen.py`: one build holds every mutant, each behind
`DIFFSECP_MUTATE`. A build is any deterministic program whose sites ask which
of two values they are.
-/

namespace Diffsecp

open Interact

/-- What a schemata build does with the driver's variables: it evaluates a
site, or the API rejects its arguments and calls `variant_illegal`. -/
inductive SiteCall (n : ℕ) : Type → Type 1 where
  | mutate {β : Type} [DecidableEq β] (k : Fin n) (o m : β) : SiteCall n β
  | illegal : SiteCall n Unit

/-- The driver's variables a build sees. -/
structure MutantVars (n : ℕ) where
  mutant : Int
  infected : Fin n → Bool
  illegal : Bool

variable {n : ℕ}

namespace MutantVars

/-- What `run_schemata` starts a build with. -/
def start (mutant : Int) : MutantVars n := ⟨mutant, fun _ => false, false⟩

def flag (v : MutantVars n) (k : Fin n) : MutantVars n :=
  { v with infected := Function.update v.infected k true }

@[simp] theorem flag_infected (v : MutantVars n) (k j : Fin n) :
    (v.flag k).infected j = (v.infected j || decide (j = k)) := by
  by_cases hj : j = k
  · subst hj
    simp [flag]
  · simp [flag, hj]

end MutantVars

/-- `DIFFSECP_MUTATE` and `variant_illegal`. -/
def siteHandler : Handler (SiteCall n) (MutantVars n) where
  answer
    | @SiteCall.mutate _ _ _ k o m, v =>
        if v.mutant = k then (m, v)
        else if v.mutant < 0 ∧ o ≠ m then (o, v.flag k)
        else (o, v)
    | .illegal, v => ((), { v with illegal := true })

/-- This is a site of `k` whose two values differ. -/
def SiteCall.Differs (k : Fin n) : {β : Type} → SiteCall n β → Prop
  | _, @SiteCall.mutate _ _ _ j o m => j = k ∧ o ≠ m
  | _, .illegal => False

@[simp] theorem SiteCall.differs_mutate {β : Type} [DecidableEq β]
    {k j : Fin n} {o m : β} : (SiteCall.mutate j o m).Differs k ↔ j = k ∧ o ≠ m := Iff.rfl

@[simp] theorem SiteCall.differs_illegal {k : Fin n} :
    ¬ (SiteCall.illegal (n := n)).Differs k := id

theorem start_detect : (MutantVars.start (n := n) mutantDetect).mutant < 0 :=
  show mutantDetect < 0 by decide

abbrev SiteProg (n : ℕ) : Type 1 := Prog NoCall (SiteCall n) UInt8 Bool

/-! ## Runs -/

abbrev SiteProg.from (p : SiteProg n) (v : MutantVars n) :
    Outcome (SiteCall n) UInt8 Bool Unit (MutantVars n) :=
  p.run Handler.none siteHandler () v

section Runs

variable {α : Type}

/-- A detecting run flags the mutants at whose sites the values differed. -/
theorem site_run_infected (p : Prog NoCall (SiteCall n) UInt8 α) {v : MutantVars n}
    (hv : v.mutant < 0) (k : Fin n) :
    (p.run Handler.none siteHandler () v).state.infected k = true ↔
      v.infected k = true ∨
      ∃ e ∈ (p.run Handler.none siteHandler () v).log, e.op.Differs k := by
  induction p generalizing v with
  | ret a => simp [Prog.run]
  | read e k ih => cases e
  | put o k ih => exact ih hv
  | call q c ih =>
      simp only [Prog.run, List.exists_mem_cons_iff]
      cases q with
      | mutate j o m =>
          have hj : v.mutant ≠ (j.val : Int) := by omega
          by_cases heq : o = m
          · have hans : siteHandler.answer (.mutate j o m) v = (o, v) := by
              simp [siteHandler, hj, heq]
            rw [hans, ih o hv]
            simp [heq]
          · have hans : siteHandler.answer (.mutate j o m) v = (o, v.flag j) := by
              simp [siteHandler, hj, hv, heq]
            rw [hans, ih o (v := v.flag j) hv]
            simp only [MutantVars.flag_infected, SiteCall.differs_mutate, Bool.or_eq_true,
              decide_eq_true_eq]
            grind
      | illegal =>
          have hill : ({ v with illegal := true } : MutantVars n).mutant < 0 := hv
          have hans :
              siteHandler.answer .illegal v = ((), { v with illegal := true }) := rfl
          rw [hans, ih () hill]
          simp

/-- A run with a mutant on flags nothing. -/
theorem site_run_quiet (p : Prog NoCall (SiteCall n) UInt8 α) {v : MutantVars n}
    (hv : 0 ≤ v.mutant) :
    (p.run Handler.none siteHandler () v).state.infected = v.infected := by
  induction p generalizing v with
  | ret a => rfl
  | read e k ih => cases e
  | put o k ih => exact ih hv
  | call q c ih =>
      simp only [Prog.run]
      cases q with
      | mutate j o m =>
          have hans : (siteHandler.answer (.mutate j o m) v).2 = v := by
            simp only [siteHandler]
            split
            · rfl
            · rw [if_neg fun h => absurd h.1 (not_lt.mpr hv)]
          rw [hans]
          exact ih _ hv
      | illegal => exact ih () (v := { v with illegal := true }) hv

/-- Only the mutant that is on steers a build, so it may share its other
variables with the runs before it. -/
theorem site_run_steered (p : Prog NoCall (SiteCall n) UInt8 α) {v u : MutantVars n}
    (hv : v.mutant = u.mutant) (hill : v.illegal = u.illegal) :
    (p.run Handler.none siteHandler () v).val =
      (p.run Handler.none siteHandler () u).val ∧
      (p.run Handler.none siteHandler () v).out =
        (p.run Handler.none siteHandler () u).out ∧
      (p.run Handler.none siteHandler () v).log =
        (p.run Handler.none siteHandler () u).log ∧
      (p.run Handler.none siteHandler () v).state.illegal
        = (p.run Handler.none siteHandler () u).state.illegal := by
  induction p generalizing v u with
  | ret a => exact ⟨rfl, rfl, rfl, hill⟩
  | read e k ih => cases e
  | put o c ih =>
      obtain ⟨hval, hout, hlog, hill'⟩ := ih hv hill
      exact ⟨hval, congrArg (o :: ·) hout, hlog, hill'⟩
  | call q c ih =>
      have hans : (siteHandler.answer q v).1 = (siteHandler.answer q u).1 ∧
          (siteHandler.answer q v).2.mutant = (siteHandler.answer q u).2.mutant ∧
          (siteHandler.answer q v).2.illegal = (siteHandler.answer q u).2.illegal := by
        cases q with
        | mutate j o m =>
            simp only [siteHandler, hv]
            split
            · exact ⟨rfl, hv, hill⟩
            · split
              · exact ⟨rfl, hv, hill⟩
              · exact ⟨rfl, hv, hill⟩
        | illegal => exact ⟨rfl, hv, rfl⟩
      obtain ⟨hans, hmut, hill'⟩ := hans
      simp only [Prog.run]
      rw [hans]
      obtain ⟨hval, hout, hlog, hill''⟩ := ih (siteHandler.answer q u).1 hmut hill'
      exact ⟨hval, hout, congrArg _ hlog, hill''⟩

/-- The step of the pruning: where a detecting run does not flag `k`, every
site of `k` had two equal values, so the run with `k` on answers every site
alike and does the same. -/
theorem site_run_unflagged (p : Prog NoCall (SiteCall n) UInt8 α) {k : Fin n}
    {v u : MutantVars n} (hv : v.mutant < 0) (hu : u.mutant = k)
    (hill : v.illegal = u.illegal)
    (hflag : (p.run Handler.none siteHandler () v).state.infected k = false) :
    (p.run Handler.none siteHandler () u).val =
    (p.run Handler.none siteHandler () v).val ∧
      (p.run Handler.none siteHandler () u).out =
        (p.run Handler.none siteHandler () v).out ∧
      (p.run Handler.none siteHandler () u).state.illegal
        = (p.run Handler.none siteHandler () v).state.illegal := by
  induction p generalizing v u with
  | ret a => exact ⟨rfl, rfl, hill.symm⟩
  | read e k ih => cases e
  | put o c ih =>
      obtain ⟨hval, hout, hill'⟩ := ih hv hu hill hflag
      exact ⟨hval, congrArg (o :: ·) hout, hill'⟩
  | call q c ih =>
      simp only [Prog.run] at hflag ⊢
      cases q with
      | mutate j o m =>
          have hj : v.mutant ≠ (j.val : Int) := by omega
          have hstate : (siteHandler.answer (.mutate j o m) v).1 = o := by
            simp only [siteHandler, if_neg hj]
            split <;> rfl
          have hdetect : (siteHandler.answer (.mutate j o m) v).2.mutant < 0 ∧
              (siteHandler.answer (.mutate j o m) v).2.illegal = v.illegal := by
            simp only [siteHandler, if_neg hj]
            split
            · exact ⟨hv, rfl⟩
            · exact ⟨hv, rfl⟩
          have hsame : siteHandler.answer (.mutate j o m) u = (o, u) := by
            by_cases hjk : j = k
            · -- a site of `k`: the detecting run would have flagged a difference
              by_cases heq : o = m
              · simp [siteHandler, hu, hjk, heq]
              · have hflagged :
                    (siteHandler.answer (.mutate j o m) v).2.infected k = true := by
                  simp only [siteHandler, if_neg hj, if_pos (And.intro hv heq)]
                  simp [hjk]
                have hinf :=
                  (site_run_infected (c (siteHandler.answer (.mutate j o m) v).1)
                    hdetect.1 k).mpr (.inl hflagged)
                rw [hflag] at hinf
                cases hinf
            · have hne : u.mutant ≠ (j.val : Int) := by
                intro h
                rw [hu] at h
                exact hjk (Fin.ext (by omega))
              have hpos : ¬ u.mutant < 0 := by omega
              simp [siteHandler, hne, hpos]
          rw [hstate] at hflag ⊢
          rw [hsame]
          exact ih o hdetect.1 hu (hdetect.2.trans hill) hflag
      | illegal =>
          have h :=
            @ih () { v with illegal := true } { u with illegal := true } hv hu rfl hflag
          exact h

end Runs

/-! ## Builds -/

/-- A schemata build of a target; its programs end with `false` where the
build aborts. -/
structure Schemata (n : ℕ) where
  name : String
  prog : List UInt8 → SiteProg n

namespace Schemata

variable (s : Schemata n)

def run (mutant : Int) (inp : List UInt8) :
    Outcome (SiteCall n) UInt8 Bool Unit (MutantVars n) :=
  (s.prog inp).from (.start mutant)

/-- The run as the driver sees it. -/
def target (mutant : Int) (inp : List UInt8) : Option (SchemataRun n) :=
  let w := s.run mutant inp
  if w.val then
    (transcriptOf transcriptMax w.out).map fun t => ⟨t, w.state.illegal, w.state.infected⟩
  else
    none

def build : MutantBuild n := ⟨s.name, s.target⟩

/-- With `k` on, the build's transcript is not `ref` or an API call is
illegal. -/
def Kills (ref : List UInt8) (k : Fin n) (inp : List UInt8) : Prop :=
  ∃ w, s.target k inp = some w ∧ (w.illegal = true ∨ w.transcript ≠ ref)

/-- With no mutant on, the two values of a site of `k` differ. -/
def Differs (k : Fin n) (inp : List UInt8) : Prop :=
  ∃ e ∈ (s.run mutantDetect inp).log, e.op.Differs k

theorem target_eq_some {mutant : Int} {inp : List UInt8} {w : SchemataRun n}
    (h : s.target mutant inp = some w) :
    (s.run mutant inp).val = true ∧
    transcriptOf transcriptMax (s.run mutant inp).out = some w.transcript ∧
      w.illegal = (s.run mutant inp).state.illegal ∧
      w.infected = (s.run mutant inp).state.infected := by
  unfold target at h
  dsimp only at h
  split at h
  · rename_i hval
    obtain ⟨t, ht, rfl⟩ := Option.map_eq_some_iff.mp h
    exact ⟨hval, ht, rfl, rfl⟩
  · cases h

/-- The flags of a detecting run. -/
theorem target_infected {inp : List UInt8} {w : SchemataRun n}
    (h : s.target mutantDetect inp = some w) (k : Fin n) :
    w.infected k = true ↔ s.Differs k inp := by
  obtain ⟨-, -, -, hinf⟩ := s.target_eq_some h
  rw [hinf, run, site_run_infected _ start_detect]
  simp [MutantVars.start, Differs, run]

/-- A run with a mutant on leaves the flags. -/
theorem target_quiet {inp : List UInt8} {k : Fin n} {w : SchemataRun n}
    (h : s.target k inp = some w) (j : Fin n) : w.infected j = false := by
  obtain ⟨-, -, -, hinf⟩ := s.target_eq_some h
  have hpos : 0 ≤ (MutantVars.start (n := n) k).mutant := Int.natCast_nonneg k.val
  rw [hinf, run, site_run_quiet _ hpos]
  rfl

/-- A mutant a clean run does not flag would not be killed. -/
theorem not_kills_of_not_differs {ref inp : List UInt8} {k : Fin n} {w : SchemataRun n}
    (h : s.target mutantDetect inp = some w) (hill : w.illegal = false)
    (href : w.transcript = ref) (hdiff : ¬ s.Differs k inp) : ¬ s.Kills ref k inp := by
  obtain ⟨-, ht, hi, hinf⟩ := s.target_eq_some h
  rintro ⟨w', h', hkill⟩
  obtain ⟨-, ht', hi', -⟩ := s.target_eq_some h'
  have hflag : (s.run mutantDetect inp).state.infected k = false := by
    rw [← hinf, ← Bool.not_eq_true, s.target_infected h]
    exact hdiff
  obtain ⟨-, hout, hill'⟩ :=
    site_run_unflagged (s.prog inp) (k := k) (v := .start mutantDetect)
    (u := .start k) start_detect rfl rfl hflag
  have hout' : (s.run k inp).out = (s.run mutantDetect inp).out := hout
  have htr : w'.transcript = w.transcript := by
    rw [hout', ht] at ht'
    exact (Option.some.inj ht').symm
  have hil : w'.illegal = w.illegal := by
    rw [hi, hi']
    exact hill'
  rcases hkill with hkill | hkill
  · rw [hil, hill] at hkill
    cases hkill
  · exact hkill (htr.trans href)

end Schemata

end Diffsecp
