import Mathlib.Data.List.Perm.Basic
import Diffsecp.Fuzz.Verdict
import Diffsecp.Mutants.Schemata

/-!
# Fuzz — Mutants

`run_mutants` runs a mutant only where the clean run flagged it and nothing
killed it before. What it reports is what running every mutant in every build
on every input would.
-/

namespace Diffsecp

open Interact

variable {n : ℕ}

/-- A build writes to the driver's own flags: `ran` is the run from them. -/
theorem ran_in_place (s : Schemata n) {mutant : Int} {inp : List UInt8}
    {w : SchemataRun n} (h : s.target mutant inp = some w) (st : FuzzState n) :
    let v := (s.prog inp).from ⟨mutant, st.infected, false⟩
    v.out = (s.run mutant inp).out ∧ ((st.start mutant).ran w).illegal = v.state.illegal ∧
      ((st.start mutant).ran w).infected = v.state.infected := by
  obtain ⟨-, -, hill, hinf⟩ := s.target_eq_some h
  obtain ⟨-, hout, hlog, hill'⟩ := site_run_steered (s.prog inp)
    (v := ⟨mutant, st.infected, false⟩) (u := .start mutant) rfl rfl
  refine ⟨hout, ?_, ?_⟩
  · rw [hill']
    simp only [FuzzState.ran, FuzzState.start, Bool.false_or, hill, Schemata.run]
  · ext k
    simp only [FuzzState.ran, FuzzState.start, hinf, Schemata.run]
    rw [Bool.eq_iff_iff, Bool.or_eq_true]
    by_cases hneg : mutant < 0
    · have hnow :=
        site_run_infected (s.prog inp) (v := ⟨mutant, st.infected, false⟩) hneg k
      have halone := site_run_infected (s.prog inp) (v := .start mutant) hneg k
      rw [hnow, halone, hlog]
      simp [MutantVars.start]
    · have hpos : 0 ≤ mutant := not_lt.mp hneg
      have hnow := site_run_quiet (s.prog inp) (v := ⟨mutant, st.infected, false⟩) hpos
      have halone := site_run_quiet (s.prog inp) (v := .start mutant) hpos
      rw [hnow, halone]
      simp [MutantVars.start]

/-! ## One build -/

/-- What trying the mutants of `ks` in one build does. -/
structure Tried (s : Schemata n) (ref inp : List UInt8) (ks : List (Fin n))
    (st st' : FuzzState n) :
    Prop where
  infected : st'.infected = st.infected
  everInfected : ∀ k, st'.everInfected k = true ↔
    st.everInfected k = true ∨ k ∈ ks ∧ st.infected k = true
  everKilled : ∀ k, st'.everKilled k = true ↔
    st.everKilled k = true ∨ k ∈ ks ∧ st.infected k = true ∧ s.Kills ref k inp
  holds : Holds (st'.transcripts 0) (st'.lengths 0) ref
  mutant : st'.mutant = mutantDetect

theorem Tried.cons {s : Schemata n} {ref inp : List UInt8} {k : Fin n} {ks : List (Fin n)}
    {st st₁ st₂ : FuzzState n} (h₁ : Tried s ref inp [k] st st₁)
    (h₂ : Tried s ref inp ks st₁ st₂) :
    Tried s ref inp (k :: ks) st st₂ where
  infected := h₂.infected.trans h₁.infected
  everInfected j := by
    rw [h₂.everInfected, h₁.everInfected, h₁.infected, List.mem_singleton, List.mem_cons]
    tauto
  everKilled j := by
    rw [h₂.everKilled, h₁.everKilled, h₁.infected, List.mem_singleton, List.mem_cons]
    tauto
  holds := h₂.holds
  mutant := h₂.mutant

/-- A run with `k` on, and its verdict. -/
theorem runSchemata_tried {s : Schemata n} {ref inp : List UInt8} {k : Fin n}
    {st : FuzzState n} {w : SchemataRun n}
    (href : Holds (st.transcripts 0) (st.lengths 0) ref) (hk : st.infected k = true)
    (hw : s.target k inp = some w) :
    let st₁ := ((st.reach k).start k).ran w
    let st₂ := if st₁.illegal = true ∨
      matchesReference st₁ st₁.mutantTranscript w.transcript.length = false
      then st₁.kill k else st₁
    Tried s ref inp [k] st st₂ := by
  intro st₁ st₂
  have hmatch : matchesReference st₁ st₁.mutantTranscript w.transcript.length =
      decide (w.transcript = ref) :=
    matchesReference_eq href (holds_overwrite _ _)
  have hill : st₁.illegal = w.illegal := Bool.false_or _
  have hinf : st₁.infected = st.infected := by
    ext j
    exact (congrArg _ (s.target_quiet hw j)).trans (Bool.or_false _)
  have hkills : s.Kills ref k inp ↔ st₁.illegal = true ∨
      matchesReference st₁ st₁.mutantTranscript w.transcript.length = false := by
    rw [hill, hmatch, Schemata.Kills, hw]
    simp
  have hreach : ∀ j, st₁.everInfected j = true ↔ st.everInfected j = true ∨ j ∈ [k] ∧
      st.infected j = true := by
    intro j
    show Function.update st.everInfected k true j = true ↔ _
    rw [Function.update_apply, List.mem_singleton]
    by_cases hj : j = k
    · simp [hj, hk]
    · simp [hj]
  by_cases hcase : st₁.illegal = true ∨
    matchesReference st₁ st₁.mutantTranscript w.transcript.length = false
  · have hst₂ : st₂ = st₁.kill k := if_pos hcase
    rw [hst₂]
    refine ⟨hinf, hreach, fun j => ?_, href, rfl⟩
    show Function.update st.everKilled k true j = true ↔ _
    rw [Function.update_apply, List.mem_singleton]
    by_cases hj : j = k
    · subst hj
      simp [hk, hkills.mpr hcase]
    · simp [hj]
  · have hst₂ : st₂ = st₁ := if_neg hcase
    rw [hst₂]
    refine ⟨hinf, hreach, fun j => ?_, href, rfl⟩
    show st.everKilled j = true ↔ _
    rw [List.mem_singleton]
    by_cases hj : j = k
    · subst hj
      simp [hkills, hcase]
    · simp [hj]

/-- One round of the loop over the mutants. -/
theorem tryMutants_cons {s : Schemata n} {ref inp : List UInt8} {k : Fin n}
    {ks : List (Fin n)} {infected infected' : Fin n → Bool} {st st' : FuzzState n}
    (href : Holds (st.transcripts 0) (st.lengths 0) ref) (hmut : st.mutant = mutantDetect)
    (h : tryMutants s.build inp (k :: ks) infected st = .ok (infected', st')) :
    ∃ infected₁ st₁, Tried s ref inp [k] st st₁ ∧
      (∀ j, infected₁ j = true ↔ infected j = true ∨ j = k ∧ st.infected j = true) ∧
      tryMutants s.build inp ks infected₁ st₁ = .ok (infected', st') := by
  unfold tryMutants at h
  split at h
  · rename_i hk
    refine ⟨infected, st, ⟨rfl, ?_, ?_, href, hmut⟩, ?_, h⟩ <;> grind
  · rename_i hk
    have hflag : st.infected k = true := by simpa using hk
    have hupdate : ∀ (f : Fin n → Bool) j,
        Function.update f k true j = true ↔ f j = true ∨ j = k ∧
        st.infected j = true := by
      intro f j
      rw [Function.update_apply]
      grind
    dsimp only at h
    split at h
    · -- killed before
      rename_i hkilled
      have hkilled : st.everKilled k = true := hkilled
      refine ⟨_, st.reach k, ⟨rfl, fun j => ?_, fun j => ?_, href, hmut⟩,
        hupdate infected, h⟩
      · rw [List.mem_singleton]
        exact hupdate st.everInfected j
      · show st.everKilled j = true ↔ _
        grind
    · cases hw : s.target k inp with
      | none =>
          have herr : runSchemata s.build k inp (st.reach k) = .error .inTarget := by
            simp [runSchemata, Schemata.build, hw]
          rw [herr] at h
          cases h
      | some w =>
          rw [runSchemata_some (b := s.build) hw] at h
          exact ⟨_, _, runSchemata_tried href hflag hw, hupdate infected, h⟩

theorem tryMutants_tried {s : Schemata n} {ref inp : List UInt8} {ks : List (Fin n)}
    {infected infected' : Fin n → Bool} {st st' : FuzzState n}
    (href : Holds (st.transcripts 0) (st.lengths 0) ref) (hmut : st.mutant = mutantDetect)
    (h : tryMutants s.build inp ks infected st = .ok (infected', st')) :
    Tried s ref inp ks st st' ∧
      ∀ k, infected' k = true ↔ infected k = true ∨ k ∈ ks ∧ st.infected k = true := by
  induction ks generalizing infected st with
  | nil =>
      cases h
      exact ⟨⟨rfl, by simp, by simp, href, hmut⟩, by simp⟩
  | cons k ks ih =>
      obtain ⟨infected₁, st₁, htried₁, hinf₁, h⟩ := tryMutants_cons href hmut h
      obtain ⟨htried, hinf⟩ := ih htried₁.holds htried₁.mutant h
      refine ⟨htried₁.cons htried, fun j => ?_⟩
      rw [hinf, hinf₁, htried₁.infected, List.mem_cons]
      tauto

/-! ## One input -/

/-- What running the builds `bs` on an input does. -/
structure Ran (ref inp : List UInt8) (bs : List (Schemata n))
    (st st' : FuzzState n) : Prop where
  everInfected : ∀ k, st'.everInfected k = true ↔
    st.everInfected k = true ∨ ∃ s ∈ bs, s.Differs k inp
  everKilled : ∀ k, st'.everKilled k = true ↔
    st.everKilled k = true ∨ ∃ s ∈ bs, s.Kills ref k inp
  mutant : st'.mutant = mutantDetect

/-- One build: a clean run that agrees with the reference, then the mutants it
flagged. -/
theorem runBuilds_cons {d : Driver n} {s : Schemata n} {bs : List (MutantBuild n)}
    {ref inp : List UInt8} {infected infected' : Fin n → Bool} {st st' : FuzzState n}
    (href : Holds (st.transcripts 0) (st.lengths 0) ref)
    (h : runBuilds d inp (s.build :: bs) infected st = .ok (infected', st')) :
    ∃ infected₁ st₁, Ran ref inp [s] st st₁ ∧
      Holds (st₁.transcripts 0) (st₁.lengths 0) ref ∧
      (∀ k, infected₁ k = true ↔ infected k = true ∨ s.Differs k inp) ∧
      runBuilds d inp bs infected₁ st₁ = .ok (infected', st') := by
  unfold runBuilds at h
  cases hw : s.target mutantDetect inp with
  | none =>
      have herr : runSchemata s.build mutantDetect inp st.clearInfected =
          .error .inTarget := by
        simp [runSchemata, Schemata.build, hw]
      rw [herr] at h
      cases h
  | some w =>
      rw [runSchemata_some (b := s.build) hw] at h
      dsimp only [bind, Except.bind] at h
      -- the run starts from cleared flags and leaves those of the sites
      let st₀ := (st.clearInfected.start mutantDetect).ran w
      have hflag : ∀ k, st₀.infected k = true ↔ s.Differs k inp := by
        intro k
        rw [← s.target_infected hw k]
        show (false || w.infected k) = true ↔ _
        rw [Bool.false_or]
      have hmatch : matchesReference st₀ st₀.mutantTranscript w.transcript.length
          = decide (w.transcript = ref) := matchesReference_eq href (holds_overwrite _ _)
      split at h
      · cases h
      · rename_i hill
        have hill : w.illegal = false := by
          simpa [FuzzState.ran, FuzzState.start] using hill
        split at h
        · cases h
        · rename_i hsame
          have hsame : w.transcript = ref := by
            rw [hmatch] at hsame
            simpa using hsame
          cases htry : tryMutants s.build inp (List.finRange n) infected st₀ with
          | error e =>
              rw [htry] at h
              cases h
          | ok r =>
              rw [htry] at h
              have href₀ : Holds (st₀.transcripts 0) (st₀.lengths 0) ref := href
              obtain ⟨htried, hinf⟩ := tryMutants_tried href₀ rfl htry
              refine ⟨r.1, r.2, ⟨fun k => ?_, fun k => ?_, htried.mutant⟩, htried.holds,
                fun k => ?_, h⟩
              · rw [htried.everInfected, hflag]
                simp [List.mem_finRange, st₀, FuzzState.ran, FuzzState.start,
                  FuzzState.clearInfected]
              · -- an unflagged mutant does what the clean run did
                have hprune :=
                  fun hdiff => s.not_kills_of_not_differs (k := k) hw hill hsame hdiff
                rw [htried.everKilled, hflag]
                simp only [List.mem_finRange, true_and, List.mem_singleton,
                  exists_eq_left]
                show st.everKilled k = true ∨ _ ↔ _
                tauto
              · rw [hinf, hflag]
                simp [List.mem_finRange]

theorem runBuilds_ran {d : Driver n} {bs : List (Schemata n)} {ref inp : List UInt8}
    {infected infected' : Fin n → Bool} {st st' : FuzzState n}
    (href : Holds (st.transcripts 0) (st.lengths 0) ref) (hmut : st.mutant = mutantDetect)
    (h : runBuilds d inp (bs.map Schemata.build) infected st = .ok (infected', st')) :
    Ran ref inp bs st st' ∧
      ∀ k, infected' k = true ↔ infected k = true ∨ ∃ s ∈ bs, s.Differs k inp := by
  induction bs generalizing infected st with
  | nil =>
      cases h
      exact ⟨⟨by simp, by simp, hmut⟩, by simp⟩
  | cons s bs ih =>
      obtain ⟨infected₁, st₁, hran₁, href₁, hinf₁, h⟩ := runBuilds_cons href h
      obtain ⟨hran, hinf⟩ := ih href₁ hran₁.mutant h
      refine ⟨⟨fun k => ?_, fun k => ?_, hran.mutant⟩, fun k => ?_⟩
      · rw [hran.everInfected, hran₁.everInfected]
        simp [or_assoc]
      · rw [hran.everKilled, hran₁.everKilled]
        simp [or_assoc]
      · rw [hinf, hinf₁]
        simp [or_assoc]

/-- One input of the driver, mutants on. -/
theorem llvmFuzzerTestOneInput_ran {d : Driver n} {builds : List (Schemata n)}
    (hbuilds : d.mutantBuilds = builds.map Schemata.build) (hon : d.mutantsOff = false)
    {inp : List UInt8} (hlen : inp.length ≤ inputMax) {st st' : FuzzState n} {code : Int}
    (hmut : st.mutant = mutantDetect)
    (h : llvmFuzzerTestOneInput d inp st = .ok (code, st')) :
    Ran (d.reference.transcript inp) inp builds st st' ∧
      ∀ k, st'.infected k = true ↔ ∃ s ∈ builds, s.Differs k inp := by
  unfold llvmFuzzerTestOneInput at h
  rw [if_neg (not_lt.mpr hlen)] at h
  cases hrun : runVariants inp (d.reference :: d.others) 0 st with
  | error e =>
      rw [hrun] at h
      cases h
  | ok st₁ =>
      rw [hrun] at h
      obtain ⟨hholds, -, hrest⟩ := runVariants_ok hrun
      obtain ⟨t, ht, href⟩ := hholds 0 d.reference rfl
      have htr : d.reference.transcript inp = t := by
        rw [Variant.transcript, ht, Option.getD_some]
      rw [htr]
      dsimp only [bind, Except.bind] at h
      cases hcheck : checkVariants d st₁ d.others 1 with
      | error e =>
          rw [hcheck] at h
          cases h
      | ok u =>
          rw [hcheck] at h
          simp only [hon, Bool.false_eq_true, if_false, runMutants, hbuilds] at h
          cases hb : runBuilds d inp (builds.map Schemata.build) (fun _ => false) st₁ with
          | error e =>
              rw [hb] at h
              cases h
          | ok r =>
              rw [hb] at h
              cases h
              have hmut₁ : st₁.mutant = mutantDetect := by
                rw [hrest]
                exact hmut
              obtain ⟨hran, hinf⟩ := runBuilds_ran href hmut₁ hb
              refine ⟨⟨fun k => ?_, fun k => ?_, hran.mutant⟩, fun k => ?_⟩
              · refine (hran.everInfected k).trans ?_
                rw [hrest]
              · refine (hran.everKilled k).trans ?_
                rw [hrest]
              · refine (hinf k).trans ?_
                simp

/-! ## A run -/

/-- Exhaustive mutation testing: with `k` on, some build is caught on some
input. Inputs that are too long are never run. -/
def Driver.Killed (d : Driver n) (builds : List (Schemata n)) (inputs : List (List UInt8))
    (k : Fin n) : Prop :=
  ∃ inp ∈ inputs, inp.length ≤ inputMax ∧
    ∃ s ∈ builds, s.Kills (d.reference.transcript inp) k inp

/-- On some input a site of `k` in some build has two values that differ. -/
def Triggered (builds : List (Schemata n)) (inputs : List (List UInt8))
    (k : Fin n) : Prop :=
  ∃ inp ∈ inputs, inp.length ≤ inputMax ∧ ∃ s ∈ builds, s.Differs k inp

def MutantStatus.rank : MutantStatus → ℕ
  | .missed => 0
  | .masked => 1
  | .killed => 2

theorem fuzzAll_append (d : Driver n) (before after : List (List UInt8))
    (st : FuzzState n) :
    fuzzAll d (before ++ after) st = fuzzAll d before st >>= fuzzAll d after := by
  induction before generalizing st with
  | nil => rfl
  | cons inp before ih =>
      simp only [List.cons_append, fuzzAll]
      cases llvmFuzzerTestOneInput d inp st with
      | error e => rfl
      | ok r => exact ih r.2

/-- The arrays that persist hold what exhaustive testing would find. -/
theorem fuzzAll_ran {d : Driver n} {builds : List (Schemata n)}
    (hbuilds : d.mutantBuilds = builds.map Schemata.build) (hon : d.mutantsOff = false)
    {inputs : List (List UInt8)} {st st' : FuzzState n} (hmut : st.mutant = mutantDetect)
    (h : fuzzAll d inputs st = .ok st') :
    (∀ k, st'.everInfected k = true ↔ st.everInfected k = true ∨
      Triggered builds inputs k) ∧
      (∀ k, st'.everKilled k = true ↔ st.everKilled k = true ∨ d.Killed builds inputs k) ∧
      st'.mutant = mutantDetect := by
  induction inputs generalizing st with
  | nil =>
      cases h
      exact ⟨by simp [Triggered], by simp [Driver.Killed], hmut⟩
  | cons inp inputs ih =>
      unfold fuzzAll at h
      cases hone : llvmFuzzerTestOneInput d inp st with
      | error e =>
          rw [hone] at h
          cases h
      | ok r =>
          rw [hone] at h
          by_cases hlen : inp.length ≤ inputMax
          · obtain ⟨hran, -⟩ := llvmFuzzerTestOneInput_ran hbuilds hon hlen hmut hone
            obtain ⟨hinf, hkill, hmut'⟩ := ih hran.mutant h
            refine ⟨fun k => ?_, fun k => ?_, hmut'⟩
            · rw [hinf, hran.everInfected]
              simp [Triggered, hlen, or_assoc]
            · rw [hkill, hran.everKilled]
              simp [Driver.Killed, hlen, or_assoc]
          · rw [llvmFuzzerTestOneInput, if_pos (not_le.mp hlen)] at hone
            cases hone
            obtain ⟨hinf, hkill, hmut'⟩ := ih hmut h
            refine ⟨fun k => ?_, fun k => ?_, hmut'⟩
            · rw [hinf]
              simp [Triggered, hlen]
            · rw [hkill]
              simp [Driver.Killed, hlen]

/-- What the driver reports of a mutant. -/
theorem fuzzAll_status {d : Driver n} {builds : List (Schemata n)}
    (hbuilds : d.mutantBuilds = builds.map Schemata.build) (hon : d.mutantsOff = false)
    {inputs : List (List UInt8)} {st : FuzzState n}
    (h : fuzzAll d inputs (.init n) = .ok st) (k : Fin n) :
    (mutantStatus st k = .killed ↔ d.Killed builds inputs k) ∧
      (mutantStatus st k = .masked ↔ ¬ d.Killed builds inputs k ∧
        Triggered builds inputs k) ∧
      (mutantStatus st k = .missed ↔ ¬ d.Killed builds inputs k ∧
        ¬ Triggered builds inputs k) := by
  obtain ⟨hinf, hkill, -⟩ := fuzzAll_ran hbuilds hon rfl h
  have hinf : st.everInfected k = true ↔ Triggered builds inputs k := by
    simp [hinf, FuzzState.init]
  have hkill : st.everKilled k = true ↔ d.Killed builds inputs k := by
    simp [hkill, FuzzState.init]
  rw [← hinf, ← hkill, mutantStatus]
  cases st.everKilled k <;> cases st.everInfected k <;> decide

/-- Two runs that saw the same inputs report the same. -/
theorem reportMutants_congr {d : Driver n} {builds : List (Schemata n)}
    (hbuilds : d.mutantBuilds = builds.map Schemata.build) (hon : d.mutantsOff = false)
    {inputs inputs' : List (List UInt8)} {st st' : FuzzState n}
    (hsame : ∀ inp, inp ∈ inputs ↔ inp ∈ inputs')
    (h : fuzzAll d inputs (.init n) = .ok st)
    (h' : fuzzAll d inputs' (.init n) = .ok st') :
    reportMutants d st = reportMutants d st' := by
  have hstatus : ∀ k, mutantStatus st k = mutantStatus st' k := by
    intro k
    have hkilled : d.Killed builds inputs k ↔ d.Killed builds inputs' k := by
      simp only [Driver.Killed, hsame]
    have htrig : Triggered builds inputs k ↔ Triggered builds inputs' k := by
      simp only [Triggered, hsame]
    obtain ⟨hk, hm, -⟩ := fuzzAll_status hbuilds hon h k
    obtain ⟨hk', hm', -⟩ := fuzzAll_status hbuilds hon h' k
    rw [hkilled] at hk hm
    rw [htrig] at hm
    have hkk := hk.trans hk'.symm
    have hmm := hm.trans hm'.symm
    cases hs : mutantStatus st k <;> cases hs' : mutantStatus st' k <;> simp_all
  simp only [reportMutants, hstatus]

/-- The report of a run that does not abort is that of exhaustive mutation
testing, in whatever order the inputs came; a status never moves back, and
after each input the driver's flags are those of the clean runs. -/
theorem fuzzAll_exhaustive (d : Driver n) (builds : List (Schemata n))
    (hbuilds : d.mutantBuilds = builds.map Schemata.build) (hon : d.mutantsOff = false)
    (inputs : List (List UInt8)) (st : FuzzState n)
    (h : fuzzAll d inputs (.init n) = .ok st) :
    (∀ k, (mutantStatus st k = .killed ↔ d.Killed builds inputs k) ∧
      (mutantStatus st k = .masked ↔ ¬ d.Killed builds inputs k ∧
        Triggered builds inputs k) ∧
      (mutantStatus st k = .missed ↔ ¬ d.Killed builds inputs k ∧
        ¬ Triggered builds inputs k)) ∧
    (∀ inputs' st', inputs.Perm inputs' → fuzzAll d inputs' (.init n) = .ok st' →
      reportMutants d st' = reportMutants d st) ∧
    (∀ before after st₁, inputs = before ++ after → fuzzAll d before (.init n) = .ok st₁ →
      ∀ k, (mutantStatus st₁ k).rank ≤ (mutantStatus st k).rank) ∧
    (∀ before inp, inputs = before ++ [inp] → inp.length ≤ inputMax →
      ∀ k, st.infected k = true ↔ ∃ s ∈ builds, s.Differs k inp) ∧
    st.mutant = mutantDetect := by
  refine ⟨fuzzAll_status hbuilds hon h, ?_, ?_, ?_, (fuzzAll_ran hbuilds hon rfl h).2.2⟩
  · intro inputs' st' hperm h'
    exact reportMutants_congr hbuilds hon (fun inp => hperm.symm.mem_iff) h' h
  · intro before after st₁ heq h₁ k
    subst heq
    rw [fuzzAll_append, h₁] at h
    obtain ⟨-, -, hmut⟩ := fuzzAll_ran hbuilds hon rfl h₁
    obtain ⟨hinf, hkill, -⟩ := fuzzAll_ran hbuilds hon hmut h
    have hinf : st₁.everInfected k = true → st.everInfected k = true :=
      fun hk => (hinf k).mpr (.inl hk)
    have hkill : st₁.everKilled k = true → st.everKilled k = true :=
      fun hk => (hkill k).mpr (.inl hk)
    unfold mutantStatus
    split
    · rename_i hk
      rw [if_pos (hkill hk)]
    · split
      · rename_i hi
        rw [if_pos (hinf hi)]
        split <;> decide
      · exact Nat.zero_le _
  · intro before inp heq hlen k
    subst heq
    rw [fuzzAll_append] at h
    cases hbefore : fuzzAll d before (.init n) with
    | error e =>
        rw [hbefore] at h
        cases h
    | ok st₁ =>
        rw [hbefore] at h
        have hmut := (fuzzAll_ran hbuilds hon rfl hbefore).2.2
        cases hone : llvmFuzzerTestOneInput d inp st₁ with
        | error e =>
            simp only [bind, Except.bind, fuzzAll, hone] at h
            cases h
        | ok r =>
            simp only [bind, Except.bind, fuzzAll, hone] at h
            cases h
            exact (llvmFuzzerTestOneInput_ran hbuilds hon hlen hmut hone).2 k

/-- A build with two mutants that puts the first byte of its input; mutant 0
shows where that byte is not zero, and mutant 1 never does. -/
def sampleSchemata : Schemata 2 where
  name := "mutants"
  prog inp := do
    let b ← Prog.invoke (.mutate 0 (inp.getD 0 0) 0)
    let _ ← Prog.invoke (.mutate 1 (inp.getD 0 0) 7)
    Prog.emit [b]
    pure true

def sampleMutantDriver : Driver 2 where
  target := "sample"
  reference := ⟨"reference", fun inp => some [inp.getD 0 0]⟩
  others := []
  mutantBuilds := [sampleSchemata.build]
  mutantNames k := toString k.val
  mutantsOff := false

theorem sampleMutantDriver_exhaustive :
    ∃ st, fuzzAll sampleMutantDriver [[0], [5]] (.init 2) = .ok st ∧
      mutantStatus st 0 = .killed ∧ mutantStatus st 1 = .masked ∧
      sampleMutantDriver.Killed [sampleSchemata] [[0], [5]] 0 ∧
      ¬ sampleMutantDriver.Killed [sampleSchemata] [[0], [5]] 1 := by
  have hstatus : (fuzzAll sampleMutantDriver [[0], [5]] (.init 2)).toOption.map
      (fun st => (mutantStatus st 0, mutantStatus st 1)) = some (.killed, .masked) := by
        decide +kernel
  cases h : fuzzAll sampleMutantDriver [[0], [5]] (.init 2) with
  | error e =>
      rw [h] at hstatus
      cases hstatus
  | ok st =>
      rw [h] at hstatus
      have hpair : (mutantStatus st 0, mutantStatus st 1) = (.killed, .masked) :=
        Option.some.inj hstatus
      obtain ⟨h0, h1⟩ := Prod.mk.inj hpair
      obtain ⟨hreport, -⟩ :=
        fuzzAll_exhaustive sampleMutantDriver [sampleSchemata] rfl rfl [[0], [5]] st h
      exact ⟨st, rfl, h0, h1, (hreport 0).1.mp h0, ((hreport 1).2.1.mp h1).1⟩

end Diffsecp
