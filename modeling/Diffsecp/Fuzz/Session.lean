import Mathlib.Data.List.Forall2
import Diffsecp.Fuzz.Verdict
import Diffsecp.Oracle.Agreement
import Diffsecp.Oracle.Sampler

/-!
# Fuzz — Session

A whole run of `src/fuzz.c` with oracles: the check on the empty input, then
one input after the other through the variants, the mutant builds and, where
the sampler picks it, `oracle_check`. The processes step at any time.
-/

namespace Diffsecp

open Interact

variable {m n : ℕ}

/-! ## The driver around `oracle_check` -/

/-- Why the fuzzer ended on an input: the driver aborted, or oracle `i` was
named. -/
inductive SessionAbort (n : ℕ) where
  | driver (a : Abort)
  | oracle (i : Fin n)

/-- Where `fuzz.c` stands: before or in the check of `start_oracle`, gone as it
failed, waiting for an input, in `check_oracle`, or gone on an input. -/
inductive SessionPhase (n : ℕ) where
  | starting
  | startCheck
  | startFailed (i : Fin n)
  | waiting
  | checking (inp : List UInt8)
  | aborted (inp : List UInt8) (a : SessionAbort n)

/-- The static variables, the oracles and the inputs that passed, in order. -/
structure FuzzSession (m n : ℕ) where
  vars : FuzzState m
  rng : UInt64
  oracles : OracleSystem n
  phase : SessionPhase n
  passed : List (List UInt8)

namespace OracleSystem

/-- `oracle_check` is called. -/
def call (s : OracleSystem n) (input : List UInt8) (reference : UInt64) :
    OracleSystem n :=
  { s with file := [], fuzzer := .fwrite ⟨input, reference, [], none, []⟩ input }

/-- The call `c` returns. -/
def finish (s : OracleSystem n) (c : Call n) : OracleSystem n :=
  { s with fuzzer := .idle, calls := s.calls ++ [c] }

end OracleSystem

/-- `diffsecp_digest` of the reference's transcript, as the variables hold
it. -/
def FuzzState.referenceDigest (st : FuzzState m) : UInt64 :=
  diffsecpDigest ((st.transcripts 0).take (st.lengths 0))

inductive SessionStep (d : Driver m) (cfg : Oracles n) (threshold : UInt64) :
    FuzzSession m n → FuzzSession m n → Prop where
  -- any step of the processes and of a call, which neither begins nor ends one
  | oracles {s o} (h : OracleStep cfg s.oracles o)
      (hsame : o.fuzzer = .idle ↔ s.oracles.fuzzer = .idle) :
      SessionStep d cfg threshold s { s with oracles := o }
  -- `start_oracle`
  | startCheck {s t} (h : s.phase = .starting) (ht : d.reference.target [] = some t) :
      SessionStep d cfg threshold s
        { s with
          vars := s.vars.setTranscript 0 t
          oracles := s.oracles.call [] (s.vars.setTranscript 0 t).referenceDigest
          phase := .startCheck }
  | started {s c line} (h : s.phase = .startCheck)
      (hret : s.oracles.fuzzer = .reading c n line) (hc : c.diverged = none) :
      SessionStep d cfg threshold s { s with
        oracles := s.oracles.finish c, phase := .waiting }
  | startFailed {s c line i} (h : s.phase = .startCheck)
      (hret : s.oracles.fuzzer = .reading c n line) (hc : c.diverged = some i) :
      SessionStep d cfg threshold s { s with
        oracles := s.oracles.finish c, phase := .startFailed i }
  -- `LLVMFuzzerTestOneInput`
  | rejected {s} {inp : List UInt8} (h : s.phase = .waiting)
      (hlen : inputMax < inp.length) : SessionStep d cfg threshold s s
  | aborted {s a} {inp : List UInt8} (h : s.phase = .waiting)
      (hlen : inp.length ≤ inputMax)
      (hrun : llvmFuzzerTestOneInput d inp s.vars = .error a) :
      SessionStep d cfg threshold s { s with phase := .aborted inp (.driver a) }
  | unsampled {s ret vars} {inp : List UInt8} (h : s.phase = .waiting)
      (hlen : inp.length ≤ inputMax)
      (hrun : llvmFuzzerTestOneInput d inp s.vars = .ok (ret, vars))
      (hdue : (oracleDue threshold s.rng).1 = false) :
      SessionStep d cfg threshold s
        { s with
          vars := vars
          rng := (oracleDue threshold s.rng).2
          passed := s.passed ++ [inp] }
  | sampled {s ret vars} {inp : List UInt8} (h : s.phase = .waiting)
      (hlen : inp.length ≤ inputMax)
      (hrun : llvmFuzzerTestOneInput d inp s.vars = .ok (ret, vars))
      (hdue : (oracleDue threshold s.rng).1 = true) :
      SessionStep d cfg threshold s
        { s with
          vars := vars
          rng := (oracleDue threshold s.rng).2
          oracles := s.oracles.call inp vars.referenceDigest
          phase := .checking inp }
  | agreed {s c line inp} (h : s.phase = .checking inp)
      (hret : s.oracles.fuzzer = .reading c n line) (hc : c.diverged = none) :
      SessionStep d cfg threshold s
        { s with
          oracles := s.oracles.finish c, phase := .waiting, passed := s.passed ++ [inp] }
  | diverged {s c line inp i} (h : s.phase = .checking inp)
      (hret : s.oracles.fuzzer = .reading c n line) (hc : c.diverged = some i) :
      SessionStep d cfg threshold s
        { s with oracles := s.oracles.finish c, phase := .aborted inp (.oracle i) }

/-- The fuzzer after `oracle_start`, with the generator seeded. -/
def fuzzSession (d : Driver m) (cfg : Oracles n) (threshold seed : UInt64) :
    System (FuzzSession m n) where
  init := ⟨.init m, seed, (oracleSystem cfg).init, .starting, []⟩
  Step := SessionStep d cfg threshold

/-- The inputs the sampler picks of those it is asked about in order. -/
def sampledOf (threshold seed : UInt64) (inps : List (List UInt8)) : List (List UInt8) :=
  ((inps.zip (dueAnswers threshold inps.length seed)).filter (·.2)).map (·.1)

/-! ## The variables between inputs -/

section Vars

variable {d : Driver m} {inp : List UInt8}

/-- `referenceDigest` reads what the reference just left. -/
@[simp] theorem FuzzState.referenceDigest_setTranscript (st : FuzzState m)
    (t : List UInt8) : (st.setTranscript 0 t).referenceDigest = diffsecpDigest t := by
  have htake : (overwrite (st.transcripts 0) t).take t.length = t :=
    (holds_overwrite _ t).2
  simp [FuzzState.referenceDigest, FuzzState.setTranscript, htake]

/-- The mutant builds leave the variants' transcripts. -/
theorem runBuilds_keeps {bs : List (MutantBuild m)}
    (hbs : ∀ b ∈ bs, ∀ mutant, ∃ w, b.target mutant inp = some w)
    {infected infected' : Fin m → Bool} {st st' : FuzzState m}
    (h : runBuilds d inp bs infected st = .ok (infected', st')) :
    st'.transcripts = st.transcripts ∧ st'.lengths = st.lengths := by
  induction bs generalizing infected st with
  | nil =>
      cases h
      exact ⟨rfl, rfl⟩
  | cons b bs ih =>
      have hb := hbs b List.mem_cons_self
      obtain ⟨w, hw⟩ := hb mutantDetect
      unfold runBuilds at h
      rw [runSchemata_some hw] at h
      dsimp only [bind, Except.bind] at h
      split at h
      · cases h
      · split at h
        · cases h
        · obtain ⟨infected₁, st₁, htry, htr, hln⟩ :=
            tryMutants_total hb (List.finRange m) infected
            ((st.clearInfected.start mutantDetect).ran w)
          rw [htry] at h
          obtain ⟨htr', hln'⟩ := ih (fun b hb => hbs b (List.mem_cons_of_mem _ hb)) h
          exact ⟨htr'.trans htr, hln'.trans hln⟩

/-- After an input that passes, the variables hold the reference's
transcript. -/
theorem llvmFuzzerTestOneInput_reference (hd : d.Total) (hlen : inp.length ≤ inputMax)
    {st st' : FuzzState m} {ret : Int}
    (h : llvmFuzzerTestOneInput d inp st = .ok (ret, st')) :
    st'.referenceDigest = diffsecpDigest (d.reference.transcript inp) := by
  obtain ⟨st₁, hrun⟩ : ∃ st₁, runVariants inp (d.reference :: d.others) 0 st = .ok st₁ :=
    runVariants_total fun v hv => hd.variant v hv inp
  obtain ⟨hholds, -, -⟩ := runVariants_ok hrun
  obtain ⟨t, ht, hlength, htake⟩ := hholds 0 d.reference rfl
  have htranscript : d.reference.transcript inp = t := by
    rw [Variant.transcript, ht, Option.getD_some]
  have hkept : st'.transcripts = st₁.transcripts ∧ st'.lengths = st₁.lengths := by
    unfold llvmFuzzerTestOneInput at h
    rw [if_neg (not_lt.mpr hlen), hrun] at h
    dsimp only [bind, Except.bind] at h
    split at h
    · cases h
    · by_cases hoff : d.mutantsOff = true
      · rw [if_pos hoff] at h
        cases h
        exact ⟨rfl, rfl⟩
      · rw [if_neg hoff, runMutants] at h
        cases hbuilds : runBuilds d inp d.mutantBuilds (fun _ => false) st₁ with
        | error e =>
            rw [hbuilds] at h
            cases h
        | ok w =>
            obtain ⟨infected, st₂⟩ := w
            have hkept :=
              runBuilds_keeps (fun b hb mutant => hd.build b hb mutant inp) hbuilds
            rw [hbuilds] at h
            cases h
            exact hkept
  rw [FuzzState.referenceDigest, hkept.1, hkept.2, htranscript, hlength, htake]

/-- An input passes exactly when the driver finds no fault with it. -/
theorem verdict_of_ok (hd : d.Total) (hlen : inp.length ≤ inputMax)
    {st st' : FuzzState m} {ret : Int}
    (h : llvmFuzzerTestOneInput d inp st = .ok (ret, st')) : d.verdict inp = none := by
  cases hv : d.verdict inp with
  | none => rfl
  | some e =>
      rw [(llvmFuzzerTestOneInput_eq hd hlen st).1 e hv] at h
      cases h

theorem verdict_of_error (hd : d.Total) (hlen : inp.length ≤ inputMax)
    {st : FuzzState m} {a : Abort} (h : llvmFuzzerTestOneInput d inp st = .error a) :
    d.verdict inp = some a := by
  obtain ⟨hsome, hnone⟩ := llvmFuzzerTestOneInput_eq hd hlen st
  cases hv : d.verdict inp with
  | none =>
      obtain ⟨st', hok⟩ := hnone hv
      rw [h] at hok
      cases hok
  | some e =>
      have herror := hsome e hv
      rw [h] at herror
      cases herror
      rfl

end Vars

/-! ## The sampler -/

theorem sampledOf_nil (threshold seed : UInt64) : sampledOf threshold seed [] = [] := rfl

/-- One more input is picked or not. -/
theorem sampledOf_concat (threshold seed : UInt64) (inps : List (List UInt8))
    (inp : List UInt8) :
    sampledOf threshold seed (inps ++ [inp]) = sampledOf threshold seed inps ++
      if (oracleDue threshold (rngAfter threshold inps.length seed)).1 then [inp]
          else [] := by
  have hlast : dueAnswers threshold 1 (oracleStep^[inps.length] seed)
      = [(oracleDue threshold (rngAfter threshold inps.length seed)).1] := by
    rw [rngAfter_eq]
    rfl
  rw [sampledOf, List.length_append, List.length_singleton, dueAnswers_add, hlast,
    List.zip_append (dueAnswers_length ..).symm, List.filter_append,
    List.map_append, sampledOf]
  cases (oracleDue threshold (rngAfter threshold inps.length seed)).1 <;> rfl

theorem rngAfter_succ (threshold : UInt64) (k : ℕ) (seed : UInt64) :
    rngAfter threshold (k + 1) seed =
      (oracleDue threshold (rngAfter threshold k seed)).2 := by
  rw [rngAfter_eq, rngAfter_eq, Function.iterate_succ_apply']
  rfl

/-- `oracle_threshold` for `ORACLE_RATE` 1. -/
def everyInput : UInt64 := 0xffffffffffffffff

theorem oracleDue_everyInput (rng : UInt64) : (oracleDue everyInput rng).1 = true := by
  refine decide_eq_true ⟨by decide, ?_⟩
  exact UInt64.le_iff_toNat_le.mpr (Nat.le_of_lt_succ (oracleStep rng).toNat_lt)

theorem sampledOf_everyInput (seed : UInt64) (inps : List (List UInt8)) :
    sampledOf everyInput seed inps = inps := by
  rw [sampledOf, dueAnswers_const oracleDue_everyInput]
  induction inps with
  | nil => rfl
  | cons inp inps ih =>
      rw [List.length_cons, List.replicate_succ, List.zip_cons_cons,
        List.filter_cons_of_pos rfl, List.map_cons, ih]

/-! ## The invariant -/

/-- The call `c` is of the input `inp`, against the reference's digest. -/
def Call.Asks (d : Driver m) (c : Call n) (inp : List UInt8) : Prop :=
  c.input = inp ∧ c.reference = diffsecpDigest (d.reference.transcript inp)

/-- The calls `cs` were of `inps` in order, and all agreed. -/
def AllAgreed (d : Driver m) (cs : List (Call n)) (inps : List (List UInt8)) : Prop :=
  List.Forall₂ (fun c inp => c.Asks d inp ∧ c.diverged = none) cs inps

theorem AllAgreed.concat {d : Driver m} {cs : List (Call n)}
    {inps : List (List UInt8)} {c : Call n} {inp : List UInt8} (h : AllAgreed d cs inps)
    (hc : c.Asks d inp) (hdiv : c.diverged = none) :
    AllAgreed d (cs ++ [c]) (inps ++ [inp]) :=
  List.rel_append h (.cons ⟨hc, hdiv⟩ .nil)

theorem AllAgreed.mem {d : Driver m} {cs : List (Call n)} {inps : List (List UInt8)}
    (h : AllAgreed d cs inps) {inp : List UInt8} (hinp : inp ∈ inps) :
    ∃ c ∈ cs, c.Asks d inp ∧ c.diverged = none := by
  induction h with
  | nil => cases hinp
  | cons hc _ ih =>
      rcases List.mem_cons.mp hinp with rfl | hinp
      · exact ⟨_, List.mem_cons_self, hc⟩
      · obtain ⟨c, hmem, hc⟩ := ih hinp
        exact ⟨c, List.mem_cons_of_mem _ hmem, hc⟩

/-- What the phase says of the calls and of the input at hand. -/
def FuzzSession.Placed (d : Driver m) (threshold seed : UInt64)
    (s : FuzzSession m n) : Prop :=
  match s.phase with
  | .starting =>
      s.passed = [] ∧ s.rng = seed ∧ s.oracles.fuzzer = .idle ∧ s.oracles.calls = []
  | .startCheck =>
      s.passed = [] ∧ s.rng = seed ∧ s.oracles.calls = [] ∧
      ∀ c ∈ s.oracles.fuzzer.current, c.Asks d []
  | .startFailed i =>
      s.passed = [] ∧ ∃ c, s.oracles.calls = [c] ∧ c.Asks d [] ∧ c.diverged = some i
  | .waiting =>
      s.rng = rngAfter threshold s.passed.length seed ∧ s.oracles.fuzzer = .idle ∧
        AllAgreed d s.oracles.calls ([] :: sampledOf threshold seed s.passed)
  | .checking inp =>
      s.rng = rngAfter threshold (s.passed.length + 1) seed ∧ inp.length ≤ inputMax ∧
      d.verdict inp = none ∧
        sampledOf threshold seed (s.passed ++ [inp]) =
          sampledOf threshold seed s.passed ++ [inp] ∧
        AllAgreed d s.oracles.calls ([] :: sampledOf threshold seed s.passed) ∧
        ∀ c ∈ s.oracles.fuzzer.current, c.Asks d inp
  | .aborted inp (.driver a) =>
      inp.length ≤ inputMax ∧ d.verdict inp = some a ∧
        AllAgreed d s.oracles.calls ([] :: sampledOf threshold seed s.passed)
  | .aborted inp (.oracle i) =>
      inp.length ≤ inputMax ∧ d.verdict inp = none ∧
        sampledOf threshold seed (s.passed ++ [inp]) =
          sampledOf threshold seed s.passed ++ [inp] ∧
        ∃ cs c, s.oracles.calls = cs ++ [c] ∧
          AllAgreed d cs ([] :: sampledOf threshold seed s.passed) ∧ c.Asks d inp ∧
          c.diverged = some i

structure SessionGood (d : Driver m) (cfg : Oracles n) (threshold seed : UInt64)
    (s : FuzzSession m n) : Prop where
  oracles : (oracleSystem cfg).Reachable s.oracles
  passed : ∀ inp ∈ s.passed, inp.length ≤ inputMax ∧ d.verdict inp = none
  placed : s.Placed d threshold seed

section Steps

variable {d : Driver m} {cfg : Oracles n} {threshold seed : UInt64}
  {s s' : FuzzSession m n} {o o' : OracleSystem n}

/-- The calls going on in `f'` ask what those in `f` do. -/
def FuzzerPhase.SameAsked (f f' : FuzzerPhase n) : Prop :=
  ∀ c' ∈ f'.current, ∃ c ∈ f.current, c'.input = c.input ∧ c'.reference = c.reference

theorem FuzzerPhase.sameAsked_refl (f : FuzzerPhase n) : f.SameAsked f :=
  fun c hc => ⟨c, hc, rfl, rfl⟩

theorem FuzzerPhase.sameAsked_of {f f' : FuzzerPhase n} {c c' : Call n}
    (hf : f.current = [c]) (hf' : f'.current = [c'])
    (hsame : c'.input = c.input ∧ c'.reference = c.reference) : f.SameAsked f' := by
  intro x hx
  rw [hf', List.mem_singleton] at hx
  refine ⟨c, ?_, ?_⟩
  · rw [hf]
    exact List.mem_singleton_self c
  · rw [hx]
    exact hsame

/-- A step within a call, or between calls, keeps what is asked. -/
theorem OracleStep.keeps (h : OracleStep cfg o o')
    (hsame : o'.fuzzer = .idle ↔ o.fuzzer = .idle) :
    o'.calls = o.calls ∧ o.fuzzer.SameAsked o'.fuzzer := by
  cases h with
  | replay i h => exact ⟨rfl, o.fuzzer.sameAsked_refl⟩
  | interrupted => exact ⟨rfl, o.fuzzer.sameAsked_refl⟩
  | fopen input reference hf => exact absurd (hsame.mpr hf) (by simp)
  | ret hf =>
      rw [hf] at hsame
      exact absurd (hsame.mp rfl) (by simp)
  | fwrite k hf => exact ⟨rfl,
        FuzzerPhase.sameAsked_of (congrArg FuzzerPhase.current hf) rfl ⟨rfl, rfl⟩⟩
  | fclose hf => exact ⟨rfl,
        FuzzerPhase.sameAsked_of (congrArg FuzzerPhase.current hf) rfl ⟨rfl, rfl⟩⟩
  | fail hf => exact ⟨rfl,
        FuzzerPhase.sameAsked_of (congrArg FuzzerPhase.current hf) rfl ⟨rfl, rfl⟩⟩
  | write i k hf halive => exact ⟨rfl,
        FuzzerPhase.sameAsked_of (congrArg FuzzerPhase.current hf) rfl ⟨rfl, rfl⟩⟩
  | wrote i hf => exact ⟨rfl,
        FuzzerPhase.sameAsked_of (congrArg FuzzerPhase.current hf) rfl ⟨rfl, rfl⟩⟩
  | epipe i hf hleft hended => exact ⟨rfl,
        FuzzerPhase.sameAsked_of (congrArg FuzzerPhase.current hf) rfl ⟨rfl, rfl⟩⟩
  | sentAll hf => exact ⟨rfl,
        FuzzerPhase.sameAsked_of (congrArg FuzzerPhase.current hf) rfl ⟨rfl, rfl⟩⟩
  | read i hf hsent hans hb => exact ⟨rfl,
        FuzzerPhase.sameAsked_of (congrArg FuzzerPhase.current hf) rfl ⟨rfl, rfl⟩⟩
  | line i hf hsent hans => exact ⟨rfl,
        FuzzerPhase.sameAsked_of (congrArg FuzzerPhase.current hf) rfl ⟨rfl, rfl⟩⟩
  | noAnswer i e hf hlost hended => exact ⟨rfl,
        FuzzerPhase.sameAsked_of (congrArg FuzzerPhase.current hf) rfl ⟨rfl, rfl⟩⟩

theorem OracleSystem.reachable_call (h : (oracleSystem cfg).Reachable o)
    (hidle : o.fuzzer = .idle) (input : List UInt8) (reference : UInt64) :
    (oracleSystem cfg).Reachable (o.call input reference) :=
  .step h (.fopen input reference hidle)

theorem OracleSystem.reachable_finish (h : (oracleSystem cfg).Reachable o) {c : Call n}
    {line : List UInt8} (hret : o.fuzzer = .reading c n line) :
    (oracleSystem cfg).Reachable (o.finish c) :=
  .step h (.ret hret)

/-- The placement survives a step within a call. -/
theorem FuzzSession.Placed.oracles (h : s.Placed d threshold seed)
    (hstep : OracleStep cfg s.oracles o)
    (hsame : o.fuzzer = .idle ↔ s.oracles.fuzzer = .idle) :
    ({ s with oracles := o } : FuzzSession m n).Placed d threshold seed := by
  obtain ⟨hcalls, hcurrent⟩ := hstep.keeps hsame
  have hasks : ∀ inp, (∀ c ∈ s.oracles.fuzzer.current, c.Asks d inp) →
      ∀ c ∈ o.fuzzer.current, c.Asks d inp := by
    intro inp hold c hc
    obtain ⟨c', hc', hinput, href⟩ := hcurrent c hc
    obtain ⟨hinput', href'⟩ := hold c' hc'
    exact ⟨hinput.trans hinput', href.trans href'⟩
  unfold Placed at h ⊢
  cases hphase : s.phase with
  | starting =>
      rw [hphase] at h
      exact ⟨h.1, h.2.1, hsame.mpr h.2.2.1, hcalls.trans h.2.2.2⟩
  | startCheck =>
      rw [hphase] at h
      exact ⟨h.1, h.2.1, hcalls.trans h.2.2.1, hasks [] h.2.2.2⟩
  | startFailed i =>
      rw [hphase] at h
      rw [← hcalls] at h
      exact h
  | waiting =>
      rw [hphase] at h
      rw [← hcalls] at h
      exact ⟨h.1, hsame.mpr h.2.1, h.2.2⟩
  | checking inp =>
      rw [hphase] at h
      rw [← hcalls] at h
      obtain ⟨hrng, hlen, hverdict, hpicked, hagreed, hcur⟩ := h
      exact ⟨hrng, hlen, hverdict, hpicked, hagreed, hasks inp hcur⟩
  | aborted inp a =>
      rw [hphase] at h
      rw [← hcalls] at h
      cases a with
      | driver a => exact h
      | oracle i => exact h

theorem SessionGood.step (hd : d.Total) (h : SessionGood d cfg threshold seed s)
    (hstep : SessionStep d cfg threshold s s') : SessionGood d cfg threshold seed s' := by
  obtain ⟨hreach, hpassed, hplaced⟩ := h
  cases hstep with
  | oracles hstep hsame =>
      exact ⟨.step hreach hstep, hpassed, hplaced.oracles hstep hsame⟩
  | @startCheck t hphase ht =>
      rw [FuzzSession.Placed, hphase] at hplaced
      obtain ⟨hnil, hrng, hidle, hcalls⟩ := hplaced
      refine ⟨OracleSystem.reachable_call hreach hidle _ _, hpassed, hnil,
        hrng, hcalls, ?_⟩
      intro c hc
      have hc := List.mem_singleton.mp hc
      subst hc
      refine ⟨rfl, ?_⟩
      show (s.vars.setTranscript 0 t).referenceDigest = _
      rw [FuzzState.referenceDigest_setTranscript, Variant.transcript, ht,
        Option.getD_some]
  | @started c line hphase hret hc =>
      rw [FuzzSession.Placed, hphase] at hplaced
      obtain ⟨hnil, hrng, hcalls, hasks⟩ := hplaced
      have hasked := hasks c (by rw [hret]; exact List.mem_singleton_self c)
      refine ⟨OracleSystem.reachable_finish hreach hret, hpassed, ?_, rfl, ?_⟩
      · rw [hnil]
        exact hrng
      · rw [hnil, sampledOf_nil]
        show AllAgreed d (s.oracles.calls ++ [c]) _
        rw [hcalls]
        exact .cons ⟨hasked, hc⟩ .nil
  | @startFailed c line i hphase hret hc =>
      rw [FuzzSession.Placed, hphase] at hplaced
      obtain ⟨hnil, -, hcalls, hasks⟩ := hplaced
      have hasked := hasks c (by rw [hret]; exact List.mem_singleton_self c)
      refine ⟨OracleSystem.reachable_finish hreach hret, hpassed, hnil, c, ?_, hasked, hc⟩
      show s.oracles.calls ++ [c] = [c]
      rw [hcalls, List.nil_append]
  | rejected => exact ⟨hreach, hpassed, hplaced⟩
  | @aborted a inp hphase hlen hrun =>
      rw [FuzzSession.Placed, hphase] at hplaced
      exact ⟨hreach, hpassed, hlen, verdict_of_error hd hlen hrun, hplaced.2.2⟩
  | @unsampled ret vars inp hphase hlen hrun hdue =>
      rw [FuzzSession.Placed, hphase] at hplaced
      obtain ⟨hrng, hidle, hagreed⟩ := hplaced
      have hpassed' : ∀ inp' ∈ s.passed ++ [inp], inp'.length ≤ inputMax ∧
          d.verdict inp' = none :=
        List.forall_mem_append.mpr
          ⟨hpassed, List.forall_mem_singleton.mpr ⟨hlen, verdict_of_ok hd hlen hrun⟩⟩
      rw [hrng] at hdue
      refine ⟨hreach, hpassed', ?_⟩
      simp only [FuzzSession.Placed, hphase]
      refine ⟨?_, hidle, ?_⟩
      · rw [hrng, List.length_append, List.length_singleton, rngAfter_succ]
      · rw [sampledOf_concat, if_neg (by rw [hdue]; exact Bool.false_ne_true),
          List.append_nil]
        exact hagreed
  | @sampled ret vars inp hphase hlen hrun hdue =>
      rw [FuzzSession.Placed, hphase] at hplaced
      obtain ⟨hrng, hidle, hagreed⟩ := hplaced
      rw [hrng] at hdue
      refine ⟨OracleSystem.reachable_call hreach hidle _ _, hpassed, ?_, hlen,
        verdict_of_ok hd hlen hrun, ?_, hagreed, ?_⟩
      · show (oracleDue threshold s.rng).2 = _
        rw [hrng, rngAfter_succ]
      · rw [sampledOf_concat, if_pos hdue]
      · intro c hc
        rw [List.mem_singleton.mp hc]
        exact ⟨rfl, llvmFuzzerTestOneInput_reference hd hlen hrun⟩
  | @agreed c line inp hphase hret hc =>
      rw [FuzzSession.Placed, hphase] at hplaced
      obtain ⟨hrng, hlen, hverdict, hpicked, hagreed, hasks⟩ := hplaced
      have hasked := hasks c (by rw [hret]; exact List.mem_singleton_self c)
      have hpassed' : ∀ inp' ∈ s.passed ++ [inp], inp'.length ≤ inputMax ∧
          d.verdict inp' = none :=
        List.forall_mem_append.mpr
          ⟨hpassed, List.forall_mem_singleton.mpr ⟨hlen, hverdict⟩⟩
      refine ⟨OracleSystem.reachable_finish hreach hret, hpassed', ?_, rfl, ?_⟩
      · show s.rng = rngAfter threshold (s.passed ++ [inp]).length seed
        rw [hrng, List.length_append, List.length_singleton]
      · show AllAgreed d (s.oracles.calls ++ [c])
          ([] :: sampledOf threshold seed (s.passed ++ [inp]))
        rw [hpicked, ← List.cons_append]
        exact hagreed.concat hasked hc
  | @diverged c line inp i hphase hret hc =>
      rw [FuzzSession.Placed, hphase] at hplaced
      obtain ⟨-, hlen, hverdict, hpicked, hagreed, hasks⟩ := hplaced
      have hasked := hasks c (by rw [hret]; exact List.mem_singleton_self c)
      exact ⟨OracleSystem.reachable_finish hreach hret, hpassed, hlen, hverdict, hpicked,
        s.oracles.calls, c, rfl, hagreed, hasked, hc⟩

theorem sessionGood (hd : d.Total) (h : (fuzzSession d cfg threshold seed).Reachable s) :
    SessionGood d cfg threshold seed s := by
  apply h.invariant (I := SessionGood d cfg threshold seed)
  · exact ⟨.init, List.forall_mem_nil _, rfl, rfl, rfl, rfl⟩
  · intro s s' hs hstep
    exact hs.step hd hstep

end Steps

/-! ## What a session says -/

/-- The digest oracle `i` has of an input. -/
def Oracles.digest (cfg : Oracles n) (i : Fin n) (inp : List UInt8) : UInt64 :=
  diffsecpDigest (cfg.fn i inp)

def Driver.digest (d : Driver m) (inp : List UInt8) : UInt64 :=
  diffsecpDigest (d.reference.transcript inp)

section Calls

variable {d : Driver m} {cfg : Oracles n} {o : OracleSystem n} {c : Call n}
  {inp : List UInt8}

theorem Call.Asks.digest_eq (hc : c.Asks d inp) {i : Fin n} (h : c.Agrees cfg i) :
    cfg.digest i inp = d.digest inp := by
  obtain ⟨hinput, href⟩ := hc
  rw [Oracles.digest, Driver.digest, ← href, ← hinput]
  exact h.2.2

/-- A call that names an oracle: that one differs or has ended, and the ones
before it agree. -/
theorem Call.Asks.diverged (hreach : (oracleSystem cfg).Reachable o) (hmem : c ∈ o.calls)
    (hc : c.Asks d inp) (hlen : inp.length ≤ inputMax) {i : Fin n}
    (hdiv : c.diverged = some i) :
    (cfg.digest i inp ≠ d.digest inp ∨ ¬ (o.oracle i).Alive) ∧
    ∀ j < i, cfg.digest j inp = d.digest inp := by
  have hpaired := paired hreach
  obtain ⟨hbad, hbefore⟩ := (hpaired.diverged_iff hmem).2 i hdiv
  refine ⟨?_, fun j hj => hc.digest_eq (hbefore j hj)⟩
  by_contra hnot
  obtain ⟨heq, halive⟩ := not_or.mp hnot
  have hlt : i.val < c.taken.length := by
    rw [hpaired.finished c hmem]
    exact i.isLt
  have hget := List.getElem?_eq_getElem hlt
  cases htaken : c.taken[i.val] with
  | none =>
      rw [htaken] at hget
      exact gone hreach c (List.mem_append_left _ hmem) i hget (not_not.mp halive)
  | some line =>
      -- the process lives, so it answered, and with the reference
      rw [htaken] at hget
      obtain ⟨k, hk⟩ :=
        List.mem_iff_getElem?.mp (List.mem_append_left o.fuzzer.current hmem)
      apply hbad
      apply (hpaired.agrees_iff hk hget).mp
      obtain ⟨v, hv, rfl⟩ := hpaired.accounted.pairing k c hk i line hget
      obtain ⟨e, he, rfl⟩ := hpaired.accounted.origin i k v hv
      have hce : e = c := Option.some.inj (he.symm.trans hk)
      subst hce
      obtain ⟨hinput, href⟩ := hc
      rw [(serve_take cfg i e.input).1, refuses, accepts_replayLine, hinput, href]
      have heq : cfg.digest i inp = d.digest inp := not_not.mp heq
      simpa [Oracles.digest, Driver.digest] using ⟨hlen, heq⟩

end Calls

/-- The inputs the oracles have answered for in a phase. -/
def SessionPhase.asked (threshold seed : UInt64) (passed : List (List UInt8)) :
    SessionPhase n → List (List UInt8)
  | .starting => []
  | .startCheck => []
  | .startFailed _ => [[]]
  | .waiting => [] :: sampledOf threshold seed passed
  | .checking _ => [] :: sampledOf threshold seed passed
  | .aborted _ (.driver _) => [] :: sampledOf threshold seed passed
  | .aborted inp (.oracle _) => [] :: sampledOf threshold seed (passed ++ [inp])

section Good

variable {d : Driver m} {cfg : Oracles n} {threshold seed : UInt64} {s : FuzzSession m n}

theorem AllAgreed.inputs {cs : List (Call n)} {inps : List (List UInt8)}
    (h : AllAgreed d cs inps) :
    cs.map (·.input) = inps := by
  induction h with
  | nil => rfl
  | cons hc _ ih => rw [List.map_cons, ih, hc.1.1]

/-- The calls of a session that has started: those that agreed, and perhaps
one that did not. -/
theorem SessionGood.calls (h : SessionGood d cfg threshold seed s) :
    s.oracles.calls.map (·.input) = s.phase.asked threshold seed s.passed ∧
      (s.passed = [] ∨ ∃ cs, cs <+: s.oracles.calls ∧
        AllAgreed d cs ([] :: sampledOf threshold seed s.passed)) := by
  have hplaced := h.placed
  unfold FuzzSession.Placed at hplaced
  cases hphase : s.phase with
  | starting =>
      rw [hphase] at hplaced
      rw [hplaced.2.2.2]
      exact ⟨rfl, .inl hplaced.1⟩
  | startCheck =>
      rw [hphase] at hplaced
      rw [hplaced.2.2.1]
      exact ⟨rfl, .inl hplaced.1⟩
  | startFailed i =>
      rw [hphase] at hplaced
      obtain ⟨hnil, c, hcalls, hc, -⟩ := hplaced
      rw [hcalls, List.map_singleton, hc.1]
      exact ⟨rfl, .inl hnil⟩
  | waiting =>
      rw [hphase] at hplaced
      exact ⟨hplaced.2.2.inputs, .inr ⟨_, List.prefix_rfl, hplaced.2.2⟩⟩
  | checking inp =>
      rw [hphase] at hplaced
      obtain ⟨-, -, -, -, hagreed, -⟩ := hplaced
      exact ⟨hagreed.inputs, .inr ⟨_, List.prefix_rfl, hagreed⟩⟩
  | aborted inp a =>
      rw [hphase] at hplaced
      cases a with
      | driver a => exact ⟨hplaced.2.2.inputs, .inr ⟨_, List.prefix_rfl, hplaced.2.2⟩⟩
      | oracle i =>
          obtain ⟨-, -, hpicked, cs, c, hcalls, hagreed, hc, -⟩ := hplaced
          refine ⟨?_, .inr ⟨cs, hcalls ▸ List.prefix_append _ _, hagreed⟩⟩
          rw [hcalls, List.map_append, hagreed.inputs, List.map_singleton, hc.1,
            SessionPhase.asked, hpicked, List.cons_append]

/-- The oracles had the reference's digest of each sampled input that
passed. -/
theorem SessionGood.sampled (h : SessionGood d cfg threshold seed s) {inp : List UInt8}
    (hinp : inp ∈ sampledOf threshold seed s.passed) (i : Fin n) :
    cfg.digest i inp = d.digest inp := by
  rcases h.calls.2 with hnil | ⟨cs, hcs, hagreed⟩
  · rw [hnil] at hinp
    cases hinp
  · obtain ⟨c, hmem, hc, hdiv⟩ := hagreed.mem (List.mem_cons_of_mem _ hinp)
    have hall := ((paired h.oracles).diverged_iff (hcs.subset hmem)).1.mp hdiv
    exact hc.digest_eq (hall i)

end Good

/-- However the fuzzer and the oracles interleave, in a session over any
inputs: an input that passed is within the limit and no build differs on it;
the oracles were asked about the empty input and then about exactly the inputs
the sampler picks, in order, and had the reference's digest of each that
passed; and where the session ended, it ended on the first fault: that of the
driver, or an oracle that differs or has died while those before it agree. -/
theorem fuzzSession_sound (d : Driver m) (hd : d.Total) (cfg : Oracles n)
    (threshold seed : UInt64) (s : FuzzSession m n)
    (h : (fuzzSession d cfg threshold seed).Reachable s) :
    (∀ inp ∈ s.passed, inp.length ≤ inputMax ∧ ¬ d.Rejects inp) ∧
      (∀ inp ∈ sampledOf threshold seed s.passed, ∀ i, cfg.digest i inp = d.digest inp) ∧
    s.oracles.calls.map (·.input) = s.phase.asked threshold seed s.passed ∧
    (∀ inp a, s.phase = .aborted inp (.driver a) → inp.length ≤ inputMax ∧ d.Rejects inp ∧
      d.verdict inp = some a) ∧
    (∀ inp i, s.phase = .aborted inp (.oracle i) → inp.length ≤ inputMax ∧
      ¬ d.Rejects inp ∧ (cfg.digest i inp ≠ d.digest inp ∨ ¬ (s.oracles.oracle i).Alive) ∧
      ∀ j < i, cfg.digest j inp = d.digest inp) ∧
    ∀ i, s.phase = .startFailed i → s.passed = [] ∧
      (cfg.digest i [] ≠ d.digest [] ∨ ¬ (s.oracles.oracle i).Alive) ∧
      ∀ j < i, cfg.digest j [] = d.digest [] := by
  have hgood := sessionGood hd h
  have hplaced := hgood.placed
  unfold FuzzSession.Placed at hplaced
  refine ⟨fun inp hinp => ?_, fun inp hinp => hgood.sampled hinp,
    hgood.calls.1, ?_, ?_, ?_⟩
  · obtain ⟨hlen, hverdict⟩ := hgood.passed inp hinp
    exact ⟨hlen, Driver.verdict_eq_none.mp hverdict⟩
  · intro inp a hphase
    rw [hphase] at hplaced
    obtain ⟨hlen, hverdict, -⟩ := hplaced
    refine ⟨hlen, ?_, hverdict⟩
    by_contra hnot
    rw [Driver.verdict_eq_none.mpr hnot] at hverdict
    cases hverdict
  · intro inp i hphase
    rw [hphase] at hplaced
    obtain ⟨hlen, hverdict, -, cs, c, hcalls, -, hc, hdiv⟩ := hplaced
    have hmem : c ∈ s.oracles.calls := by
      rw [hcalls]
      exact List.mem_append_right _ (List.mem_singleton_self c)
    exact ⟨hlen, Driver.verdict_eq_none.mp hverdict,
      hc.diverged hgood.oracles hmem hlen hdiv⟩
  · intro i hphase
    rw [hphase] at hplaced
    obtain ⟨hnil, c, hcalls, hc, hdiv⟩ := hplaced
    have hmem : c ∈ s.oracles.calls := by
      rw [hcalls]
      exact List.mem_singleton_self c
    exact ⟨hnil, hc.diverged hgood.oracles hmem (Nat.zero_le _) hdiv⟩

/-- The fuzzer can read an answer in the pipe to its end. -/
theorem session_readLine {d : Driver m} {cfg : Oracles n} {threshold seed : UInt64}
    {s : FuzzSession m n} {c : Call n} {i : Fin n} (l : List UInt8) (hl : newline ∉ l)
    {line : List UInt8} (h : (fuzzSession d cfg threshold seed).Reachable s)
    (hf : s.oracles.fuzzer = .reading c i line) (hsent : c.sent[i.val]? = some true)
    (hans : (s.oracles.oracle i).answers = l ++ [newline])
    (hfits : line.length + l.length < lineMax) :
    ∃ o, (fuzzSession d cfg threshold seed).Reachable { s with oracles := o } ∧
      o.fuzzer = .reading (c.judge i (line ++ l) (some (line ++ l))) (i + 1) [] ∧
      o.oracle i = { s.oracles.oracle i with answers := [] } := by
  induction l generalizing s line with
  | nil =>
      rw [List.append_nil]
      refine ⟨_, .step h (.oracles (.line i hf hsent hans) (by simp [hf])), rfl, ?_⟩
      simp [OracleSystem.setOracle]
  | cons b l ih =>
      have hb : b ≠ newline := fun heq => hl (heq ▸ List.mem_cons_self ..)
      have hput : putByte lineMax line b = line ++ [b] := by
        rw [List.length_cons] at hfits
        exact if_pos (by omega)
      have hnext :=
        System.Reachable.step h (.oracles (.read i hf hsent hans hb) (by simp [hf]))
      rw [hput] at hnext
      obtain ⟨o, ho, hfuzzer, horacle⟩ :=
        ih (fun hmem => hl (List.mem_cons_of_mem _ hmem)) hnext rfl
        (by simp [OracleSystem.setOracle]) (by
          rw [List.length_append, List.length_singleton]
          rw [List.length_cons] at hfits
          omega)
      exact ⟨o,
        ho, by simpa using hfuzzer, by simpa [OracleSystem.setOracle] using horacle⟩

section Calls

variable {d : Driver m} {cfg : Oracles 1} {threshold seed : UInt64} {s : FuzzSession m 1}

/-- An oracle waits for a request, its pipes empty. -/
def OracleState.AtRest (o : OracleState) : Prop :=
  ∃ served, o = ⟨[], [], [], .fgets, served⟩

/-- A chain of steps of the oracle. -/
theorem session_replays {o : OracleState}
    (h : (fuzzSession d cfg threshold seed).Reachable s)
    (hpath : Relation.ReflTransGen (ReplayStep cfg s.oracles.file 0)
      (s.oracles.oracle 0) o) :
    (fuzzSession d cfg threshold seed).Reachable { s with
      oracles := s.oracles.setOracle 0 o } := by
  induction hpath with
  | refl =>
      have hsame : s.oracles.setOracle 0 (s.oracles.oracle 0) = s.oracles := by
        simp [OracleSystem.setOracle]
      rw [hsame]
      exact h
  | @tail o o' _ hstep ih =>
      have hstep :
          ReplayStep cfg s.oracles.file 0 ((s.oracles.setOracle 0 o).oracle 0) o' := by
        simpa [OracleSystem.setOracle] using hstep
      have hnext := System.Reachable.step ih (.oracles (.replay 0 hstep) Iff.rfl)
      have htwice :
          (s.oracles.setOracle 0 o).setOracle 0 o' = s.oracles.setOracle 0 o' := by
        simp [OracleSystem.setOracle]
      exact htwice ▸ hnext

/-- The oracle can answer a request. -/
theorem replays_answer (cfg : Oracles 1) {file : List UInt8}
    (hlen : file.length ≤ inputMax) (served : List Served) :
    ∃ served', Relation.ReflTransGen (ReplayStep cfg file 0)
      ⟨cfg.path.request, [], [], .fgets, served⟩
      ⟨[], (cfg.serve 0 file).line ++ [newline], [], .fgets, served'⟩ := by
  obtain ⟨hopens, hafter⟩ := opens_request cfg
  have hline : gotLine cfg.path.request :=
    .inl (List.mem_append_right _ (List.mem_singleton_self _))
  have hempty : ¬ gotLine [] := by decide
  have hread : List.take (min file.length (inputMax + 1)) file = file :=
    List.take_of_length_le (by omega)
  set line := (cfg.serve 0 file).line ++ [newline] with hanswer
  let asked : OracleState := ⟨cfg.path.request, [], [], .fgets, served⟩
  have hfill :
      ReplayStep cfg file 0 asked ⟨[], [], cfg.path.request, .fgets, served⟩ := by
    have hstep : ReplayStep cfg file 0 asked _ := .fill cfg.path.request.length rfl hempty
    simpa [OracleState.fill, asked] using hstep
  have hopen : ReplayStep cfg file 0 ⟨[], [], cfg.path.request, .fgets, served⟩
      ⟨[], [], [], .fread [], served⟩ := by
    have hstep : ReplayStep cfg file 0 ⟨[], [], cfg.path.request, .fgets, served⟩ _ :=
      .line rfl hline
    rwa [hopens, hafter] at hstep
  have hfread : ReplayStep cfg file 0 ⟨[], [], [], .fread [], served⟩
      ⟨[], [], [], .fread file, served⟩ := by
    have hstep : ReplayStep cfg file 0 ⟨[], [], [], .fread [], served⟩ _ :=
      .read file.length rfl
    simpa [OracleState.read, hread] using hstep
  have hprint : ReplayStep cfg file 0 ⟨[], [], [], .fread file, served⟩
      ⟨[], [], [], .fflush line, served ++ [cfg.serve 0 file]⟩ := .print rfl (.inr le_rfl)
  have hflush :
      ReplayStep cfg file 0 ⟨[], [], [], .fflush line, served ++ [cfg.serve 0 file]⟩
      ⟨[], line, [], .fflush [], served ++ [cfg.serve 0 file]⟩ := by
    have hstep : ReplayStep cfg file 0
        ⟨[], [], [], .fflush line, served ++ [cfg.serve 0 file]⟩ _ :=
      .flush line.length rfl
    simpa [OracleState.flush] using hstep
  refine ⟨served ++ [cfg.serve 0 file], ?_⟩
  exact Relation.ReflTransGen.refl |>.tail hfill |>.tail hopen |>.tail hfread |>.tail
    hprint |>.tail hflush |>.tail (.flushed rfl)

/-- A call of a live oracle can come to its answer. -/
theorem session_call {input : List UInt8} {reference : UInt64}
    (hlen : input.length ≤ inputMax) (h : (fuzzSession d cfg threshold seed).Reachable s)
    (hfile : s.oracles.file = [])
    (hf : s.oracles.fuzzer = .fwrite ⟨input, reference, [], none, []⟩ input)
    (hrest : (s.oracles.oracle 0).AtRest) :
    ∃ o c, (fuzzSession d cfg threshold seed).Reachable { s with oracles := o } ∧
      o.fuzzer = .reading c 1 [] ∧
      c.diverged =
        (if accepts (cfg.serve 0 input).line reference = false then some 0 else none) ∧
      (o.oracle 0).AtRest := by
  obtain ⟨served, hrest⟩ := hrest
  have h1 := System.Reachable.step h (.oracles (.fwrite input.length hf) (by simp [hf]))
  rw [hfile, List.nil_append, List.take_length, List.drop_length] at h1
  have h2 := System.Reachable.step h1 (.oracles (.fclose rfl) (by simp))
  have halive : (s.oracles.oracle 0).Alive := by
    rw [hrest]
    nofun
  have h3 := System.Reachable.step h2
    (.oracles (.write 0 cfg.path.request.length rfl halive) (by simp))
  rw [List.drop_length, OracleState.request, List.take_length, hrest,
    List.nil_append] at h3
  have h4 := System.Reachable.step h3 (.oracles (.wrote 0 rfl) (by simp))
  have h5 := System.Reachable.step h4 (.oracles (.sentAll rfl) (by simp))
  obtain ⟨served', hpath⟩ := replays_answer cfg hlen served
  have h6 := session_replays h5 (by simpa [OracleSystem.setOracle] using hpath)
  have hone : newline ∉ (cfg.serve 0 input).line := replayLine_oneLine _ _ _ _
  have hfits : (cfg.serve 0 input).line.length + 1 < lineMax := replayLine_fits ..
  obtain ⟨o, ho, hreading, hanswered⟩ := session_readLine (i := 0) _ hone h6 rfl rfl
    (by simp [OracleSystem.setOracle]) (by rw [List.length_nil]; omega)
  refine ⟨o, _, ho, hreading, ?_, served', ?_⟩
  · simp [Call.judge, Call.setSent]
  · rw [hanswered]
    simp [OracleSystem.setOracle]

end Calls

/-- A call whose answer has the reference's digest agrees. -/
theorem accepts_serve (cfg : Oracles n) (i : Fin n) {input : List UInt8}
    {reference : UInt64} (hlen : input.length ≤ inputMax)
    (hdigest : cfg.digest i input = reference) :
    accepts (cfg.serve i input).line reference = true := by
  rw [Oracles.serve, accepts_replayLine]
  exact decide_eq_true ⟨hlen, hdigest⟩

/-- The oracle of `sampleOracles` has the reference's digest up to one byte;
the first input of two ends the session. -/
theorem fuzzSession_sample :
    ∃ s a, (fuzzSession sampleDriver sampleOracles everyInput 1).Reachable s ∧
      s.passed = [[7]] ∧
      s.phase = .aborted [1, 2] (.driver a) ∧ s.oracles.calls.map (·.input) = [[], [7]] ∧
      sampleOracles.digest 0 [7] = sampleDriver.digest [7] ∧
      ¬ sampleDriver.Rejects [7] ∧ sampleDriver.Rejects [1, 2] := by
  have hseven : [(7 : UInt8)].length ≤ inputMax := by decide
  have hpair : [(1 : UInt8), 2].length ≤ inputMax := by decide
  -- the check on the empty input
  have h0 : (fuzzSession sampleDriver sampleOracles everyInput 1).Reachable _ := .init
  have h1 := System.Reachable.step h0 (.startCheck (t := []) rfl rfl)
  obtain ⟨o, c, h2, hreading, hdiv, hrest⟩ :=
    session_call (Nat.zero_le _) h1 rfl rfl ⟨[], rfl⟩
  have hempty : c.diverged = none := by
    rw [hdiv, accepts_serve sampleOracles 0 (Nat.zero_le _) (by simp; rfl)]
    rfl
  have h3 := System.Reachable.step h2 (.started rfl hreading hempty)
  -- an input that passes the driver and is sampled
  obtain ⟨vars, hvars⟩ := (llvmFuzzerTestOneInput_eq sampleDriver_total hseven
    ((FuzzState.init 1).setTranscript 0 [])).2 (by decide)
  have hdigest : vars.referenceDigest = diffsecpDigest [7] :=
    llvmFuzzerTestOneInput_reference sampleDriver_total hseven hvars
  have h4 := System.Reachable.step h3 (.sampled rfl hseven hvars (oracleDue_everyInput _))
  obtain ⟨o', c', h5, hreading', hdiv', -⟩ := session_call hseven h4 rfl rfl hrest
  have hagrees : c'.diverged = none := by
    rw [hdiv', accepts_serve sampleOracles 0 hseven (by rw [hdigest]; rfl)]
    rfl
  have h6 := System.Reachable.step h5 (.agreed rfl hreading' hagrees)
  -- an input on which the variants differ
  have habort := (llvmFuzzerTestOneInput_eq sampleDriver_total hpair vars).1
    (.divergence (sampleDriver.divergence [1, 2] "head" [1])) (by decide)
  have h7 := System.Reachable.step h6 (.aborted rfl hpair habort)
  obtain ⟨hpass, hsampled, hcalls, haborted, -, -⟩ :=
    fuzzSession_sound sampleDriver sampleDriver_total sampleOracles everyInput 1 _ h7
  rw [sampledOf_everyInput] at hsampled
  refine ⟨_, _, h7, rfl, rfl, ?_, hsampled [7] (List.mem_singleton_self _) 0, ?_,
    (haborted [1, 2] _ rfl).2.1⟩
  · rw [hcalls]
    show [] :: sampledOf everyInput 1 [[7]] = _
    rw [sampledOf_everyInput]
  · exact (hpass [7] (List.mem_singleton_self _)).2

end Diffsecp
