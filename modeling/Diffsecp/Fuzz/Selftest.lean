import Diffsecp.Fuzz.Blame
import Diffsecp.Fuzz.Session
import Diffsecp.Replay.Cross

/-!
# Fuzz — Selftest

`make selftest` and `make oracle-selftest`: a build that is the reference with
the last byte of its transcript flipped is linked as one more variant, or run
as the only oracle, and has to be reported.
-/

namespace Diffsecp

open Interact

variable {m n : ℕ} {T : Types} {σ : Type}

/-! ## As a variant -/

/-- The reference under `DIFFSECP_SELFTEST_WRAP`. -/
def Variant.selftest (v : Variant) (name : String) : Variant where
  name := name
  target inp := (v.target inp).map selftestWrap

/-- The driver of `$(BUILD)/selftest`: `selftest` comes after the variants. -/
def Driver.withSelftest (d : Driver n) : Driver n :=
  { d with others := d.others ++ [d.reference.selftest "selftest"] }

/-- The line an abort of the driver leaves in the log; one inside a target
leaves none. -/
def Abort.line : Abort → String
  | .divergence r =>
      "diffsecp: target " ++ r.target ++ " " ++
        ("diverges between " ++ r.reference ++ " and " ++ r.name) ++
        (" at byte " ++ toString r.pos ++ " (lengths " ++ toString r.referenceLen ++
          ", " ++ toString r.len ++ ")")
  | .illegal target name =>
      "diffsecp: target " ++ target ++ " calls the API illegally in " ++ name ++
        " with no mutant on"
  | .inTarget => ""

/-- `grep -q` for a plain text. -/
def grepQ (text line : String) : Bool := text.toList <:+: line.toList

/-- The recipe of `selftest-<target>`, for the inputs libFuzzer runs: the
fuzzer must fail, and its log name the two builds. -/
def selftestPasses (d : Driver n) (inps : List (List UInt8)) : Bool :=
  match fuzzAll d.withSelftest inps (.init n) with
  | .ok _ => false
  | .error a =>
      grepQ ("diverges between " ++ d.reference.name ++ " and " ++ "selftest") a.line

section Selftest

variable {d : Driver n} {inp : List UInt8}

/-- The flip is at the last byte. -/
theorem scan_selftestWrap {t : List UInt8} (ht : t ≠ []) :
    (selftestWrap t).length = t.length ∧
      scan t (selftestWrap t) (min t.length (selftestWrap t).length) 0 + 1 =
        t.length := by
  have hpos := List.length_pos_of_ne_nil ht
  have hwrap : selftestWrap t = t.modify (t.length - 1) (· ^^^ 1) := by
    rw [selftestWrap, if_pos hpos]
  have hlen : (selftestWrap t).length = t.length := by rw [hwrap, List.length_modify]
  refine ⟨hlen, ?_⟩
  have hgreatest : IsGreatest {m | m ≤ t.length ∧ m ≤ (selftestWrap t).length ∧
    t.take m = (selftestWrap t).take m}
      (t.length - 1) := by
    constructor
    · refine ⟨by omega, by omega, ?_⟩
      rw [hwrap]
      apply List.ext_getElem?
      intro i
      by_cases hi : i < t.length - 1
      · rw [List.getElem?_take_of_lt hi, List.getElem?_take_of_lt hi,
          List.getElem?_modify]
        simp only [if_neg (show ¬ t.length - 1 = i by omega)]
        simp
      · rw [List.getElem?_eq_none (by rw [List.length_take]; omega),
          List.getElem?_eq_none (by rw [List.length_take]; omega)]
    · rintro k ⟨hk, -, htake⟩
      by_contra hlt
      obtain rfl : k = t.length := by omega
      rw [List.take_length, List.take_of_length_le (by omega)] at htake
      exact selftestWrap_ne ht htake.symm
  rw [(scan_isGreatest t (selftestWrap t)).unique hgreatest]
  omega

theorem Variant.selftest_transcript (v : Variant) (name : String) (inp : List UInt8) :
    (v.selftest name).transcript inp = selftestWrap (v.transcript inp) := by
  show ((v.target inp).map selftestWrap).getD [] = selftestWrap ((v.target inp).getD [])
  cases v.target inp with
  | none => rfl
  | some t => rfl

theorem Driver.Total.withSelftest (hd : d.Total) : d.withSelftest.Total := by
  refine ⟨fun v hv inp => ?_, hd.build⟩
  have hv : v = d.reference ∨ v ∈ d.others ∨ v = d.reference.selftest "selftest" := by
    simpa [Driver.withSelftest] using hv
  rcases hv with rfl | hv | rfl
  · exact hd.variant _ List.mem_cons_self inp
  · exact hd.variant v (List.mem_cons_of_mem _ hv) inp
  · obtain ⟨t, ht⟩ := hd.variant _ List.mem_cons_self inp
    exact ⟨selftestWrap t, by simp [Variant.selftest, ht]⟩

theorem Driver.check_selftest (ref : List UInt8) :
    d.check ref "selftest" (selftestWrap ref) = if ref = [] then none
      else some (.divergence (d.divergence ref "selftest" (selftestWrap ref))) := by
  by_cases hnil : ref = []
  · rw [hnil, if_pos rfl]
    rfl
  · rw [Driver.check, if_neg (selftestWrap_ne hnil), if_neg hnil]

/-- What the selftest adds to an input the driver finds no fault with. -/
theorem Driver.withSelftest_verdict (hquiet : d.verdict inp = none) :
    d.withSelftest.verdict inp = if d.reference.transcript inp = [] then none
      else some (.divergence (d.divergence (d.reference.transcript inp) "selftest"
        (selftestWrap (d.reference.transcript inp)))) := by
  rw [Driver.verdict, Option.or_eq_none_iff] at hquiet
  obtain ⟨hothers, hmutants⟩ := hquiet
  rw [← Driver.check_selftest, ← Variant.selftest_transcript _ "selftest"]
  show ((d.others ++ [d.reference.selftest "selftest"]).findSome? fun v =>
      d.check (d.reference.transcript inp) v.name (v.transcript inp)).or
    (if d.mutantsOff then none else d.mutantBuilds.findSome?
      (d.checkBuild (d.reference.transcript inp) inp)) = _
  rw [hmutants, List.findSome?_append, hothers, Option.none_or, Option.or_none,
    List.findSome?_singleton]
  rfl

/-- The input leaves a transcript to flip. -/
def Driver.leaves (d : Driver n) (inp : List UInt8) : Bool :=
  inp.length ≤ inputMax ∧ d.reference.transcript inp ≠ []

/-- The selftest fuzzer stops at the first input that leaves a transcript. -/
theorem fuzzAll_selftest (hd : d.Total) {inps : List (List UInt8)}
    (hquiet : ∀ inp ∈ inps, inp.length ≤ inputMax → d.verdict inp = none)
    (st : FuzzState n) :
    (inps.find? d.leaves = none → ∃ st', fuzzAll d.withSelftest inps st = .ok st') ∧
      ∀ inp, inps.find? d.leaves = some inp → fuzzAll d.withSelftest inps st =
        .error (.divergence (d.divergence (d.reference.transcript inp) "selftest"
          (selftestWrap (d.reference.transcript inp)))) := by
  induction inps generalizing st with
  | nil => exact ⟨fun _ => ⟨st, rfl⟩, fun inp h => absurd h (by simp)⟩
  | cons inp inps ih =>
      have ih := ih fun inp hinp => hquiet inp (List.mem_cons_of_mem _ hinp)
      have hstep : (d.leaves inp = false →
        ∃ ret st', llvmFuzzerTestOneInput d.withSelftest inp st = .ok (ret, st')) ∧
          (d.leaves inp = true → llvmFuzzerTestOneInput d.withSelftest inp st =
            .error (.divergence (d.divergence (d.reference.transcript inp) "selftest"
              (selftestWrap (d.reference.transcript inp))))) := by
        by_cases hlen : inp.length ≤ inputMax
        · have hverdict :=
            Driver.withSelftest_verdict (hquiet inp List.mem_cons_self hlen)
          obtain ⟨hfault, hfine⟩ := llvmFuzzerTestOneInput_eq hd.withSelftest hlen st
          constructor
          · intro hleaves
            have hnil : d.reference.transcript inp = [] := by
              simpa [Driver.leaves, hlen] using hleaves
            rw [if_pos hnil] at hverdict
            obtain ⟨st', hst'⟩ := hfine hverdict
            exact ⟨0, st', hst'⟩
          · intro hleaves
            have hne : d.reference.transcript inp ≠ [] := by
              simpa [Driver.leaves, hlen] using hleaves
            rw [if_neg hne] at hverdict
            exact hfault _ hverdict
        · refine ⟨fun _ => ⟨-1, st, ?_⟩, fun hleaves =>
            absurd hleaves (by simp [Driver.leaves, hlen])⟩
          rw [llvmFuzzerTestOneInput, if_pos (not_le.mp hlen)]
      cases hleaves : d.leaves inp with
      | false =>
          obtain ⟨ret, st', hst'⟩ := hstep.1 hleaves
          rw [List.find?_cons_of_neg (by simp [hleaves]), fuzzAll, hst']
          exact ih st'
      | true =>
          rw [List.find?_cons_of_pos hleaves, fuzzAll, hstep.2 hleaves]
          refine ⟨fun h => absurd h (by simp), fun inp' h => ?_⟩
          obtain rfl := Option.some.inj h
          rfl

/-- A text stands in what is written around it. -/
theorem grepQ_of_mid (a text b : String) : grepQ text (a ++ text ++ b) = true := by
  refine decide_eq_true ⟨a.toList, b.toList, ?_⟩
  rw [String.toList_append, String.toList_append]

end Selftest

/-- For inputs the driver finds no fault with, `make selftest` passes exactly
where one of them leaves a transcript; the first that does is reported, at the
last byte of transcripts of equal length, whatever earlier inputs left. -/
theorem selftest_reports (d : Driver n) (hd : d.Total) (inps : List (List UInt8))
    (hquiet : ∀ inp ∈ inps, inp.length ≤ inputMax → d.verdict inp = none) :
    (selftestPasses d inps = true ↔ ∃ inp ∈ inps, inp.length ≤ inputMax ∧
      d.reference.transcript inp ≠ []) ∧
    ∀ inp st, inps.find? d.leaves = some inp → ∃ r,
      fuzzAll d.withSelftest inps st = .error (.divergence r) ∧
      r.reference = d.reference.name ∧ r.name = "selftest" ∧
        r.pos + 1 = (d.reference.transcript inp).length ∧
        r.referenceLen = (d.reference.transcript inp).length ∧
        r.len = (d.reference.transcript inp).length := by
  constructor
  · obtain ⟨hnone, hsome⟩ := fuzzAll_selftest hd hquiet (.init n)
    have hfind : (∃ inp ∈ inps, inp.length ≤ inputMax ∧ d.reference.transcript inp ≠ []) ↔
        (inps.find? d.leaves).isSome = true := by
      simp [Driver.leaves]
    rw [hfind, selftestPasses]
    cases hcase : inps.find? d.leaves with
    | none =>
        obtain ⟨st', hst'⟩ := hnone hcase
        rw [hst']
        simp
    | some inp =>
        rw [hsome inp hcase]
        exact iff_of_true (grepQ_of_mid _ _ _) rfl
  · intro inp st hfind
    have hne : d.reference.transcript inp ≠ [] := by
      have := List.find?_some hfind
      simp only [Driver.leaves, decide_eq_true_eq] at this
      exact this.2
    obtain ⟨hlen, hpos⟩ := scan_selftestWrap hne
    exact ⟨_, (fuzzAll_selftest hd hquiet st).2 inp hfind, rfl, rfl, hpos, rfl, hlen⟩

/-- The empty input of `sampleDriver` leaves nothing to flip, the next one
does. -/
theorem selftest_reports_sample :
    selftestPasses sampleDriver [[], [7]] = true ∧
    ∃ r, fuzzAll sampleDriver.withSelftest [[], [7]] (.init 1) =
      .error (.divergence r) ∧ r.name = "selftest" ∧ r.pos = 0 := by
  obtain ⟨hpasses, hreport⟩ :=
    selftest_reports sampleDriver sampleDriver_total [[], [7]] (by decide)
  obtain ⟨r, hr, -, hname, hpos, -⟩ := hreport [7] (.init 1) rfl
  refine ⟨hpasses.mpr ⟨[7], by decide, by decide, by decide⟩, r, hr, hname, ?_⟩
  exact Nat.succ_injective hpos

/-! ## As an oracle -/

/-- `oracle-selftest` starts one process, of the reference with
`DIFFSECP_SELFTEST`. -/
def crossSelftestOracle (v : Variant) (t : TargetName) (path : OraclePath) :
    Oracles 1 where
  name _ := "cross_selftest"
  target _ := t
  fn _ inp := selftestWrap (v.transcript inp)
  path := path

/-- The line an abort leaves in the log, up to the digests. -/
def SessionAbort.line (d : Driver m) (cfg : Oracles n) : SessionAbort n → String
  | .driver a => a.line
  | .oracle i => "diffsecp: target " ++ d.target ++ " diverges between the " ++
      ("reference and " ++ cfg.name i) ++ ": expected digest "

/-- Every input but the empty one leaves something. -/
theorem variantOf_leaves (limits : SpLimits) (t : TargetName) (name : String)
    {lib : Build T σ} (hlib : lib.Meets (documentedSizes T)) (s : σ) {inp t' : List UInt8}
    (hinp : inp ≠ []) (ht : (variantOf limits t name lib s).target inp = some t') :
    t' ≠ [] := by
  have hne := ((wrote_target limits t hinp ()).run hlib s).2
  have ht : transcriptFor (t.target limits inp) lib s transcriptMax inp = some t' := ht
  rw [transcriptFor, transcriptOf_eq] at ht
  split at ht
  · obtain rfl := Option.some.inj ht
    exact hne
  · cases ht

/-- The flip shows in the digest of what any other input leaves. -/
theorem variantOf_selftest_digest (limits : SpLimits) (t : TargetName) (name : String)
    {lib : Build T σ} (hlib : lib.Meets (documentedSizes T)) (s : σ) {inp : List UInt8}
    (hinp : inp ≠ [])
    (hsome : ∃ t', (variantOf limits t name lib s).target inp = some t') :
    diffsecpDigest (selftestWrap ((variantOf limits t name lib s).transcript inp)) ≠
      diffsecpDigest ((variantOf limits t name lib s).transcript inp) := by
  obtain ⟨t', ht⟩ := hsome
  apply diffsecpDigest_selftestWrap
  rw [Variant.transcript, ht]
  exact variantOf_leaves limits t name hlib s hinp ht

/-- `make oracle-selftest`, however its fuzzer and its oracle interleave and
whatever inputs libFuzzer runs: no input but the empty one passes; the check
at the start fails only if the process died; and where the session ends
without a fault of the driver, the log names the oracle. -/
theorem oracleSelftest_stops (d : Driver m) (limits : SpLimits) (name : String)
    (lib : Build T σ) (s₀ : σ) (bs : List (PairedBuild T))
    (hlib : lib.Meets (documentedSizes T))
    (hd : (d.linked limits .field name lib s₀ bs).Total) (path : OraclePath)
    (seed : UInt64) (s : FuzzSession m 1)
    (h : (fuzzSession (d.linked limits .field name lib s₀ bs)
      (crossSelftestOracle (variantOf limits .field name lib s₀) .field path) everyInput
        seed).Reachable s) :
    (∀ inp ∈ s.passed, inp = []) ∧
    (∀ i, s.phase = .startFailed i → ¬ (s.oracles.oracle i).Alive) ∧
    (∀ inp a, s.phase = .aborted inp (.driver a) →
      (d.linked limits .field name lib s₀ bs).Rejects inp) ∧
    ∀ inp i, s.phase = .aborted inp (.oracle i) →
      (inp ≠ [] ∨ ¬ (s.oracles.oracle i).Alive) ∧
      grepQ ("reference and " ++ "cross_selftest")
        (SessionAbort.line (d.linked limits .field name lib s₀ bs)
          (crossSelftestOracle (variantOf limits .field name lib s₀) .field path)
            (.oracle i)) = true := by
  set D := d.linked limits .field name lib s₀ bs
  set cfg := crossSelftestOracle (variantOf limits .field name lib s₀) .field path
  have hgood := sessionGood hd h
  have hplaced := hgood.placed
  unfold FuzzSession.Placed at hplaced
  have hempty : ∀ i, cfg.digest i [] = D.digest [] := fun i => rfl
  have hdiffers : ∀ inp, inp ≠ [] → ∀ i, cfg.digest i inp ≠ D.digest inp :=
    fun inp hinp i =>
    variantOf_selftest_digest limits .field name hlib s₀ hinp
      (hd.variant _ List.mem_cons_self inp)
  refine ⟨fun inp hinp => ?_, fun i hphase => ?_, fun inp a hphase => ?_,
    fun inp i hphase => ⟨?_, ?_⟩⟩
  · rw [← sampledOf_everyInput seed s.passed] at hinp
    by_contra hne
    exact hdiffers inp hne 0 (hgood.sampled hinp 0)
  · rw [hphase] at hplaced
    obtain ⟨-, c, hcalls, hc, hdiv⟩ := hplaced
    have hmem : c ∈ s.oracles.calls := by
      rw [hcalls]
      exact List.mem_singleton_self c
    rcases (hc.diverged hgood.oracles hmem (Nat.zero_le _) hdiv).1 with hdigest | hdead
    · exact absurd (hempty i) hdigest
    · exact hdead
  · rw [hphase] at hplaced
    obtain ⟨-, hverdict, -⟩ := hplaced
    by_contra hnot
    rw [Driver.verdict_eq_none.mpr hnot] at hverdict
    cases hverdict
  · rw [hphase] at hplaced
    obtain ⟨hlen, -, -, cs, c, hcalls, -, hc, hdiv⟩ := hplaced
    have hmem : c ∈ s.oracles.calls := by
      rw [hcalls]
      exact List.mem_append_right _ (List.mem_singleton_self c)
    rcases (hc.diverged hgood.oracles hmem hlen hdiv).1 with hdigest | hdead
    · left
      rintro rfl
      exact hdigest (hempty i)
    · exact .inr hdead
  · exact grepQ_of_mid _ _ _

/-- A field fuzzer of the reference library, without variants. -/
def fieldDriver : Driver 0 :=
  (plainDriver "field").linked ⟨2323, 50⟩ .field "reference" refLib () []

def fieldVariant : Variant := variantOf ⟨2323, 50⟩ .field "reference" refLib ()

theorem fieldVariant_some (inp : List UInt8) : ∃ t, fieldVariant.target inp = some t := by
  have hlen :=
    ((writes_target ⟨2323, 50⟩ inp rfl (by decide) .field).run refLib_sizes () inp ()).2
  exact ⟨_, transcriptOf_some (hlen.trans (TargetName.longest_le .field))⟩

theorem fieldDriver_total : fieldDriver.Total where
  variant v hv inp := by
    obtain rfl : v = fieldVariant := List.mem_singleton.mp hv
    exact fieldVariant_some inp
  build b hb := absurd hb (List.not_mem_nil)

/-- The oracle agrees on the empty input, and the next one stops the fuzzer. -/
theorem oracleSelftest_stops_sample :
    ∃ s, (fuzzSession fieldDriver (crossSelftestOracle fieldVariant .field samplePath)
      everyInput 1).Reachable s ∧
      s.phase = .aborted [0] (.oracle 0) ∧ (∀ inp ∈ s.passed, inp = []) ∧
      grepQ ("reference and " ++ "cross_selftest") (SessionAbort.line fieldDriver
        (crossSelftestOracle fieldVariant .field samplePath) (.oracle 0)) = true := by
  set cfg := crossSelftestOracle fieldVariant .field samplePath
  have hzero : [(0 : UInt8)].length ≤ inputMax := by decide
  have h0 : (fuzzSession fieldDriver cfg everyInput 1).Reachable _ := .init
  have h1 := System.Reachable.step h0 (.startCheck (t := []) rfl rfl)
  obtain ⟨o, c, h2, hreading, hdiv, hrest⟩ :=
    session_call (Nat.zero_le _) h1 rfl rfl ⟨[], rfl⟩
  have hagrees : c.diverged = none := by
    rw [hdiv, accepts_serve cfg 0 (Nat.zero_le _) (by simp; rfl)]
    rfl
  have h3 := System.Reachable.step h2 (.started rfl hreading hagrees)
  obtain ⟨vars, hvars⟩ := (llvmFuzzerTestOneInput_eq fieldDriver_total hzero
    ((FuzzState.init 0).setTranscript 0 [])).2 rfl
  have h4 := System.Reachable.step h3 (.sampled rfl hzero hvars (oracleDue_everyInput _))
  obtain ⟨o', c', h5, hreading', hdiv', -⟩ := session_call hzero h4 rfl rfl hrest
  have hdiffers : c'.diverged = some 0 := by
    rw [hdiv', Oracles.serve, accepts_replayLine]
    apply if_pos
    rw [decide_eq_false_iff_not, not_and]
    intro _ hsame
    rw [llvmFuzzerTestOneInput_reference fieldDriver_total hzero hvars] at hsame
    exact variantOf_selftest_digest ⟨2323, 50⟩ .field "reference" refLib_sizes ()
      (List.cons_ne_nil _ _) (fieldVariant_some [0]) hsame
  have h6 := System.Reachable.step h5 (.diverged rfl hreading' hdiffers)
  obtain ⟨hpassed, -, -, hnamed⟩ :=
    oracleSelftest_stops (plainDriver "field") ⟨2323, 50⟩ "reference" refLib ()
      [] refLib_sizes fieldDriver_total samplePath 1 _ h6
  exact ⟨_, h6, rfl, hpassed, (hnamed [0] 0 rfl).2⟩

end Diffsecp
