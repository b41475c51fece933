import Diffsecp.Ecdsa.Paired
import Diffsecp.Ellswift.Paired
import Diffsecp.Fuzz.Verdict
import Diffsecp.Length
import Diffsecp.Musig.Paired
import Diffsecp.Recovery.Paired
import Diffsecp.Silentpayments.Paired

/-!
# Fuzz — Blame

A divergence the fuzzer reports between two builds of a target that has no
ideal to compare with is never a false alarm: there is a pair of calls, on the
same values and allowed by the API, that the two builds answer differently or
not both as the API documents.
-/

namespace Diffsecp

open Interact

variable {T : Types} {σ : Type} {n : ℕ}

/-! ## The builds -/

/-- The targets whose runs are paired. The others have an ideal or a
specification of their own. -/
def pairedTargets : List TargetName :=
  [.ecdsa, .ellswift, .recovery, .musig, .silentpayments]

/-- A build as `fuzz.c` links it, under a target. -/
def variantOf (limits : SpLimits) (t : TargetName) (name : String) (lib : Build T σ)
    (s : σ) : Variant where
  name := name
  target inp := transcriptFor (t.target limits inp) lib s transcriptMax inp

/-- A build beside the reference, and which objects of the two stand for the
same. -/
structure PairedBuild (T : Types) where
  name : String
  types : Types
  state : Type
  lib : Build types state
  start : state
  pairing : Pairing T types

def PairedBuild.variant (limits : SpLimits) (t : TargetName)
    (b : PairedBuild T) : Variant :=
  variantOf limits t b.name b.lib b.start

/-- The build is answerable for a difference on an input. -/
def PairedBuild.Blamed (limits : SpLimits) (t : TargetName) (inp : List UInt8)
    (lib : Build T σ) (s : σ) (b : PairedBuild T) : Prop :=
  Twin.Blames b.pairing.rules ((t.target limits inp).run reader lib inp s).log
    ((t.target limits inp).run reader b.lib inp b.start).log

theorem PairedBuild.agrees_or_blamed (limits : SpLimits) {t : TargetName}
    (ht : t ∈ pairedTargets) (name : String) (lib : Build T σ) (s : σ) (b : PairedBuild T)
    (inp : List UInt8) :
    (b.variant limits t).target inp = (variantOf limits t name lib s).target inp ∨
    b.Blamed limits t inp lib s := by
  have haccounts :
      b.pairing.Accounts (t.target limits inp) (t.target limits inp) inp := by
    simp only [pairedTargets, List.mem_cons, List.not_mem_nil, or_false] at ht
    rcases ht with rfl | rfl | rfl | rfl | rfl
    · exact Pairing.accounts_of_twins twin_targetEcdsa
    · exact Pairing.accounts_of_twins twin_targetEllswift
    · exact Pairing.accounts_of_twins twin_targetRecovery
    · exact Pairing.accounts_of_twins twin_targetMusig
    · exact Pairing.accounts_of_twins (twin_targetSilentpayments limits inp)
  rcases haccounts lib b.lib s b.start with ⟨hsame, -⟩ | hblames
  · exact .inl (hsame transcriptMax).symm
  · exact .inr hblames

/-! ## What the driver reports -/

section Driver

variable {d : Driver n} {inp : List UInt8} {dv : Divergence}

/-- Trying mutants leaves the transcripts of the variants alone and reports no
divergence. -/
theorem tryMutants_keeps (b : MutantBuild n) (ks : List (Fin n)) (infected : Fin n → Bool)
    (st : FuzzState n) :
    (∀ e, tryMutants b inp ks infected st = .error e → e = .inTarget) ∧
      ∀ infected' st', tryMutants b inp ks infected st = .ok (infected', st') →
        st'.transcripts = st.transcripts ∧ st'.lengths = st.lengths := by
  induction ks generalizing infected st with
  | nil =>
      refine ⟨fun e h => ?_, fun infected' st' h => ?_⟩
      · cases h
      · cases h
        exact ⟨rfl, rfl⟩
  | cons k ks ih =>
      unfold tryMutants
      split
      · exact ih infected st
      · dsimp only
        split
        · exact ih _ (st.reach k)
        · cases hw : b.target k inp with
          | none =>
              have hrun : runSchemata b k inp (st.reach k) = .error .inTarget := by
                simp [runSchemata, hw]
              rw [hrun]
              refine ⟨fun e h => ?_, fun infected' st' h => ?_⟩
              · cases h
                rfl
              · cases h
          | some w =>
              rw [runSchemata_some hw]
              dsimp only [bind, Except.bind]
              split
              · exact ih _ ((((st.reach k).start k).ran w).kill k)
              · exact ih _ (((st.reach k).start k).ran w)

/-- A divergence of the schemata builds is one with no mutant on. -/
theorem runBuilds_divergence {ref : List UInt8} {bs : List (MutantBuild n)}
    {infected : Fin n → Bool} {st : FuzzState n}
    (href : Holds (st.transcripts 0) (st.lengths 0) ref)
    (h : runBuilds d inp bs infected st = .error (.divergence dv)) :
    ∃ b ∈ bs, b.name = dv.name ∧ (b.clean inp).transcript ≠ ref := by
  induction bs generalizing infected st with
  | nil => cases h
  | cons b bs ih =>
      unfold runBuilds at h
      cases hw : b.target mutantDetect inp with
      | none =>
          have hrun :
              runSchemata b mutantDetect inp st.clearInfected = .error .inTarget := by
            simp [runSchemata, hw]
          rw [hrun] at h
          cases h
      | some w =>
          rw [runSchemata_some hw] at h
          have hclean : b.clean inp = w := by rw [MutantBuild.clean, hw, Option.getD_some]
          generalize hst₁ : (st.clearInfected.start mutantDetect).ran w = st₁ at h
          have href' : Holds (st₁.transcripts 0) (st₁.lengths 0) ref := by
            rw [← hst₁]
            exact href
          have hmatch : matchesReference st₁ st₁.mutantTranscript w.transcript.length =
              decide (w.transcript = ref) := by
            refine matchesReference_eq href' ?_
            rw [← hst₁]
            exact holds_overwrite st.mutantTranscript w.transcript
          dsimp only [bind, Except.bind] at h
          split at h
          · cases h
          · split at h
            · rename_i hne
              have hname : b.name = dv.name := by
                injection h with h
                injection h with h
                rw [← h]
                rfl
              refine ⟨b, List.mem_cons_self, hname, ?_⟩
              rw [hclean]
              intro heq
              rw [hmatch, decide_eq_true heq] at hne
              cases hne
            · cases htry : tryMutants b inp (List.finRange n) infected st₁ with
              | error e =>
                  obtain rfl := (tryMutants_keeps ..).1 e htry
                  rw [htry] at h
                  cases h
              | ok p =>
                  obtain ⟨htr, hln⟩ := (tryMutants_keeps ..).2 p.1 p.2 htry
                  rw [htry] at h
                  have hkept : Holds (p.2.transcripts 0) (p.2.lengths 0) ref := by
                    rw [htr, hln]
                    exact href'
                  obtain ⟨b', hb', hname⟩ := ih hkept h
                  exact ⟨b', List.mem_cons_of_mem _ hb', hname⟩

/-- A reported divergence is one from the reference on this input. -/
theorem llvmFuzzerTestOneInput_divergence {st : FuzzState n}
    (h : llvmFuzzerTestOneInput d inp st = .error (.divergence dv)) :
    (∃ v ∈ d.others, v.name = dv.name ∧ v.target inp ≠ d.reference.target inp) ∨
      (d.mutantsOff = false ∧ ∃ b ∈ d.mutantBuilds, b.name = dv.name ∧
        (b.clean inp).transcript ≠ d.reference.transcript inp) := by
  unfold llvmFuzzerTestOneInput at h
  split at h
  · cases h
  cases hrun : runVariants inp (d.reference :: d.others) 0 st with
  | error e =>
      rw [hrun] at h
      have herror : ∀ (vs : List Variant) (i : ℕ) (st : FuzzState n) (e : Abort),
          runVariants inp vs i st = .error e → e = .inTarget := by
        intro vs
        induction vs with
        | nil => simp [runVariants]
        | cons v vs ih =>
            intro i st e he
            unfold runVariants at he
            split at he
            · cases he
              rfl
            · exact ih _ _ _ he
      obtain rfl := herror _ _ _ _ hrun
      cases h
  | ok st₁ =>
      rw [hrun] at h
      dsimp only [bind, Except.bind] at h
      obtain ⟨hholds, -, -⟩ := runVariants_ok hrun
      have hall : ∀ j v, (d.reference :: d.others)[j]? = some v →
          v.target inp = some (v.transcript inp) ∧
          Holds (st₁.transcripts j) (st₁.lengths j) (v.transcript inp) := by
        intro j v hv
        obtain ⟨t, ht, hh⟩ := hholds j v hv
        rw [Nat.zero_add] at hh
        rw [Variant.transcript, ht, Option.getD_some]
        exact ⟨rfl, hh⟩
      have href := hall 0 d.reference rfl
      have htail : ∀ j v, d.others[j]? = some v →
          Holds (st₁.transcripts (1 + j)) (st₁.lengths (1 + j)) (v.transcript inp) := by
        intro j v hv
        rw [Nat.add_comm]
        exact (hall (j + 1) v (by simpa using hv)).2
      rw [checkVariants_eq (d := d) href.2 inp htail] at h
      cases hfind : d.others.findSome? fun v =>
        d.check (d.reference.transcript inp) v.name (v.transcript inp) with
      | some e =>
          rw [hfind] at h
          dsimp only at h
          injection h with h
          obtain ⟨v, hv, hcheck⟩ := List.exists_of_findSome?_eq_some hfind
          obtain ⟨hne, he⟩ := Driver.check_eq_some.mp hcheck
          refine .inl ⟨v, hv, ?_, fun heq => hne ?_⟩
          · rw [he] at h
            injection h with h
            rw [← h]
            rfl
          · rw [Variant.transcript, Variant.transcript, heq]
      | none =>
          rw [hfind] at h
          dsimp only at h
          by_cases hoff : d.mutantsOff = true
          · rw [if_pos hoff] at h
            cases h
          · rw [if_neg hoff, runMutants] at h
            refine .inr ⟨by simpa using hoff, ?_⟩
            cases hbuilds : runBuilds d inp d.mutantBuilds (fun _ => false) st₁ with
            | error e =>
                rw [hbuilds] at h
                dsimp only [bind, Except.bind] at h
                injection h with h
                rw [h] at hbuilds
                exact runBuilds_divergence href.2 hbuilds
            | ok w =>
                rw [hbuilds] at h
                cases h

end Driver

/-! ## A fuzzing run -/

/-- The driver with the builds linked in. -/
def Driver.linked (d : Driver n) (limits : SpLimits) (t : TargetName) (name : String)
    (lib : Build T σ) (s : σ) (bs : List (PairedBuild T)) : Driver n :=
  { d with
    reference := variantOf limits t name lib s
    others := bs.map (·.variant limits t) }

/-- In a whole run of the fuzzer, whatever the state it starts in, a reported
divergence names a build that is answerable for it on one of the inputs, or a
schemata build that differs with no mutant on. -/
theorem fuzzAll_blames (d : Driver n) (limits : SpLimits) {t : TargetName}
    (ht : t ∈ pairedTargets) (name : String) (lib : Build T σ) (s : σ)
    (bs : List (PairedBuild T)) (inps : List (List UInt8)) (st : FuzzState n)
    {dv : Divergence}
    (h : fuzzAll (d.linked limits t name lib s bs) inps st = .error (.divergence dv)) :
    ∃ inp ∈ inps, (∃ b ∈ bs, b.name = dv.name ∧ b.Blamed limits t inp lib s) ∨
      (d.mutantsOff = false ∧ ∃ b ∈ d.mutantBuilds, b.name = dv.name ∧
        (b.clean inp).transcript ≠ (variantOf limits t name lib s).transcript inp) := by
  induction inps generalizing st with
  | nil => cases h
  | cons inp inps ih =>
      unfold fuzzAll at h
      cases hrun : llvmFuzzerTestOneInput (d.linked limits t name lib s bs) inp st with
      | error e =>
          rw [hrun] at h
          injection h with h
          rw [h] at hrun
          refine ⟨inp, List.mem_cons_self, ?_⟩
          rcases llvmFuzzerTestOneInput_divergence hrun with ⟨v, hv, hname,
            hne⟩ | hmutants
          · obtain ⟨b, hb, rfl⟩ := List.mem_map.mp hv
            rcases b.agrees_or_blamed limits ht name lib s inp with hagrees | hblamed
            · exact absurd hagrees hne
            · exact .inl ⟨b, hb, hname, hblamed⟩
          · exact .inr hmutants
      | ok p =>
          rw [hrun] at h
          obtain ⟨inp', hinp, hblame⟩ := ih p.2 h
          exact ⟨inp', List.mem_cons_of_mem _ hinp, hblame⟩

/-- The reference, except that every recoverable signature parses. -/
def laxRecovery : {β : Type} → LibCall refTypes β → β
  | _, .ecdsa (.recoverableParseCompact _ _) => (1, ())
  | _, q => idle q

/-- The numbers of the reference stand for themselves, and its other objects
carry nothing. -/
def refPairing : Pairing refTypes refTypes where
  gen := secpG
  fe v v' x m := v.val = x ∧ v'.val = x ∧ v.mag ≤ m ∧ v'.mag ≤ m
  normalized v v' := v.normalized = true ∧ v'.normalized = true
  scalar v v' k := v = k ∧ v' = k
  gej _ _ _ := True
  pubkey _ _ := True
  xonly _ _ := True
  keypair _ _ := True
  sig _ _ := True
  recoverable _ _ := True
  cache _ _ := True
  secnonce _ _ := True
  pubnonce _ _ := True
  aggnonce _ _ := True
  session _ _ := True
  partialSig _ _ := True
  label _ _ := True
  summary _ _ := True

def laxBuild : PairedBuild refTypes :=
  ⟨"lax", refTypes, Unit, ⟨fun q s => (laxRecovery q, s)⟩, (), refPairing⟩

/-- A driver without mutants. -/
def plainDriver (t : String) : Driver 0 :=
  ⟨t, ⟨"", fun _ => none⟩, [], [], Fin.elim0, true⟩

/-- The empty input is enough: its signature is all zeros. -/
theorem fuzzAll_blames_lax :
    ∃ dv, fuzzAll ((plainDriver "recovery").linked ⟨2323, 50⟩ .recovery "reference" refLib
      () [laxBuild]) [[]]
        (.init 0) = .error (.divergence dv) ∧
      ∃ inp ∈ [[]], (∃ b ∈ [laxBuild],
        b.name = dv.name ∧ b.Blamed ⟨2323, 50⟩ .recovery inp refLib ()) ∨
        ((plainDriver "recovery").mutantsOff = false ∧
          ∃ b ∈ (plainDriver "recovery").mutantBuilds, b.name = dv.name ∧
            (b.clean inp).transcript ≠
              (variantOf ⟨2323, 50⟩ .recovery "reference" refLib ()).transcript inp) := by
  refine ⟨_, rfl, ?_⟩
  exact fuzzAll_blames (plainDriver "recovery") ⟨2323, 50⟩ (t := .recovery)
    (by decide) "reference" refLib () [laxBuild] [[]] (.init 0) rfl

end Diffsecp
