import Diffsecp.Group.Recorded
import Diffsecp.Keys.Recorded
import Diffsecp.Scalar.Recorded
import Diffsecp.Secp.Reference

/-!
# Recorded

No divergence in a register machine is missed: the transcripts of two builds
are equal only where the runs were.
-/

namespace Diffsecp.Recorded

open Interact

variable {V : Decoding} {T T' : Types} {σ σ' : Type}

/-- A transcript that fits is all the blocks. -/
theorem transcriptFor_some {α : Type} {target : Harness T α} {lib : Build T σ}
    {s : σ} {cap : ℕ} {inp t : List UInt8}
    (h : transcriptFor target lib s cap inp = some t) :
    (target.run reader lib inp s).out.flatten = t := by
  rw [transcriptFor, transcriptOf_eq] at h
  split at h
  · exact Option.some.inj h
  · cases h

theorem scalarOps_grows (lib : Build T σ) (inp : List UInt8) (s : σ) (k m : ℕ) :
    ((scalarOps k).run reader lib inp s).out <+:
      ((scalarOps (k + m)).run reader lib inp s).out := by
  rw [run_scalarOps_add, Prog.run_bind]
  exact List.prefix_append _ _

theorem groupOps_grows (lib : Build T σ) (inp : List UInt8) (s : σ) (k m : ℕ) :
    ((groupOps inp k).run reader lib inp s).out <+:
      ((groupOps inp (k + m)).run reader lib inp s).out := by
  rw [run_groupOps_add, Prog.run_bind]
  exact List.prefix_append _ _

theorem keysOps_grows (lib : Build T σ) (inp : List UInt8) (s : σ) (k m : ℕ) :
    ((keysOps k).run reader lib inp s).out <+:
      ((keysOps (k + m)).run reader lib inp s).out := by
  rw [run_keysOps_add, Prog.run_bind]
  exact List.prefix_append _ _

/-- Two builds of which only the serializations are trusted, on any input.
The records tell where each op ends. Equal transcripts are of runs that read
and recorded the same at every op and hold the same registers after it: every
scalar an op has written, and in each run the first value of the others; the
points, where both builds start from infinity; the secret bytes, flags and
keys. -/
theorem transcripts_determine_runs {M : Meaning V T} {M' : Meaning V T'} (lib : Build T σ)
    (lib' : Build T' σ') (hlib : lib.Meets M.contract) (hlib' : lib'.Meets M'.contract)
    (s : σ) (s' : σ') (inp : List UInt8) :
    (let w := fun k => (scalarOps k).run reader lib inp s
      let w' := fun k => (scalarOps k).run reader lib' inp s'
      let P := fun k => ScalarSame M M' (w 0).val (w' 0).val (scalarWritten lib inp s k)
      Lockstep.Recorded P w w' ∧
        ∀ cap t, transcriptFor targetScalar lib s cap inp = some t →
          transcriptFor targetScalar lib' s' cap inp = some t →
          ∀ k ≤ scalarMaxOps, Lockstep.Agree (P k) (w k) (w' k)) ∧
    (let w := fun k => (groupOps inp k).run reader lib inp s
      let w' := fun k => (groupOps inp k).run reader lib' inp s'
      (∀ i, ((w 0).val.reg i).infinity = true) →
      (∀ i, ((w' 0).val.reg i).infinity = true) →
      Lockstep.Recorded (fun _ => GroupSame M M') w w' ∧
        ∀ cap t, transcriptFor (targetGroup inp) lib s cap inp = some t →
          transcriptFor (targetGroup inp) lib' s' cap inp = some t →
          ∀ k ≤ groupMaxOps, Lockstep.Agree (GroupSame M M') (w k) (w' k)) ∧
    (let w := fun k => (keysOps k).run reader lib inp s
      let w' := fun k => (keysOps k).run reader lib' inp s'
      let P := fun reg reg' => ∀ i, KeysSame M M' (reg i) (reg' i)
      Lockstep.Recorded (fun _ => P) w w' ∧
        ∀ cap t, transcriptFor targetKeys lib s cap inp = some t →
          transcriptFor targetKeys lib' s' cap inp = some t →
          ∀ k ≤ keysMaxOps, Lockstep.Agree P (w k) (w' k)) := by
  refine ⟨?_, ?_, ?_⟩
  · intro w w' P
    have hrec : Lockstep.Recorded P w w' := scalarOps_recorded hlib hlib' s s' inp
    refine ⟨hrec, fun cap t ht ht' k hk => ?_⟩
    have heq : (w scalarMaxOps).out.flatten = (w' scalarMaxOps).out.flatten :=
      (transcriptFor_some ht).trans (transcriptFor_some ht').symm
    exact hrec.agree (scalarOps_grows lib inp s) (scalarOps_grows lib' inp s') heq hk
  · intro w w' hinit hinit'
    have hrec : Lockstep.Recorded (fun _ => GroupSame M M') w w' :=
      groupOps_recorded hlib hlib' s s' inp hinit hinit'
    refine ⟨hrec, fun cap t ht ht' k hk => ?_⟩
    have heq : (w groupMaxOps).out.flatten = (w' groupMaxOps).out.flatten :=
      (transcriptFor_some ht).trans (transcriptFor_some ht').symm
    exact hrec.agree (groupOps_grows lib inp s) (groupOps_grows lib' inp s') heq hk
  · intro w w' P
    have hrec : Lockstep.Recorded (fun _ => P) w w' :=
      keysOps_recorded hlib hlib' s s' inp
    refine ⟨hrec, fun cap t ht ht' k hk => ?_⟩
    have heq : (w keysMaxOps).out.flatten = (w' keysMaxOps).out.flatten :=
      (transcriptFor_some ht).trans (transcriptFor_some ht').symm
    exact hrec.agree (keysOps_grows lib inp s) (keysOps_grows lib' inp s') heq hk

/-! ## Builds that start from other values -/

/-- Values are the bytes themselves. -/
abbrev refDecoding : Decoding where
  Scalar := Bytes 32
  Fe := Bytes 32
  Pubkey := Unit
  scalar b32 := b32
  fe b32 := b32
  pubkey _ := ()

/-- Points are taken to have a z of 1. -/
def refMeaning : Meaning refDecoding refTypes where
  scalar (v : Zn) := bytesOfNat 32 v.val
  fe v := bytesOfNat 32 v.val.val
  normalized _ := True
  pubkey _ := ()
  point a := if a.infinity then none
    else some (bytesOfNat 32 a.x.val.val, bytesOfNat 32 a.y.val.val)

/-- A build that sets small scalars `k` too high, and starts from points that
differ in `k`, which are infinity only where `infinity` is set. -/
def skew (k : ℕ) (infinity : Bool) : {β : Type} → LibCall refTypes β → β
  | _, .scalar (.setInt v) => ((v + k : ℕ) : Zn)
  | _, .group .gejSetInfinity => ⟨⟨k, 1, true⟩, ⟨0, 1, true⟩, ⟨1, 1, true⟩, infinity⟩
  | _, .group (.geSetGejVar a) => (⟨a.x, a.y, a.infinity⟩, a)
  | _, q => idle q

def skewLib (k : ℕ) (infinity : Bool) : Build refTypes Unit where
  answer q s := (skew k infinity q, s)

theorem skewLib_meets (k : ℕ) (infinity : Bool) :
    (skewLib k infinity).Meets refMeaning.contract := by
  intro g β q s _
  cases q with
  | scalar q =>
      cases q with
      | getB32 v => rfl
      | _ => exact True.intro
  | fe q =>
      cases q with
      | normalizeVar v => exact ⟨rfl, True.intro⟩
      | getB32 v => exact fun _ => rfl
      | _ => exact True.intro
  | group q =>
      cases q with
      | geSetGejVar a => exact ⟨rfl, rfl⟩
      | _ => exact True.intro
  | key q =>
      cases q with
      | ecPubkeySerialize pk compressed =>
          cases compressed with
          | true => exact ⟨rfl, rfl⟩
          | false => exact True.intro
      | _ => exact True.intro
  | _ => exact True.intro

/-- One op that writes register 0 leaves the others as the builds set them,
and the transcripts do not show it. -/
theorem skewLib_transcripts_equal :
    ((skewLib 1 false).Meets refMeaning.contract ∧
      (skewLib 2 false).Meets refMeaning.contract) ∧
    (transcriptFor targetScalar (skewLib 1 false) () transcriptMax [0, 0]
        = some ([0, 0, 0, 0, 0] ++ List.replicate 32 0) ∧
      transcriptFor targetScalar (skewLib 2 false) () transcriptMax [0, 0]
        = some ([0, 0, 0, 0, 0] ++ List.replicate 32 0) ∧
      refMeaning.scalar ((targetScalar.run reader (skewLib 1 false) [0, 0] ()).val 1)
        ≠ refMeaning.scalar
          ((targetScalar.run reader (skewLib 2 false) [0, 0] ()).val 1)) ∧
    transcriptFor (targetGroup [0, 0]) (skewLib 1 false) () transcriptMax [0, 0] =
      some [0, 1] ∧
      transcriptFor (targetGroup [0, 0]) (skewLib 2 false) () transcriptMax [0, 0] =
        some [0, 1] ∧
      refMeaning.point
        (((targetGroup [0, 0]).run reader (skewLib 1 false) [0, 0] ()).val.reg 1)
        ≠ refMeaning.point
          (((targetGroup [0, 0]).run reader (skewLib 2 false) [0, 0] ()).val.reg 1) := by
  refine ⟨⟨skewLib_meets 1 false, skewLib_meets 2 false⟩, ?_, ?_⟩
  · decide +kernel
  · decide +kernel

/-- Two builds with other scalars and other coordinates of infinity to start
from agree on what was written, and on all the points and keys. -/
theorem skewLib_runs_agree :
    (∀ k ≤ scalarMaxOps, Lockstep.Agree
      (ScalarSame refMeaning refMeaning
        ((scalarOps 0).run reader (skewLib 1 true) [0, 0] ()).val
        ((scalarOps 0).run reader (skewLib 2 true) [0, 0] ()).val
        (scalarWritten (skewLib 1 true) [0, 0] () k))
      ((scalarOps k).run reader (skewLib 1 true) [0, 0] ())
        ((scalarOps k).run reader (skewLib 2 true) [0, 0] ())) ∧
    (∀ k ≤ groupMaxOps, Lockstep.Agree (GroupSame refMeaning refMeaning)
      ((groupOps [0, 0] k).run reader (skewLib 1 true) [0, 0] ())
      ((groupOps [0, 0] k).run reader (skewLib 2 true) [0, 0] ())) ∧
    ∀ k ≤ keysMaxOps, Lockstep.Agree
      (fun reg reg' => ∀ i, KeysSame refMeaning refMeaning (reg i) (reg' i))
      ((keysOps k).run reader (skewLib 1 true) [0, 0] ())
      ((keysOps k).run reader (skewLib 2 true) [0, 0] ()) := by
  have hscalar : transcriptFor targetScalar (skewLib 1 true) () transcriptMax [0, 0]
      = some ([0, 0, 0, 0, 0] ++ List.replicate 32 0) := by decide +kernel
  have hscalar' : transcriptFor targetScalar (skewLib 2 true) () transcriptMax [0, 0]
      = some ([0, 0, 0, 0, 0] ++ List.replicate 32 0) := by decide +kernel
  have hgroup :
      transcriptFor (targetGroup [0, 0]) (skewLib 1 true) () transcriptMax [0, 0]
      = some [0, 1] := by decide +kernel
  have hgroup' :
      transcriptFor (targetGroup [0, 0]) (skewLib 2 true) () transcriptMax [0, 0]
      = some [0, 1] := by decide +kernel
  have hkeys : transcriptFor targetKeys (skewLib 1 true) () transcriptMax [0, 0]
      = some ([0] ++ List.replicate 40 0) := by decide +kernel
  have hkeys' : transcriptFor targetKeys (skewLib 2 true) () transcriptMax [0, 0]
      = some ([0] ++ List.replicate 40 0) := by decide +kernel
  have hinit : ∀ i,
      (((groupOps [0, 0] 0).run reader (skewLib 1 true) [0, 0] ()).val.reg i).infinity
      = true := by decide +kernel
  have hinit' : ∀ i,
      (((groupOps [0, 0] 0).run reader (skewLib 2 true) [0, 0] ()).val.reg i).infinity
      = true := by decide +kernel
  obtain ⟨⟨-, hscalars⟩, hpoints, -, hkey⟩ :=
    transcripts_determine_runs (skewLib 1 true) (skewLib 2 true)
    (skewLib_meets 1 true) (skewLib_meets 2 true) () () [0, 0]
  exact ⟨hscalars _ _ hscalar hscalar', (hpoints hinit hinit').2 _ _ hgroup hgroup',
    hkey _ _ hkeys hkeys'⟩

end Diffsecp.Recorded
