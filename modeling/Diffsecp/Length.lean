import Diffsecp.Length.Machines
import Diffsecp.Length.Protocols
import Diffsecp.Length.Signatures
import Diffsecp.Oracle.Line
import Diffsecp.Secp.Reference

/-!
# Length

No target overflows its transcript, and on an input that is not empty none
leaves it empty.
-/

namespace Diffsecp

open Interact

variable {T : Types} {σ α : Type}

/-- The ten targets. -/
def TargetName.target (limits : SpLimits) (inp : List UInt8) : TargetName → Harness T Unit
  | .ecdsa => targetEcdsa
  | .schnorrsig => targetSchnorrsig
  | .field => do
      let _ ← targetField
      pure ()
  | .scalar => do
      let _ ← targetScalar
      pure ()
  | .group => do
      let _ ← targetGroup inp
      pure ()
  | .keys => do
      let _ ← targetKeys
      pure ()
  | .ellswift => targetEllswift
  | .recovery => targetRecovery
  | .musig => targetMusig
  | .silentpayments => targetSilentpayments limits inp

/-- The most a target puts. -/
def TargetName.longest : TargetName → ℕ
  | .ecdsa => 1130
  | .schnorrsig => 316
  | .field => 1024 * 61
  | .scalar => 1024 * 65
  | .group => 32 * 586
  | .keys => 64 * 218
  | .ellswift => 462
  | .recovery => 322
  | .musig => 671
  | .silentpayments => 248391

theorem TargetName.longest_le (t : TargetName) : t.longest ≤ transcriptMax := by
  cases t <;> decide

theorem writes_discard {p : Harness T α} {n : ℕ} (hp : Writes p n) :
    Writes (do let _ ← p; pure () : Harness T Unit) n := by
  rw [← Nat.zero_add n]
  exact writes_bind hp fun _ => writes_pure

theorem writes_target (limits : SpLimits) (inp : List UInt8)
    (hlimit : limits.groupLimit = 2323) (hbatch : limits.labelBatchSize ≤ 128)
    (t : TargetName) :
    Writes (t.target limits inp : Harness T Unit) t.longest := by
  cases t with
  | ecdsa => exact writes_targetEcdsa
  | schnorrsig => exact writes_targetSchnorrsig
  | field => exact writes_discard writes_targetField
  | scalar => exact writes_discard writes_targetScalar
  | group => exact writes_discard (writes_targetGroup inp)
  | keys => exact writes_discard writes_targetKeys
  | ellswift => exact writes_targetEllswift
  | recovery => exact writes_targetRecovery
  | musig => exact writes_targetMusig
  | silentpayments => exact writes_targetSilentpayments limits inp hlimit hbatch

/-! ## What is put on an input that is not empty -/

/-- A machine does at least one op, and each op puts its number. -/
theorem machine_wrote {init : Harness T α} {step : α → Harness T α}
    (hinit : ∀ r g, Sat reader (documentedSizes T) init r g fun _ r' _ _ => r' = r)
    (hstep : ∀ a, Wrote reader (documentedSizes T) (step a)) (n : ℕ) {inp : List UInt8}
    (hinp : inp ≠ []) (g : Unit) :
    Sat reader (documentedSizes T) (do
        let _ ← (do let a ← init; Prog.loop readerMore step (n + 1) a)
        pure ()) inp g fun _ _ _ os => os.flatten ≠ [] := by
  have hmore : (!inp.isEmpty) = true := by simp [hinp]
  have hfree := documentedSizes_free T
  rw [sat_bind, sat_bind]
  refine (hinit inp g).mono fun a r g os hr => ?_
  subst hr
  rw [Prog.loop, sat_bind]
  apply sat_readerMore
  rw [hmore]
  refine ((Wrote.bind_left hfree (hstep a)).sat r g).mono fun _ _ _ os' hos' => ?_
  simp [hos']

theorem fieldInit_keeps (r : List UInt8) (g : Unit) :
    Sat reader (documentedSizes T) (fieldInit : Harness T (FieldRegs T)) r g
      fun _ r' _ _ => r' = r := by
  simp only [fieldInit, sat_bind, sat_invoke, sat_pure]
  exact ⟨trivial,
    fun _ _ => ⟨trivial, fun _ _ => ⟨trivial, fun _ _ => ⟨trivial, fun _ _ => trivial⟩⟩⟩⟩

theorem scalarInit_keeps (r : List UInt8) (g : Unit) :
    Sat reader (documentedSizes T) (scalarInit : Harness T (ScalarRegs T)) r g
      fun _ r' _ _ => r' = r := by
  simp only [scalarInit, sat_bind, sat_invoke, sat_pure]
  exact ⟨trivial,
    fun _ _ => ⟨trivial, fun _ _ => ⟨trivial, fun _ _ => ⟨trivial, fun _ _ => trivial⟩⟩⟩⟩

theorem groupInit_keeps (inp r : List UInt8) (g : Unit) :
    Sat reader (documentedSizes T) (groupInit inp : Harness T (GroupState T)) r g
      fun _ r' _ _ => r' = r := by
  simp only [groupInit, sat_bind, sat_invoke, sat_pure]
  exact ⟨trivial,
    fun _ _ => ⟨trivial, fun _ _ => ⟨trivial, fun _ _ => ⟨trivial, fun _ _ => trivial⟩⟩⟩⟩

theorem wrote_fieldStep (reg : FieldRegs T) :
    Wrote reader (documentedSizes T) (fieldStep reg) := by
  apply Wrote.ask_bind
  intro op
  apply Wrote.ask_bind
  intro sel
  exact wrote_u8 (documentedSizes_free T)

theorem wrote_scalarStep (reg : ScalarRegs T) :
    Wrote reader (documentedSizes T) (scalarStep reg) := by
  apply Wrote.ask_bind
  intro op
  apply Wrote.ask_bind
  intro sel
  exact wrote_u8 (documentedSizes_free T)

theorem wrote_groupStep (st : GroupState T) :
    Wrote reader (documentedSizes T) (groupStep st) := by
  have hfree := documentedSizes_free T
  apply Wrote.ask_bind
  intro op
  apply Wrote.ask_bind
  intro sel
  apply Wrote.bind_right (writes_groupAffine _)
  intro ga _
  apply Wrote.bind_right (writes_groupAffine _)
  intro gb _
  exact wrote_u8 hfree

theorem keysInit_keeps (r : List UInt8) (g : Unit) :
    Sat reader (documentedSizes T) (pure keysInit : Harness T (KeysRegs T)) r g
      fun _ r' _ _ => r' = r := rfl

theorem wrote_keysStep (reg : KeysRegs T) :
    Wrote reader (documentedSizes T) (keysStep reg) := by
  apply Wrote.ask_bind
  intro op
  apply Wrote.ask_bind
  intro sel
  exact wrote_u8 (documentedSizes_free T)

theorem wrote_target (limits : SpLimits) (t : TargetName) {inp : List UInt8}
    (hinp : inp ≠ []) (g : Unit) :
    Sat reader (documentedSizes T) (t.target limits inp) inp g fun _ _ _ os =>
      os.flatten ≠ [] := by
  cases t with
  | ecdsa => exact wrote_targetEcdsa.sat inp g
  | schnorrsig => exact wrote_targetSchnorrsig.sat inp g
  | field => exact machine_wrote fieldInit_keeps wrote_fieldStep 1023 hinp g
  | scalar => exact machine_wrote scalarInit_keeps wrote_scalarStep 1023 hinp g
  | group => exact machine_wrote (groupInit_keeps inp) wrote_groupStep 31 hinp g
  | keys => exact machine_wrote keysInit_keeps wrote_keysStep 63 hinp g
  | ellswift => exact wrote_targetEllswift.sat inp g
  | recovery => exact wrote_targetRecovery.sat inp g
  | musig => exact wrote_targetMusig.sat inp g
  | silentpayments => exact (wrote_targetSilentpayments limits inp).sat inp g

/-! ## The transcript -/

/-- `DIFFSECP_SELFTEST_WRAP`: the last byte is flipped, where there is one. -/
def selftestWrap (t : List UInt8) : List UInt8 :=
  if 0 < t.length then t.modify (t.length - 1) (· ^^^ 1) else t

theorem selftestWrap_ne {t : List UInt8} (ht : t ≠ []) : selftestWrap t ≠ t := by
  have hpos : 0 < t.length := List.length_pos_iff.mpr ht
  have hlast : t.length - 1 < t.length := by omega
  rw [selftestWrap, if_pos hpos]
  intro heq
  have hsome := congrArg (·[t.length - 1]?) heq
  simp only [List.getElem?_modify, List.getElem?_eq_getElem hlast, if_true] at hsome
  have hbyte : t[t.length - 1] ^^^ 1 = t[t.length - 1] := Option.some.inj hsome
  have hone : (1 : UInt8) = 0 := by
    calc (1 : UInt8) = t[t.length - 1] ^^^ (t[t.length - 1] ^^^ 1) := by
          rw [← UInt8.xor_assoc, UInt8.xor_self, UInt8.zero_xor]
      _ = 0 := by rw [hbyte, UInt8.xor_self]
  exact absurd hone (by decide)

/-- Every block fits what is left of the buffer where all of them fit it. -/
theorem block_fits {os : List (List UInt8)} {cap : ℕ} (h : os.flatten.length ≤ cap)
    {before after : List (List UInt8)} {p : List UInt8}
    (hos : os = before ++ p :: after) :
    p.length ≤ cap - before.flatten.length := by
  rw [hos] at h
  simp only [List.flatten_append, List.flatten_cons, List.length_append] at h
  omega

/-- Against any build with the documented sizes, every put of every target
fits what is left of the buffer, so that no run aborts and the transcript has
at most `2^18` bytes. On an input that is not empty it has at least one, so
that the selftest's flip changes it. -/
theorem target_transcript_fits (lib : Build T σ)
    (hlib : lib.Meets (documentedSizes T)) (s : σ) (limits : SpLimits)
    (hlimit : limits.groupLimit = 2323) (hbatch : limits.labelBatchSize ≤ 128)
    (t : TargetName) (inp : List UInt8) : (∀ before p after,
      ((t.target limits inp).run reader lib inp s).out = before ++ p :: after →
      p.length ≤ transcriptMax - before.flatten.length) ∧
    ∃ tr, transcriptFor (t.target limits inp) lib s transcriptMax inp = some tr ∧
      tr.length ≤ 2 ^ 18 ∧ (inp ≠ [] → 1 ≤ tr.length ∧ selftestWrap tr ≠ tr) := by
  have hlen := ((writes_target limits inp hlimit hbatch t).run hlib () inp s).2
  have hfits := hlen.trans t.longest_le
  refine ⟨fun before p after hos => block_fits hfits hos, _, transcriptOf_some hfits,
    hfits, fun hinp => ?_⟩
  have hne := ((wrote_target limits t hinp ()).run hlib s).2
  exact ⟨List.length_pos_iff.mpr hne, selftestWrap_ne hne⟩

theorem refLib_sizes : refLib.Meets (documentedSizes refTypes) := by
  intro g β q s _
  cases q with
  | key q =>
      cases q with
      | ecPubkeySerialize pk compressed => exact List.length_replicate
      | _ => trivial
  | ecdsa q =>
      cases q with
      | signatureSerializeDer outputlen sig => exact fun hret => absurd rfl hret
      | _ => trivial
  | sp q =>
      cases q with
      | recipientScanOutputs tx scanKey32 summary spendPubkey labelLookup =>
          exact fun hret => absurd rfl hret
      | _ => trivial
  | _ => trivial

/-- The reference build has the documented sizes; the limits are the group
limit of libsecp and the largest label batch allowed. -/
theorem refLib_transcript_fits :
    ∃ tr, transcriptFor (TargetName.silentpayments.target ⟨2323, 128⟩ [1]) refLib
      () transcriptMax [1] =
      some tr ∧ tr.length ≤ 2 ^ 18 ∧ 1 ≤ tr.length ∧ selftestWrap tr ≠ tr := by
  obtain ⟨-, tr, htr, hlen, hflip⟩ :=
    target_transcript_fits refLib refLib_sizes () ⟨2323, 128⟩ rfl
      (by decide) .silentpayments [1]
  exact ⟨tr, htr, hlen, hflip (List.cons_ne_nil 1 [])⟩

end Diffsecp
