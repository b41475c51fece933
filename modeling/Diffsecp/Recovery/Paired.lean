import Diffsecp.Recovery.Target
import Diffsecp.Secp.Pairing

/-!
# Recovery — Paired

Two builds under the recovery target make calls pair by pair. The recovery id
stays between 0 and 3, which the mutations preserve, so that no call leaves
what the API allows.
-/

namespace Diffsecp

open Interact

variable {T T' : Types} {R : Pairing T T'} {r : List UInt8}

/-! ## The recovery id -/

/-- The ids that are not illegal arguments. -/
def IsRecid (recid : Int32) : Prop := 0 ≤ recid ∧ recid ≤ 3

theorem IsRecid.cases {recid : Int32} (h : IsRecid recid) :
    ∃ k < 4, recid = Int32.ofNat k := by
  obtain ⟨h0, h3⟩ := h
  rw [Int32.le_iff_toInt_le] at h0 h3
  refine ⟨recid.toInt.toNat, ?_, ?_⟩
  · have : (3 : Int32).toInt = 3 := rfl
    omega
  · rw [← Int32.toInt_inj]
    have : (0 : Int32).toInt = 0 := rfl
    have : (3 : Int32).toInt = 3 := rfl
    rw [Int32.toInt_ofNat_of_lt (by omega)]
    omega

theorem isRecid_ofNat {k : ℕ} (h : k < 4) : IsRecid (Int32.ofNat k) := by
  interval_cases k <;> exact ⟨by decide, by decide⟩

theorem IsRecid.xor {recid : Int32} (h : IsRecid recid) (mask : ℕ) :
    IsRecid (recid ^^^ Int32.ofNat (mask &&& 3)) := by
  obtain ⟨k, hk, rfl⟩ := h.cases
  have hmask : mask &&& 3 < 4 := Nat.lt_of_le_of_lt Nat.and_le_right (by decide)
  generalize mask &&& 3 = m at hmask
  interval_cases k <;> interval_cases m <;> exact ⟨by decide, by decide⟩

/-! ## The target -/

/-- The buffers of both sides hold the same, with an id in range. -/
structure RecoveryTwins (st st' : RecoveryBuffers) : Prop where
  eq : st = st'
  recid : IsRecid st.recid

theorem RecoveryTwins.mutate {st st' : RecoveryBuffers} (h : RecoveryTwins st st')
    (which pos mask : ℕ) :
    RecoveryTwins (recoveryMutate which pos mask st)
      (recoveryMutate which pos mask st') := by
  obtain ⟨rfl, hrecid⟩ := h
  refine ⟨rfl, ?_⟩
  match which with
  | 0 => exact hrecid
  | 1 => exact hrecid
  | _ + 2 => exact hrecid.xor mask

theorem twin_recoveryInput (mode : ℕ) :
    Twins R RecoveryTwins (recoveryInput mode) (recoveryInput mode) r := by
  refine twin_readerTake fun msg _ => Twin.ite (fun _ => ?_) fun _ => ?_
  · refine twin_readerTake fun seckey _ => Twin.bind (P := Eq) ?_ ?_
    · exact Twin.ite (fun _ => twin_readerTake fun _ _ => Twin.pure rfl) fun _ =>
        Twin.pure rfl
    · rintro ndata _ _ rfl
      refine twin_ecdsa (.signRecoverable msg seckey ndata) fun _ _ h => h.cases ?_
      intro ret rsig rsig' hrsig
      refine twin_int rfl (Twin.ite (fun hret => ?_) fun _ => ?_)
      · refine twin_ecdsa (.recoverableSerializeCompact (hrsig hret)) fun _ _ h =>
          h.cases ?_
        rintro _ ⟨sig64, recid⟩ _ ⟨rfl, hrecid⟩
        exact twin_bytes rfl (twin_int rfl (Twin.pure ⟨rfl, hrecid⟩))
      · exact Twin.pure ⟨rfl, isRecid_ofNat (by decide)⟩
  · refine twin_readerTake fun sig64 _ => twin_readerU8 fun recid _ => Twin.pure ⟨rfl, ?_⟩
    exact isRecid_ofNat (Nat.lt_of_le_of_lt Nat.and_le_right (by decide))

theorem twin_recoveryRecordChecks {rsig : T.RecoverableSig} {rsig' : T'.RecoverableSig}
    (hrsig : R.recoverable rsig rsig') (msg : Bytes 32) :
    Twins R Eq (recoveryRecordChecks rsig msg) (recoveryRecordChecks rsig' msg) r := by
  refine twin_ecdsa (.recoverableSerializeCompact hrsig) fun _ _ h => h.cases ?_
  rintro _ ⟨sig64, recid⟩ _ ⟨rfl, _⟩
  refine twin_bytes rfl
    (twin_int rfl (twin_ecdsa (.recoverableConvert hrsig) fun _ _ h => h.cases ?_))
  intro _ sig sig' hsig
  refine twin_ecdsa (.signatureSerializeCompact hsig) fun _ _ h => h.cases ?_
  rintro _ sig64 _ rfl
  refine twin_bytes rfl (twin_ecdsa (.recover msg hrsig) fun _ _ hpk => hpk.cases ?_)
  intro ok pk pk' hpk
  refine twin_int rfl (Twin.ite (fun hok => ?_) fun _ => Twin.pure rfl)
  refine Twin.bind (twin_recordPubkeyBoth (hpk hok)) fun _ _ _ _ => ?_
  refine twin_ecdsa (.verify msg hsig (hpk hok)) ?_
  rintro ret _ rfl
  refine twin_int rfl (twin_ecdsa (.signatureNormalize true hsig) fun _ _ h => h.cases ?_)
  intro ret low low' hlow
  refine twin_int rfl (twin_ecdsa (.verify msg (hlow rfl) (hpk hok)) ?_)
  rintro ret _ rfl
  exact twin_int_end rfl

theorem twin_targetRecovery : Twins R Eq targetRecovery targetRecovery r := by
  refine twin_readerU8 fun mode _ =>
    Twin.bind (twin_recoveryInput mode) fun st st' _ h => ?_
  refine Twin.bind
    (twin_mutateUpTo7 (fun which pos mask _ _ h => h.mutate which pos mask) h) ?_
  rintro st _ _ ⟨rfl, hrecid⟩
  refine twin_ecdsa (.recoverableParseCompact st.sig64 st.recid hrecid.1 hrecid.2)
    fun _ _ h => h.cases ?_
  intro ok rsig rsig' hrsig
  exact twin_int rfl (Twin.ite (fun hok => twin_recoveryRecordChecks (hrsig hok) st.msg)
    fun _ => Twin.pure rfl)

/-- No signature or key is used where a call reports none, and the transcript
tells nothing of how a build represents them. -/
theorem targetRecovery_accounts (R : Pairing T T') (inp : List UInt8) :
    R.Accounts targetRecovery targetRecovery inp :=
  Pairing.accounts_of_twins twin_targetRecovery

end Diffsecp
