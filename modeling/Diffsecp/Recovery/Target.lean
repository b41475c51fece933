import Diffsecp.Common

/-!
# Recovery — Target

`src/targets/recovery.c`: ECDSA public key recovery. Valid signatures are
produced first and then mutated.
-/

namespace Diffsecp

open Interact

variable {T : Types}

def recoveryRecordPubkey (pk : T.Pubkey) : Harness T Unit := recordPubkeyBoth pk

/-- Recovers the key and checks the plain signature against it. -/
def recoveryRecordChecks (rsig : T.RecoverableSig) (msg : Bytes 32) : Harness T Unit := do
  let (_, sig64, recid) ← secpEcdsa (.recoverableSerializeCompact rsig)
  transcriptBytes sig64.toList
  transcriptInt recid
  let (_, sig) ← secpEcdsa (.recoverableConvert rsig)
  let (_, sig64) ← secpEcdsa (.signatureSerializeCompact sig)
  transcriptBytes sig64.toList
  let (ok, pk) ← secpEcdsa (.recover rsig msg)
  transcriptInt ok
  if ok ≠ 0 then do
    recoveryRecordPubkey pk
    -- verify rejects high s, so the normalized form is checked too
    transcriptInt (← secpEcdsa (.verify sig msg pk))
    let (ret, low) ← secpEcdsa (.signatureNormalize true sig)
    transcriptInt ret
    transcriptInt (← secpEcdsa (.verify low msg pk))
  else pure ()

/-- The buffers the mutations work on. -/
structure RecoveryBuffers where
  msg : Bytes 32
  sig64 : Bytes 64
  recid : Int32

/-- With mode bit 0 a signature, with extra nonce data if bit 1 is set;
otherwise a raw one. -/
def recoveryInput (mode : Nat) : Harness T RecoveryBuffers := do
  let msg ← readerTake 32
  if mode &&& 1 ≠ 0 then do
    let seckey ← readerTake 32
    let ndata ← (if mode &&& 2 ≠ 0 then do
        let ndata ← readerTake 32
        pure (some ndata)
      else pure none)
    let (ok, rsig) ← secpEcdsa (.signRecoverable msg seckey ndata)
    transcriptInt ok
    if ok ≠ 0 then do
      let (_, sig64, recid) ← secpEcdsa (.recoverableSerializeCompact rsig)
      transcriptBytes sig64.toList
      transcriptInt recid
      pure ⟨msg, sig64, recid⟩
    else
      pure ⟨msg, zeroBytes 64, 0⟩
  else do
    let sig64 ← readerTake 64
    let recid ← readerU8
    pure ⟨msg, sig64, Int32.ofNat (recid &&& 3)⟩

def recoveryMutate (which pos mask : Nat) (st : RecoveryBuffers) : RecoveryBuffers :=
  match which with
  | 0 => { st with sig64 := flipByte st.sig64 pos mask }
  | 1 => { st with msg := flipByte st.msg pos mask }
  | _ => { st with recid := st.recid ^^^ Int32.ofNat (mask &&& 3) }

def targetRecovery : Harness T Unit := do
  let mode ← readerU8
  let st ← recoveryInput mode
  let st ← mutateUpTo7 3 recoveryMutate st
  -- recid outside 0..3 is an illegal argument, and the mutations keep it inside
  let (ok, rsig) ← secpEcdsa (.recoverableParseCompact st.sig64 st.recid)
  transcriptInt ok
  if ok ≠ 0 then recoveryRecordChecks rsig st.msg else pure ()

end Diffsecp
