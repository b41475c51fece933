import Diffsecp.Interact.Blind
import Diffsecp.Length

/-!
# ZeroFill

Zeros after the input change nothing for a target that only takes bytes: the
reader fills what it has not got with zeros.
-/

namespace Diffsecp

open Interact

universe v

/-- The second input is the first with zeros after it. -/
def ZeroFill (r r' : List UInt8) : Prop := ∃ k, r' = r ++ List.replicate k 0

theorem getD_zeros (r : List UInt8) (k i : ℕ) :
    (r ++ List.replicate k 0).getD i 0 = r.getD i 0 := by
  simp only [List.getD_eq_getElem?_getD]
  by_cases hi : i < r.length
  · rw [List.getElem?_append_left hi]
  · rw [List.getElem?_append_right (by omega), List.getElem?_eq_none (l := r) (by omega),
      List.getElem?_replicate]
    split <;> rfl

/-- The bytes taken are the same, and so is what is left, up to zeros. -/
theorem readerTakeBytes_zeros {r r' : List UInt8} (h : ZeroFill r r') (n : ℕ) :
    (readerTakeBytes r n).1 = (readerTakeBytes r' n).1 ∧
      ZeroFill (readerTakeBytes r n).2 (readerTakeBytes r' n).2 := by
  obtain ⟨k, rfl⟩ := h
  constructor
  · ext i hi
    rw [readerTakeBytes_getElem, readerTakeBytes_getElem, getD_zeros]
  · refine ⟨k - (n - r.length), ?_⟩
    rw [readerTakeBytes_rest, readerTakeBytes_rest, List.drop_append, List.drop_replicate]

-- an instance is found along the whole of a target's body
set_option synthInstance.maxSize 4096
set_option synthInstance.maxHeartbeats 200000

section Reader

variable {Q : Type → Type v}

abbrev ZeroBlind {α : Type} (p : Prog ReaderOp Q UInt8 α) : Prop :=
  Blind reader ZeroFill p

instance (n : ℕ) : ZeroBlind (readerTake n : Prog ReaderOp Q UInt8 (Bytes n)) :=
  Blind.ask fun _ _ hr => readerTakeBytes_zeros hr n

instance : ZeroBlind (readerU8 : Prog ReaderOp Q UInt8 Nat) := by
  unfold readerU8
  infer_instance

instance : ZeroBlind (readerU16 : Prog ReaderOp Q UInt8 Nat) := by
  unfold readerU16
  infer_instance

instance (p : List UInt8) :
    ZeroBlind (transcriptBytes p : Prog ReaderOp Q UInt8 Unit) := by
  unfold transcriptBytes
  infer_instance

instance (v : UInt32) : ZeroBlind (transcriptU32 v : Prog ReaderOp Q UInt8 Unit) := by
  unfold transcriptU32
  infer_instance

instance (v : Int32) : ZeroBlind (transcriptInt v : Prog ReaderOp Q UInt8 Unit) := by
  unfold transcriptInt
  infer_instance

end Reader

variable {T : Types} {α : Type}

/-! ## What the targets share -/

instance (compressed : Bool) (pk : T.Pubkey) :
    ZeroBlind (recordPubkey compressed pk) := by
  unfold recordPubkey
  infer_instance

instance (pk : T.Pubkey) : ZeroBlind (recordPubkeyBoth pk) := by
  unfold recordPubkeyBoth
  infer_instance

instance (kinds : ℕ) (mutate : ℕ → ℕ → ℕ → α → α) (count : ℕ) (a : α) :
    ZeroBlind (mutations kinds mutate count a : Harness T α) := by
  induction count generalizing a with
  | zero => exact Blind.pure a
  | succ count ih =>
      unfold mutations
      infer_instance

instance (kinds : ℕ) (mutate : ℕ → ℕ → ℕ → α → α) (a : α) :
    ZeroBlind (mutateUpTo7 kinds mutate a : Harness T α) := by
  unfold mutateUpTo7
  infer_instance

instance (size n : ℕ) :
    ZeroBlind (readerTakes size n : Harness T (Vector (Bytes size) n)) := by
  induction n with
  | zero => exact Blind.pure _
  | succ n ih =>
      unfold readerTakes
      infer_instance

/-! ## Schnorrsig -/

instance (keypair : T.Keypair) (parity : Int32) :
    ZeroBlind (schnorrsigEvenKey keypair parity) := by
  unfold schnorrsigEvenKey
  infer_instance

instance (ed r32 msg32 : Bytes 32) (keypair : T.Keypair) (parity : Int32)
    (pk32 : Bytes 32) :
    ZeroBlind (schnorrsigChallengeKey ed r32 msg32 keypair parity pk32) := by
  unfold schnorrsigChallengeKey
  infer_instance

instance (sig64 : Bytes 64) (msg32 : Bytes 32) (keypair : T.Keypair) (parity : Int32)
    (pk32 : Bytes 32) :
    ZeroBlind (schnorrsigOddR sig64 msg32 keypair parity pk32) := by
  unfold schnorrsigOddR
  infer_instance

instance (sig64 : Bytes 64) (msg32 : Bytes 32) (keypair : T.Keypair) (parity : Int32)
    (pk32 : Bytes 32) :
    ZeroBlind (schnorrsigInfinityR sig64 msg32 keypair parity pk32) := by
  unfold schnorrsigInfinityR
  infer_instance

instance (keypair : T.Keypair) (parity : Int32) :
    ZeroBlind (schnorrsigCancel keypair parity) := by
  unfold schnorrsigCancel
  infer_instance

instance (mode : ℕ) (sig64 : Bytes 64) (msg : Bytes 32) (keypair : T.Keypair)
    (parity : Int32) (pk32 : Bytes 32) :
    ZeroBlind (schnorrsigForge mode sig64 msg keypair parity pk32) := by
  unfold schnorrsigForge
  infer_instance

instance (mode : ℕ) (msg : Bytes 32) :
    ZeroBlind (schnorrsigSignInput mode
      msg : Harness T (SchnorrsigBuffers × SchnorrsigSigned T)) := by
  unfold schnorrsigSignInput
  apply Blind.seq inferInstance
  intro seckey
  apply Blind.seq inferInstance
  intro aux
  apply Blind.seq inferInstance
  intro ⟨ok, keypair⟩
  apply Blind.seq inferInstance
  intro _
  split
  · infer_instance
  · apply Blind.seq inferInstance
    intro ⟨_, signer, parity⟩
    infer_instance

instance (internal : T.XonlyPubkey) (cancel : Option (Bytes 32)) :
    ZeroBlind (schnorrsigRecordTweak internal cancel) := by
  unfold schnorrsigRecordTweak
  infer_instance

instance (mode : ℕ) (sig64 : Bytes 64) (pk : Option T.XonlyPubkey)
    (signed : Option (T.Keypair × T.XonlyPubkey)) :
    ZeroBlind (schnorrsigRecordCustom mode sig64 pk signed) := by
  unfold schnorrsigRecordCustom
  cases pk <;> cases signed <;> infer_instance

instance : ZeroBlind (targetSchnorrsig : Harness T Unit) := by
  unfold targetSchnorrsig
  infer_instance

/-! ## Recovery -/

instance (rsig : T.RecoverableSig) (msg : Bytes 32) :
    ZeroBlind (recoveryRecordChecks rsig msg) := by
  unfold recoveryRecordChecks recoveryRecordPubkey
  infer_instance

instance (mode : ℕ) : ZeroBlind (recoveryInput mode : Harness T RecoveryBuffers) := by
  unfold recoveryInput
  infer_instance

instance : ZeroBlind (targetRecovery : Harness T Unit) := by
  unfold targetRecovery
  infer_instance

/-! ## Ellswift -/

instance (ellA64 ellB64 : Bytes 64) (seckey : Bytes 32) (hashfp : EllswiftXdhHashFn)
    (data : Bytes 64) :
    ZeroBlind (ellswiftRawX ellA64 ellB64 seckey hashfp data : Harness T Unit) := by
  unfold ellswiftRawX
  infer_instance

instance (u : T.Fe) : ZeroBlind (ellswiftXRZero u) := by
  unfold ellswiftXRZero
  infer_instance

instance (mode : ℕ) (u32 : Bytes 32) (pk : T.Pubkey) :
    ZeroBlind (ellswiftInv mode u32 pk) := by
  unfold ellswiftInv
  cases EllswiftInvKind.cast ((mode >>> 3) % ellswiftInvKinds) <;> infer_instance

instance (seckey : Bytes 32) (aux : Option (Bytes 32)) (fallback : Bytes 64) :
    ZeroBlind (ellswiftOwnEncoding seckey aux fallback : Harness T (Bytes 64)) := by
  unfold ellswiftOwnEncoding
  infer_instance

instance (ellA64 ellB64 : Bytes 64) (seckey : Bytes 32) (party : Int32)
    (hashfp : EllswiftXdhHashFn) (data : Bytes 64) : ZeroBlind
    (ellswiftSecret ellA64 ellB64 seckey party hashfp data : Harness T Unit) := by
  unfold ellswiftSecret
  infer_instance

instance : ZeroBlind (targetEllswift : Harness T Unit) := by
  unfold targetEllswift ellswiftRecordPubkey
  infer_instance

/-! ## Musig -/

instance (slots : List (Fin 3)) :
    ZeroBlind (musigReadSigners slots : Harness T (List MusigSigner)) := by
  induction slots with
  | nil => exact Blind.pure []
  | cons slot slots ih =>
      unfold musigReadSigners
      infer_instance

instance : ZeroBlind (musigRead : Harness T MusigInput) := by
  unfold musigRead
  infer_instance

instance (signers : List MusigSigner) :
    ZeroBlind (musigKeys signers : Harness T (Option (List (MusigKeys T)))) := by
  induction signers with
  | nil => exact Blind.pure _
  | cons signer signers ih =>
      unfold musigKeys
      infer_instance

instance (cache : T.KeyaggCache) : ZeroBlind (musigRecordTweaked cache) := by
  unfold musigRecordTweaked musigRecordPubkey
  infer_instance

instance (flags : ℕ) (keys : List (MusigKeys T)) :
    ZeroBlind (musigAggregate flags keys) := by
  unfold musigAggregate
  infer_instance

instance (cache : KeyaggCacheInternal T) (keys : List (MusigKeys T)) (d : T.Scalar) :
    ZeroBlind (musigSecretSum cache keys d) := by
  induction keys generalizing d with
  | nil => exact Blind.pure d
  | cons key keys ih =>
      unfold musigSecretSum
      infer_instance

instance (cache : T.KeyaggCache) (keys : List (MusigKeys T)) (xonly : Bool) :
    ZeroBlind (musigCancelTweak cache keys xonly) := by
  unfold musigCancelTweak
  infer_instance

instance (xonly cancel output : Bool) (tweak32 : Bytes 32) (keys : List (MusigKeys T))
    (st : MusigAgg T) :
    ZeroBlind (musigTweak xonly cancel output tweak32 keys st) := by
  unfold musigTweak
  infer_instance

instance (mi : MusigInput) (keys : List (MusigKeys T)) (st : MusigAgg T) :
    ZeroBlind (musigTweaks mi keys st) := by
  unfold musigTweaks
  infer_instance

instance (mi : MusigInput) (cache : T.KeyaggCache) (key : MusigKeys T) :
    ZeroBlind (musigNonceGen mi cache key) := by
  unfold musigNonceGen
  infer_instance

instance (mi : MusigInput) (cache : T.KeyaggCache) (keys : List (MusigKeys T)) :
    ZeroBlind (musigNonces mi cache keys) := by
  induction keys with
  | nil => exact Blind.pure _
  | cons key keys ih =>
      unfold musigNonces
      infer_instance

instance (mi : MusigInput) (nonces : List (MusigNonces T)) :
    ZeroBlind (musigPubnonces mi nonces) := by
  unfold musigPubnonces
  infer_instance

instance (mi : MusigInput) (cache : T.KeyaggCache) (pubnonces : List T.Pubnonce) :
    ZeroBlind (musigSession mi cache pubnonces) := by
  unfold musigSession
  infer_instance

instance (cache : T.KeyaggCache) (session : T.Session) (nonces : List (MusigNonces T)) :
    ZeroBlind (musigPartialSigns cache session nonces) := by
  induction nonces with
  | nil => exact Blind.pure _
  | cons nonce nonces ih =>
      unfold musigPartialSigns
      infer_instance

instance (cache : T.KeyaggCache) (session : T.Session) (sigs : List (MusigSigs T)) :
    ZeroBlind (musigPartialVerifies cache session sigs) := by
  induction sigs with
  | nil => exact Blind.pure _
  | cons sig sigs ih =>
      unfold musigPartialVerifies
      infer_instance

instance (mi : MusigInput) (cache : T.KeyaggCache) (session : T.Session)
    (sigs : List (MusigSigs T)) :
    ZeroBlind (musigPartialSigs mi cache session sigs) := by
  unfold musigPartialSigs
  cases sigs[mi.victim]? <;> infer_instance

instance (mi : MusigInput) (agg : T.Pubkey) (session : T.Session)
    (psigs : List T.PartialSig) :
    ZeroBlind (musigFinish mi agg session psigs) := by
  unfold musigFinish
  infer_instance

instance (mi : MusigInput) (keys : List (MusigKeys T)) (st : MusigAgg T) :
    ZeroBlind (musigSign mi keys st) := by
  unfold musigSign
  infer_instance

instance : ZeroBlind (targetMusig : Harness T Unit) := by
  unfold targetMusig
  infer_instance

/-! ## Silent payments -/

instance : ZeroBlind (spRead : Harness T SpInput) := by
  unfold spRead
  infer_instance

instance (pk : T.XonlyPubkey) : ZeroBlind (spRecordXonly pk) := by
  unfold spRecordXonly
  infer_instance

instance (pks : List T.XonlyPubkey) : ZeroBlind (spRecordXonlys pks) := by
  induction pks with
  | nil => exact Blind.pure ()
  | cons pk pks ih =>
      unfold spRecordXonlys
      infer_instance

instance (in33 : Bytes 33) : ZeroBlind (spLabelRoundtrip in33 : Harness T Unit) := by
  unfold spLabelRoundtrip
  infer_instance

instance (found : SpFoundOutput T) : ZeroBlind (spRecordFound found) := by
  unfold spRecordFound
  infer_instance

instance (found : ℕ → SpFoundOutput T) (start count : ℕ) :
    ZeroBlind (spRecordFounds found start count) := by
  induction count generalizing start with
  | zero => exact Blind.pure ()
  | succ count ih =>
      unfold spRecordFounds
      infer_instance

instance (scanKey : Bytes 32) (tx : List T.XonlyPubkey) (summary : T.SpSummary)
    (spendPk : T.Pubkey) (cache : Option SpLabelCache) :
    ZeroBlind (spScanRecord scanKey tx summary spendPk cache) := by
  unfold spScanRecord
  infer_instance

instance (limits : SpLimits) (si : SpInput) (nOutputs : ℕ) :
    ZeroBlind (spForeign limits si nOutputs : Harness T (List T.XonlyPubkey × ℕ)) := by
  unfold spForeign
  infer_instance

instance (limits : SpLimits) (si : SpInput) (outputs : List T.XonlyPubkey)
    (twin : Option T.XonlyPubkey) (summary : T.SpSummary) (spendPk : T.Pubkey)
    (cache : Option SpLabelCache) :
    ZeroBlind (spScan limits si outputs twin summary spendPk cache) := by
  unfold spScan
  infer_instance

instance (taproot : Bool) (seckey : Bytes 32) (keys : SpKeys T) :
    ZeroBlind (spInputKey taproot seckey keys) := by
  unfold spInputKey
  infer_instance

instance (kinds i : ℕ) (seckeys : List (Bytes 32)) (keys : SpKeys T) :
    ZeroBlind (spInputKeys kinds i seckeys keys) := by
  induction seckeys generalizing i keys with
  | nil => exact Blind.pure keys
  | cons seckey seckeys ih =>
      unfold spInputKeys
      infer_instance

instance (si : SpInput) (labeled : SpLabeled T) : ZeroBlind (spRawTweak si labeled) := by
  unfold spRawTweak
  infer_instance

instance (si : SpInput) (spendPk : T.Pubkey) : ZeroBlind (spLabel si spendPk) := by
  unfold spLabel spRecordPubkey
  infer_instance

instance (spendPk : T.Pubkey) : ZeroBlind (spLabelCancel spendPk) := by
  unfold spLabelCancel
  infer_instance

instance (limits : SpLimits) (si : SpInput) (scanPk spendPk : T.Pubkey) (keys : SpKeys T)
    {n : ℕ} (hn : 0 < n) (outputs : Fin n → T.XonlyPubkey) (summary : T.SpSummary) :
    ZeroBlind (spLimit limits si scanPk spendPk keys hn outputs summary) := by
  unfold spLimit
  infer_instance

instance (si : SpInput) :
    ZeroBlind (spParties si : Harness T (Option (SpParties T))) := by
  unfold spParties
  infer_instance

instance (si : SpInput) (st : SpParties T) : ZeroBlind (spSend si st) := by
  unfold spSend
  infer_instance

instance (si : SpInput) (st : SpParties T) (sent : Bool) :
    ZeroBlind (spTwin si st sent) := by
  unfold spTwin
  cases st.labeled <;> infer_instance

instance (limits : SpLimits) (inp : List UInt8) (si : SpInput) (st : SpParties T)
    (sent : Option (Fin si.nRecipients → T.XonlyPubkey)) (twin : Option T.XonlyPubkey) :
    ZeroBlind (spReceive limits inp si st sent twin) := by
  unfold spReceive
  cases sent <;> infer_instance

instance (limits : SpLimits) (inp : List UInt8) :
    ZeroBlind (targetSilentpayments limits inp : Harness T Unit) := by
  unfold targetSilentpayments
  infer_instance

/-! The group limit depends on the hash of the whole input, behind a flag in
the first byte. -/

theorem spRead_flags {σ : Type} (lib : Build T σ) (r : List UInt8) (s : σ) :
    (spRead.run reader lib r s).val.flags = (r.getD 0 0).toNat := by
  have hbyte :
      ((readerU8 : Harness T ℕ).run reader lib r s).val = (r.getD 0 0).toNat := by
    simp only [readerU8, Prog.run_bind, Prog.run_pure]
    exact congrArg UInt8.toNat (readerTakeBytes_getElem r 1 0 Nat.one_pos)
  simp only [spRead, Prog.run_bind, Prog.run_pure]
  exact hbyte

theorem spReceive_limit_clear {si : SpInput} (hflag : si.flags &&& SpFlag.limit = 0)
    (limits : SpLimits) (inp inp' : List UInt8) (st : SpParties T)
    (sent : Option (Fin si.nRecipients → T.XonlyPubkey)) (twin : Option T.XonlyPubkey) :
    spReceive limits inp si st sent twin = spReceive limits inp' si st sent twin := by
  simp only [spReceive, hflag, ne_eq, not_true_eq_false, false_and, if_false]

theorem targetSilentpayments_limit_clear {σ : Type} (lib : Build T σ) (limits : SpLimits)
    (inp inp' r : List UInt8) (s : σ) (hflag : (r.getD 0 0).toNat &&& SpFlag.limit = 0) :
    (targetSilentpayments limits inp : Harness T Unit).run reader lib r s
      = (targetSilentpayments limits inp').run reader lib r s := by
  rw [← spRead_flags lib r s] at hflag
  unfold targetSilentpayments
  rw [Prog.run_bind, Prog.run_bind]
  simp only [spReceive_limit_clear hflag limits inp inp']

/-! ## Every fixed format -/

/-- The targets that only take bytes: silent payments where the flag of the
group limit is clear. -/
def TargetName.FixedFormat (inp : List UInt8) : TargetName → Prop
  | .schnorrsig | .recovery | .ellswift | .musig => True
  | .silentpayments => (inp.getD 0 0).toNat &&& SpFlag.limit = 0
  | .ecdsa | .field | .scalar | .group | .keys => False

theorem ZeroBlind.transcript {p : Harness T α} (hp : ZeroBlind p) {σ : Type}
    (lib : Build T σ) (s : σ) (cap : ℕ) (inp : List UInt8) (k : ℕ) :
    transcriptFor p lib s cap (inp ++ List.replicate k 0) =
      transcriptFor p lib s cap inp := by
  have hsame := hp.same lib inp (inp ++ List.replicate k 0) s ⟨k, rfl⟩
  rw [transcriptFor, transcriptFor, hsame.out]

/-- The transcript of such a target is that of the input with zeros after
it. -/
theorem TargetName.transcript_zeros {σ : Type} (lib : Build T σ) (limits : SpLimits)
    (s : σ) (cap : ℕ) (inp : List UInt8) (k : ℕ) (t : TargetName)
    (ht : t.FixedFormat inp) :
    transcriptFor (t.target limits (inp ++ List.replicate k 0)) lib s cap
      (inp ++ List.replicate k 0)
      = transcriptFor (t.target limits inp) lib s cap inp := by
  cases t with
  | schnorrsig =>
      exact ZeroBlind.transcript (p := targetSchnorrsig) inferInstance lib s cap inp k
  | recovery =>
      exact ZeroBlind.transcript (p := targetRecovery) inferInstance lib s cap inp k
  | ellswift =>
      exact ZeroBlind.transcript (p := targetEllswift) inferInstance lib s cap inp k
  | musig => exact ZeroBlind.transcript (p := targetMusig) inferInstance lib s cap inp k
  | silentpayments =>
      -- the flag is the same in both inputs, and clear
      have hflag : ((inp ++ List.replicate k 0).getD 0 0).toNat &&& SpFlag.limit = 0 := by
        rw [getD_zeros]
        exact ht
      calc transcriptFor
            (targetSilentpayments limits (inp ++ List.replicate k 0)) lib s cap
              (inp ++ List.replicate k 0)
          = transcriptFor (targetSilentpayments limits inp) lib s cap
            (inp ++ List.replicate k 0) := by
            rw [transcriptFor,
              targetSilentpayments_limit_clear lib limits _ inp _ s hflag, transcriptFor]
        _ = transcriptFor (targetSilentpayments limits inp) lib s cap inp :=
            ZeroBlind.transcript inferInstance lib s cap inp k
  | _ => exact ht.elim

/-- An input of the label flag alone, against the reference build: the rest of
the format, its late fields included, reads as zero. -/
theorem TargetName.transcript_zeros_label :
    transcriptFor (TargetName.silentpayments.target ⟨2323, 128⟩
      ([1] ++ List.replicate 500 0)) refLib ()
        transcriptMax ([1] ++ List.replicate 500 0)
      = transcriptFor (TargetName.silentpayments.target ⟨2323, 128⟩ [1]) refLib
        () transcriptMax [1] :=
  TargetName.transcript_zeros refLib ⟨2323, 128⟩ () transcriptMax [1] 500 .silentpayments
    (show (([1] : List UInt8).getD 0 0).toNat &&& SpFlag.limit = 0 by decide)

end Diffsecp
