import Diffsecp.Length.Basic
import Diffsecp.Musig.Target
import Diffsecp.Silentpayments.Transaction

/-!
# Length — Protocols

How much the MuSig2 and silent payments targets put. Both depend on counts
that the targets bound: the signers, and the outputs of the transaction that
is scanned.
-/

namespace Diffsecp

open Interact

variable {T : Types} {α β : Type} {P : α → Prop} {m n : ℕ}

/-- A stage that may stop the target, and what follows it otherwise. -/
theorem puts_stage {p : Harness T (Option β)} {f : Option β → Harness T α} {S : β → Prop}
    (hp : Puts reader (documentedSizes T) p m fun o => ∀ b, o = some b → S b)
    (hnone : Puts reader (documentedSizes T) (f none) n P)
    (hsome : ∀ b, S b → Puts reader (documentedSizes T) (f (some b)) n P) :
    Puts reader (documentedSizes T) (p >>= f) (n + m) P := by
  apply Puts.bind hp
  intro o ho
  cases o with
  | none => exact hnone
  | some b => exact hsome b (ho b rfl)

/-! ## Musig -/

theorem puts_musigReadSigners (slots : List (Fin 3)) :
    Puts reader (documentedSizes T) (musigReadSigners slots) 0 fun signers =>
      signers.length = slots.length := by
  induction slots with
  | nil => exact Puts.pure rfl
  | cons slot slots ih =>
      apply puts_readerTake
      intro seckey
      apply puts_readerTake
      intro secrand
      apply Puts.bind (n := 0) ih
      intro signers hlen
      exact Puts.pure (congrArg (· + 1) hlen)

/-- There are one to three signers. -/
theorem puts_musigRead :
    Puts reader (documentedSizes T) musigRead 0 fun mi => 0 < mi.signers.length ∧
      mi.signers.length ≤ 3 := by
  apply puts_readerU8
  intro flags
  apply puts_readerU8
  intro k
  apply puts_readerU8
  intro victim
  iterate 4
    apply puts_readerTake
    intro _
  apply Puts.bind (n := 0) (puts_musigReadSigners _)
  intro signers hlen
  iterate 3
    apply puts_readerTake
    intro _
  apply puts_readerU8
  intro late
  apply Puts.pure
  rw [List.length_take, List.length_finRange] at hlen
  exact ⟨by simp only [hlen]; omega, by simp only [hlen]; omega⟩

theorem puts_musigKeys (signers : List MusigSigner) :
    Puts reader (documentedSizes T) (musigKeys signers) (4 * signers.length) fun o =>
      ∀ keys, o = some keys → keys.length = signers.length := by
  induction signers with
  | nil =>
      apply Puts.pure
      intro keys hkeys
      cases hkeys
      rfl
  | cons signer signers ih =>
      apply puts_call
      intro ⟨ok, keypair⟩
      apply puts_int (n := 4 * signers.length)
      apply Puts.ite
      · intro _
        exact Puts.pure nofun
      · intro _
        apply puts_call
        intro ⟨_, pubkey⟩
        rw [← Nat.zero_add (4 * signers.length)]
        apply puts_stage ih
        · exact Puts.pure nofun
        · intro keys hlen
          apply Puts.pure
          intro keys' hkeys'
          cases hkeys'
          exact congrArg (· + 1) hlen

theorem writes_musigRecordTweaked (cache : T.KeyaggCache) :
    Writes (musigRecordTweaked cache) 37 := by
  apply puts_call
  intro ⟨ret, agg⟩
  apply puts_int (n := 33)
  apply writes_bind (n := 0) (writes_recordPubkey true agg)
  intro _
  exact writes_pure

theorem writes_musigAggregate (flags : Nat) (keys : List (MusigKeys T)) :
    Writes (musigAggregate flags keys) 81 := by
  apply writes_ite (n := 77) (m := 4)
  · intro _
    apply puts_call
    intro ⟨ret, sorted⟩
    apply puts_int (n := 0)
    exact writes_pure
  · intro _
    exact writes_pure
  intro ptrs
  apply puts_call
  intro ⟨ok, aggXonly, cache⟩
  apply puts_int (n := 73)
  apply Puts.ite
  · intro _
    exact writes_pure
  · intro _
    apply puts_call
    intro ⟨_, ser⟩
    apply puts_array (n := 41)
    apply writes_bind (n := 4) (writes_musigRecordTweaked cache)
    intro st
    apply puts_call
    intro ⟨ret, _⟩
    apply puts_int (n := 0)
    exact writes_pure

theorem writes_musigSecretSum (cache : KeyaggCacheInternal T) (keys : List (MusigKeys T))
    (d : T.Scalar) :
    Writes (musigSecretSum cache keys d) 0 := by
  induction keys generalizing d with
  | nil => exact writes_pure
  | cons key keys ih =>
      iterate 5
        apply puts_call
        intro _
      exact ih _

theorem writes_musigCancelTweak (cache : T.KeyaggCache) (keys : List (MusigKeys T))
    (xonly : Bool) :
    Writes (musigCancelTweak cache keys xonly) 0 := by
  apply puts_call
  intro ⟨_, cacheI⟩
  apply puts_call
  intro d
  apply writes_bind (n := 0) (writes_musigSecretSum cacheI keys d)
  intro d
  apply writes_ite (n := 0) (m := 0) (fun _ => writes_call_end) fun _ => writes_pure
  intro d
  apply puts_call
  intro ⟨_, d⟩
  apply puts_call
  intro y
  apply writes_ite (n := 0) (m := 0)
  · intro _
    apply puts_call
    intro odd
    exact Puts.ite (fun _ => writes_call_end) fun _ => writes_pure
  · intro _
    exact writes_call_end
  intro d
  exact writes_call_end

theorem writes_musigTweak (xonly cancel output : Bool) (tweak32 : Bytes 32)
    (keys : List (MusigKeys T)) (st : MusigAgg T) :
    Writes (musigTweak xonly cancel output tweak32 keys st) 41 := by
  apply writes_ite (n := 41) (fun _ => writes_musigCancelTweak _ _ _) fun _ => writes_pure
  intro tweak32
  apply puts_call
  intro ⟨ok, _, cache⟩
  apply puts_int (n := 37)
  apply Puts.ite
  · intro _
    exact writes_pure
  · intro _
    apply writes_bind (n := 0) (writes_musigRecordTweaked cache)
    intro st
    exact writes_pure

theorem writes_musigTweaks (mi : MusigInput) (keys : List (MusigKeys T))
    (st : MusigAgg T) :
    Writes (musigTweaks mi keys st) 82 := by
  apply writes_ite (n := 41) (fun _ => writes_musigTweak _ _ _ _ _ _) fun _ => writes_pure
  intro st?
  cases st? with
  | none => exact writes_pure
  | some st =>
      exact Puts.ite (fun _ => writes_musigTweak _ _ _ _ _ _) fun _ => writes_pure

theorem writes_musigNonceGen (mi : MusigInput) (cache : T.KeyaggCache)
    (key : MusigKeys T) :
    Writes (musigNonceGen mi cache key) 0 :=
  Puts.ite (fun _ => writes_call_end) fun _ => writes_call_end

theorem puts_musigNonces (mi : MusigInput) (cache : T.KeyaggCache)
    (keys : List (MusigKeys T)) :
    Puts reader (documentedSizes T) (musigNonces mi cache keys)
      (70 * keys.length) fun o =>
      ∀ nonces, o = some nonces → nonces.length = keys.length := by
  induction keys with
  | nil =>
      apply Puts.pure
      intro nonces hnonces
      cases hnonces
      rfl
  | cons key keys ih =>
      apply writes_bind (m := 0) (writes_musigNonceGen mi cache key)
      intro ⟨ok, secnonce, pubnonce⟩
      apply puts_int (n := 70 * keys.length + 66)
      apply Puts.ite
      · intro _
        exact Puts.pure nofun
      · intro _
        apply puts_call
        intro ⟨_, ser⟩
        apply puts_array
        rw [← Nat.zero_add (70 * keys.length)]
        apply puts_stage ih
        · exact Puts.pure nofun
        · intro nonces hlen
          apply Puts.pure
          intro nonces' hnonces'
          cases hnonces'
          exact congrArg (· + 1) hlen

theorem writes_musigPubnonces (mi : MusigInput) (nonces : List (MusigNonces T)) :
    Writes (musigPubnonces mi nonces) 4 := by
  apply Puts.ite
  · intro _
    apply puts_call
    intro ⟨ok, fuzzed⟩
    apply puts_int (n := 0)
    exact writes_pure
  · intro _
    exact writes_pure

theorem writes_musigSession (mi : MusigInput) (cache : T.KeyaggCache)
    (pubnonces : List T.Pubnonce) :
    Writes (musigSession mi cache pubnonces) 78 := by
  apply puts_call
  intro ⟨ok, aggnonce⟩
  apply puts_int (n := 74)
  apply Puts.ite
  · intro _
    exact writes_pure
  · intro _
    apply writes_ite (n := 70) (m := 4)
    · intro _
      apply puts_call
      intro ⟨ok, fuzzed⟩
      apply puts_int (n := 0)
      exact writes_pure
    · intro _
      exact writes_pure
    intro aggnonce
    apply puts_call
    intro ⟨_, ser⟩
    apply puts_array (n := 4)
    apply puts_call
    intro ⟨ok, session⟩
    apply puts_int (n := 0)
    exact writes_pure

theorem puts_musigPartialSigns (cache : T.KeyaggCache) (session : T.Session)
    (nonces : List (MusigNonces T)) :
    Puts reader (documentedSizes T) (musigPartialSigns cache session nonces)
      (36 * nonces.length) fun o =>
      ∀ sigs, o = some sigs → sigs.length = nonces.length := by
  induction nonces with
  | nil =>
      apply Puts.pure
      intro sigs hsigs
      cases hsigs
      rfl
  | cons nonce nonces ih =>
      apply puts_call
      intro ⟨ok, psig, _⟩
      apply puts_int (n := 36 * nonces.length + 32)
      apply Puts.ite
      · intro _
        exact Puts.pure nofun
      · intro _
        apply puts_call
        intro ⟨_, ser⟩
        apply puts_array
        rw [← Nat.zero_add (36 * nonces.length)]
        apply puts_stage ih
        · exact Puts.pure nofun
        · intro sigs hlen
          apply Puts.pure
          intro sigs' hsigs'
          cases hsigs'
          exact congrArg (· + 1) hlen

theorem writes_musigPartialVerifies (cache : T.KeyaggCache) (session : T.Session)
    (sigs : List (MusigSigs T)) :
    Writes (musigPartialVerifies cache session sigs) (4 * sigs.length) := by
  induction sigs with
  | nil => exact writes_pure
  | cons sig sigs ih =>
      apply puts_call
      intro ret
      apply puts_int
      exact ih

theorem writes_musigPartialSigs (mi : MusigInput) (cache : T.KeyaggCache)
    (session : T.Session) (sigs : List (MusigSigs T)) :
    Writes (musigPartialSigs mi cache session sigs) 8 := by
  apply Puts.ite
  · intro _
    apply puts_call
    intro ⟨ok, fuzzed⟩
    apply puts_int (n := 4)
    apply Puts.ite
    · intro _
      cases sigs[mi.victim]? with
      | none => exact writes_pure
      | some victim =>
          apply puts_call
          intro ret
          apply puts_int (n := 0)
          exact writes_pure
    · intro _
      exact writes_pure
  · intro _
    exact writes_pure

theorem writes_musigFinish (mi : MusigInput) (agg : T.Pubkey) (session : T.Session)
    (psigs : List T.PartialSig) : Writes (musigFinish mi agg session psigs) 76 := by
  apply puts_call
  intro ⟨ok, sig64⟩
  apply puts_int (n := 72)
  apply Puts.ite
  · intro _
    apply puts_array (n := 8)
    apply puts_call
    intro ⟨_, aggXonly, parity⟩
    apply puts_int (n := 4)
    apply puts_call
    intro ret
    exact puts_int_end (n := 0)
  · intro _
    exact writes_pure

theorem writes_musigSign (mi : MusigInput) (keys : List (MusigKeys T)) (st : MusigAgg T)
    (hkeys : keys.length ≤ 3) : Writes (musigSign mi keys st) 496 := by
  apply puts_stage (n := 286)
    ((puts_musigNonces mi st.cache keys).weaken (n := 210) (by omega))
  · exact writes_pure
  intro nonces hnonces
  apply writes_bind (n := 282) (writes_musigPubnonces mi nonces)
  intro pubnonces
  apply writes_bind (n := 204) (writes_musigSession mi st.cache pubnonces)
  intro session?
  cases session? with
  | none => exact writes_pure
  | some session =>
      apply puts_stage (n := 96)
        ((puts_musigPartialSigns st.cache session nonces).weaken (n := 108) (by omega))
      · exact writes_pure
      intro sigs hsigs
      apply writes_bind (n := 84) (m := 12)
        ((writes_musigPartialVerifies st.cache session sigs).weaken (by omega))
      intro _
      apply writes_bind (n := 76) (writes_musigPartialSigs mi st.cache session sigs)
      intro psigs
      exact writes_musigFinish mi st.agg session psigs

theorem writes_targetMusig : Writes (targetMusig : Harness T Unit) 671 := by
  apply Puts.bind (n := 671) puts_musigRead
  intro mi hmi
  apply puts_stage (n := 659) ((puts_musigKeys mi.signers).weaken (n := 12) (by omega))
  · exact writes_pure
  intro keys hkeys
  apply writes_bind (n := 578) (writes_musigAggregate mi.flags keys)
  intro st?
  cases st? with
  | none => exact writes_pure
  | some st =>
      apply writes_bind (n := 496) (writes_musigTweaks mi keys st)
      intro st?
      cases st? with
      | none => exact writes_pure
      | some st => exact writes_musigSign mi keys st (by omega)

theorem wrote_musigKeys (signers : List MusigSigner) (h : 0 < signers.length) :
    Wrote reader (documentedSizes T) (musigKeys signers) := by
  have hfree := documentedSizes_free T
  cases signers with
  | nil => cases h
  | cons signer signers =>
      apply Wrote.invoke_bind hfree
      intro ⟨ok, keypair⟩
      exact wrote_int hfree

/-- Whether the first signer's key is valid is always recorded. -/
theorem wrote_targetMusig : Wrote reader (documentedSizes T) targetMusig := by
  apply Wrote.bind_right puts_musigRead
  intro mi hmi
  exact Wrote.bind_left (documentedSizes_free T) (wrote_musigKeys mi.signers hmi.1)

/-! ## Silentpayments -/

theorem writes_spRead : Writes (spRead : Harness T SpInput) 0 := by
  apply puts_readerU8
  intro flags
  apply puts_readerTake
  intro outpoint
  apply puts_readerU8
  intro inputs
  apply puts_readerU8
  intro kinds
  apply writes_bind (n := 0) (writes_readerTakes 32 _)
  intro seckey
  iterate 3
    apply puts_readerTake
    intro _
  apply puts_readerU16
  intro hi
  apply puts_readerU16
  intro lo
  apply puts_readerU8
  intro recipients
  apply puts_readerU8
  intro labeled
  apply puts_readerTake
  intro output
  apply puts_readerU8
  intro outPos
  apply puts_readerTake
  intro label
  apply puts_readerU8
  intro extra
  apply puts_readerTake
  intro rawTweak
  exact writes_pure

theorem writes_spRecordXonly (pk : T.XonlyPubkey) : Writes (spRecordXonly pk) 32 := by
  apply puts_call
  intro ⟨_, ser⟩
  exact puts_array_end (n := 0)

theorem writes_spRecordXonlys (pks : List T.XonlyPubkey) :
    Writes (spRecordXonlys pks) (32 * pks.length) := by
  induction pks with
  | nil => exact writes_pure
  | cons pk pks ih => exact writes_bind (writes_spRecordXonly pk) fun _ => ih

theorem writes_spLabelRoundtrip (in33 : Bytes 33) :
    Writes (spLabelRoundtrip in33 : Harness T Unit) 37 := by
  apply puts_call
  intro ⟨ok, label⟩
  apply puts_int (n := 33)
  apply Puts.ite
  · intro _
    apply puts_call
    intro ⟨_, ser⟩
    exact puts_array_end (n := 0)
  · intro _
    exact writes_pure

/-- The output, its tweak, and the label where it was found with one. -/
theorem writes_spRecordFound (found : SpFoundOutput T) :
    Writes (spRecordFound found) 101 := by
  apply writes_bind (n := 69) (writes_spRecordXonly found.output)
  intro _
  apply puts_array (n := 37)
  apply puts_int (n := 33)
  apply Puts.ite
  · intro _
    apply puts_call
    intro ⟨_, ser⟩
    exact puts_array_end (n := 0)
  · intro _
    exact writes_pure

theorem writes_spRecordFounds (found : Nat → SpFoundOutput T) (start count : Nat) :
    Writes (spRecordFounds found start count) (101 * count) := by
  induction count generalizing start with
  | zero => exact writes_pure
  | succ count ih =>
      exact writes_bind (writes_spRecordFound (found start)) fun _ => ih (start + 1)

/-- No more outputs are recorded than the transaction has. -/
theorem writes_spScanRecord (scanKey : Bytes 32) (tx : List T.XonlyPubkey)
    (summary : T.SpSummary) (spendPk : T.Pubkey) (cache : Option SpLabelCache) :
    Writes (spScanRecord scanKey tx summary spendPk cache) (101 * tx.length + 8) := by
  apply Puts.invoke_bind (documentedSizes_free T)
  intro _ ⟨ok, nFound, found⟩ hfound
  apply puts_int (n := 101 * tx.length + 4)
  apply Puts.ite
  · intro _
    exact writes_pure
  · intro hok
    apply puts_u32 (n := 101 * tx.length)
    have hle := hfound hok
    exact (writes_spRecordFounds found 0 nFound.toNat).weaken (by omega)

theorem puts_spForeign (limits : SpLimits) (si : SpInput) (nOutputs : Nat)
    (hlimits : limits.labelBatchSize ≤ 128) :
    Puts reader (documentedSizes T) (spForeign limits si nOutputs) 0 fun foreign =>
      foreign.1.length ≤ 128 := by
  apply Puts.ite
  · intro _
    apply puts_call
    intro ⟨ok, foreign⟩
    apply Puts.pure
    by_cases hok : ok ≠ 0
    · rw [if_pos hok, List.length_replicate]
      split <;> omega
    · rw [if_neg hok]
      exact Nat.zero_le 128
  · intro _
    exact Puts.pure (Nat.zero_le 128)

/-- The scan of at most 132 outputs. -/
theorem writes_spScan (limits : SpLimits) (si : SpInput) (outputs : List T.XonlyPubkey)
    (twin : Option T.XonlyPubkey) (summary : T.SpSummary) (spendPk : T.Pubkey)
    (cache : Option SpLabelCache) (hlimits : limits.labelBatchSize ≤ 128)
    (houtputs : outputs.length ≤ 3) :
    Writes (spScan limits si outputs twin summary spendPk cache) 13340 := by
  apply Puts.bind (n := 13340) (puts_spForeign limits si _ hlimits)
  intro ⟨foreigns, pos⟩ hforeigns
  apply (writes_spScanRecord _ _ _ _ _).weaken
  have htx : (spTx twin outputs foreigns pos).length ≤
      1 + outputs.length + foreigns.length := spTx_length_le
  have hforeigns' : foreigns.length ≤ 128 := hforeigns
  omega

theorem writes_spInputKey (taproot : Bool) (seckey : Bytes 32) (keys : SpKeys T) :
    Writes (spInputKey taproot seckey keys) 4 := by
  apply Puts.ite
  · intro _
    apply puts_call
    intro ⟨ok, keypair⟩
    apply puts_int (n := 0)
    apply Puts.ite
    · intro _
      apply puts_call
      intro ⟨_, xonly, _⟩
      exact writes_pure
    · intro _
      exact writes_pure
  · intro _
    apply puts_call
    intro ⟨ok, pubkey⟩
    apply puts_int (n := 0)
    exact Puts.ite (fun _ => writes_pure) fun _ => writes_pure

theorem writes_spInputKeys (kinds i : Nat) (seckeys : List (Bytes 32)) (keys : SpKeys T) :
    Writes (spInputKeys kinds i seckeys keys) (4 * seckeys.length) := by
  induction seckeys generalizing i keys with
  | nil => exact writes_pure
  | cons seckey seckeys ih =>
      apply writes_bind (n := 4 * seckeys.length) (writes_spInputKey _ seckey keys)
      intro keys
      exact ih (i + 1) keys

theorem writes_spRawTweak (si : SpInput) (labeled : SpLabeled T) :
    Writes (spRawTweak si labeled) 0 := by
  apply Puts.ite
  · intro _
    apply puts_call
    intro ⟨rawTweak, _⟩
    apply puts_call
    intro tweak32
    exact writes_pure
  · intro _
    exact writes_pure

theorem writes_spLabel (si : SpInput) (spendPk : T.Pubkey) :
    Writes (spLabel si spendPk) 106 := by
  apply Puts.ite
  · intro _
    apply puts_call
    intro ⟨ok, label, tweak32⟩
    apply puts_int (n := 102)
    apply Puts.ite
    · intro _
      exact writes_pure
    · intro _
      apply puts_call
      intro ⟨_, label33⟩
      apply puts_array (n := 69)
      apply puts_array (n := 37)
      apply puts_call
      intro ⟨ok, labeledPk⟩
      apply puts_int (n := 33)
      apply Puts.ite
      · intro _
        exact writes_pure
      · intro _
        apply writes_bind (n := 0) (writes_recordPubkey true labeledPk)
        intro _
        apply writes_bind (n := 0) (writes_spRawTweak si _)
        intro labeled
        exact writes_pure
  · intro _
    exact writes_pure

theorem writes_spLabelCancel (spendPk : T.Pubkey) : Writes (spLabelCancel spendPk) 8 := by
  apply puts_call
  intro ⟨_, neg⟩
  apply puts_call
  intro ⟨_, ser⟩
  apply puts_call
  intro ⟨ok, label⟩
  apply puts_int (n := 4)
  apply Puts.ite
  · intro _
    apply puts_call
    intro ⟨ret, _⟩
    exact puts_int_end (n := 0)
  · intro _
    exact writes_pure

/-- The scan of one output more than the limit. -/
theorem writes_spLimit (limits : SpLimits) (si : SpInput) (scanPk spendPk : T.Pubkey)
    (keys : SpKeys T) {n : Nat} (hn : 0 < n) (outputs : Fin n → T.XonlyPubkey)
    (summary : T.SpSummary) (hlimits : limits.groupLimit = 2323) :
    Writes (spLimit limits si scanPk spendPk keys hn outputs summary) 234736 := by
  apply puts_call
  intro ⟨ret, _⟩
  apply puts_int (n := 234732)
  apply (writes_spScanRecord _ _ _ _ _).weaken
  rw [List.length_ofFn, hlimits]

theorem writes_spParties (si : SpInput) : Writes (spParties si : Harness T _) 138 := by
  apply writes_bind (n := 126) (m := 12)
  · apply (writes_spInputKeys _ _ _ _).weaken
    have hinputs := si.nInputs_le
    rw [spMaxInputs] at hinputs
    rw [Vector.length_toList]
    omega
  intro keys
  apply puts_call
  intro ⟨ok, scanPk⟩
  apply puts_int (n := 122)
  apply Puts.ite
  · intro _
    exact writes_pure
  · intro _
    apply puts_call
    intro ⟨ok, spendPk⟩
    apply puts_int (n := 118)
    apply Puts.ite
    · intro _
      exact writes_pure
    · intro _
      apply writes_bind (n := 12) (writes_spLabel si spendPk)
      intro labeled
      apply writes_ite (n := 4) (fun _ => writes_spLabelCancel spendPk) fun _ =>
        writes_pure
      intro _
      apply writes_ite (n := 0) (m := 4)
      · intro _
        apply puts_call
        intro ⟨ok, foreignPk⟩
        apply puts_int (n := 0)
        exact writes_pure
      · intro _
        exact writes_pure
      intro foreignPk
      exact writes_pure

theorem writes_spSend (si : SpInput) (st : SpParties T) : Writes (spSend si st) 100 := by
  apply Puts.ite
  · intro _
    apply puts_call
    intro ⟨sent, outputs⟩
    apply puts_int (n := 96)
    apply Puts.ite
    · intro _
      apply writes_bind (n := 0) (m := 96)
      · apply (writes_spRecordXonlys _).weaken
        have hrecipients := si.nRecipients_le
        rw [spMaxRecipients] at hrecipients
        rw [List.length_ofFn]
        omega
      intro _
      exact writes_pure
    · intro _
      exact writes_pure
  · intro _
    exact writes_pure

theorem writes_spTwin (si : SpInput) (st : SpParties T) (sent : Bool) :
    Writes (spTwin si st sent) 36 := by
  unfold spTwin
  cases st.labeled with
  | none => exact writes_pure
  | some labeled =>
      apply Puts.ite
      · intro _
        apply puts_call
        intro ⟨ok, twin⟩
        apply puts_int (n := 32)
        apply Puts.ite
        · intro _
          apply writes_bind (n := 0) (writes_spRecordXonly (twin 0))
          intro _
          exact writes_pure
        · intro _
          exact writes_pure
      · intro _
        exact writes_pure

theorem writes_spReceive (limits : SpLimits) (inp : List UInt8) (si : SpInput)
    (st : SpParties T) (sent : Option (Fin si.nRecipients → T.XonlyPubkey))
    (twin : Option T.XonlyPubkey) (hlimit : limits.groupLimit = 2323)
    (hbatch : limits.labelBatchSize ≤ 128) :
    Writes (spReceive limits inp si st sent twin) 248080 := by
  apply Puts.ite
  · intro _
    exact writes_pure
  · intro _
    apply puts_call
    intro ⟨ok, summary⟩
    apply puts_int (n := 248076)
    cases sent with
    | none => exact writes_pure
    | some outputs =>
        apply Puts.ite
        · intro _
          apply writes_bind (n := 234736) (m := 13340)
          · apply writes_spScan _ _ _ _ _ _ _ hbatch
            have hrecipients := si.nRecipients_le
            rw [spMaxRecipients] at hrecipients
            rw [List.length_ofFn]
            exact hrecipients
          intro _
          exact Puts.ite (fun _ => writes_spLimit _ _ _ _ _ _ _ _ hlimit) fun _ =>
            writes_pure
        · intro _
          exact writes_pure

theorem writes_targetSilentpayments (limits : SpLimits) (inp : List UInt8)
    (hlimit : limits.groupLimit = 2323) (hbatch : limits.labelBatchSize ≤ 128) :
    Writes (targetSilentpayments limits inp : Harness T Unit) 248391 := by
  apply writes_bind (n := 248391) writes_spRead
  intro si
  apply writes_bind (n := 248354) (writes_spLabelRoundtrip si.label)
  intro _
  apply writes_bind (n := 248216) (writes_spParties si)
  intro st?
  cases st? with
  | none => exact writes_pure
  | some st =>
      apply writes_bind (n := 248116) (writes_spSend si st)
      intro sent
      apply writes_bind (n := 248080) (writes_spTwin si st _)
      intro twin
      exact writes_spReceive limits inp si st sent twin hlimit hbatch

/-- Whether the raw label parses is always recorded. -/
theorem wrote_targetSilentpayments (limits : SpLimits) (inp : List UInt8) :
    Wrote reader (documentedSizes T) (targetSilentpayments limits inp) := by
  have hfree := documentedSizes_free T
  apply Wrote.bind_right writes_spRead
  intro si _
  apply Wrote.bind_left hfree
  apply Wrote.invoke_bind hfree
  intro ⟨ok, label⟩
  exact wrote_int hfree

end Diffsecp
