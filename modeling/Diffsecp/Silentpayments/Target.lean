import Diffsecp.Group.Target
import Diffsecp.Common

/-!
# Silentpayments — Target

`src/targets/silentpayments.c`: the sender derives outputs from its input
keys, and the recipient rebuilds the prevouts summary from the input public
keys and scans the outputs. Opaque objects are never recorded raw.
-/

namespace Diffsecp

open Interact

/-- `SP_MAX_INPUTS`. -/
def spMaxInputs : Nat := 3

/-- `SP_MAX_RECIPIENTS`. -/
def spMaxRecipients : Nat := 3

/-- The constants of libsecp's silent payments module. -/
structure SpLimits where
  /-- `SECP256K1_SILENTPAYMENTS_RECIPIENT_GROUP_LIMIT`. -/
  groupLimit : Nat
  /-- `LABEL_BATCH_SIZE`. -/
  labelBatchSize : Nat

namespace SpFlag

def label : Nat := 1 <<< 0
/-- The last recipient belongs to someone else. -/
def foreign : Nat := 1 <<< 1
/-- Insert a fuzzed output among the generated ones. -/
def fuzzOutput : Nat := 1 <<< 2
/-- Label the spend key with its negation (`spLabelCancel`). -/
def labelCancel : Nat := 1 <<< 3
/-- Scan with the foreign seckey, which may be invalid. -/
def scanForeign : Nat := 1 <<< 4
/-- Insert `labelBatchSize` copies of the fuzzed output. -/
def pad : Nat := 1 <<< 5
/-- Scan the twin output first. -/
def twin : Nat := 1 <<< 6
/-- The recipient group limit, in one of `spLimitOdds` inputs. -/
def limit : Nat := 1 <<< 7

end SpFlag

namespace SpExtraFlag

/-- The label cache returns the raw tweak, as a corrupt one would. -/
def rawTweak : Nat := 1 <<< 0

end SpExtraFlag

/-- `SP_MAX_TX`: the twin, the generated outputs and the padding. -/
def spMaxTx (limits : SpLimits) : Nat := 1 + spMaxRecipients + limits.labelBatchSize

/-- `SP_LIMIT_ODDS`. -/
def spLimitOdds : UInt32 := 4096

structure SpLabelCache where
  label33 : Bytes 33
  tweak32 : Bytes 32

def spLabelLookup (cache : SpLabelCache) (label33 : Bytes 33) : Option (Bytes 32) :=
  if label33 = cache.label33 then some cache.tweak32 else none

structure SpInput where
  flags : Nat
  outpoint : Bytes 36
  kinds : Nat
  nInputs : Nat
  nInputs_le : nInputs ≤ spMaxInputs
  seckey : Vector (Bytes 32) nInputs
  scan : Bytes 32
  spend : Bytes 32
  foreign : Bytes 32
  m : UInt32
  nRecipients : Nat
  nRecipients_pos : 0 < nRecipients
  nRecipients_le : nRecipients ≤ spMaxRecipients
  labeled : Nat
  output : Bytes 32
  outPos : Nat
  label : Bytes 33
  extra : Nat
  rawTweak : Bytes 32

variable {T : Types}

def spRead : Harness T SpInput := do
  let flags ← readerU8
  let outpoint ← readerTake 36
  let inputs ← readerU8
  let kinds ← readerU8
  let seckey ← readerTakes 32 (1 + inputs % spMaxInputs)
  let scan ← readerTake 32
  let spend ← readerTake 32
  let foreign ← readerTake 32
  let hi ← readerU16
  let lo ← readerU16
  let recipients ← readerU8
  let labeled ← readerU8
  let output ← readerTake 32
  let outPos ← readerU8
  let label ← readerTake 33
  let extra ← readerU8
  let rawTweak ← readerTake 32
  pure {
    flags, outpoint, kinds, seckey, scan, spend, foreign, labeled, output, outPos, label,
    extra, rawTweak
    nInputs := 1 + inputs % spMaxInputs
    nInputs_le := by
      have := Nat.mod_lt inputs (show spMaxInputs > 0 by decide)
      omega
    m := (UInt32.ofNat hi <<< 16) ||| UInt32.ofNat lo
    nRecipients := 1 + recipients % spMaxRecipients
    nRecipients_pos := by omega
    nRecipients_le := by
      have := Nat.mod_lt recipients (show spMaxRecipients > 0 by decide)
      omega }

/-! ## Recording -/

def spRecordPubkey (pk : T.Pubkey) : Harness T Unit := recordPubkey true pk

def spRecordXonly (pk : T.XonlyPubkey) : Harness T Unit := do
  let (_, ser) ← secpKey (.xonlyPubkeySerialize pk)
  transcriptBytes ser.toList

def spRecordXonlys : List T.XonlyPubkey → Harness T Unit
  | [] => pure ()
  | pk :: pks => do
      spRecordXonly pk
      spRecordXonlys pks

/-- A raw label parses to a point; only its serialization is comparable. -/
def spLabelRoundtrip (in33 : Bytes 33) : Harness T Unit := do
  let (ok, label) ← secpSp (.recipientLabelParse in33)
  transcriptInt ok
  if ok ≠ 0 then do
    let (_, ser) ← secpSp (.recipientLabelSerialize label)
    transcriptBytes ser.toList
  else pure ()

def spRecordFound (found : SpFoundOutput T) : Harness T Unit := do
  spRecordXonly found.output
  transcriptBytes found.tweak.toList
  transcriptInt found.foundWithLabel
  -- the label is only set when the output was found with one
  if found.foundWithLabel ≠ 0 then do
    let (_, ser) ← secpSp (.recipientLabelSerialize found.label)
    transcriptBytes ser.toList
  else pure ()

/-- The found outputs `start`, `start + 1`, up to `count` of them. -/
def spRecordFounds (found : Nat → SpFoundOutput T) (start : Nat) :
    (count : Nat) → Harness T Unit
  | 0 => pure ()
  | count + 1 => do
      spRecordFound (found start)
      spRecordFounds found (start + 1) count

/-- Scans the transaction `tx` and records what the recipient finds. -/
def spScanRecord (scanKey : Bytes 32) (tx : List T.XonlyPubkey) (summary : T.SpSummary)
    (spendPk : T.Pubkey) (cache : Option SpLabelCache) : Harness T Unit := do
  let (ok, nFound, found) ← secpSp
    (.recipientScanOutputs tx scanKey summary spendPk (cache.map spLabelLookup))
  transcriptInt ok
  if ok = 0 then
    pure ()
  else do
    transcriptU32 nFound
    spRecordFounds found 0 nFound.toNat

/-! ## The transaction -/

/-- The loop of `sp_scan`: output `i` comes after the copies of the fuzzed
output where `i` is its position. -/
def spTxFrom (outputs foreigns : List T.XonlyPubkey) (pos : Nat) :
    List Nat → List T.XonlyPubkey
  | [] => []
  | i :: is =>
      (if i = pos then foreigns else []) ++ outputs[i]?.toList ++
        spTxFrom outputs foreigns pos is

/-- The twin, and the generated outputs with the fuzzed one inserted. -/
def spTx (twin : Option T.XonlyPubkey)
    (outputs foreigns : List T.XonlyPubkey) (pos : Nat) :
    List T.XonlyPubkey :=
  twin.toList ++ spTxFrom outputs foreigns pos (List.range (outputs.length + 1))

/-- The copies of the fuzzed output and their position, which is `SIZE_MAX`
where there are none. -/
def spForeign (limits : SpLimits) (si : SpInput) (nOutputs : Nat) :
    Harness T (List T.XonlyPubkey × Nat) :=
  if si.flags &&& SpFlag.fuzzOutput ≠ 0 then do
    let (ok, foreign) ← secpKey (.xonlyPubkeyParse si.output)
    pure (if ok ≠ 0 then
        (List.replicate
          (if si.flags &&& SpFlag.pad ≠ 0 then limits.labelBatchSize else 1) foreign,
          si.outPos % (nOutputs + 1))
      else ([], sizeMax))
  else pure ([], sizeMax)

/-- Scans the generated outputs, after `twin` when set, with the fuzzed output
inserted. -/
def spScan (limits : SpLimits) (si : SpInput) (outputs : List T.XonlyPubkey)
    (twin : Option T.XonlyPubkey) (summary : T.SpSummary) (spendPk : T.Pubkey)
    (cache : Option SpLabelCache) : Harness T Unit := do
  let (foreigns, pos) ← spForeign limits si outputs.length
  spScanRecord (if si.flags &&& SpFlag.scanForeign ≠ 0 then si.foreign else si.scan)
    (spTx twin outputs foreigns pos) summary spendPk cache

/-! ## The keys -/

/-- The input keys: taproot ones as keypairs with their x-only keys, others as
raw seckeys with the public keys of the valid ones. -/
structure SpKeys (T : Types) where
  keypairs : List T.Keypair
  xonly : List T.XonlyPubkey
  seckeys : List (Bytes 32)
  pubkeys : List T.Pubkey

/-- One input. An invalid keypair is an illegal argument, so failed ones are
left out; the sender itself rejects invalid seckeys. -/
def spInputKey (taproot : Bool) (seckey : Bytes 32) (keys : SpKeys T) :
    Harness T (SpKeys T) :=
  if taproot then do
    let (ok, keypair) ← secpKey (.keypairCreate seckey)
    transcriptInt ok
    if ok ≠ 0 then do
      let (_, xonly, _) ← secpKey (.keypairXonlyPub keypair)
      pure { keys with
        keypairs := keys.keypairs ++ [keypair], xonly := keys.xonly ++ [xonly] }
    else pure keys
  else do
    let (ok, pubkey) ← secpKey (.ecPubkeyCreate seckey)
    transcriptInt ok
    let keys := { keys with seckeys := keys.seckeys ++ [seckey] }
    if ok ≠ 0 then
      pure { keys with pubkeys := keys.pubkeys ++ [pubkey] }
    else pure keys

/-- The inputs from number `i` on. -/
def spInputKeys (kinds : Nat) :
    (i : Nat) → List (Bytes 32) → SpKeys T → Harness T (SpKeys T)
  | _, [], keys => pure keys
  | i, seckey :: seckeys, keys => do
      let keys ← spInputKey ((kinds >>> i) &&& 1 ≠ 0) seckey keys
      spInputKeys kinds (i + 1) seckeys keys

/-! ## Labels -/

/-- The label, what the cache holds of it and the labeled spend key. -/
structure SpLabeled (T : Types) where
  cache : SpLabelCache
  labeledPk : T.Pubkey

/-- The library trusts the cache's tweak. One that overflows is an illegal
argument, so the raw one is reduced. -/
def spRawTweak (si : SpInput) (labeled : SpLabeled T) : Harness T (SpLabeled T) :=
  if si.extra &&& SpExtraFlag.rawTweak ≠ 0 then do
    let (rawTweak, _) ← secpScalar (.setB32 si.rawTweak)
    let tweak32 ← secpScalar (.getB32 rawTweak)
    pure { labeled with cache := { labeled.cache with tweak32 := tweak32 } }
  else pure labeled

/-- The label of the recipient, where the flag asks for one and it can be
created. -/
def spLabel (si : SpInput) (spendPk : T.Pubkey) : Harness T (Option (SpLabeled T)) :=
  if si.flags &&& SpFlag.label ≠ 0 then do
    let (ok, label, tweak32) ← secpSp (.recipientLabelCreate si.scan si.m)
    transcriptInt ok
    if ok = 0 then
      pure none
    else do
      let (_, label33) ← secpSp (.recipientLabelSerialize label)
      transcriptBytes label33.toList
      transcriptBytes tweak32.toList
      let (ok, labeledPk) ← secpSp (.recipientCreateLabeledSpendPubkey spendPk label)
      transcriptInt ok
      if ok = 0 then
        pure none
      else do
        spRecordPubkey labeledPk
        let labeled ← spRawTweak si ⟨⟨label33, tweak32⟩, labeledPk⟩
        pure (some labeled)
  else pure none

/-- The label -B_spend: the labeled spend key would be infinity, so creating
it must fail. -/
def spLabelCancel (spendPk : T.Pubkey) : Harness T Unit := do
  let (_, neg) ← secpKey (.ecPubkeyNegate spendPk)
  let (_, ser) ← secpKey (.ecPubkeySerialize neg true)
  let (ok, label) ← secpSp (.recipientLabelParse (bytesAt ser 0 33))
  transcriptInt ok
  if ok ≠ 0 then do
    let (ret, _) ← secpSp (.recipientCreateLabeledSpendPubkey spendPk label)
    transcriptInt ret
  else pure ()

/-! ## The group limit -/

/-- One recipient more than a group may have: the sender must refuse. Then the
recipient scans a transaction of more outputs than the limit, the generated
ones padded with copies of the first. -/
def spLimit (limits : SpLimits) (si : SpInput) (scanPk spendPk : T.Pubkey)
    (keys : SpKeys T) {n : Nat} (hn : 0 < n) (outputs : Fin n → T.XonlyPubkey)
    (summary : T.SpSummary) :
    Harness T Unit := do
  let recipients : Fin (limits.groupLimit + 1) → SpRecipient T :=
    fun i => ⟨scanPk, spendPk, i⟩
  let tx := List.ofFn fun i : Fin (limits.groupLimit + 1) =>
    if h : i.val < n then outputs ⟨i, h⟩ else outputs ⟨0, hn⟩
  let (ret, _) ← secpSp
    (.senderCreateOutputs recipients si.outpoint keys.keypairs keys.seckeys)
  transcriptInt ret
  spScanRecord si.scan tx summary spendPk none

/-- The hash of the whole input falls in its lowest `1/SP_LIMIT_ODDS`. -/
def spLimitDue (inp : List UInt8) : Bool := fnv1a inp ≤ 0xFFFFFFFF / spLimitOdds

/-! ## The target -/

/-- What the recipient and the sender agreed on. -/
structure SpParties (T : Types) where
  keys : SpKeys T
  scanPk : T.Pubkey
  spendPk : T.Pubkey
  labeled : Option (SpLabeled T)
  foreignPk : Option T.Pubkey

/-- Recipient `i`: the last is the foreign one, where there is one, and the
`labeled` mask tells which others use the labeled spend key. -/
def spRecipient (si : SpInput) (st : SpParties T) (i : Fin si.nRecipients) :
    SpRecipient T :=
  let foreign := if i.val + 1 = si.nRecipients then st.foreignPk else none
  match foreign with
  | some foreignPk => ⟨foreignPk, foreignPk, i⟩
  | none =>
      match st.labeled with
      | some labeled =>
          ⟨st.scanPk,
            if (si.labeled >>> i.val) &&& 1 ≠ 0 then labeled.labeledPk else st.spendPk, i⟩
      | none => ⟨st.scanPk, st.spendPk, i⟩

/-- The keys of the recipients, `none` where the scan or spend key is
invalid. -/
def spParties (si : SpInput) : Harness T (Option (SpParties T)) := do
  let keys ← spInputKeys si.kinds 0 si.seckey.toList ⟨[], [], [], []⟩
  let (ok, scanPk) ← secpKey (.ecPubkeyCreate si.scan)
  transcriptInt ok
  if ok = 0 then
    pure none
  else do
    let (ok, spendPk) ← secpKey (.ecPubkeyCreate si.spend)
    transcriptInt ok
    if ok = 0 then
      pure none
    else do
      let labeled ← spLabel si spendPk
      (if si.flags &&& SpFlag.labelCancel ≠ 0 then spLabelCancel spendPk else pure ())
      let foreignPk ← (if si.flags &&& SpFlag.foreign ≠ 0 then do
          let (ok, foreignPk) ← secpKey (.ecPubkeyCreate si.foreign)
          transcriptInt ok
          pure (if ok ≠ 0 then some foreignPk else none)
        else pure none)
      pure (some ⟨keys, scanPk, spendPk, labeled, foreignPk⟩)

/-- The outputs the sender creates; `none` where it fails or has no keys. -/
def spSend (si : SpInput) (st : SpParties T) :
    Harness T (Option (Fin si.nRecipients → T.XonlyPubkey)) :=
  if st.keys.keypairs.length + st.keys.seckeys.length > 0 then do
    let (sent, outputs) ← secpSp
      (.senderCreateOutputs (spRecipient si st) si.outpoint st.keys.keypairs
        st.keys.seckeys)
    transcriptInt sent
    if sent ≠ 0 then do
      spRecordXonlys (List.ofFn outputs)
      pure (some outputs)
    else pure none
  else pure none

/-- Recipient 0's twin uses the other spend key, labeled for an unlabeled one
and back, and gets the same k = 0 when sent alone. -/
def spTwin (si : SpInput) (st : SpParties T) (sent : Bool) :
    Harness T (Option T.XonlyPubkey) :=
  match st.labeled with
  | none => pure none
  | some labeled =>
      if si.flags &&& SpFlag.twin ≠ 0 ∧ sent = true ∧
          ¬ (st.foreignPk.isSome = true ∧ si.nRecipients = 1) then do
        let recipient : SpRecipient T :=
          ⟨st.scanPk, if si.labeled &&& 1 ≠ 0 then st.spendPk else labeled.labeledPk, 0⟩
        let (ok, twin) ← secpSp
          (.senderCreateOutputs (fun _ : Fin 1 => recipient) si.outpoint
            st.keys.keypairs st.keys.seckeys)
        transcriptInt ok
        if ok ≠ 0 then do
          spRecordXonly (twin 0)
          pure (some (twin 0))
        else pure none
      else pure none

/-- The recipient's side: the summary, and the scans where the sender sent. -/
def spReceive (limits : SpLimits) (inp : List UInt8) (si : SpInput) (st : SpParties T)
    (sent : Option (Fin si.nRecipients → T.XonlyPubkey)) (twin : Option T.XonlyPubkey) :
    Harness T Unit :=
  if st.keys.xonly.length + st.keys.pubkeys.length = 0 then
    pure ()
  else do
    let (ok, summary) ← secpSp
      (.recipientPrevoutsSummaryCreate si.outpoint st.keys.xonly st.keys.pubkeys)
    transcriptInt ok
    match sent with
    | none => pure ()
    | some outputs =>
        if ok ≠ 0 then do
          spScan limits si (List.ofFn outputs) twin summary st.spendPk
            (st.labeled.map (·.cache))
          (if si.flags &&& SpFlag.limit ≠ 0 ∧ spLimitDue inp = true then
            spLimit limits si st.scanPk st.spendPk st.keys si.nRecipients_pos
              outputs summary
          else pure ())
        else pure ()

/-- `inp` is the whole input, which is also what the target reads. -/
def targetSilentpayments (limits : SpLimits) (inp : List UInt8) : Harness T Unit := do
  let si ← spRead
  spLabelRoundtrip si.label
  match ← spParties si with
  | none => pure ()
  | some st => do
      let sent ← spSend si st
      let twin ← spTwin si st sent.isSome
      spReceive limits inp si st sent twin

end Diffsecp
