import Diffsecp.Secp.Pairing
import Diffsecp.Silentpayments.Transaction

/-!
# Silentpayments — Paired

Two builds under the silent payments target make calls pair by pair: keys,
recipients and transactions of the two are pointwise paired, the sender is
called with at least one key and the recipient with at least one output.
-/

namespace Diffsecp

open Interact

variable {T T' : Types} {R : Pairing T T'} {r : List UInt8}

/-! ## Reading the input -/

theorem twin_spRead : Twins R Eq (spRead : Harness T _) (spRead : Harness T' _) r := by
  refine twin_readerU8 fun flags _ => twin_readerTake fun outpoint _ =>
    twin_readerU8 fun inputs _ => ?_
  refine twin_readerU8 fun kinds _ => Twin.bind (twin_readerTakes 32 _) ?_
  rintro seckey _ _ rfl
  refine twin_readerTake fun scan _ => twin_readerTake fun spend _ =>
    twin_readerTake fun foreign _ => ?_
  refine twin_readerU16 fun hi _ => twin_readerU16 fun lo _ =>
    twin_readerU8 fun recipients _ => ?_
  refine twin_readerU8 fun labeled _ => twin_readerTake fun output _ =>
    twin_readerU8 fun outPos _ => ?_
  refine twin_readerTake fun label _ => twin_readerU8 fun extra _ =>
    twin_readerTake fun rawTweak _ => ?_
  exact Twin.pure rfl

/-! ## Recording -/

theorem twin_spRecordXonly {pk : T.XonlyPubkey} {pk' : T'.XonlyPubkey}
    (hpk : R.xonly pk pk') :
    Twins R Eq (spRecordXonly pk) (spRecordXonly pk') r := by
  refine twin_key (.xonlyPubkeySerialize hpk) fun _ _ h => h.cases ?_
  rintro _ ser _ rfl
  exact twin_bytes_end rfl

theorem twin_spRecordXonlys {pks : List T.XonlyPubkey} {pks' : List T'.XonlyPubkey}
    (hpks : List.Forall₂ R.xonly pks pks') :
    Twins R Eq (spRecordXonlys pks) (spRecordXonlys pks') r := by
  induction hpks generalizing r with
  | nil => exact Twin.pure rfl
  | cons hpk _ ih => exact Twin.bind (twin_spRecordXonly hpk) fun _ _ _ _ => ih

theorem twin_spLabelRoundtrip (in33 : Bytes 33) :
    Twins R Eq (spLabelRoundtrip in33 : Harness T Unit)
      (spLabelRoundtrip in33 : Harness T' Unit) r := by
  refine twin_sp (.recipientLabelParse in33) fun _ _ h => h.cases ?_
  intro ok label label' hlabel
  refine twin_int rfl (Twin.ite (fun hok => ?_) fun _ => Twin.pure rfl)
  refine twin_sp (.recipientLabelSerialize (hlabel hok)) fun _ _ h => h.cases ?_
  rintro _ ser _ rfl
  exact twin_bytes_end rfl

theorem twin_spRecordFound {found : SpFoundOutput T} {found' : SpFoundOutput T'}
    (h : R.Found found found') :
    Twins R Eq (spRecordFound found) (spRecordFound found') r := by
  refine Twin.bind (twin_spRecordXonly h.output) fun _ _ _ _ => ?_
  rw [← h.tweak, ← h.foundWithLabel]
  refine twin_bytes rfl
    (twin_int rfl (Twin.ite (fun hlabel => ?_) fun _ => Twin.pure rfl))
  refine twin_sp (.recipientLabelSerialize (h.label hlabel)) fun _ _ h => h.cases ?_
  rintro _ ser _ rfl
  exact twin_bytes_end rfl

theorem twin_spRecordFounds {found : ℕ → SpFoundOutput T}
    {found' : ℕ → SpFoundOutput T'} {n : ℕ} (h : ∀ i < n, R.Found (found i) (found' i))
    (start count : ℕ) (hn : start + count ≤ n) :
    Twins R Eq (spRecordFounds found start count)
      (spRecordFounds found' start count) r := by
  induction count generalizing start r with
  | zero => exact Twin.pure rfl
  | succ count ih =>
      refine Twin.bind (twin_spRecordFound (h start (by omega))) fun _ _ _ _ => ?_
      exact ih (start + 1) (by omega)

theorem twin_spScanRecord (scanKey : Bytes 32) {tx : List T.XonlyPubkey}
    {tx' : List T'.XonlyPubkey} (htx : List.Forall₂ R.xonly tx tx') (hne : tx ≠ [])
    {summary : T.SpSummary} {summary' : T'.SpSummary}
    (hsummary : R.summary summary summary') {pk : T.Pubkey} {pk' : T'.Pubkey}
    (hpk : R.pubkey pk pk') (cache : Option SpLabelCache) :
    Twins R Eq (spScanRecord scanKey tx summary pk cache)
      (spScanRecord scanKey tx' summary' pk' cache) r := by
  refine twin_sp (.recipientScanOutputs scanKey _ htx hne hsummary hpk) fun _ _ h =>
    h.cases ?_
  rintro ok ⟨nFound, found⟩ ⟨nFound', found'⟩ hfound
  refine twin_int rfl (Twin.ite (fun _ => Twin.pure rfl) fun hok => ?_)
  obtain ⟨hcount, heach⟩ := hfound hok
  dsimp only at hcount heach
  subst hcount
  exact twin_u32 rfl (twin_spRecordFounds heach 0 nFound.toNat (by omega))

/-! ## The transaction -/

section Transaction

variable {outputs foreigns : List T.XonlyPubkey}
  {outputs' foreigns' : List T'.XonlyPubkey}
  {twin : Option T.XonlyPubkey} {twin' : Option T'.XonlyPubkey} {pos : ℕ}

theorem forall₂_spTxFrom (houtputs : List.Forall₂ R.xonly outputs outputs')
    (hforeigns : List.Forall₂ R.xonly foreigns foreigns') (is : List ℕ) :
    List.Forall₂ R.xonly (spTxFrom outputs foreigns pos is)
      (spTxFrom outputs' foreigns' pos is) := by
  induction is with
  | nil => exact .nil
  | cons i is ih =>
      have houtput := Twin.forall₂_toList (Twin.forall₂_getElem? houtputs i)
      rw [spTxFrom, spTxFrom]
      by_cases hi : i = pos
      · rw [if_pos hi, if_pos hi]
        exact List.rel_append (List.rel_append hforeigns houtput) ih
      · rw [if_neg hi, if_neg hi]
        exact List.rel_append houtput ih

theorem forall₂_spTx (htwin : Option.Rel R.xonly twin twin')
    (houtputs : List.Forall₂ R.xonly outputs outputs')
    (hforeigns : List.Forall₂ R.xonly foreigns foreigns') :
    List.Forall₂ R.xonly (spTx twin outputs foreigns pos)
      (spTx twin' outputs' foreigns' pos) := by
  rw [spTx, spTx, ← houtputs.length_eq]
  exact List.rel_append (Twin.forall₂_toList htwin)
    (forall₂_spTxFrom houtputs hforeigns _)

/-- The generated outputs are all in it. -/
theorem spTx_ne_nil (hne : outputs ≠ []) : spTx twin outputs foreigns pos ≠ [] := by
  have hpos := List.length_pos_of_ne_nil hne
  refine List.ne_nil_of_length_pos ?_
  rcases Nat.lt_or_ge outputs.length pos with hlt | hge
  · rw [spTx_plain hlt, List.length_append]
    omega
  · rw [spTx_insert hge]
    simp only [List.length_append, List.length_take, List.length_drop]
    omega

end Transaction

theorem twin_spForeign (limits : SpLimits) (si : SpInput) (nOutputs : ℕ) :
    Twins R (fun a a' => List.Forall₂ R.xonly a.1 a'.1 ∧ a.2 = a'.2)
      (spForeign limits si nOutputs) (spForeign limits si nOutputs) r := by
  refine Twin.ite (fun _ => ?_) fun _ => Twin.pure ⟨.nil, rfl⟩
  refine twin_key (.xonlyPubkeyParse si.output) fun _ _ h => h.cases ?_
  intro ok foreign foreign' hforeign
  refine Twin.pure ?_
  by_cases hok : ok ≠ 0
  · rw [if_pos hok, if_pos hok]
    refine ⟨?_, rfl⟩
    generalize (if si.flags &&& SpFlag.pad ≠ 0 then limits.labelBatchSize else 1) = n
    induction n with
    | zero => exact .nil
    | succ n ih => exact .cons (hforeign hok) ih
  · rw [if_neg hok, if_neg hok]
    exact ⟨.nil, rfl⟩

theorem twin_spScan (limits : SpLimits) (si : SpInput) {outputs : List T.XonlyPubkey}
    {outputs' : List T'.XonlyPubkey} (houtputs : List.Forall₂ R.xonly outputs outputs')
    (hne : outputs ≠ []) {twin : Option T.XonlyPubkey} {twin' : Option T'.XonlyPubkey}
    (htwin : Option.Rel R.xonly twin twin') {summary : T.SpSummary}
    {summary' : T'.SpSummary} (hsummary : R.summary summary summary') {pk : T.Pubkey}
    {pk' : T'.Pubkey} (hpk : R.pubkey pk pk') (cache : Option SpLabelCache) :
    Twins R Eq (spScan limits si outputs twin summary pk cache)
      (spScan limits si outputs' twin' summary' pk' cache) r := by
  rw [spScan, spScan, ← houtputs.length_eq]
  refine Twin.bind (twin_spForeign limits si outputs.length) ?_
  rintro ⟨foreigns, pos⟩ ⟨foreigns', _⟩ _ ⟨hforeigns, rfl⟩
  exact twin_spScanRecord _ (forall₂_spTx htwin houtputs hforeigns)
    (spTx_ne_nil hne) hsummary hpk cache

/-! ## The keys -/

structure SpKeysTwins (R : Pairing T T') (keys : SpKeys T)
    (keys' : SpKeys T') : Prop where
  keypairs : List.Forall₂ R.keypair keys.keypairs keys'.keypairs
  xonly : List.Forall₂ R.xonly keys.xonly keys'.xonly
  seckeys : keys.seckeys = keys'.seckeys
  pubkeys : List.Forall₂ R.pubkey keys.pubkeys keys'.pubkeys

theorem twin_spInputKey (taproot : Bool) (seckey : Bytes 32) {keys : SpKeys T}
    {keys' : SpKeys T'} (hkeys : SpKeysTwins R keys keys') :
    Twins R (SpKeysTwins R) (spInputKey taproot seckey keys)
      (spInputKey taproot seckey keys') r := by
  refine Twin.ite (fun _ => ?_) fun _ => ?_
  · refine twin_key (.keypairCreate seckey) fun _ _ h => h.cases ?_
    intro ok keypair keypair' hkeypair
    refine twin_int rfl (Twin.ite (fun hok => ?_) fun _ => Twin.pure hkeys)
    refine twin_key (.keypairXonlyPub (hkeypair hok)) fun _ _ h => h.cases ?_
    rintro _ ⟨xonly, _⟩ ⟨xonly', _⟩ ⟨hxonly, -⟩
    exact Twin.pure { hkeys with
      keypairs := List.rel_append hkeys.keypairs (.cons (hkeypair hok) .nil)
      xonly := List.rel_append hkeys.xonly (.cons hxonly .nil) }
  · refine twin_key (.ecPubkeyCreate seckey) fun _ _ h => h.cases ?_
    intro ok pubkey pubkey' hpubkey
    have hseckeys : keys.seckeys ++ [seckey] = keys'.seckeys ++ [seckey] := by
      rw [hkeys.seckeys]
    refine twin_int rfl (Twin.ite (fun hok => ?_) fun _ =>
      Twin.pure { hkeys with seckeys := hseckeys })
    exact Twin.pure { hkeys with
      seckeys := hseckeys
      pubkeys := List.rel_append hkeys.pubkeys (.cons (hpubkey hok) .nil) }

theorem twin_spInputKeys (kinds i : ℕ) (seckeys : List (Bytes 32)) {keys : SpKeys T}
    {keys' : SpKeys T'} (hkeys : SpKeysTwins R keys keys') :
    Twins R (SpKeysTwins R) (spInputKeys kinds i seckeys keys)
      (spInputKeys kinds i seckeys keys') r := by
  induction seckeys generalizing i keys keys' r with
  | nil => exact Twin.pure hkeys
  | cons seckey seckeys ih =>
      exact Twin.bind (twin_spInputKey _ seckey hkeys) fun _ _ _ hkeys => ih (i + 1) hkeys

/-! ## Labels -/

structure LabeledTwins (R : Pairing T T') (labeled : SpLabeled T)
    (labeled' : SpLabeled T') : Prop where
  cache : labeled.cache = labeled'.cache
  labeledPk : R.pubkey labeled.labeledPk labeled'.labeledPk

theorem twin_spRawTweak (si : SpInput) {labeled : SpLabeled T} {labeled' : SpLabeled T'}
    (h : LabeledTwins R labeled labeled') :
    Twins R (LabeledTwins R) (spRawTweak si labeled) (spRawTweak si labeled') r := by
  refine Twin.ite (fun _ => ?_) fun _ => Twin.pure h
  refine twin_scalar (.setB32 si.rawTweak) fun a a' ha => twin_scalar (.getB32 ha.1) ?_
  rintro tweak32 _ rfl
  refine Twin.pure ⟨?_, h.labeledPk⟩
  rw [h.cache]

theorem twin_spLabel (si : SpInput) {pk : T.Pubkey} {pk' : T'.Pubkey}
    (hpk : R.pubkey pk pk') :
    Twins R (Option.Rel (LabeledTwins R)) (spLabel si pk) (spLabel si pk') r := by
  refine Twin.ite (fun _ => ?_) fun _ => Twin.pure .none
  refine twin_sp (.recipientLabelCreate si.scan si.m) fun _ _ h => h.cases ?_
  rintro ok ⟨label, tweak32⟩ ⟨label', tweak32'⟩ hcreated
  refine twin_int rfl (Twin.ite (fun _ => Twin.pure .none) fun hok => ?_)
  obtain ⟨hlabel, htweak⟩ := hcreated hok
  dsimp only at hlabel htweak
  subst htweak
  refine twin_sp (.recipientLabelSerialize hlabel) fun _ _ h => h.cases ?_
  rintro _ label33 _ rfl
  refine twin_bytes rfl (twin_bytes rfl ?_)
  refine twin_sp (.recipientCreateLabeledSpendPubkey hpk hlabel) fun _ _ h => h.cases ?_
  intro ok labeledPk labeledPk' hlabeledPk
  refine twin_int rfl (Twin.ite (fun _ => Twin.pure .none) fun hok => ?_)
  refine Twin.bind (twin_recordPubkey true (hlabeledPk hok)) fun _ _ _ _ => ?_
  refine Twin.bind (twin_spRawTweak si ⟨rfl, hlabeledPk hok⟩) fun _ _ _ h => ?_
  exact Twin.pure (.some h)

theorem twin_spLabelCancel {pk : T.Pubkey} {pk' : T'.Pubkey} (hpk : R.pubkey pk pk') :
    Twins R Eq (spLabelCancel pk) (spLabelCancel pk') r := by
  refine twin_key (.ecPubkeyNegate hpk) fun _ _ h => h.cases ?_
  intro _ neg neg' hneg
  refine twin_key (.ecPubkeySerialize true hneg) fun _ _ h => h.cases ?_
  rintro _ ser _ rfl
  refine twin_sp (.recipientLabelParse _) fun _ _ h => h.cases ?_
  intro ok label label' hlabel
  refine twin_int rfl (Twin.ite (fun hok => ?_) fun _ => Twin.pure rfl)
  refine twin_sp (.recipientCreateLabeledSpendPubkey hpk (hlabel hok)) fun _ _ h =>
    h.cases ?_
  intro ret _ _ _
  exact twin_int_end rfl

/-! ## The parties -/

structure PartiesTwins (R : Pairing T T') (st : SpParties T)
    (st' : SpParties T') : Prop where
  keys : SpKeysTwins R st.keys st'.keys
  scanPk : R.pubkey st.scanPk st'.scanPk
  spendPk : R.pubkey st.spendPk st'.spendPk
  labeled : Option.Rel (LabeledTwins R) st.labeled st'.labeled
  foreignPk : Option.Rel R.pubkey st.foreignPk st'.foreignPk

theorem twin_spParties (si : SpInput) :
    Twins R (Option.Rel (PartiesTwins R)) (spParties si) (spParties si) r := by
  refine Twin.bind (twin_spInputKeys si.kinds 0 _ ⟨.nil, .nil, rfl, .nil⟩)
    fun keys keys' _ hkeys => ?_
  refine twin_key (.ecPubkeyCreate si.scan) fun _ _ h => h.cases ?_
  intro ok scanPk scanPk' hscan
  refine twin_int rfl (Twin.ite (fun _ => Twin.pure .none) fun hok => ?_)
  have hscan := hscan hok
  refine twin_key (.ecPubkeyCreate si.spend) fun _ _ h => h.cases ?_
  intro ok spendPk spendPk' hspend
  refine twin_int rfl (Twin.ite (fun _ => Twin.pure .none) fun hok => ?_)
  have hspend := hspend hok
  refine Twin.bind (twin_spLabel si hspend) fun labeled labeled' _ hlabeled => ?_
  refine Twin.bind (P := Eq) ?_ fun _ _ _ _ => ?_
  · exact Twin.ite (fun _ => twin_spLabelCancel hspend) fun _ => Twin.pure rfl
  refine Twin.bind (P := Option.Rel R.pubkey)
    (Twin.ite (fun _ => ?_) fun _ => Twin.pure .none) ?_
  · refine twin_key (.ecPubkeyCreate si.foreign) fun _ _ h => h.cases ?_
    intro ok foreignPk foreignPk' hforeign
    refine twin_int rfl (Twin.pure ?_)
    by_cases hok : ok ≠ 0
    · rw [if_pos hok, if_pos hok]
      exact .some (hforeign hok)
    · rw [if_neg hok, if_neg hok]
      exact .none
  · intro foreignPk foreignPk' _ hforeign
    exact Twin.pure (.some ⟨hkeys, hscan, hspend, hlabeled, hforeign⟩)

theorem recipient_spRecipient (si : SpInput) {st : SpParties T} {st' : SpParties T'}
    (h : PartiesTwins R st st') (i : Fin si.nRecipients) :
    R.Recipient (spRecipient si st i) (spRecipient si st' i) := by
  obtain ⟨keys, scanPk, spendPk, labeled, foreignPk⟩ := st
  obtain ⟨keys', scanPk', spendPk', labeled', foreignPk'⟩ := st'
  obtain ⟨-, hscan, hspend, hlabeled, hforeign⟩ := h
  dsimp only at hscan hspend hlabeled hforeign
  have hown : R.Recipient (spRecipient si ⟨keys, scanPk, spendPk, labeled, none⟩ i)
      (spRecipient si ⟨keys', scanPk', spendPk', labeled', none⟩ i) := by
    simp only [spRecipient, ite_self]
    cases hlabeled with
    | none => exact ⟨hscan, hspend, rfl⟩
    | some hlabeled =>
        refine ⟨hscan, ?_, rfl⟩
        dsimp only
        by_cases hbit : (si.labeled >>> i.val) &&& 1 ≠ 0
        · rw [if_pos hbit, if_pos hbit]
          exact hlabeled.labeledPk
        · rw [if_neg hbit, if_neg hbit]
          exact hspend
  cases hforeign with
  | none => exact hown
  | some hforeign =>
      by_cases hlast : i.val + 1 = si.nRecipients
      · simp only [spRecipient, if_pos hlast]
        exact ⟨hforeign, hforeign, rfl⟩
      · simp only [spRecipient, if_neg hlast]
        simpa only [spRecipient, ite_self] using hown

/-! ## Sending and scanning -/

/-- What was sent, by a sender that has a key. -/
def SentTwins (R : Pairing T T') {n : ℕ} (keys : SpKeys T)
    (outputs : Fin n → T.XonlyPubkey) (outputs' : Fin n → T'.XonlyPubkey) : Prop :=
  (∀ i, R.xonly (outputs i) (outputs' i)) ∧ 0 < keys.keypairs.length + keys.seckeys.length

theorem twin_spSend (si : SpInput) {st : SpParties T} {st' : SpParties T'}
    (h : PartiesTwins R st st') :
    Twins R (Option.Rel (SentTwins R st.keys)) (spSend si st) (spSend si st') r := by
  rw [spSend, spSend, ← h.keys.keypairs.length_eq, ← h.keys.seckeys]
  refine Twin.ite (fun hkeys => ?_) fun _ => Twin.pure .none
  have hrecipients := recipient_spRecipient si h
  refine twin_sp (.senderCreateOutputs si.outpoint st.keys.seckeys si.nRecipients_pos
    hrecipients h.keys.keypairs hkeys) fun _ _ h => h.cases ?_
  intro sent outputs outputs' houtputs
  refine twin_int rfl (Twin.ite (fun hsent => ?_) fun _ => Twin.pure .none)
  refine Twin.bind (twin_spRecordXonlys (Twin.forall₂_ofFn (houtputs hsent)))
    fun _ _ _ _ => ?_
  exact Twin.pure (.some ⟨houtputs hsent, hkeys⟩)

theorem twin_spTwin (si : SpInput) {st : SpParties T} {st' : SpParties T'}
    (h : PartiesTwins R st st') (sent : Bool)
    (hkeys : sent = true → 0 < st.keys.keypairs.length + st.keys.seckeys.length) :
    Twins R (Option.Rel R.xonly) (spTwin si st sent) (spTwin si st' sent) r := by
  obtain ⟨keys, scanPk, spendPk, labeled, foreignPk⟩ := st
  obtain ⟨keys', scanPk', spendPk', labeled', foreignPk'⟩ := st'
  obtain ⟨hkeysTwins, hscan, hspend, hlabeled, hforeign⟩ := h
  dsimp only at hkeysTwins hscan hspend hlabeled hforeign hkeys
  cases hlabeled with
  | none => exact Twin.pure .none
  | @some labeled labeled' hlabeled =>
      have hsome : foreignPk.isSome = foreignPk'.isSome := by cases hforeign <;> rfl
      rw [spTwin, spTwin]
      dsimp only
      rw [← hsome, ← hkeysTwins.seckeys]
      refine Twin.ite (fun hcond => ?_) fun _ => Twin.pure .none
      have hrecipient : R.Recipient
          ⟨scanPk, if si.labeled &&& 1 ≠ 0 then spendPk else labeled.labeledPk, 0⟩
          ⟨scanPk', if si.labeled &&& 1 ≠ 0 then spendPk' else labeled'.labeledPk,
            0⟩ := by
        refine ⟨hscan, ?_, rfl⟩
        dsimp only
        by_cases hbit : si.labeled &&& 1 ≠ 0
        · rw [if_pos hbit, if_pos hbit]
          exact hspend
        · rw [if_neg hbit, if_neg hbit]
          exact hlabeled.labeledPk
      refine twin_sp
        (.senderCreateOutputs si.outpoint keys.seckeys Nat.one_pos (fun _ => hrecipient)
          hkeysTwins.keypairs (hkeys hcond.2.1)) fun _ _ h => h.cases ?_
      intro ok twin twin' htwin
      refine twin_int rfl (Twin.ite (fun hok => ?_) fun _ => Twin.pure .none)
      refine Twin.bind (twin_spRecordXonly (htwin hok 0)) fun _ _ _ _ => ?_
      exact Twin.pure (.some (htwin hok 0))

theorem twin_spLimit (limits : SpLimits) (si : SpInput) {scanPk spendPk : T.Pubkey}
    {scanPk' spendPk' : T'.Pubkey} (hscan : R.pubkey scanPk scanPk')
    (hspend : R.pubkey spendPk spendPk') {keys : SpKeys T} {keys' : SpKeys T'}
    (hkeys : SpKeysTwins R keys keys') {n : ℕ} (hn : 0 < n)
    {outputs : Fin n → T.XonlyPubkey} {outputs' : Fin n → T'.XonlyPubkey}
    (houtputs : SentTwins R keys outputs outputs') {summary : T.SpSummary}
    {summary' : T'.SpSummary} (hsummary : R.summary summary summary') :
    Twins R Eq (spLimit limits si scanPk spendPk keys hn outputs summary)
      (spLimit limits si scanPk' spendPk' keys' hn outputs' summary') r := by
  obtain ⟨houtputs, hsome⟩ := houtputs
  rw [spLimit, spLimit, ← hkeys.seckeys]
  refine twin_sp (.senderCreateOutputs si.outpoint keys.seckeys (Nat.succ_pos _)
    (fun i => ?_) hkeys.keypairs hsome) fun _ _ h => h.cases ?_
  · exact ⟨hscan, hspend, rfl⟩
  intro ret _ _ _
  refine twin_int rfl
    (twin_spScanRecord si.scan (Twin.forall₂_ofFn fun i => ?_) ?_ hsummary hspend none)
  · by_cases hi : i.val < n
    · rw [dif_pos hi, dif_pos hi]
      exact houtputs _
    · rw [dif_neg hi, dif_neg hi]
      exact houtputs _
  · exact List.ne_nil_of_length_pos (by simp)

theorem twin_spReceive (limits : SpLimits) (inp : List UInt8) (si : SpInput)
    {st : SpParties T} {st' : SpParties T'} (h : PartiesTwins R st st')
    {sent : Option (Fin si.nRecipients → T.XonlyPubkey)}
    {sent' : Option (Fin si.nRecipients → T'.XonlyPubkey)}
    (hsent : Option.Rel (SentTwins R st.keys) sent sent') {twin : Option T.XonlyPubkey}
    {twin' : Option T'.XonlyPubkey} (htwin : Option.Rel R.xonly twin twin') :
    Twins R Eq (spReceive limits inp si st sent twin)
      (spReceive limits inp si st' sent' twin') r := by
  rw [spReceive, spReceive, ← h.keys.xonly.length_eq, ← h.keys.pubkeys.length_eq]
  refine Twin.ite (fun _ => Twin.pure rfl) fun hkeys => ?_
  have hpos : 0 < st.keys.xonly.length + st.keys.pubkeys.length := by omega
  refine twin_sp
    (.recipientPrevoutsSummaryCreate si.outpoint h.keys.xonly h.keys.pubkeys hpos)
    fun _ _ hsummary => hsummary.cases ?_
  intro ok summary summary' hsummary
  refine twin_int rfl ?_
  cases hsent with
  | none => exact Twin.pure rfl
  | @some outputs outputs' houtputs =>
      refine Twin.ite (fun hok => ?_) fun _ => Twin.pure rfl
      have hne : List.ofFn outputs ≠ [] :=
        List.ne_nil_of_length_pos (by rw [List.length_ofFn]; exact si.nRecipients_pos)
      have hcache : st.labeled.map (·.cache) = st'.labeled.map (·.cache) := by
        generalize st.labeled = labeled, st'.labeled = labeled', h.labeled = hlabeled
        cases hlabeled with
        | none => rfl
        | some hlabeled => exact congrArg some hlabeled.cache
      rw [← hcache]
      refine Twin.bind (twin_spScan limits si (Twin.forall₂_ofFn houtputs.1) hne htwin
        (hsummary hok) h.spendPk _) fun _ _ _ _ => ?_
      exact Twin.ite
        (fun _ => twin_spLimit limits si h.scanPk h.spendPk h.keys si.nRecipients_pos
          houtputs (hsummary hok))
        fun _ => Twin.pure rfl

/-! ## The target -/

theorem twin_targetSilentpayments (limits : SpLimits) (inp : List UInt8) :
    Twins R Eq (targetSilentpayments limits inp) (targetSilentpayments limits inp) r := by
  refine Twin.bind twin_spRead ?_
  rintro si _ _ rfl
  refine Twin.bind (twin_spLabelRoundtrip si.label) fun _ _ _ _ => ?_
  refine Twin.bind (twin_spParties si) fun st st' _ hst => ?_
  cases hst with
  | none => exact Twin.pure rfl
  | @some st st' hst =>
      refine Twin.bind (twin_spSend si hst) fun sent sent' _ hsent => ?_
      have hsome : sent.isSome = sent'.isSome := by cases hsent <;> rfl
      rw [← hsome]
      refine Twin.bind (twin_spTwin si hst sent.isSome ?_) fun twin twin' _ htwin => ?_
      · intro h
        cases hsent with
        | none => cases h
        | some hsent => exact hsent.2
      · exact twin_spReceive limits inp si hst hsent htwin

/-- The sender has a key, the recipient an output, no object a failed call left
is used, and the transcript tells nothing of how a build represents them. -/
theorem targetSilentpayments_accounts (R : Pairing T T') (limits : SpLimits)
    (inp : List UInt8) :
    R.Accounts (targetSilentpayments limits inp) (targetSilentpayments limits inp) inp :=
  Pairing.accounts_of_twins (twin_targetSilentpayments limits inp)

end Diffsecp
