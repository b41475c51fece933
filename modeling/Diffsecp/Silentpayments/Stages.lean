import Mathlib.Data.List.Forall2
import Diffsecp.Interact.Structure
import Diffsecp.Secp.Objects
import Diffsecp.Silentpayments.Transaction

/-!
# Silentpayments — Stages

What `target_silentpayments` hands to libsecp, stage by stage: objects that a
successful call of the run gave, the keys of the sender and the public keys of
the same keys to the recipient, and the transaction that the sender's outputs
make.
-/

namespace Diffsecp

open Interact

variable {T : Types} {α β : Type}

/-! ## What the calls are handed -/

/-- `pk` is the public key that was created of `seckey`. -/
def PubkeyOf (l : List (Event (LibCall T))) (seckey : Bytes 32) (pk : T.Pubkey) : Prop :=
  ∃ ret, ret ≠ 0 ∧ ⟨.key (.ecPubkeyCreate seckey), (ret, pk)⟩ ∈ l

/-- `pk` is the x-only public key that was taken from `keypair`. -/
def XonlyOf (l : List (Event (LibCall T))) (keypair : T.Keypair)
    (pk : T.XonlyPubkey) : Prop :=
  ∃ ret parity, ret ≠ 0 ∧ ⟨.key (.keypairXonlyPub keypair), (ret, pk, parity)⟩ ∈ l

/-- The outputs of the senders that succeeded, in order. -/
def spSent (e : Event (LibCall T)) : Option (List T.XonlyPubkey) :=
  match e with
  | ⟨.sp (.senderCreateOutputs _ _ _ _), (ret, outputs)⟩ =>
      if ret ≠ 0 then some (List.ofFn outputs) else none
  | _ => none

/-- The raw output, where it parsed. -/
def spParsed (e : Event (LibCall T)) : Option T.XonlyPubkey :=
  match e with
  | ⟨.key (.xonlyPubkeyParse _), (ret, pk)⟩ => if ret ≠ 0 then some pk else none
  | _ => none

/-- The transaction has been scanned. -/
def SpScanned (l : List (Event (LibCall T))) : Prop :=
  ∃ e ∈ l, match e with
    | ⟨.sp (.recipientScanOutputs _ _ _ _ _), _⟩ => True
    | _ => False

/-- The keys as the input loop leaves them: every keypair was created and has
its x-only key, and the raw keys that are valid have their public keys. -/
structure SpKeysMade (valid : Bytes 32 → Bool) (l : List (Event (LibCall T)))
    (keys : SpKeys T) : Prop where
  keypairs : ∀ kp ∈ keys.keypairs, LibObject.keypair kp ∈ made libGiven l
  xonly : List.Forall₂ (XonlyOf l) keys.keypairs keys.xonly
  pubkeys : List.Forall₂ (PubkeyOf l) (keys.seckeys.filter valid) keys.pubkeys

/-- A label cache holds a label that was created, serialized, and the tweak
created with it or the reduced raw one. -/
def SpCacheMade (l : List (Event (LibCall T))) (cache : SpLabelCache) : Prop :=
  ∃ scan m ret label tweak32, ret ≠ 0 ∧
    ⟨.sp (.recipientLabelCreate scan m), (ret, label, tweak32)⟩ ∈ l ∧
    (∃ ret',
      ret' ≠ 0 ∧ ⟨.sp (.recipientLabelSerialize label), (ret', cache.label33)⟩ ∈ l) ∧
    (cache.tweak32 = tweak32 ∨ ∃ scalar, ⟨.scalar (.getB32 scalar), cache.tweak32⟩ ∈ l)

/-- The summary is of the public keys of all the keys of the sender. -/
structure SpSummaryOf (si : SpInput) (keys : SpKeys T) (l : List (Event (LibCall T)))
    (summary : T.SpSummary) :
    Prop where
  created : ∃ ret, ret ≠ 0 ∧
    ⟨.sp (.recipientPrevoutsSummaryCreate si.outpoint keys.xonly keys.pubkeys),
      (ret, summary)⟩ ∈ l
  xonly : List.Forall₂ (XonlyOf l) keys.keypairs keys.xonly
  pubkeys : List.Forall₂ (PubkeyOf l) keys.seckeys keys.pubkeys

/-- The position of the fuzzed output. -/
def spPos (si : SpInput) : ℕ := si.outPos % (si.nRecipients + 1)

/-- How many copies of the fuzzed output are inserted. -/
def spCopies (limits : SpLimits) (si : SpInput) : ℕ :=
  if si.flags &&& SpFlag.pad ≠ 0 then limits.labelBatchSize else 1

/-- The transaction of what was sent and parsed: the twin, the outputs before
the position, the copies of the fuzzed output, the outputs after. -/
def SpTxOf (limits : SpLimits) (si : SpInput) (l : List (Event (LibCall T)))
    (tx : List T.XonlyPubkey) : Prop :=
  ∃ (outputs : List T.XonlyPubkey) (twin foreign : Option T.XonlyPubkey),
    outputs.length = si.nRecipients ∧
    l.filterMap spSent = outputs :: twin.toList.map ([·]) ∧
    l.filterMap spParsed = foreign.toList ∧
    tx = twin.toList ++ outputs.take (spPos si) ++
      foreign.toList.flatMap (List.replicate (spCopies limits si)) ++
      outputs.drop (spPos si)

/-- What each call needs of the calls before it. -/
def SpNeeds (limits : SpLimits) (si : SpInput) (keys : SpKeys T)
    (l : List (Event (LibCall T))) {β : Type} (q : LibCall T β) : Prop :=
  (∀ x ∈ q.handed, x ∈ made libGiven l) ∧
    match β, q with
    | _, .sp (.senderCreateOutputs _ _ keypairs seckeys) =>
        keypairs = keys.keypairs ∧ seckeys = keys.seckeys ∧
        0 < keypairs.length + seckeys.length
    | _, .sp (.recipientPrevoutsSummaryCreate _ xonly pubkeys) =>
        xonly = keys.xonly ∧ pubkeys = keys.pubkeys ∧ 0 < xonly.length + pubkeys.length
    | _, .sp (.recipientScanOutputs tx _ summary _ lookup) =>
        (∀ f, lookup = some f → ∃ cache, f = spLabelLookup cache ∧ SpCacheMade l cache) ∧
          SpSummaryOf si keys l summary ∧ (SpTxOf limits si l tx ∨ SpScanned l)
    | _, _ => True

/-- What libsecp documents: `valid` are the secret keys of which a public key
can be created, the sender fails when a raw key is not one, and some calls
always succeed. -/
def SpDocumented (valid : Bytes 32 → Bool) {β : Type} (q : LibCall T β) (a : β) : Prop :=
  match β, q, a with
  | _, .key (.ecPubkeyCreate seckey), (ret, _) => ret ≠ 0 ↔ valid seckey = true
  | _, .key (.keypairXonlyPub _), (ret, _, _) => ret = 1
  | _, .key (.ecPubkeyNegate _), (ret, _) => ret = 1
  | _, .sp (.recipientLabelSerialize _), (ret, _) => ret = 1
  | _, .sp (.senderCreateOutputs _ _ _ seckeys), (ret, _) =>
      ret ≠ 0 → ∀ k ∈ seckeys, valid k = true
  | _, _, _ => True

section Stages

variable {limits : SpLimits} {valid : Bytes 32 → Bool} {si : SpInput} {keys : SpKeys T}
  {g : List (Event (LibCall T))}

/-- `p` meets the needs of its calls after those of `g`. -/
abbrev SpKeeps (limits : SpLimits) (valid : Bytes 32 → Bool) (si : SpInput)
    (keys : SpKeys T) (p : Harness T α) (g : List (Event (LibCall T)))
    (P : α → List (Event (LibCall T)) → Prop) : Prop :=
  Keeps reader (SpNeeds limits si keys) (fun _ => SpDocumented valid) p g P

/-- Nothing was sent and no raw output parsed between the two logs. -/
structure SpQuiet (g g' : List (Event (LibCall T))) : Prop where
  sent : g'.filterMap spSent = g.filterMap spSent
  parsed : g'.filterMap spParsed = g.filterMap spParsed

theorem SpQuiet.refl (g : List (Event (LibCall T))) : SpQuiet g g := ⟨rfl, rfl⟩

theorem SpQuiet.trans {g g' g'' : List (Event (LibCall T))} (h : SpQuiet g g')
    (h' : SpQuiet g' g'') :
    SpQuiet g g'' := ⟨h'.sent.trans h.sent, h'.parsed.trans h.parsed⟩

theorem SpQuiet.concat {e : Event (LibCall T)} (hsent : spSent e = none)
    (hparsed : spParsed e = none) :
    SpQuiet g (g ++ [e]) := by
  constructor
  · rw [List.filterMap_append, List.filterMap_cons_none hsent, List.filterMap_nil,
      List.append_nil]
  · rw [List.filterMap_append, List.filterMap_cons_none hparsed, List.filterMap_nil,
      List.append_nil]

/-! ## Recording -/

theorem keeps_recordPubkey {compressed : Bool} {pk : T.Pubkey}
    (hpk : .pubkey pk ∈ made libGiven g) :
    SpKeeps limits valid si keys (recordPubkey compressed pk) g fun _ g' =>
      SpQuiet g g' := by
  apply Keeps.invoke_bind
  · exact ⟨by simpa [LibCall.handed, KeyCall.handed] using hpk, trivial⟩
  · rintro ⟨_, ser⟩ -
    exact Keeps.emit (SpQuiet.concat rfl rfl)

theorem keeps_spRecordXonly {pk : T.XonlyPubkey} (hpk : .xonly pk ∈ made libGiven g) :
    SpKeeps limits valid si keys (spRecordXonly pk) g fun _ g' => SpQuiet g g' := by
  apply Keeps.invoke_bind
  · exact ⟨by simpa [LibCall.handed, KeyCall.handed] using hpk, trivial⟩
  · rintro ⟨_, ser⟩ -
    exact Keeps.emit (SpQuiet.concat rfl rfl)

theorem keeps_spRecordXonlys {pks : List T.XonlyPubkey}
    (hpks : ∀ pk ∈ pks, .xonly pk ∈ made libGiven g) :
    SpKeeps limits valid si keys (spRecordXonlys pks) g fun _ g' => SpQuiet g g' := by
  induction pks generalizing g with
  | nil => exact Keeps.pure (SpQuiet.refl g)
  | cons pk pks ih =>
      rw [List.forall_mem_cons] at hpks
      apply Keeps.bind (keeps_spRecordXonly hpks.1)
      intro _ g₁ hgrows hquiet
      exact (ih fun pk hpk => mem_made_grows hgrows (hpks.2 pk hpk)).mono fun _ _ _ h =>
        hquiet.trans h

theorem keeps_spLabelRoundtrip (in33 : Bytes 33) :
    SpKeeps limits valid si keys (spLabelRoundtrip in33) g fun _ g' => SpQuiet g g' := by
  apply Keeps.invoke_bind ⟨by simp [LibCall.handed, SpCall.handed], trivial⟩
  rintro ⟨ok, label⟩ -
  apply Keeps.emit_bind
  apply Keeps.ite
  · intro hok
    apply Keeps.invoke_bind
    · refine ⟨?_, trivial⟩
      simp [LibCall.handed, SpCall.handed, made_concat, libGiven, SpCall.given,
        mem_ifOk, hok]
    · rintro ⟨_, ser⟩ -
      exact Keeps.emit ((SpQuiet.concat rfl rfl).trans (SpQuiet.concat rfl rfl))
  · intro _
    exact Keeps.pure (SpQuiet.concat rfl rfl)

/-! ## The keys -/

theorem PubkeyOf.mono {g' : List (Event (LibCall T))} (hgrows : g <+: g')
    {seckey : Bytes 32} {pk : T.Pubkey} (h : PubkeyOf g seckey pk) :
    PubkeyOf g' seckey pk := by
  obtain ⟨ret, hret, hmem⟩ := h
  exact ⟨ret, hret, hgrows.subset hmem⟩

theorem XonlyOf.mono {g' : List (Event (LibCall T))} (hgrows : g <+: g')
    {keypair : T.Keypair} {pk : T.XonlyPubkey} (h : XonlyOf g keypair pk) :
    XonlyOf g' keypair pk := by
  obtain ⟨ret, parity, hret, hmem⟩ := h
  exact ⟨ret, parity, hret, hgrows.subset hmem⟩

theorem SpKeysMade.mono {g' : List (Event (LibCall T))} (hgrows : g <+: g')
    {ks : SpKeys T} (h : SpKeysMade valid g ks) : SpKeysMade valid g' ks where
  keypairs kp hkp := mem_made_grows hgrows (h.keypairs kp hkp)
  xonly := h.xonly.imp fun _ _ => XonlyOf.mono hgrows
  pubkeys := h.pubkeys.imp fun _ _ => PubkeyOf.mono hgrows

/-- Every x-only key of the inputs was given. -/
theorem SpKeysMade.xonly_made {ks : SpKeys T} (h : SpKeysMade valid g ks) :
    ∀ pk ∈ ks.xonly, LibObject.xonly pk ∈ made libGiven g := by
  intro pk hpk
  obtain ⟨i, hi, rfl⟩ := List.mem_iff_getElem.mp hpk
  obtain ⟨ret, parity, hret, hmem⟩ := h.xonly.get (h.xonly.length_eq ▸ hi) hi
  exact mem_made_of_mem hmem (mem_ifOk.mpr ⟨hret, List.mem_singleton.mpr rfl⟩)

theorem SpKeysMade.pubkeys_made {ks : SpKeys T} (h : SpKeysMade valid g ks) :
    ∀ pk ∈ ks.pubkeys, LibObject.pubkey pk ∈ made libGiven g := by
  intro pk hpk
  obtain ⟨i, hi, rfl⟩ := List.mem_iff_getElem.mp hpk
  obtain ⟨ret, hret, hmem⟩ := h.pubkeys.get (h.pubkeys.length_eq ▸ hi) hi
  exact mem_made_of_mem hmem (mem_ifOk.mpr ⟨hret, List.mem_singleton.mpr rfl⟩)

/-- The counts of the four arrays. -/
structure SpCounts (ks : SpKeys T) (n : ℕ) : Prop where
  xonly : ks.xonly.length = ks.keypairs.length
  pubkeys : ks.pubkeys.length ≤ ks.seckeys.length
  total : ks.keypairs.length + ks.seckeys.length ≤ n

theorem SpKeysMade.counts {ks : SpKeys T} {n : ℕ} (h : SpKeysMade valid g ks)
    (hn : ks.keypairs.length + ks.seckeys.length ≤ n) : SpCounts ks n where
  xonly := h.xonly.length_eq.symm
  pubkeys := h.pubkeys.length_eq.symm.le.trans (List.length_filter_le _ _)
  total := hn

theorem keeps_spInputKey (taproot : Bool) (seckey : Bytes 32) {ks : SpKeys T}
    (hks : SpKeysMade valid g ks) :
    SpKeeps limits valid si keys (spInputKey taproot seckey ks) g fun ks' g' =>
      SpKeysMade valid g' ks' ∧ SpQuiet g g' ∧
        ks'.keypairs.length + ks'.seckeys.length ≤
          ks.keypairs.length + ks.seckeys.length + 1 := by
  apply Keeps.ite
  · intro _
    apply Keeps.invoke_bind ⟨by simp [LibCall.handed, KeyCall.handed], trivial⟩
    rintro ⟨ok, keypair⟩ -
    apply Keeps.emit_bind
    have hgrow :=
      hks.mono (List.prefix_append g [⟨.key (.keypairCreate seckey), (ok, keypair)⟩])
    apply Keeps.ite
    · intro hok
      have hkp : LibObject.keypair keypair ∈
          made libGiven (g ++ [⟨.key (.keypairCreate seckey), (ok, keypair)⟩]) :=
        mem_made_last (mem_ifOk_self hok _)
      apply Keeps.invoke_bind
      · exact ⟨by simpa [LibCall.handed, KeyCall.handed] using hkp, trivial⟩
      · rintro ⟨ret, xonly, parity⟩ (rfl : ret = 1)
        apply Keeps.pure
        have hgrow' := hgrow.mono
          (List.prefix_append _ [⟨.key (.keypairXonlyPub keypair), (1, xonly, parity)⟩])
        refine ⟨⟨?_, ?_, hgrow'.pubkeys⟩,
          (SpQuiet.concat rfl rfl).trans (SpQuiet.concat rfl rfl), ?_⟩
        · intro kp hmem
          rcases List.mem_append.mp hmem with hmem | hmem
          · exact hgrow'.keypairs kp hmem
          · rw [List.mem_singleton.mp hmem]
            exact mem_made_grows (List.prefix_append _ _) hkp
        · exact List.rel_append hgrow'.xonly (.cons ⟨1, parity, by decide, by simp⟩ .nil)
        · simp only [List.length_append, List.length_singleton]
          omega
    · intro _
      exact Keeps.pure ⟨hgrow, SpQuiet.concat rfl rfl, Nat.le_succ _⟩
  · intro _
    apply Keeps.invoke_bind ⟨by simp [LibCall.handed, KeyCall.handed], trivial⟩
    rintro ⟨ok, pubkey⟩ hvalid
    apply Keeps.emit_bind
    have hgrow :=
      hks.mono (List.prefix_append g [⟨.key (.ecPubkeyCreate seckey), (ok, pubkey)⟩])
    apply Keeps.ite
    · intro hok
      apply Keeps.pure
      refine ⟨⟨hgrow.keypairs, hgrow.xonly, ?_⟩, SpQuiet.concat rfl rfl, ?_⟩
      · dsimp only
        rw [List.filter_append, List.filter_cons_of_pos (hvalid.mp hok), List.filter_nil]
        exact List.rel_append hgrow.pubkeys (.cons ⟨ok, hok, by simp⟩ .nil)
      · simp only [List.length_append, List.length_singleton]
        omega
    · intro hok
      apply Keeps.pure
      refine ⟨⟨hgrow.keypairs, hgrow.xonly, ?_⟩, SpQuiet.concat rfl rfl, ?_⟩
      · dsimp only
        rw [List.filter_append, List.filter_cons_of_neg fun h => hok (hvalid.mpr h),
          List.filter_nil, List.append_nil]
        exact hgrow.pubkeys
      · simp only [List.length_append, List.length_singleton]
        omega

theorem keeps_spInputKeys (kinds i : ℕ) (seckeys : List (Bytes 32)) {ks : SpKeys T}
    (hks : SpKeysMade valid g ks) :
    SpKeeps limits valid si keys (spInputKeys kinds i seckeys ks) g fun ks' g' =>
      SpKeysMade valid g' ks' ∧ SpQuiet g g' ∧
        ks'.keypairs.length + ks'.seckeys.length ≤
          ks.keypairs.length + ks.seckeys.length + seckeys.length := by
  induction seckeys generalizing g i ks with
  | nil => exact Keeps.pure ⟨hks, SpQuiet.refl g, Nat.le_refl _⟩
  | cons seckey seckeys ih =>
      apply Keeps.bind (keeps_spInputKey ((kinds >>> i) &&& 1 ≠ 0) seckey hks)
      rintro ks₁ g₁ - ⟨hks₁, hquiet, hlen⟩
      refine (ih (i + 1) hks₁).mono fun ks' g' _ hpost =>
        ⟨hpost.1, hquiet.trans hpost.2.1, ?_⟩
      have hlen' := hpost.2.2
      rw [List.length_cons]
      omega

/-! ## Labels -/

theorem SpCacheMade.mono {g' : List (Event (LibCall T))} (hgrows : g <+: g')
    {cache : SpLabelCache} (h : SpCacheMade g cache) : SpCacheMade g' cache := by
  obtain ⟨scan, m, ret, label, tweak32, hret, hcreate, ⟨ret', hret', hser⟩, htweak⟩ := h
  refine ⟨scan, m, ret, label, tweak32, hret, hgrows.subset hcreate,
    ⟨ret', hret', hgrows.subset hser⟩, ?_⟩
  rcases htweak with htweak | ⟨scalar, hscalar⟩
  · exact .inl htweak
  · exact .inr ⟨scalar, hgrows.subset hscalar⟩

/-- The labeled key was given, and the cache holds its label. -/
structure SpLabeledMade (l : List (Event (LibCall T)))
    (labeled : SpLabeled T) : Prop where
  labeledPk : LibObject.pubkey labeled.labeledPk ∈ made libGiven l
  cache : SpCacheMade l labeled.cache

theorem SpLabeledMade.mono {g' : List (Event (LibCall T))} (hgrows : g <+: g')
    {labeled : SpLabeled T} (h : SpLabeledMade g labeled) : SpLabeledMade g' labeled :=
  ⟨mem_made_grows hgrows h.labeledPk, h.cache.mono hgrows⟩

theorem keeps_spRawTweak {labeled : SpLabeled T} (h : SpLabeledMade g labeled) :
    SpKeeps limits valid si keys (spRawTweak si labeled) g fun labeled' g' =>
      SpLabeledMade g' labeled' ∧ SpQuiet g g' := by
  apply Keeps.ite
  · intro _
    apply Keeps.invoke_bind ⟨by simp [LibCall.handed], trivial⟩
    rintro ⟨rawTweak, overflow⟩ -
    apply Keeps.invoke_bind ⟨by simp [LibCall.handed], trivial⟩
    intro tweak32 _
    apply Keeps.pure
    have hgrow := (h.mono
      (List.prefix_append g [⟨.scalar (.setB32 si.rawTweak), (rawTweak, overflow)⟩])).mono
      (List.prefix_append _ [⟨.scalar (.getB32 rawTweak), tweak32⟩])
    refine ⟨⟨hgrow.labeledPk, ?_⟩,
      (SpQuiet.concat rfl rfl).trans (SpQuiet.concat rfl rfl)⟩
    obtain ⟨scan, m, ret, label, tweak, hret, hcreate, hser, -⟩ := hgrow.cache
    exact ⟨scan, m, ret, label, tweak, hret, hcreate, hser, .inr ⟨rawTweak, by simp⟩⟩
  · intro _
    exact Keeps.pure ⟨h, SpQuiet.refl g⟩

theorem keeps_spLabel {spendPk : T.Pubkey} (hspend : .pubkey spendPk ∈ made libGiven g) :
    SpKeeps limits valid si keys (spLabel si spendPk) g fun labeled g' =>
      (∀ lb, labeled = some lb → SpLabeledMade g' lb) ∧ SpQuiet g g' := by
  apply Keeps.ite
  · intro _
    apply Keeps.invoke_bind ⟨by simp [LibCall.handed, SpCall.handed], trivial⟩
    rintro ⟨ok, label, tweak32⟩ -
    apply Keeps.emit_bind
    apply Keeps.ite
    · intro _
      exact Keeps.pure ⟨nofun, SpQuiet.concat rfl rfl⟩
    · intro hok
      have hlabel : LibObject.label label ∈
          made libGiven
            (g ++ [⟨.sp (.recipientLabelCreate si.scan si.m), (ok, label, tweak32)⟩]) :=
        mem_made_last (mem_ifOk_self hok _)
      apply Keeps.invoke_bind
      · exact ⟨by simpa [LibCall.handed, SpCall.handed] using hlabel, trivial⟩
      rintro ⟨ret, label33⟩ (rfl : ret = 1)
      apply Keeps.emit_bind
      apply Keeps.emit_bind
      apply Keeps.invoke_bind
      · refine ⟨?_, trivial⟩
        simp only [LibCall.handed, SpCall.handed, List.forall_mem_cons]
        exact ⟨mem_made_grows
          ((List.prefix_append _ _).trans (List.prefix_append _ _)) hspend,
          mem_made_grows (List.prefix_append _ _) hlabel, nofun⟩
      rintro ⟨ok', labeledPk⟩ -
      apply Keeps.emit_bind
      have hquiet : SpQuiet g
          (g ++ [⟨.sp (.recipientLabelCreate si.scan si.m), (ok, label, tweak32)⟩] ++
          [⟨.sp (.recipientLabelSerialize label), (1, label33)⟩] ++
          [⟨.sp (.recipientCreateLabeledSpendPubkey spendPk label), (ok', labeledPk)⟩]) :=
        ((SpQuiet.concat rfl rfl).trans (SpQuiet.concat rfl rfl)).trans
          (SpQuiet.concat rfl rfl)
      apply Keeps.ite
      · intro _
        exact Keeps.pure ⟨nofun, hquiet⟩
      · intro hok'
        have hmade : SpLabeledMade
            (g ++ [⟨.sp (.recipientLabelCreate si.scan si.m), (ok, label, tweak32)⟩] ++
            [⟨.sp (.recipientLabelSerialize label), (1, label33)⟩] ++
            [⟨.sp (.recipientCreateLabeledSpendPubkey spendPk label), (ok', labeledPk)⟩])
            ⟨⟨label33, tweak32⟩, labeledPk⟩ := by
          refine ⟨mem_made_last (mem_ifOk_self hok' _), si.scan, si.m, ok, label, tweak32,
            hok, by simp, ?_, .inl rfl⟩
          exact ⟨1, by decide, by simp⟩
        apply Keeps.bind (keeps_recordPubkey hmade.labeledPk)
        intro _ g₁ hgrows hquiet₁
        apply Keeps.bind (keeps_spRawTweak (hmade.mono hgrows))
        rintro labeled g₂ - ⟨hmade₂, hquiet₂⟩
        refine Keeps.pure ⟨?_, (hquiet.trans hquiet₁).trans hquiet₂⟩
        rintro _ ⟨⟩
        exact hmade₂
  · intro _
    exact Keeps.pure ⟨nofun, SpQuiet.refl g⟩

theorem keeps_spLabelCancel {spendPk : T.Pubkey}
    (hspend : .pubkey spendPk ∈ made libGiven g) :
    SpKeeps limits valid si keys (spLabelCancel spendPk) g fun _ g' => SpQuiet g g' := by
  apply Keeps.invoke_bind
  · exact ⟨by simpa [LibCall.handed, KeyCall.handed] using hspend, trivial⟩
  rintro ⟨ret, neg⟩ (rfl : ret = 1)
  apply Keeps.invoke_bind
  · refine ⟨?_, trivial⟩
    simpa [LibCall.handed, KeyCall.handed]
      using mem_made_last (mem_ifOk_self (by decide : (1 : Int32) ≠ 0) (.pubkey neg))
  rintro ⟨ret', ser⟩ -
  apply Keeps.invoke_bind ⟨by simp [LibCall.handed, SpCall.handed], trivial⟩
  rintro ⟨ok, label⟩ -
  apply Keeps.emit_bind
  have hquiet : SpQuiet g (g ++ [⟨.key (.ecPubkeyNegate spendPk), (1, neg)⟩] ++
      [⟨.key (.ecPubkeySerialize neg true), (ret', ser)⟩] ++
      [⟨.sp (.recipientLabelParse (bytesAt ser 0 33)), (ok, label)⟩]) :=
    ((SpQuiet.concat rfl rfl).trans (SpQuiet.concat rfl rfl)).trans
      (SpQuiet.concat rfl rfl)
  apply Keeps.ite
  · intro hok
    apply Keeps.invoke_bind
    · refine ⟨?_, trivial⟩
      simp only [LibCall.handed, SpCall.handed, List.forall_mem_cons]
      refine ⟨mem_made_grows ?_ hspend, ?_, nofun⟩
      · exact ((List.prefix_append _ _).trans (List.prefix_append _ _)).trans
          (List.prefix_append _ _)
      · exact mem_made_last (mem_ifOk_self hok _)
    · rintro ⟨ret, labeledPk⟩ -
      exact Keeps.emit (hquiet.trans (SpQuiet.concat rfl rfl))
  · intro _
    exact Keeps.pure hquiet

/-! ## The parties -/

/-- The keys of the parties were given. -/
structure SpPartiesMade (valid : Bytes 32 → Bool) (l : List (Event (LibCall T)))
    (st : SpParties T) : Prop where
  keys : SpKeysMade valid l st.keys
  scanPk : LibObject.pubkey st.scanPk ∈ made libGiven l
  spendPk : LibObject.pubkey st.spendPk ∈ made libGiven l
  labeled : ∀ lb, st.labeled = some lb → SpLabeledMade l lb
  foreignPk : ∀ pk, st.foreignPk = some pk → LibObject.pubkey pk ∈ made libGiven l

theorem SpPartiesMade.mono {g' : List (Event (LibCall T))} (hgrows : g <+: g')
    {st : SpParties T} (h : SpPartiesMade valid g st) : SpPartiesMade valid g' st where
  keys := h.keys.mono hgrows
  scanPk := mem_made_grows hgrows h.scanPk
  spendPk := mem_made_grows hgrows h.spendPk
  labeled lb hlb := (h.labeled lb hlb).mono hgrows
  foreignPk pk hpk := mem_made_grows hgrows (h.foreignPk pk hpk)

/-- The keys of a recipient were given. -/
theorem SpPartiesMade.recipient {st : SpParties T} (h : SpPartiesMade valid g st)
    (i : Fin si.nRecipients) :
    LibObject.pubkey (spRecipient si st i).scanPubkey ∈ made libGiven g ∧
      LibObject.pubkey (spRecipient si st i).spendPubkey ∈ made libGiven g := by
  have hown :
      LibObject.pubkey (spRecipient si { st with foreignPk := none } i).scanPubkey ∈
        made libGiven g ∧
      LibObject.pubkey (spRecipient si { st with foreignPk := none } i).spendPubkey ∈
        made libGiven g := by
    simp only [spRecipient, ite_self]
    cases hlabeled : st.labeled with
    | none => exact ⟨h.scanPk, h.spendPk⟩
    | some labeled =>
        refine ⟨h.scanPk, ?_⟩
        dsimp only
        split
        · exact (h.labeled labeled hlabeled).labeledPk
        · exact h.spendPk
  by_cases hlast : i.val + 1 = si.nRecipients
  · cases hforeign : st.foreignPk with
    | none =>
        simp only [spRecipient, hforeign, ite_self] at hown ⊢
        exact hown
    | some foreignPk =>
        simp only [spRecipient, hforeign, if_pos hlast]
        exact ⟨h.foreignPk foreignPk hforeign, h.foreignPk foreignPk hforeign⟩
  · simp only [spRecipient, if_neg hlast] at hown ⊢
    exact hown

/-- Where a sender sends to keys that were given, its call is handed only
objects that were given. -/
theorem handed_sender {n : ℕ} {recipients : Fin n → SpRecipient T} {outpoint : Bytes 36}
    {seckeys : List (Bytes 32)} {keypairs : List T.Keypair}
    (hrec : ∀ i, LibObject.pubkey (recipients i).scanPubkey ∈ made libGiven g ∧
      LibObject.pubkey (recipients i).spendPubkey ∈ made libGiven g)
    (hkp : ∀ kp ∈ keypairs, LibObject.keypair kp ∈ made libGiven g) :
    ∀ x ∈ (LibCall.sp (.senderCreateOutputs recipients outpoint keypairs seckeys)).handed,
      x ∈ made libGiven g := by
  intro x hx
  simp only [LibCall.handed, SpCall.handed, List.mem_append, List.mem_ofFn,
    List.mem_map] at hx
  rcases hx with (⟨i, rfl⟩ | ⟨i, rfl⟩) | ⟨kp, hmem, rfl⟩
  · exact (hrec i).1
  · exact (hrec i).2
  · exact hkp kp hmem

/-- What the sender leaves in the log: nothing, or its outputs. -/
structure SpSentTo (si : SpInput) (keys : SpKeys T) (valid : Bytes 32 → Bool)
    (g g' : List (Event (LibCall T)))
    (sent : Option (Fin si.nRecipients → T.XonlyPubkey)) : Prop where
  sends : g'.filterMap spSent = g.filterMap spSent ++ (sent.map List.ofFn).toList
  parses : g'.filterMap spParsed = g.filterMap spParsed
  outputs : ∀ outputs, sent = some outputs →
    ∀ i, LibObject.xonly (outputs i) ∈ made libGiven g'
  allValid : sent.isSome → ∀ k ∈ keys.seckeys, valid k = true
  pos : sent.isSome → 0 < keys.keypairs.length + keys.seckeys.length

theorem keeps_spSend {st : SpParties T} (hst : SpPartiesMade valid g st)
    (hkeys : st.keys = keys) :
    SpKeeps limits valid si keys (spSend si st) g fun sent g' =>
      SpSentTo si keys valid g g' sent := by
  subst hkeys
  apply Keeps.ite
  · intro hpos
    apply Keeps.invoke_bind
    · exact ⟨handed_sender hst.recipient hst.keys.keypairs, rfl, rfl, hpos⟩
    rintro ⟨sent, outputs⟩ hvalid
    apply Keeps.emit_bind
    apply Keeps.ite
    · intro hsent
      have hmade (i : Fin si.nRecipients) :
          LibObject.xonly (outputs i) ∈ made libGiven (g ++ [⟨.sp
            (.senderCreateOutputs (spRecipient si st) si.outpoint st.keys.keypairs
              st.keys.seckeys), (sent, outputs)⟩]) :=
        mem_made_last (mem_ifOk.mpr ⟨hsent, List.mem_ofFn.mpr ⟨i, rfl⟩⟩)
      apply Keeps.bind (keeps_spRecordXonlys fun pk hpk => by
        obtain ⟨i, rfl⟩ := List.mem_ofFn.mp hpk
        exact hmade i)
      intro _ g₁ hgrows hquiet
      apply Keeps.pure
      refine ⟨?_, ?_, ?_, fun _ => hvalid hsent, fun _ => hpos⟩
      · rw [hquiet.sent, List.filterMap_append]
        simp [spSent, hsent]
      · rw [hquiet.parsed, List.filterMap_append]
        simp [spParsed]
      · rintro _ ⟨⟩ i
        exact mem_made_grows hgrows (hmade i)
    · intro hsent
      apply Keeps.pure
      refine ⟨?_, ?_, nofun, nofun, nofun⟩
      · simp [spSent, not_not.mp hsent]
      · simp [spParsed]
  · intro _
    exact Keeps.pure ⟨by simp, rfl, nofun, nofun, nofun⟩

/-- The twin is the second thing that is sent. -/
theorem keeps_spTwin {st : SpParties T} (hst : SpPartiesMade valid g st)
    (hkeys : st.keys = keys) (sent : Bool)
    (hpos : sent = true → 0 < keys.keypairs.length + keys.seckeys.length) :
    SpKeeps limits valid si keys (spTwin si st sent) g fun twin g' =>
      g'.filterMap spSent = g.filterMap spSent ++ twin.toList.map ([·]) ∧
        g'.filterMap spParsed = g.filterMap spParsed ∧
        ∀ pk, twin = some pk → LibObject.xonly pk ∈ made libGiven g' := by
  subst hkeys
  rw [spTwin]
  cases hlabeled : st.labeled with
  | none => exact Keeps.pure ⟨by simp, rfl, nofun⟩
  | some labeled =>
      apply Keeps.ite
      · rintro ⟨-, hsent, -⟩
        have hspend : LibObject.pubkey
            (if si.labeled &&& 1 ≠ 0 then st.spendPk else labeled.labeledPk) ∈
            made libGiven g := by
          split
          · exact hst.spendPk
          · exact (hst.labeled labeled hlabeled).labeledPk
        apply Keeps.invoke_bind
        · exact ⟨handed_sender (fun _ => ⟨hst.scanPk, hspend⟩) hst.keys.keypairs, rfl,
            rfl, hpos hsent⟩
        rintro ⟨ok, twin⟩ -
        apply Keeps.emit_bind
        apply Keeps.ite
        · intro hok
          have htwin : LibObject.xonly (twin 0) ∈
              made libGiven (g ++ [⟨.sp (.senderCreateOutputs
                (fun _ : Fin 1 => (⟨st.scanPk,
                  if si.labeled &&& 1 ≠ 0 then st.spendPk else labeled.labeledPk, 0⟩ :
                    SpRecipient T))
                si.outpoint st.keys.keypairs st.keys.seckeys), (ok, twin)⟩]) :=
            mem_made_last (mem_ifOk.mpr ⟨hok, List.mem_ofFn.mpr ⟨0, rfl⟩⟩)
          apply Keeps.bind (keeps_spRecordXonly htwin)
          intro _ g₁ hgrows hquiet
          apply Keeps.pure
          refine ⟨?_, ?_, ?_⟩
          · rw [hquiet.sent, List.filterMap_append]
            simp [spSent, hok]
          · rw [hquiet.parsed, List.filterMap_append]
            simp [spParsed]
          · rintro _ ⟨⟩
            exact mem_made_grows hgrows htwin
        · intro hok
          apply Keeps.pure
          refine ⟨?_, ?_, nofun⟩
          · simp [spSent, not_not.mp hok]
          · simp [spParsed]
      · intro _
        exact Keeps.pure ⟨by simp, rfl, nofun⟩

/-! ## The scans -/

theorem keeps_spRecordFound {found : SpFoundOutput T}
    (hfound : ∀ x ∈ found.given, x ∈ made libGiven g) :
    SpKeeps limits valid si keys (spRecordFound found) g fun _ g' => g <+: g' := by
  apply Keeps.bind (keeps_spRecordXonly (hfound _ (List.mem_cons_self ..)))
  intro _ g₁ hgrows _
  apply Keeps.emit_bind
  apply Keeps.emit_bind
  apply Keeps.ite
  · intro hlabel
    have hmade : LibObject.label found.label ∈ made libGiven g :=
      hfound _ (by simp [SpFoundOutput.given, hlabel])
    apply Keeps.invoke_bind
    · refine ⟨?_, trivial⟩
      simpa [LibCall.handed, SpCall.handed] using mem_made_grows hgrows hmade
    · rintro ⟨_, ser⟩ -
      exact Keeps.emit (hgrows.trans (List.prefix_append _ _))
  · intro _
    exact Keeps.pure hgrows

theorem keeps_spRecordFounds {found : ℕ → SpFoundOutput T} (start count : ℕ)
    (hfound : ∀ i < start + count, ∀ x ∈ (found i).given, x ∈ made libGiven g) :
    SpKeeps limits valid si keys (spRecordFounds found start count) g fun _ _ =>
      True := by
  induction count generalizing start g with
  | zero => exact Keeps.pure trivial
  | succ count ih =>
      apply Keeps.bind (keeps_spRecordFound (hfound start (by omega)))
      intro _ g₁ _ hgrows
      exact ih (start + 1) fun i hi x hx =>
        mem_made_grows hgrows (hfound i (by omega) x hx)

/-- A scan of objects that were given; what it finds is recorded. -/
theorem keeps_spScanRecord {scanKey : Bytes 32} {tx : List T.XonlyPubkey}
    {summary : T.SpSummary} {spendPk : T.Pubkey} {cache : Option SpLabelCache}
    (htx : ∀ pk ∈ tx, LibObject.xonly pk ∈ made libGiven g)
    (hsummary : SpSummaryOf si keys g summary)
    (hspend : .pubkey spendPk ∈ made libGiven g)
    (hcache : ∀ c, cache = some c → SpCacheMade g c)
    (htxOf : SpTxOf limits si g tx ∨ SpScanned g) :
    SpKeeps limits valid si keys (spScanRecord scanKey tx summary spendPk cache) g
      fun _ g' => SpScanned g' := by
  apply Keeps.invoke_bind
  · refine ⟨?_, ?_, hsummary, htxOf⟩
    · intro x hx
      simp only [LibCall.handed, SpCall.handed, List.mem_append, List.mem_map,
        List.mem_cons, List.not_mem_nil, or_false] at hx
      rcases hx with ⟨pk, hpk, rfl⟩ | rfl | rfl
      · exact htx pk hpk
      · obtain ⟨ret, hret, hmem⟩ := hsummary.created
        exact mem_made_of_mem hmem (mem_ifOk_self hret _)
      · exact hspend
    · intro f hf
      obtain ⟨c, rfl, rfl⟩ := Option.map_eq_some_iff.mp hf
      exact ⟨c, rfl, hcache c rfl⟩
  rintro ⟨ok, nFound, found⟩ -
  have hscanned : SpScanned (g ++
    [⟨.sp (.recipientScanOutputs tx scanKey summary spendPk (cache.map spLabelLookup)),
      (ok, nFound, found)⟩]) :=
      ⟨_, List.mem_append_right _ (List.mem_singleton.mpr rfl), trivial⟩
  apply Keeps.emit_bind
  apply Keeps.ite
  · intro _
    exact Keeps.pure hscanned
  · intro hok
    apply Keeps.emit_bind
    apply Keeps.mono
    · apply keeps_spRecordFounds 0 nFound.toNat
      intro i hi x hx
      apply mem_made_last
      exact mem_ifOk.mpr ⟨hok,
        List.mem_flatMap.mpr ⟨i, List.mem_range.mpr (by omega), hx⟩⟩
    · rintro _ g' ⟨k, rfl⟩ -
      obtain ⟨e, he, hscan⟩ := hscanned
      exact ⟨e, List.mem_append_left _ he, hscan⟩

/-- What is inserted, and where. -/
structure SpForeignMade (limits : SpLimits) (si : SpInput) (n : ℕ)
    (g g' : List (Event (LibCall T))) (foreigns : List T.XonlyPubkey)
    (pos : ℕ) : Prop where
  sends : g'.filterMap spSent = g.filterMap spSent
  inserts : ∃ foreign : Option T.XonlyPubkey,
    g'.filterMap spParsed = g.filterMap spParsed ++ foreign.toList ∧
    (∀ pk, foreign = some pk → LibObject.xonly pk ∈ made libGiven g') ∧
    foreigns = foreign.toList.flatMap (List.replicate (spCopies limits si)) ∧
    (foreign.isSome → pos = si.outPos % (n + 1)) ∧ (foreign = none → pos = sizeMax)

theorem keeps_spForeign (n : ℕ) :
    SpKeeps limits valid si keys (spForeign (T := T) limits si n) g fun x g' =>
      SpForeignMade limits si n g g' x.1 x.2 := by
  apply Keeps.ite
  · intro _
    apply Keeps.invoke_bind ⟨by simp [LibCall.handed, KeyCall.handed], trivial⟩
    rintro ⟨ok, foreign⟩ -
    apply Keeps.pure
    by_cases hok : ok ≠ 0
    · rw [if_pos hok]
      refine ⟨by simp [spSent], some foreign, by simp [spParsed, hok],
        ?_, by simp [spCopies], fun _ => rfl, nofun⟩
      rintro _ ⟨⟩
      exact mem_made_last (mem_ifOk_self hok _)
    · rw [if_neg hok]
      exact ⟨by simp [spSent], none, by simp [spParsed, not_not.mp hok], nofun, rfl,
        nofun, fun _ => rfl⟩
  · intro _
    exact Keeps.pure ⟨rfl, none, by simp, nofun, rfl, nofun, fun _ => rfl⟩

/-- The generated outputs, and the twin, that the log before the scans tells
of. -/
structure SpGenerated (si : SpInput) (g : List (Event (LibCall T)))
    (outputs : List T.XonlyPubkey) (twin : Option T.XonlyPubkey) : Prop where
  length : outputs.length = si.nRecipients
  sends : g.filterMap spSent = outputs :: twin.toList.map ([·])
  outputs_made : ∀ pk ∈ outputs, LibObject.xonly pk ∈ made libGiven g
  twin_made : ∀ pk, twin = some pk → LibObject.xonly pk ∈ made libGiven g

/-- With what `spForeign` gives, the transaction is the one of the log, and
its outputs were given. -/
theorem SpGenerated.tx {g' : List (Event (LibCall T))}
    {outputs foreigns : List T.XonlyPubkey} {pos : ℕ} {twin : Option T.XonlyPubkey}
    (h : SpGenerated si g outputs twin) (hparsed : g.filterMap spParsed = [])
    (hgrows : g <+: g')
    (hforeign : SpForeignMade limits si outputs.length g g' foreigns pos) :
    SpTxOf limits si g' (spTx twin outputs foreigns pos) ∧
      ∀ pk ∈ spTx twin outputs foreigns pos, LibObject.xonly pk ∈ made libGiven g' := by
  obtain ⟨foreign, hparses, hmade, hforeigns, hpos, hnone⟩ := hforeign.inserts
  rw [hparsed, List.nil_append] at hparses
  have htx : spTx twin outputs foreigns pos = twin.toList ++ outputs.take (spPos si) ++
      foreign.toList.flatMap (List.replicate (spCopies limits si)) ++
        outputs.drop (spPos si) := by
    cases foreign with
    | none =>
        have hlt : outputs.length < sizeMax := by
          rw [h.length]
          exact si.nRecipients_le.trans_lt (by decide)
        rw [hnone rfl, spTx_plain hlt]
        simp
    | some pk =>
        rw [h.length] at hpos
        have hle : spPos si ≤ outputs.length := by
          rw [h.length]
          exact Nat.le_of_lt_succ (Nat.mod_lt _ (Nat.succ_pos _))
        rw [hpos rfl, hforeigns, ← spPos, spTx_insert hle]
        simp only [List.append_assoc]
  refine ⟨⟨outputs, twin, foreign, h.length, ?_, hparses, htx⟩, ?_⟩
  · rw [hforeign.sends, h.sends]
  · intro pk hpk
    rw [htx] at hpk
    simp only [List.mem_append, Option.mem_toList, List.mem_flatMap,
      List.mem_replicate] at hpk
    rcases hpk with ((hpk | hpk) | ⟨pk', hpk', -, rfl⟩) | hpk
    · exact mem_made_grows hgrows (h.twin_made pk hpk)
    · exact mem_made_grows hgrows (h.outputs_made pk (List.mem_of_mem_take hpk))
    · exact hmade pk hpk'
    · exact mem_made_grows hgrows (h.outputs_made pk (List.mem_of_mem_drop hpk))

theorem SpSummaryOf.mono {g' : List (Event (LibCall T))} (hgrows : g <+: g')
    {summary : T.SpSummary} (h : SpSummaryOf si keys g summary) :
    SpSummaryOf si keys g' summary := by
  obtain ⟨ret, hret, hmem⟩ := h.created
  exact ⟨⟨ret, hret, hgrows.subset hmem⟩, h.xonly.imp fun _ _ => XonlyOf.mono hgrows,
    h.pubkeys.imp fun _ _ => PubkeyOf.mono hgrows⟩

theorem keeps_spScan {outputs : List T.XonlyPubkey} {twin : Option T.XonlyPubkey}
    {summary : T.SpSummary} {spendPk : T.Pubkey} {cache : Option SpLabelCache}
    (hgen : SpGenerated si g outputs twin) (hparsed : g.filterMap spParsed = [])
    (hsummary : SpSummaryOf si keys g summary)
    (hspend : .pubkey spendPk ∈ made libGiven g)
    (hcache : ∀ c, cache = some c → SpCacheMade g c) :
    SpKeeps limits valid si keys (spScan limits si outputs twin summary spendPk cache) g
      fun _ g' => SpScanned g' := by
  apply Keeps.bind (keeps_spForeign outputs.length)
  rintro ⟨foreigns, pos⟩ g₁ hgrows hforeign
  obtain ⟨htxOf, htx⟩ := hgen.tx hparsed hgrows hforeign
  exact keeps_spScanRecord htx (hsummary.mono hgrows) (mem_made_grows hgrows hspend)
    (fun c hc => (hcache c hc).mono hgrows) (.inl htxOf)

/-- The sender of one recipient too many, and the scan of the padded
outputs. -/
theorem keeps_spLimit {st : SpParties T} (hst : SpPartiesMade valid g st)
    (hkeys : st.keys = keys) (hpos : 0 < keys.keypairs.length + keys.seckeys.length)
    {n : ℕ} (hn : 0 < n) {outputs : Fin n → T.XonlyPubkey}
    (houtputs : ∀ i, LibObject.xonly (outputs i) ∈ made libGiven g)
    {summary : T.SpSummary} (hsummary : SpSummaryOf si keys g summary)
    (hscanned : SpScanned g) :
    SpKeeps limits valid si keys
      (spLimit limits si st.scanPk st.spendPk st.keys hn outputs summary) g
      fun _ _ => True := by
  subst hkeys
  apply Keeps.invoke_bind
  · exact ⟨handed_sender (fun _ => ⟨hst.scanPk, hst.spendPk⟩) hst.keys.keypairs,
      rfl, rfl, hpos⟩
  rintro ⟨ret, generated⟩ -
  apply Keeps.emit_bind
  obtain ⟨e, he, hscan⟩ := hscanned
  apply (keeps_spScanRecord ?_ (hsummary.mono (List.prefix_append _ _))
    (mem_made_grows (List.prefix_append _ _) hst.spendPk) ?_
    (.inr ⟨e, List.mem_append_left _ he, hscan⟩)).mono
  · intros
    trivial
  · intro pk hpk
    obtain ⟨i, rfl⟩ := List.mem_ofFn.mp hpk
    apply mem_made_grows (List.prefix_append _ _)
    split
    · exact houtputs _
    · exact houtputs _
  · exact nofun

/-! ## The target -/

theorem keeps_spReceive {inp : List UInt8} {st : SpParties T}
    (hst : SpPartiesMade valid g st) (hkeys : st.keys = keys)
    {sent : Option (Fin si.nRecipients → T.XonlyPubkey)} {twin : Option T.XonlyPubkey}
    (hgen : ∀ outputs, sent = some outputs → SpGenerated si g (List.ofFn outputs) twin)
    (hvalid : sent.isSome → ∀ k ∈ keys.seckeys, valid k = true)
    (hpos : sent.isSome → 0 < keys.keypairs.length + keys.seckeys.length)
    (hparsed : g.filterMap spParsed = []) :
    SpKeeps limits valid si keys (spReceive limits inp si st sent twin) g fun _ _ =>
      True := by
  subst hkeys
  apply Keeps.ite
  · intro _
    exact Keeps.pure trivial
  · intro hne
    apply Keeps.invoke_bind
    · refine ⟨?_, rfl, rfl, Nat.pos_of_ne_zero hne⟩
      intro x hx
      simp only [LibCall.handed, SpCall.handed, List.mem_append, List.mem_map] at hx
      rcases hx with ⟨pk, hpk, rfl⟩ | ⟨pk, hpk, rfl⟩
      · exact hst.keys.xonly_made pk hpk
      · exact hst.keys.pubkeys_made pk hpk
    rintro ⟨ok, summary⟩ -
    apply Keeps.emit_bind
    cases sent with
    | none => exact Keeps.pure trivial
    | some outputs =>
        apply Keeps.ite
        · intro hok
          have hst' := hst.mono (List.prefix_append g
            [⟨.sp (.recipientPrevoutsSummaryCreate si.outpoint st.keys.xonly
              st.keys.pubkeys), (ok, summary)⟩])
          have hgen' := hgen outputs rfl
          have hsummary : SpSummaryOf si st.keys (g ++
              [⟨.sp (.recipientPrevoutsSummaryCreate si.outpoint st.keys.xonly
                st.keys.pubkeys), (ok, summary)⟩])
              summary := by
            refine ⟨⟨ok, hok, List.mem_append_right _ (List.mem_singleton.mpr rfl)⟩,
              hst'.keys.xonly, ?_⟩
            have hall := hst'.keys.pubkeys
            rwa [List.filter_eq_self.mpr (hvalid rfl)] at hall
          apply Keeps.bind
          · apply keeps_spScan _ _ hsummary hst'.spendPk
            · intro c hc
              obtain ⟨labeled, hlabeled, rfl⟩ := Option.map_eq_some_iff.mp hc
              exact (hst'.labeled labeled hlabeled).cache
            · refine ⟨hgen'.length, ?_, fun pk hpk => ?_, fun pk hpk => ?_⟩
              · rw [(SpQuiet.concat rfl rfl : SpQuiet g _).sent, hgen'.sends]
              · exact mem_made_grows (List.prefix_append _ _) (hgen'.outputs_made pk hpk)
              · exact mem_made_grows (List.prefix_append _ _) (hgen'.twin_made pk hpk)
            · rw [(SpQuiet.concat rfl rfl : SpQuiet g _).parsed, hparsed]
          intro _ g₂ hgrows hscanned
          apply Keeps.ite
          · intro _
            apply keeps_spLimit (hst'.mono hgrows) rfl (hpos rfl) _ _
              (hsummary.mono hgrows) hscanned
            intro i
            apply mem_made_grows ((List.prefix_append _ _).trans hgrows)
            exact hgen'.outputs_made _ (List.mem_ofFn.mpr ⟨i, rfl⟩)
          · intro _
            exact Keeps.pure trivial
        · intro _
          exact Keeps.pure trivial

end Stages

end Diffsecp
