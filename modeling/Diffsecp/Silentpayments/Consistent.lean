import Diffsecp.Secp.LogReference
import Diffsecp.Silentpayments.Stages

/-!
# Silentpayments — Consistent

Whatever the input and the outcomes of the calls, a run of
`target_silentpayments` hands to libsecp what earlier calls of it gave.
-/

namespace Diffsecp

open Interact

variable {T : Types} {α β : Type}

/-! ## Runs -/

/-- The input and its keys, with which `target_silentpayments` starts. -/
def spInputs : Harness T (SpInput × SpKeys T) := do
  let si ← spRead
  spLabelRoundtrip si.label
  let keys ← spInputKeys si.kinds 0 si.seckey.toList ⟨[], [], [], []⟩
  pure (si, keys)

/-- `spParties`, once the input keys were created. -/
def spPartiesWith (si : SpInput) (keys : SpKeys T) :
    Harness T (Option (SpParties T)) := do
  let (ok, scanPk) ← secpKey (.ecPubkeyCreate si.scan)
  transcriptInt ok
  if ok = 0 then
    pure none
  else do
    let (ok, spendPk) ← secpKey (.ecPubkeyCreate si.spend)
    transcriptInt ok
    if ok = 0 then
      pure none
    else do
      let labeled ← spLabel si spendPk
      (if si.flags &&& SpFlag.labelCancel ≠ 0 then spLabelCancel spendPk else pure ())
      let foreignPk ← (if si.flags &&& SpFlag.foreign ≠ 0 then do
          let (ok, foreignPk) ← secpKey (.ecPubkeyCreate si.foreign)
          transcriptInt ok
          pure (if ok ≠ 0 then some foreignPk else none)
        else pure none)
      pure (some ⟨keys, scanPk, spendPk, labeled, foreignPk⟩)

/-- The target, once the input keys were created. -/
def spExchange (limits : SpLimits) (inp : List UInt8) (si : SpInput) (keys : SpKeys T) :
    Harness T Unit := do
  match ← spPartiesWith si keys with
  | none => pure ()
  | some st => do
      let sent ← spSend si st
      let twin ← spTwin si st sent.isSome
      spReceive limits inp si st sent twin

theorem spParties_eq (si : SpInput) :
    spParties (T := T) si = spInputKeys si.kinds 0 si.seckey.toList ⟨[], [], [], []⟩ >>=
      spPartiesWith si := rfl

theorem targetSilentpayments_eq (limits : SpLimits) (inp : List UInt8) :
    targetSilentpayments (T := T) limits inp = spInputs >>= fun x =>
      spExchange limits inp x.1 x.2 := by
  rw [targetSilentpayments, spInputs, bind_assoc]
  refine bind_congr fun si => ?_
  rw [bind_assoc]
  refine bind_congr fun _ => ?_
  rw [spParties_eq, bind_assoc, bind_assoc]
  rfl

section Runs

variable {limits : SpLimits} {valid : Bytes 32 → Bool} {si : SpInput} {keys : SpKeys T}
  {g : List (Event (LibCall T))}

theorem keeps_readerTakes {size n : ℕ} {f : Vector (Bytes size) n → Harness T α}
    {P : α → List (Event (LibCall T)) → Prop}
    (h : ∀ bs, SpKeeps limits valid si keys (f bs) g P) :
    SpKeeps limits valid si keys (readerTakes size n >>= f) g P := by
  induction n with
  | zero => exact h _
  | succ n ih =>
      rw [readerTakes, bind_assoc]
      apply ih
      intro bs
      rw [bind_assoc]
      apply keeps_readerTake
      intro b
      exact h _

theorem keeps_spRead {f : SpInput → Harness T α} {P : α → List (Event (LibCall T)) → Prop}
    (h : ∀ si', SpKeeps limits valid si keys (f si') g P) :
    SpKeeps limits valid si keys (spRead >>= f) g P := by
  simp only [spRead, bind_assoc, pure_bind]
  apply keeps_readerU8; intro _
  apply keeps_readerTake; intro _
  apply keeps_readerU8; intro _
  apply keeps_readerU8; intro _
  apply keeps_readerTakes; intro _
  apply keeps_readerTake; intro _
  apply keeps_readerTake; intro _
  apply keeps_readerTake; intro _
  apply keeps_readerU16; intro _
  apply keeps_readerU16; intro _
  apply keeps_readerU8; intro _
  apply keeps_readerU8; intro _
  apply keeps_readerTake; intro _
  apply keeps_readerU8; intro _
  apply keeps_readerTake; intro _
  apply keeps_readerU8; intro _
  apply keeps_readerTake; intro _
  exact h _

/-- The calls of the start have what they need, whatever the run is for. -/
theorem keeps_spInputs : SpKeeps limits valid si keys (spInputs (T := T)) [] fun x g' =>
    SpKeysMade valid g' x.2 ∧ SpQuiet [] g' ∧
    x.2.keypairs.length + x.2.seckeys.length ≤ spMaxInputs := by
  apply keeps_spRead
  intro si'
  apply Keeps.bind (keeps_spLabelRoundtrip si'.label)
  intro _ g₁ _ hquiet
  have hnil : SpKeysMade valid g₁ (⟨[], [], [], []⟩ : SpKeys T) := ⟨nofun, .nil, .nil⟩
  apply Keeps.bind (keeps_spInputKeys si'.kinds 0 si'.seckey.toList hnil)
  rintro keys' g₂ - ⟨hkeys, hquiet', hlen⟩
  apply Keeps.pure
  refine ⟨hkeys, hquiet.trans hquiet', ?_⟩
  simp only [List.length_nil, Nat.zero_add, Vector.length_toList] at hlen
  exact hlen.trans si'.nInputs_le

theorem keeps_spForeignPk :
    SpKeeps limits valid si keys (T := T)
      (if si.flags &&& SpFlag.foreign ≠ 0 then do
        let (ok, foreignPk) ← secpKey (.ecPubkeyCreate si.foreign)
        transcriptInt ok
        pure (if ok ≠ 0 then some foreignPk else none)
      else pure none) g fun foreignPk g' =>
      (∀ pk, foreignPk = some pk → LibObject.pubkey pk ∈ made libGiven g') ∧
        SpQuiet g g' := by
  apply Keeps.ite
  · intro _
    apply Keeps.invoke_bind ⟨by simp [LibCall.handed, KeyCall.handed], trivial⟩
    rintro ⟨ok, foreignPk⟩ -
    apply Keeps.emit_bind
    refine Keeps.pure ⟨?_, SpQuiet.concat rfl rfl⟩
    split
    next hok =>
      rintro _ ⟨⟩
      exact mem_made_last (mem_ifOk_self hok _)
    next => simp
  · intro _
    exact Keeps.pure ⟨by simp, SpQuiet.refl g⟩

theorem keeps_spPartiesWith (hks : SpKeysMade valid g keys) :
    SpKeeps limits valid si keys (spPartiesWith si keys) g fun st g' =>
      ∀ st', st = some st' → SpPartiesMade valid g' st' ∧ st'.keys = keys ∧
        SpQuiet g g' := by
  apply Keeps.invoke_bind ⟨by simp [LibCall.handed, KeyCall.handed], trivial⟩
  rintro ⟨ok, scanPk⟩ -
  apply Keeps.emit_bind
  apply Keeps.ite
  · intro _
    exact Keeps.pure (by simp)
  intro hscan
  apply Keeps.invoke_bind ⟨by simp [LibCall.handed, KeyCall.handed], trivial⟩
  rintro ⟨ok', spendPk⟩ -
  apply Keeps.emit_bind
  apply Keeps.ite
  · intro _
    exact Keeps.pure (by simp)
  intro hspend
  have hscanPk : LibObject.pubkey scanPk ∈
      made libGiven (g ++ [⟨.key (.ecPubkeyCreate si.scan), (ok, scanPk)⟩]) :=
    mem_made_last (mem_ifOk_self hscan _)
  have hspendPk : LibObject.pubkey spendPk ∈
      made libGiven (g ++ [⟨.key (.ecPubkeyCreate si.scan), (ok, scanPk)⟩] ++
        [⟨.key (.ecPubkeyCreate si.spend), (ok', spendPk)⟩]) :=
      mem_made_last (mem_ifOk_self hspend _)
  apply Keeps.bind (keeps_spLabel hspendPk)
  rintro labeled g₁ hgrows₁ ⟨hlabeled, hquiet₁⟩
  apply Keeps.bind (P := fun _ g' => SpQuiet g₁ g')
  · apply Keeps.ite
    · intro _
      exact keeps_spLabelCancel (mem_made_grows hgrows₁ hspendPk)
    · intro _
      exact Keeps.pure (SpQuiet.refl g₁)
  intro _ g₂ hgrows₂ hquiet₂
  apply Keeps.bind keeps_spForeignPk
  rintro foreignPk g₃ hgrows₃ ⟨hforeign, hquiet₃⟩
  apply Keeps.pure
  rintro _ ⟨⟩
  have hgrows : g ++ [⟨.key (.ecPubkeyCreate si.scan), (ok, scanPk)⟩] ++
      [⟨.key (.ecPubkeyCreate si.spend), (ok', spendPk)⟩] <+: g₃ :=
        (hgrows₁.trans hgrows₂).trans hgrows₃
  refine ⟨⟨?_, ?_, ?_, ?_, hforeign⟩, rfl, ?_⟩
  · exact hks.mono
      (((List.prefix_append _ _).trans (List.prefix_append _ _)).trans hgrows)
  · exact mem_made_grows ((List.prefix_append _ _).trans hgrows) hscanPk
  · exact mem_made_grows hgrows hspendPk
  · intro lb hlb
    exact (hlabeled lb hlb).mono (hgrows₂.trans hgrows₃)
  · exact (((SpQuiet.concat rfl rfl).trans (SpQuiet.concat rfl rfl)).trans hquiet₁).trans
      (hquiet₂.trans hquiet₃)

theorem keeps_spExchange {inp : List UInt8} (hks : SpKeysMade valid g keys)
    (hquiet : SpQuiet [] g) :
    SpKeeps limits valid si keys (spExchange limits inp si keys) g fun _ _ => True := by
  apply Keeps.bind (keeps_spPartiesWith hks)
  intro st g₁ _ hst
  cases st with
  | none => exact Keeps.pure trivial
  | some st =>
      obtain ⟨hmade, hkeys, hquiet₁⟩ := hst st rfl
      have hstart := hquiet.trans hquiet₁
      apply Keeps.bind (keeps_spSend hmade hkeys)
      intro sent g₂ hgrows₂ hsent
      apply Keeps.bind (keeps_spTwin (hmade.mono hgrows₂) hkeys sent.isSome hsent.pos)
      rintro twin g₃ hgrows₃ ⟨hsends, hparses, htwin⟩
      apply keeps_spReceive ((hmade.mono hgrows₂).mono hgrows₃) hkeys _
        hsent.allValid hsent.pos
      · rw [hparses, hsent.parses, hstart.parsed, List.filterMap_nil]
      · rintro outputs rfl
        refine ⟨List.length_ofFn, ?_, fun pk hpk => ?_, htwin⟩
        · rw [hsends, hsent.sends, hstart.sent]
          rfl
        · obtain ⟨i, rfl⟩ := List.mem_ofFn.mp hpk
          exact mem_made_grows hgrows₃ (hsent.outputs outputs rfl i)

/-- What a run of the target is to hand to libsecp. -/
structure SpConsistent (limits : SpLimits) (si : SpInput) (keys : SpKeys T)
    (log : List (Event (LibCall T))) :
    Prop where
  counts : SpCounts keys spMaxInputs
  needs : ∀ l e l', log = l ++ e :: l' → SpNeeds limits si keys l e.op
  pos : spPos si ≤ si.nRecipients
  fits : ∀ (l : List (Event (LibCall T))) (tx : List T.XonlyPubkey), l <+: log →
    SpTxOf limits si l tx → tx.length ≤ spMaxTx limits

/-- The transaction fits the array of `sp_scan`. -/
theorem SpTxOf.length_le {tx : List T.XonlyPubkey} (h : SpTxOf limits si g tx)
    (hbatch : 0 < limits.labelBatchSize) :
    tx.length ≤ spMaxTx limits := by
  obtain ⟨outputs, twin, foreign, hlen, -, -, rfl⟩ := h
  have hrecipients := si.nRecipients_le
  have htwin : twin.toList.length ≤ 1 := by cases twin <;> simp
  have hcopies : spCopies limits si ≤ limits.labelBatchSize := by
    rw [spCopies]
    split
    · exact Nat.le_refl _
    · exact hbatch
  have hforeign : (foreign.toList.flatMap (List.replicate (spCopies limits si))).length ≤
      limits.labelBatchSize := by
    cases foreign with
    | none => exact Nat.zero_le _
    | some pk => simpa using hcopies
  simp only [List.length_append, List.length_take, List.length_drop, spMaxTx]
  omega

/-- The target hands libsecp what the calls before gave it: where a public key
can be created of the keys that are `valid` and the sender fails when a raw
key is not, every call of a run has what it needs. -/
theorem targetSilentpayments_consistent {σ : Type} (limits : SpLimits)
    (hbatch : 0 < limits.labelBatchSize) (lib : Build T σ) (valid : Bytes 32 → Bool)
    (inp : List UInt8) (s : σ) (hdoc : ∀ l e l',
      ((targetSilentpayments limits inp).run reader lib inp s).log = l ++ e :: l' →
      (∀ x ∈ e.op.handed, x ∈ made libGiven l) → SpDocumented valid e.op e.ans) :
    SpConsistent limits (spInputs.run reader lib inp s).val.1
      (spInputs.run reader lib inp s).val.2
      ((targetSilentpayments limits inp).run reader lib inp s).log := by
  have hlog : ((targetSilentpayments limits inp).run reader lib inp s).log =
      (spInputs.run reader lib inp s).log ++
        ((spExchange limits inp (spInputs.run reader lib inp s).val.1
          (spInputs.run reader lib inp s).val.2).run reader lib
          (spInputs.run reader lib inp s).rest
          (spInputs.run reader lib inp s).state).log := by
    rw [targetSilentpayments_eq, Prog.run_bind]
  rw [hlog] at hdoc ⊢
  have hfirst (si : SpInput) (keys : SpKeys T) :
      SpKeeps limits valid si keys spInputs [] _ := keeps_spInputs
  replace hfirst := fun si keys => (hfirst si keys).run (h := lib) inp s
  generalize spInputs.run reader lib inp s = w at *
  have hrun : AtEach (fun l e => SpNeeds limits w.val.1 w.val.2 l e.op →
    SpDocumented valid e.op e.ans) []
      (w.log ++ _) := atEach_iff.mpr fun l e l' hl hneeds => hdoc l e l' hl hneeds.1
  rw [atEach_append] at hrun
  obtain ⟨hstart, hkeys, hquiet, htotal⟩ := hfirst w.val.1 w.val.2 hrun.1
  obtain ⟨hrest, -⟩ := (keeps_spExchange hkeys hquiet).run _ _ hrun.2
  refine ⟨hkeys.counts htotal, ?_, ?_, fun l tx _ htx => htx.length_le hbatch⟩
  · exact atEach_iff.mp (atEach_append.mpr ⟨hstart, hrest⟩)
  · exact Nat.le_of_lt_succ (Nat.mod_lt _ (Nat.succ_pos _))

end Runs

/-! ## A run -/

/-- The tweak of output `k` for a shared secret, a sum for the hash. -/
def logOutputTweak (shared : Zn) (k : ℕ) : Zn := shared + k

/-- Output `i` of the sender with the secret sum `a`: recipients with the same
scan key count up. -/
def logOutput {n : ℕ} (recipients : Fin n → SpRecipient logTypes) (a : Zn)
    (i : Fin n) : Zn :=
  let recipient := recipients i
  let k := ((List.finRange n).take i).countP fun j =>
    (recipients j).scanPubkey = recipient.scanPubkey
  logEven (recipient.spendPubkey + logOutputTweak (a * recipient.scanPubkey) k)

/-- What the output `x` shows for the key `P`: it, or a label of the lookup. -/
def logMatch (lookup : Option (Bytes 33 → Option (Bytes 32))) (P tweak x : Zn) :
    Option (SpFoundOutput logTypes) :=
  let labelled (l : Zn) : Option (SpFoundOutput logTypes) := do
    let f ← lookup
    let t ← f (logBytes l)
    pure ⟨x, bytesOfNat 32 (tweak + scalarOf t).val, 1, l⟩
  if x = logEven P then some ⟨x, bytesOfNat 32 tweak.val, 0, 0⟩
  else (labelled (x - P)).or (labelled (-x - P))

/-- The outputs found from number `k` on: for each the first of the
transaction that matches. -/
def logScan (lookup : Option (Bytes 33 → Option (Bytes 32))) (tx : List Zn)
    (spend shared : Zn) : (fuel k : ℕ) → List (SpFoundOutput logTypes)
  | 0, _ => []
  | fuel + 1, k =>
      let tweak := logOutputTweak shared k
      match tx.findSome? (logMatch lookup (spend + tweak) tweak) with
      | none => []
      | some found => found :: logScan lookup tx spend shared fuel (k + 1)

/-- BIP352 with discrete logarithms, and sums for the hashes. -/
def logSp {β : Type} : SpCall logTypes β → β
  | .recipientLabelCreate scanKey32 m =>
      let tweak := scalarOf scanKey32 + m.toNat
      (1, tweak, bytesOfNat 32 tweak.val)
  | .recipientLabelParse in33 => logParse in33
  | .recipientLabelSerialize (label : Zn) => (1, logBytes label)
  | .recipientCreateLabeledSpendPubkey (spend : Zn) (label : Zn) =>
      (if spend + label = 0 then 0 else 1, spend + label)
  | .senderCreateOutputs recipients _ (keypairs : List Zn) seckeys =>
      let a := (keypairs.map logEven).sum + (seckeys.map scalarOf).sum
      (if seckeys.all secpKeyValid ∧ a ≠ 0 then 1 else 0, logOutput recipients a)
  | .recipientPrevoutsSummaryCreate _ (xonly : List Zn) (pubkeys : List Zn) =>
      (if xonly.sum + pubkeys.sum = 0 then 0 else 1, xonly.sum + pubkeys.sum)
  | .recipientScanOutputs (tx : List Zn) scanKey32 (summary : Zn) (spend : Zn) lookup =>
      let found := logScan lookup tx spend (summary * scalarOf scanKey32) tx.length 0
      (1, UInt32.ofNat found.length, fun i => found.getD i default)

def sendingLib : Build logTypes Unit where
  answer
    | .key q, s => (logKey q, s)
    | .sp q, s => (logSp q, s)
    | q, s => (logIdle q, s)

theorem sendingLib_documented {β : Type} (q : LibCall logTypes β) (s : Unit) :
    SpDocumented secpKeyValid q (sendingLib.answer q s).1 := by
  cases q with
  | key q =>
      cases q with
      | ecPubkeyCreate seckey =>
          show (if secpKeyValid seckey then ((1 : Int32), scalarOf seckey)
            else (0, (0 : Zn))).1 ≠ 0 ↔ _
          cases secpKeyValid seckey with
          | true => exact iff_of_true (by decide : (1 : Int32) ≠ 0) rfl
          | false => exact iff_of_false (fun h => h rfl) (by decide)
      | keypairXonlyPub keypair => rfl
      | ecPubkeyNegate pk => rfl
      | _ => trivial
  | sp q =>
      cases q with
      | recipientLabelSerialize label => rfl
      | senderCreateOutputs recipients outpoint keypairs seckeys =>
          intro hret k hk
          by_contra hvalid
          refine hret (if_neg fun h => hvalid ?_)
          exact List.all_eq_true.mp h.1 k hk
      | _ => trivial
  | _ => trivial

/-- The length of each transaction scanned, and how many outputs were found. -/
def spScans (log : List (Event (LibCall logTypes))) : List (ℕ × UInt32) :=
  log.filterMap fun e => match e with
    | ⟨.sp (.recipientScanOutputs tx _ _ _ _), (_, nFound, _)⟩ => some (tx.length, nFound)
    | _ => none

/-- A taproot and a raw input key, two recipients of which the second is
labelled, a twin, and a padded output among theirs. -/
def spSampleInput : List UInt8 :=
  [101] ++ List.replicate 36 0 ++ [1, 1] ++ (List.replicate 31 0 ++ [3]) ++
    (List.replicate 31 0 ++ [4]) ++ (List.replicate 31 0 ++ [5]) ++
    (List.replicate 31 0 ++ [6]) ++ List.replicate 32 0 ++ [0, 0, 0, 7] ++ [1, 2] ++
    (List.replicate 31 0 ++ [8]) ++ [1]

/-- The sender succeeds, the recipient scans the twin, both outputs and the
sixteen copies, and finds what was sent. -/
theorem sendingLib_consistent :
    SpConsistent ⟨2323, 16⟩ (spInputs.run reader sendingLib spSampleInput ()).val.1
      (spInputs.run reader sendingLib spSampleInput ()).val.2
      ((targetSilentpayments ⟨2323, 16⟩ spSampleInput).run reader sendingLib
        spSampleInput ()).log ∧
    spScans ((targetSilentpayments ⟨2323, 16⟩ spSampleInput).run reader sendingLib
      spSampleInput ()).log = [(19, 2)] := by
  refine ⟨?_, by decide +kernel⟩
  refine targetSilentpayments_consistent ⟨2323, 16⟩ (by decide) sendingLib secpKeyValid
    spSampleInput () fun l e l' hlog _ => ?_
  obtain ⟨s, hans⟩ :=
    Prog.log_answered (hlog ▸ List.mem_append_right l (List.mem_cons_self ..))
  exact hans ▸ sendingLib_documented e.op s

end Diffsecp
