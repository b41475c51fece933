import Diffsecp.Musig.Target
import Diffsecp.Secp.Pairing

/-!
# Musig — Paired

Two builds under the MuSig2 target make calls pair by pair. The lists of keys,
nonces and signatures of the two stay pointwise paired and are never empty,
and a stage that stops one side stops the other.
-/

namespace Diffsecp

open Interact

variable {T T' : Types} {R : Pairing T T'} {r : List UInt8}

/-! ## Reading the input -/

theorem twin_musigReadSigners (slots : List (Fin 3)) :
    Twins R (fun signers signers' => signers = signers' ∧ signers.length = slots.length)
      (musigReadSigners slots : Harness T _)
      (musigReadSigners slots : Harness T' _) r := by
  induction slots generalizing r with
  | nil => exact Twin.pure ⟨rfl, rfl⟩
  | cons slot slots ih =>
      refine twin_readerTake fun seckey _ => twin_readerTake fun secrand _ =>
        Twin.bind ih ?_
      rintro signers _ _ ⟨rfl, hlen⟩
      exact Twin.pure ⟨rfl, congrArg (· + 1) hlen⟩

theorem twin_musigRead :
    Twins R (fun mi mi' => mi = mi' ∧ mi.signers ≠ []) (musigRead : Harness T _)
      (musigRead : Harness T' _) r := by
  refine twin_readerU8 fun flags _ => twin_readerU8 fun n _ =>
    twin_readerU8 fun victim _ => ?_
  refine twin_readerTake fun msg _ => twin_readerTake fun extra _ =>
    twin_readerTake fun tweak0 _ => ?_
  refine twin_readerTake fun tweak1 _ => Twin.bind (twin_musigReadSigners _) ?_
  rintro signers _ _ ⟨rfl, hlen⟩
  refine twin_readerTake fun pubnonce _ => twin_readerTake fun aggnonce _ => ?_
  refine twin_readerTake fun partialSig _ => twin_readerU8 fun late _ =>
    Twin.pure ⟨rfl, ?_⟩
  rw [List.length_take, List.length_finRange] at hlen
  show signers ≠ []
  exact List.ne_nil_of_length_pos (by omega)

/-! ## Key aggregation -/

/-- A signer's keys on both sides. -/
structure KeyTwins (R : Pairing T T') (key : MusigKeys T)
    (key' : MusigKeys T') : Prop where
  signer : key.toMusigSigner = key'.toMusigSigner
  keypair : R.keypair key.keypair key'.keypair
  pubkey : R.pubkey key.pubkey key'.pubkey

theorem twin_musigKeys (signers : List MusigSigner) :
    Twins R (Option.Rel fun keys keys' => List.Forall₂ (KeyTwins R) keys keys' ∧
      keys.length = signers.length) (musigKeys signers) (musigKeys signers) r := by
  induction signers generalizing r with
  | nil => exact Twin.pure (.some ⟨.nil, rfl⟩)
  | cons signer signers ih =>
      refine twin_key (.keypairCreate signer.seckey) fun _ _ h => h.cases ?_
      intro ok keypair keypair' hkeypair
      refine twin_int rfl (Twin.ite (fun _ => Twin.pure .none) fun hok => ?_)
      refine twin_key (.keypairPub (hkeypair hok)) fun _ _ h => h.cases ?_
      intro _ pubkey pubkey' hpubkey
      refine Twin.bind ih fun keys keys' _ hkeys => ?_
      cases hkeys with
      | none => exact Twin.pure .none
      | some hkeys => exact Twin.pure (.some ⟨.cons ⟨rfl, hkeypair hok, hpubkey⟩ hkeys.1,
            congrArg (· + 1) hkeys.2⟩)

structure AggTwins (R : Pairing T T') (st : MusigAgg T) (st' : MusigAgg T') : Prop where
  agg : R.pubkey st.agg st'.agg
  cache : R.cache st.cache st'.cache

theorem twin_musigRecordTweaked {cache : T.KeyaggCache} {cache' : T'.KeyaggCache}
    (h : R.cache cache cache') :
    Twins R (AggTwins R) (musigRecordTweaked cache) (musigRecordTweaked cache') r := by
  refine twin_musig (.pubkeyGet h) fun _ _ hagg => hagg.cases ?_
  intro ret agg agg' hagg
  refine twin_int rfl (Twin.bind (twin_recordPubkey true hagg) fun _ _ _ _ => ?_)
  exact Twin.pure ⟨hagg, h⟩

theorem twin_musigAggregate (flags : ℕ) {keys : List (MusigKeys T)}
    {keys' : List (MusigKeys T')} (hkeys : List.Forall₂ (KeyTwins R) keys keys')
    (hne : keys ≠ []) :
    Twins R (Option.Rel (AggTwins R)) (musigAggregate flags keys)
      (musigAggregate flags keys') r := by
  have hptrs : List.Forall₂ R.pubkey (keys.map (·.pubkey)) (keys'.map (·.pubkey)) := by
    rw [List.forall₂_map_left_iff, List.forall₂_map_right_iff]
    exact hkeys.imp fun _ _ h => h.pubkey
  refine Twin.bind
    (P := fun ptrs ptrs' => List.Forall₂ R.pubkey ptrs ptrs' ∧ ptrs ≠ []) ?_ ?_
  · refine Twin.ite (fun _ => ?_) fun _ => Twin.pure ⟨hptrs, by simpa using hne⟩
    refine twin_key (.ecPubkeySort (by rwa [List.ofFn_get, List.ofFn_get])) fun _ _ h =>
      h.cases ?_
    intro ret sorted sorted' hsorted
    refine twin_int rfl (Twin.pure ⟨hsorted, ?_⟩)
    exact List.ne_nil_of_length_pos (by simpa using List.length_pos_of_ne_nil hne)
  rintro ptrs ptrs' _ ⟨hptrs, hne⟩
  refine twin_musig (.pubkeyAgg true hptrs hne) fun _ _ h => h.cases ?_
  rintro ok ⟨aggXonly, cache⟩ ⟨aggXonly', cache'⟩ hagg
  refine twin_int rfl (Twin.ite (fun _ => Twin.pure .none) fun hok => ?_)
  obtain ⟨hxonly, hcache⟩ := hagg hok rfl
  refine twin_key (.xonlyPubkeySerialize hxonly) fun _ _ h => h.cases ?_
  rintro _ ser _ rfl
  refine twin_bytes rfl
    (Twin.bind (twin_musigRecordTweaked hcache) fun st st' _ hst => ?_)
  refine twin_musig (.pubkeyAgg false hptrs hne) fun _ _ h => h.cases ?_
  intro ret _ _ _
  exact twin_int rfl (Twin.pure (.some hst))

/-! ## Tweaks -/

theorem twin_musigSecretSum {ci : KeyaggCacheInternal T} {ci' : KeyaggCacheInternal T'}
    (hci : R.Loaded ci ci') {keys : List (MusigKeys T)} {keys' : List (MusigKeys T')}
    (hkeys : List.Forall₂ (KeyTwins R) keys keys') {d : T.Scalar} {d' : T'.Scalar}
    (hd : ∃ k, R.scalar d d' k) :
    Twins R (fun d d' => ∃ k, R.scalar d d' k) (musigSecretSum ci keys d)
      (musigSecretSum ci' keys' d') r := by
  induction hkeys generalizing d d' r with
  | nil => exact Twin.pure hd
  | @cons key key' keys keys' hkey _ ih =>
      refine twin_key (.pubkeyLoad hkey.pubkey) fun _ _ h => h.cases ?_
      rintro _ pk pk' ⟨P, -, hpk⟩
      refine twin_musig (.keyaggcoef hci hpk) ?_
      rintro a a' ⟨_, ha⟩
      rw [← hkey.signer]
      refine twin_scalar (.setB32 key.seckey) fun x x' hx => ?_
      refine twin_scalar (.mul ha hx.1) fun a a' ha => ?_
      obtain ⟨_, hd⟩ := hd
      refine twin_scalar (.add hd ha) fun _ _ h => h.cases ?_
      intro _ d d' hd
      exact ih ⟨_, hd⟩

theorem twin_musigCancelTweak {cache : T.KeyaggCache} {cache' : T'.KeyaggCache}
    (hcache : R.cache cache cache') {keys : List (MusigKeys T)}
    {keys' : List (MusigKeys T')} (hkeys : List.Forall₂ (KeyTwins R) keys keys')
    (xonly : Bool) :
    Twins R Eq (musigCancelTweak cache keys xonly)
      (musigCancelTweak cache' keys' xonly) r := by
  refine twin_musig (.keyaggCacheLoad hcache) fun _ _ h => h.cases ?_
  intro _ ci ci' hci
  refine twin_scalar (.setInt 0) fun d d' hd => ?_
  refine Twin.bind (twin_musigSecretSum hci hkeys ⟨_, hd⟩) ?_
  rintro d d' _ ⟨_, hd⟩
  rw [← hci.parityAcc]
  refine Twin.bind (P := fun d d' => ∃ k, R.scalar d d' k) ?_ ?_
  · exact Twin.ite (fun _ => Twin.invoke (.scalar (.negate hd)) fun _ _ h => ⟨_, h⟩)
      fun _ => Twin.pure ⟨_, hd⟩
  rintro d d' _ ⟨_, hd⟩
  obtain ⟨_, htweak⟩ := hci.tweak
  refine twin_scalar (.add hd htweak) fun _ _ h => h.cases ?_
  intro _ d d' hd
  -- the key is finite, so it has a y
  obtain ⟨P, hP, hpk⟩ := hci.pk
  obtain ⟨yv, hy⟩ : ∃ yv, R.fe ci.pk.y ci'.pk.y yv 3 := by
    cases P with
    | zero => exact absurd rfl hP
    | some x y hxy => exact ⟨y, hpk.2.2.2⟩
  refine twin_fe (.normalizeVar hy) ?_
  rintro y y' ⟨hy, hnorm⟩
  refine Twin.bind (P := fun d d' => ∃ k, R.scalar d d' k)
    (Twin.ite (fun _ => ?_) fun _ => ?_) ?_
  · refine twin_fe (.isOdd hy hnorm) ?_
    rintro odd _ rfl
    exact Twin.ite (fun _ => Twin.invoke (.scalar (.negate hd)) fun _ _ h => ⟨_, h⟩)
      fun _ => Twin.pure ⟨_, hd⟩
  · exact Twin.invoke (.scalar (.negate hd)) fun _ _ h => ⟨_, h⟩
  rintro d d' _ ⟨_, hd⟩
  exact Twin.invoke (.scalar (.getB32 hd)) fun _ _ h => h

theorem twin_musigTweak (xonly cancel output : Bool) (tweak32 : Bytes 32)
    {keys : List (MusigKeys T)} {keys' : List (MusigKeys T')}
    (hkeys : List.Forall₂ (KeyTwins R) keys keys') {st : MusigAgg T} {st' : MusigAgg T'}
    (hst : AggTwins R st st') :
    Twins R (Option.Rel (AggTwins R)) (musigTweak xonly cancel output tweak32 keys st)
      (musigTweak xonly cancel output tweak32 keys' st') r := by
  refine Twin.bind (P := Eq) ?_ ?_
  · exact Twin.ite (fun _ => twin_musigCancelTweak hst.cache hkeys xonly) fun _ =>
      Twin.pure rfl
  rintro tweak32 _ _ rfl
  have hpair : R.MusigRule
      (if xonly then .pubkeyXonlyTweakAdd output st.cache tweak32
        else .pubkeyEcTweakAdd output st.cache tweak32)
      (if xonly then .pubkeyXonlyTweakAdd output st'.cache tweak32
        else .pubkeyEcTweakAdd output st'.cache tweak32)
      (Gives fun o o' => R.cache o.2 o'.2 ∧ (output = true → R.pubkey o.1 o'.1)) := by
    cases xonly with
    | true => exact .pubkeyXonlyTweakAdd output tweak32 hst.cache
    | false => exact .pubkeyEcTweakAdd output tweak32 hst.cache
  refine twin_musig hpair fun _ _ h => h.cases ?_
  rintro ok ⟨_, cache⟩ ⟨_, cache'⟩ hcache
  refine twin_int rfl (Twin.ite (fun _ => Twin.pure .none) fun hok => ?_)
  exact Twin.bind (twin_musigRecordTweaked (hcache hok).1) fun _ _ _ hst =>
    Twin.pure (.some hst)

theorem twin_musigTweaks (mi : MusigInput) {keys : List (MusigKeys T)}
    {keys' : List (MusigKeys T')} (hkeys : List.Forall₂ (KeyTwins R) keys keys')
    {st : MusigAgg T} {st' : MusigAgg T'} (hst : AggTwins R st st') :
    Twins R (Option.Rel (AggTwins R)) (musigTweaks mi keys st)
      (musigTweaks mi keys' st') r := by
  refine Twin.bind (P := Option.Rel (AggTwins R)) ?_ ?_
  · exact Twin.ite (fun _ => twin_musigTweak false _ _ mi.tweak0 hkeys hst) fun _ =>
      Twin.pure (.some hst)
  intro st st' _ hst
  cases hst with
  | none => exact Twin.pure .none
  | some hst =>
      exact Twin.ite (fun _ => twin_musigTweak true _ _ mi.tweak1 hkeys hst) fun _ =>
        Twin.pure (.some hst)

/-! ## Nonces -/

structure NonceTwins (R : Pairing T T') (nonce : MusigNonces T)
    (nonce' : MusigNonces T') : Prop where
  key : KeyTwins R nonce.toMusigKeys nonce'.toMusigKeys
  secnonce : R.secnonce nonce.secnonce nonce'.secnonce
  pubnonce : R.pubnonce nonce.pubnonce nonce'.pubnonce

theorem twin_musigNonceGen (mi : MusigInput) {cache : T.KeyaggCache}
    {cache' : T'.KeyaggCache} (hcache : R.cache cache cache') {key : MusigKeys T}
    {key' : MusigKeys T'} (hkey : KeyTwins R key key') :
    Twins R (Gives fun o o' => R.secnonce o.1 o'.1 ∧ R.pubnonce o.2 o'.2)
      (musigNonceGen mi cache key) (musigNonceGen mi cache' key') r := by
  obtain ⟨signer, keypair, pubkey⟩ := key
  obtain ⟨signer', keypair', pubkey'⟩ := key'
  obtain ⟨hsigner, hkeypair, hpubkey⟩ := hkey
  dsimp only at hsigner
  subst hsigner
  have hcache? (inputs : Bool) :
      Option.Rel R.cache (if inputs then some cache else none)
        (if inputs then some cache' else none) := by
    cases inputs with
    | true => exact .some hcache
    | false => exact .none
  refine Twin.ite (fun _ => ?_) fun _ => ?_
  · exact Twin.invoke (.musig (.nonceGenCounter _ _ _ _ hkeypair (hcache? _)))
      fun _ _ h => h
  · exact Twin.invoke (.musig (.nonceGen _ _ _ _ _ hpubkey (hcache? _))) fun _ _ h => h

theorem twin_musigNonces (mi : MusigInput) {cache : T.KeyaggCache}
    {cache' : T'.KeyaggCache} (hcache : R.cache cache cache') {keys : List (MusigKeys T)}
    {keys' : List (MusigKeys T')} (hkeys : List.Forall₂ (KeyTwins R) keys keys') :
    Twins R (Option.Rel fun nonces nonces' => List.Forall₂ (NonceTwins R) nonces nonces' ∧
        nonces.length = keys.length)
      (musigNonces mi cache keys) (musigNonces mi cache' keys') r := by
  induction hkeys generalizing r with
  | nil => exact Twin.pure (.some ⟨.nil, rfl⟩)
  | @cons key key' keys keys' hkey _ ih =>
      refine Twin.bind (twin_musigNonceGen mi hcache hkey) fun _ _ _ h => h.cases ?_
      rintro ok ⟨secnonce, pubnonce⟩ ⟨secnonce', pubnonce'⟩ hnonce
      refine twin_int rfl (Twin.ite (fun _ => Twin.pure .none) fun hok => ?_)
      obtain ⟨hsec, hpub⟩ := hnonce hok
      refine twin_musig (.pubnonceSerialize hpub) fun _ _ h => h.cases ?_
      rintro _ ser _ rfl
      refine twin_bytes rfl (Twin.bind ih fun nonces nonces' _ hnonces => ?_)
      cases hnonces with
      | none => exact Twin.pure .none
      | some h =>
          exact Twin.pure (.some ⟨.cons ⟨hkey, hsec, hpub⟩ h.1, congrArg (· + 1) h.2⟩)

theorem twin_musigPubnonces (mi : MusigInput) {nonces : List (MusigNonces T)}
    {nonces' : List (MusigNonces T')}
    (hnonces : List.Forall₂ (NonceTwins R) nonces nonces') (hne : nonces ≠ []) :
    Twins R (fun ptrs ptrs' => List.Forall₂ R.pubnonce ptrs ptrs' ∧ ptrs ≠ [])
      (musigPubnonces mi nonces) (musigPubnonces mi nonces') r := by
  have hptrs :
      List.Forall₂ R.pubnonce (nonces.map (·.pubnonce)) (nonces'.map (·.pubnonce)) := by
    rw [List.forall₂_map_left_iff, List.forall₂_map_right_iff]
    exact hnonces.imp fun _ _ h => h.pubnonce
  have hne : nonces.map (·.pubnonce) ≠ [] := by simpa using hne
  refine Twin.ite (fun _ => ?_) fun _ => Twin.pure ⟨hptrs, hne⟩
  refine twin_musig (.pubnonceParse mi.pubnonce) fun _ _ h => h.cases ?_
  intro ok fuzzed fuzzed' hfuzzed
  refine twin_int rfl (Twin.pure ?_)
  by_cases hok : ok ≠ 0
  · rw [if_pos hok, if_pos hok]
    refine ⟨Twin.forall₂_set hptrs mi.victim (hfuzzed hok), ?_⟩
    simpa using hne
  · rw [if_neg hok, if_neg hok]
    exact ⟨hptrs, hne⟩

theorem twin_musigSession (mi : MusigInput) {cache : T.KeyaggCache}
    {cache' : T'.KeyaggCache} (hcache : R.cache cache cache') {ptrs : List T.Pubnonce}
    {ptrs' : List T'.Pubnonce} (hptrs : List.Forall₂ R.pubnonce ptrs ptrs')
    (hne : ptrs ≠ []) :
    Twins R (Option.Rel R.session) (musigSession mi cache ptrs)
      (musigSession mi cache' ptrs') r := by
  refine twin_musig (.nonceAgg hptrs hne) fun _ _ h => h.cases ?_
  intro ok aggnonce aggnonce' hagg
  refine twin_int rfl (Twin.ite (fun _ => Twin.pure .none) fun hok => ?_)
  refine Twin.bind (P := R.aggnonce)
    (Twin.ite (fun _ => ?_) fun _ => Twin.pure (hagg hok)) ?_
  · refine twin_musig (.aggnonceParse mi.aggnonce) fun _ _ h => h.cases ?_
    intro ok' fuzzed fuzzed' hfuzzed
    refine twin_int rfl (Twin.pure ?_)
    by_cases hok' : ok' ≠ 0
    · rw [if_pos hok', if_pos hok']
      exact hfuzzed hok'
    · rw [if_neg hok', if_neg hok']
      exact hagg hok
  intro aggnonce aggnonce' _ hagg
  refine twin_musig (.aggnonceSerialize hagg) fun _ _ h => h.cases ?_
  rintro _ ser _ rfl
  refine twin_bytes rfl (twin_musig (.nonceProcess mi.msg hagg hcache) fun _ _ h =>
    h.cases ?_)
  intro ok session session' hsession
  refine twin_int rfl (Twin.pure ?_)
  by_cases hok : ok = 0
  · rw [if_pos hok, if_pos hok]
    exact .none
  · rw [if_neg hok, if_neg hok]
    exact .some (hsession hok)

/-! ## Signatures -/

structure SigTwins (R : Pairing T T') (sig : MusigSigs T)
    (sig' : MusigSigs T') : Prop where
  nonce : NonceTwins R sig.toMusigNonces sig'.toMusigNonces
  psig : R.partialSig sig.psig sig'.psig

section Session

variable {cache : T.KeyaggCache} {cache' : T'.KeyaggCache} {session : T.Session}
  {session' : T'.Session}

theorem twin_musigPartialSigns (hcache : R.cache cache cache')
    (hsession : R.session session session') {nonces : List (MusigNonces T)}
    {nonces' : List (MusigNonces T')}
    (hnonces : List.Forall₂ (NonceTwins R) nonces nonces') :
    Twins R (Option.Rel fun sigs sigs' => List.Forall₂ (SigTwins R) sigs sigs' ∧
      sigs.length = nonces.length)
      (musigPartialSigns cache session nonces)
      (musigPartialSigns cache' session' nonces') r := by
  induction hnonces generalizing r with
  | nil => exact Twin.pure (.some ⟨.nil, rfl⟩)
  | @cons nonce nonce' nonces nonces' hnonce _ ih =>
      have hslot : nonce.slot = nonce'.slot := congrArg MusigSigner.slot hnonce.key.signer
      have hsign := Pairing.MusigRule.partialSign nonce.slot hnonce.secnonce
        hnonce.key.keypair hcache hsession
      rw [musigPartialSigns, musigPartialSigns, ← hslot]
      refine twin_musig hsign fun _ _ h => h.cases ?_
      rintro ok ⟨psig, _⟩ ⟨psig', _⟩ hpsig
      refine twin_int rfl (Twin.ite (fun _ => Twin.pure .none) fun hok => ?_)
      refine twin_musig (.partialSigSerialize (hpsig hok)) fun _ _ h => h.cases ?_
      rintro _ ser _ rfl
      refine twin_bytes rfl (Twin.bind ih fun sigs sigs' _ hsigs => ?_)
      cases hsigs with
      | none => exact Twin.pure .none
      | some h =>
          exact Twin.pure (.some ⟨.cons ⟨hnonce, hpsig hok⟩ h.1, congrArg (· + 1) h.2⟩)

theorem twin_musigPartialVerifies (hcache : R.cache cache cache')
    (hsession : R.session session session') {sigs : List (MusigSigs T)}
    {sigs' : List (MusigSigs T')} (hsigs : List.Forall₂ (SigTwins R) sigs sigs') :
    Twins R Eq (musigPartialVerifies cache session sigs)
      (musigPartialVerifies cache' session' sigs') r := by
  induction hsigs generalizing r with
  | nil => exact Twin.pure rfl
  | cons hsig _ ih =>
      refine twin_musig (.partialSigVerify hsig.psig hsig.nonce.pubnonce
        hsig.nonce.key.pubkey hcache hsession) ?_
      rintro ret _ rfl
      exact twin_int rfl ih

theorem twin_musigPartialSigs (mi : MusigInput) (hcache : R.cache cache cache')
    (hsession : R.session session session') {sigs : List (MusigSigs T)}
    {sigs' : List (MusigSigs T')} (hsigs : List.Forall₂ (SigTwins R) sigs sigs')
    (hne : sigs ≠ []) :
    Twins R (fun ptrs ptrs' => List.Forall₂ R.partialSig ptrs ptrs' ∧ ptrs ≠ [])
      (musigPartialSigs mi cache session sigs)
      (musigPartialSigs mi cache' session' sigs') r := by
  have hptrs : List.Forall₂ R.partialSig (sigs.map (·.psig)) (sigs'.map (·.psig)) := by
    rw [List.forall₂_map_left_iff, List.forall₂_map_right_iff]
    exact hsigs.imp fun _ _ h => h.psig
  have hne : sigs.map (·.psig) ≠ [] := by simpa using hne
  refine Twin.ite (fun _ => ?_) fun _ => Twin.pure ⟨hptrs, hne⟩
  refine twin_musig (.partialSigParse mi.partialSig) fun _ _ h => h.cases ?_
  intro ok fuzzed fuzzed' hfuzzed
  refine twin_int rfl (Twin.ite (fun hok => ?_) fun _ => Twin.pure ⟨hptrs, hne⟩)
  have hvictim := Twin.forall₂_getElem? hsigs mi.victim
  generalize sigs[mi.victim]? = victim, sigs'[mi.victim]? = victim' at hvictim ⊢
  cases hvictim with
  | none => exact Twin.pure ⟨hptrs, hne⟩
  | some hvictim =>
      have hnonce := hvictim.nonce
      refine twin_musig (.partialSigVerify (hfuzzed hok) hnonce.pubnonce hnonce.key.pubkey
        hcache hsession) ?_
      rintro ret _ rfl
      refine twin_int rfl (Twin.pure ⟨Twin.forall₂_set hptrs mi.victim (hfuzzed hok), ?_⟩)
      simpa using hne

theorem twin_musigFinish (mi : MusigInput) {agg : T.Pubkey} {agg' : T'.Pubkey}
    (hagg : R.pubkey agg agg') (hsession : R.session session session')
    {psigs : List T.PartialSig} {psigs' : List T'.PartialSig}
    (hpsigs : List.Forall₂ R.partialSig psigs psigs') (hne : psigs ≠ []) :
    Twins R Eq (musigFinish mi agg session psigs)
      (musigFinish mi agg' session' psigs') r := by
  refine twin_musig (.partialSigAgg hsession hpsigs hne) fun _ _ h => h.cases ?_
  intro ok sig64 sig64' hsig
  refine twin_int rfl (Twin.ite (fun hok => ?_) fun _ => Twin.pure rfl)
  obtain rfl := hsig hok
  refine twin_bytes rfl (twin_key (.xonlyPubkeyFromPubkey hagg) fun _ _ h => h.cases ?_)
  rintro _ ⟨aggXonly, parity⟩ ⟨aggXonly', _⟩ ⟨hxonly, rfl⟩
  refine twin_int rfl (twin_schnorrsig (.verify sig64 mi.msg.toList hxonly) ?_)
  rintro ret _ rfl
  exact twin_int_end rfl

end Session

/-! ## The target -/

theorem twin_musigSign (mi : MusigInput) {keys : List (MusigKeys T)}
    {keys' : List (MusigKeys T')} (hkeys : List.Forall₂ (KeyTwins R) keys keys')
    (hne : keys ≠ []) {st : MusigAgg T} {st' : MusigAgg T'} (hst : AggTwins R st st') :
    Twins R Eq (musigSign mi keys st) (musigSign mi keys' st') r := by
  refine Twin.bind (twin_musigNonces mi hst.cache hkeys)
    fun nonces nonces' _ hnonces => ?_
  cases hnonces with
  | none => exact Twin.pure rfl
  | @some nonces nonces' hnonces =>
      obtain ⟨hnonces, hlen⟩ := hnonces
      have hnonempty : nonces ≠ [] := by
        rw [ne_eq, ← List.length_eq_zero_iff, hlen, List.length_eq_zero_iff]
        exact hne
      refine Twin.bind (twin_musigPubnonces mi hnonces hnonempty) ?_
      rintro ptrs ptrs' _ ⟨hptrs, hptrsNe⟩
      refine Twin.bind (twin_musigSession mi hst.cache hptrs hptrsNe)
        fun session session' _ hsession => ?_
      cases hsession with
      | none => exact Twin.pure rfl
      | some hsession =>
          refine Twin.bind (twin_musigPartialSigns hst.cache hsession hnonces)
            fun sigs sigs' _ hsigs => ?_
          cases hsigs with
          | none => exact Twin.pure rfl
          | @some sigs sigs' hsigs =>
              obtain ⟨hsigs, hlen⟩ := hsigs
              have hsigsNe : sigs ≠ [] := by
                rw [ne_eq, ← List.length_eq_zero_iff, hlen, List.length_eq_zero_iff]
                exact hnonempty
              refine Twin.bind (twin_musigPartialVerifies hst.cache hsession hsigs)
                fun _ _ _ _ => ?_
              refine Twin.bind
                (twin_musigPartialSigs mi hst.cache hsession hsigs hsigsNe) ?_
              rintro psigs psigs' _ ⟨hpsigs, hpsigsNe⟩
              exact twin_musigFinish mi hst.agg hsession hpsigs hpsigsNe

theorem twin_targetMusig : Twins R Eq targetMusig targetMusig r := by
  refine Twin.bind twin_musigRead ?_
  rintro mi _ _ ⟨rfl, hsigners⟩
  refine Twin.bind (twin_musigKeys mi.signers) fun keys keys' _ hkeys => ?_
  cases hkeys with
  | none => exact Twin.pure rfl
  | @some keys keys' hkeys =>
      obtain ⟨hkeys, hlen⟩ := hkeys
      have hne : keys ≠ [] := by
        rw [ne_eq, ← List.length_eq_zero_iff, hlen, List.length_eq_zero_iff]
        exact hsigners
      refine Twin.bind (twin_musigAggregate mi.flags hkeys hne) fun st st' _ hst => ?_
      cases hst with
      | none => exact Twin.pure rfl
      | some hst =>
          refine Twin.bind (twin_musigTweaks mi hkeys hst) fun st st' _ hst => ?_
          cases hst with
          | none => exact Twin.pure rfl
          | some hst => exact twin_musigSign mi hkeys hne hst

/-- No stage uses what a failed call left, no aggregation is called on an empty
list, and the transcript tells nothing of how a build represents keys, nonces
and sessions. -/
theorem targetMusig_accounts (R : Pairing T T') (inp : List UInt8) :
    R.Accounts targetMusig targetMusig inp :=
  Pairing.accounts_of_twins twin_targetMusig

end Diffsecp
