import Mathlib.Data.List.FinRange
import Diffsecp.Common

/-!
# Musig — Target

`src/targets/musig.c`: MuSig2 end to end. A fuzzed nonce, aggregate nonce or
partial signature can replace an honest one. The protocol stops at the first
failure, which here is a stage that gives `none`.
-/

namespace Diffsecp

open Interact

/-- `MUSIG_MAX_SIGNERS`. -/
def musigMaxSigners : Nat := 3

namespace MusigFlag

def sort : Nat := 1 <<< 0
def ecTweak : Nat := 1 <<< 1
def xonlyTweak : Nat := 1 <<< 2
/-- A counter instead of session randomness. -/
def counter : Nat := 1 <<< 3
/-- Pass nonce generation its optional inputs. -/
def nonceInputs : Nat := 1 <<< 4
def fuzzPubnonce : Nat := 1 <<< 5
def fuzzAggnonce : Nat := 1 <<< 6
def fuzzPartialSig : Nat := 1 <<< 7

end MusigFlag

/-! Read last, so inputs from before them keep their meaning. -/

namespace MusigLateFlag

/-- The plain tweak sends the aggregate key to infinity. -/
def cancelEc : Nat := 1 <<< 0
/-- The x-only one does. -/
def cancelXonly : Nat := 1 <<< 1
/-- Tweaks leave out their output key, read back from the cache. -/
def tweakNoOutput : Nat := 1 <<< 2

end MusigLateFlag

/-- What is read for the signer of index `slot`. -/
structure MusigSigner where
  slot : Fin 3
  seckey : Bytes 32
  secrand : Bytes 32

structure MusigInput where
  flags : Nat
  victim : Nat
  late : Nat
  msg : Bytes 32
  extra : Bytes 32
  tweak0 : Bytes 32
  tweak1 : Bytes 32
  signers : List MusigSigner
  pubnonce : Bytes 66
  aggnonce : Bytes 66
  partialSig : Bytes 32

variable {T : Types}

/-! ## Reading the input -/

def musigReadSigners : List (Fin 3) → Harness T (List MusigSigner)
  | [] => pure []
  | slot :: slots => do
      let seckey ← readerTake 32
      let secrand ← readerTake 32
      let signers ← musigReadSigners slots
      pure (⟨slot, seckey, secrand⟩ :: signers)

def musigRead : Harness T MusigInput := do
  let flags ← readerU8
  let n ← readerU8
  let n := 1 + n % musigMaxSigners
  let victim ← readerU8
  let msg ← readerTake 32
  let extra ← readerTake 32
  let tweak0 ← readerTake 32
  let tweak1 ← readerTake 32
  let signers ← musigReadSigners ((List.finRange 3).take n)
  let pubnonce ← readerTake 66
  let aggnonce ← readerTake 66
  let partialSig ← readerTake 32
  let late ← readerU8
  pure ⟨flags, victim % n, late, msg, extra, tweak0, tweak1, signers, pubnonce,
    aggnonce, partialSig⟩

/-! ## Key aggregation -/

def musigRecordPubkey (pk : T.Pubkey) : Harness T Unit := recordPubkey true pk

structure MusigKeys (T : Types) extends MusigSigner where
  keypair : T.Keypair
  pubkey : T.Pubkey

/-- The keys of the signers. -/
def musigKeys : List MusigSigner → Harness T (Option (List (MusigKeys T)))
  | [] => pure (some [])
  | signer :: signers => do
      let (ok, keypair) ← secpKey (.keypairCreate signer.seckey)
      transcriptInt ok
      if ok = 0 then
        pure none
      else do
        let (_, pubkey) ← secpKey (.keypairPub keypair)
        match ← musigKeys signers with
        | none => pure none
        | some keys => pure (some (⟨signer, keypair, pubkey⟩ :: keys))

/-- The aggregate key: the tweaked one, once tweaks were applied. -/
structure MusigAgg (T : Types) where
  agg : T.Pubkey
  cache : T.KeyaggCache

/-- The aggregate key of a cache, recorded. -/
def musigRecordTweaked (cache : T.KeyaggCache) : Harness T (MusigAgg T) := do
  let (ret, agg) ← secpMusig (.pubkeyGet cache)
  transcriptInt ret
  musigRecordPubkey agg
  pure ⟨agg, cache⟩

/-- Aggregates the keys, optionally sorted as BIP327 suggests. -/
def musigAggregate (flags : Nat) (keys : List (MusigKeys T)) :
    Harness T (Option (MusigAgg T)) := do
  let ptrs := keys.map (·.pubkey)
  let ptrs ← (if flags &&& MusigFlag.sort ≠ 0 then do
      let (ret, sorted) ← secpKey (.ecPubkeySort ptrs.get)
      transcriptInt ret
      pure (List.ofFn sorted)
    else pure ptrs)
  let (ok, aggXonly, cache) ← secpMusig (.pubkeyAgg true ptrs)
  transcriptInt ok
  if ok = 0 then
    pure none
  else do
    let (_, ser) ← secpKey (.xonlyPubkeySerialize aggXonly)
    transcriptBytes ser.toList
    let st ← musigRecordTweaked cache
    -- both outputs are optional
    let (ret, _) ← secpMusig (.pubkeyAgg false ptrs)
    transcriptInt ret
    pure (some st)

/-! ## Tweaks -/

/-- The aggregate secret: the sum of the coefficients times the secret keys. -/
def musigSecretSum (cache : KeyaggCacheInternal T) :
    List (MusigKeys T) → T.Scalar → Harness T T.Scalar
  | [], d => pure d
  | key :: keys, d => do
      let (_, pk) ← secpKey (.pubkeyLoad key.pubkey)
      let a ← secpMusig (.keyaggcoef cache pk)
      let (x, _) ← secpScalar (.setB32 key.seckey)
      let a ← secpScalar (.mul .a .a .x a x)
      let (_, d) ← secpScalar (.add .d .d .a d a)
      musigSecretSum cache keys d

/-- Minus the discrete log of the key the next tweak applies to, which
tweaking must reject: the aggregate secret negated and tweaked as the cache
records, then negated if an x-only tweak would negate an odd key. -/
def musigCancelTweak (cache : T.KeyaggCache) (keys : List (MusigKeys T)) (xonly : Bool) :
    Harness T (Bytes 32) := do
  let (_, cacheI) ← secpMusig (.keyaggCacheLoad cache)
  let d ← secpScalar (.setInt 0)
  let d ← musigSecretSum cacheI keys d
  let d ← (if cacheI.parityAcc ≠ 0 then secpScalar (.negate .d .d d) else pure d)
  let (_, d) ← secpScalar (.add .d .d .cacheTweak d cacheI.tweak)
  let y ← secpFe (.normalizeVar cacheI.pk.y)
  let d ← (if xonly then do
      let odd ← secpFe (.isOdd y)
      (if odd = 0 then secpScalar (.negate .d .d d) else pure d)
    else secpScalar (.negate .d .d d))
  secpScalar (.getB32 d)

/-- A tweak of the cache: `tweak32` or the cancelling one. -/
def musigTweak (xonly cancel output : Bool) (tweak32 : Bytes 32)
    (keys : List (MusigKeys T)) (st : MusigAgg T) : Harness T (Option (MusigAgg T)) := do
  let tweak32 ← (if cancel then musigCancelTweak st.cache keys xonly else pure tweak32)
  let (ok, _, cache) ← secpMusig
    (if xonly then .pubkeyXonlyTweakAdd output st.cache tweak32
      else .pubkeyEcTweakAdd output st.cache tweak32)
  transcriptInt ok
  if ok = 0 then
    pure none
  else do
    let st ← musigRecordTweaked cache
    pure (some st)

/-- Tweaks as BIP32 derivation (plain) and taproot (x-only) apply them. -/
def musigTweaks (mi : MusigInput) (keys : List (MusigKeys T)) (st : MusigAgg T) :
    Harness T (Option (MusigAgg T)) := do
  let output : Bool := mi.late &&& MusigLateFlag.tweakNoOutput = 0
  let st? ← (if mi.flags &&& MusigFlag.ecTweak ≠ 0 then
      musigTweak false (mi.late &&& MusigLateFlag.cancelEc ≠ 0) output mi.tweak0 keys st
    else pure (some st))
  match st? with
  | none => pure none
  | some st =>
      if mi.flags &&& MusigFlag.xonlyTweak ≠ 0 then
        musigTweak true (mi.late &&& MusigLateFlag.cancelXonly ≠ 0) output
          mi.tweak1 keys st
      else pure (some st)

/-! ## Nonces -/

structure MusigNonces (T : Types) extends MusigKeys T where
  secnonce : T.Secnonce
  pubnonce : T.Pubnonce

/-- The first eight bytes, big endian. -/
def musigCounter (secrand : Bytes 32) : UInt64 :=
  (secrand.toList.take 8).foldl (fun counter b => (counter <<< 8) ||| b.toUInt64) 0

/-- A zero secrand fails, as it would from a broken RNG. -/
def musigNonceGen (mi : MusigInput) (cache : T.KeyaggCache) (key : MusigKeys T) :
    Harness T (Int32 × T.Secnonce × T.Pubnonce) :=
  let inputs : Bool := mi.flags &&& MusigFlag.nonceInputs ≠ 0
  let msg := if inputs then some mi.msg else none
  let cache? := if inputs then some cache else none
  let extra := if inputs then some mi.extra else none
  if mi.flags &&& MusigFlag.counter ≠ 0 then
    secpMusig
      (.nonceGenCounter key.slot (musigCounter key.secrand) key.keypair msg cache? extra)
  else
    secpMusig (.nonceGen key.slot key.secrand (if inputs then some key.seckey else none)
      key.pubkey msg cache? extra)

def musigNonces (mi : MusigInput) (cache : T.KeyaggCache) :
    List (MusigKeys T) → Harness T (Option (List (MusigNonces T)))
  | [] => pure (some [])
  | key :: keys => do
      let (ok, secnonce, pubnonce) ← musigNonceGen mi cache key
      transcriptInt ok
      if ok = 0 then
        pure none
      else do
        let (_, ser) ← secpMusig (.pubnonceSerialize pubnonce)
        transcriptBytes ser.toList
        match ← musigNonces mi cache keys with
        | none => pure none
        | some nonces => pure (some (⟨key, secnonce, pubnonce⟩ :: nonces))

/-- The public nonces, one of them fuzzed where it parses. -/
def musigPubnonces (mi : MusigInput) (nonces : List (MusigNonces T)) :
    Harness T (List T.Pubnonce) := do
  let ptrs := nonces.map (·.pubnonce)
  if mi.flags &&& MusigFlag.fuzzPubnonce ≠ 0 then do
    let (ok, fuzzed) ← secpMusig (.pubnonceParse mi.pubnonce)
    transcriptInt ok
    pure (if ok ≠ 0 then ptrs.set mi.victim fuzzed else ptrs)
  else pure ptrs

/-- The session: the nonces aggregated, or a fuzzed aggregate where it
parses. -/
def musigSession (mi : MusigInput) (cache : T.KeyaggCache) (pubnonces : List T.Pubnonce) :
    Harness T (Option T.Session) := do
  let (ok, aggnonce) ← secpMusig (.nonceAgg pubnonces)
  transcriptInt ok
  if ok = 0 then
    pure none
  else do
    let aggnonce ← (if mi.flags &&& MusigFlag.fuzzAggnonce ≠ 0 then do
        let (ok, fuzzed) ← secpMusig (.aggnonceParse mi.aggnonce)
        transcriptInt ok
        pure (if ok ≠ 0 then fuzzed else aggnonce)
      else pure aggnonce)
    let (_, ser) ← secpMusig (.aggnonceSerialize aggnonce)
    transcriptBytes ser.toList
    let (ok, session) ← secpMusig (.nonceProcess aggnonce mi.msg cache)
    transcriptInt ok
    pure (if ok = 0 then none else some session)

/-! ## Signatures -/

structure MusigSigs (T : Types) extends MusigNonces T where
  psig : T.PartialSig

def musigPartialSigns (cache : T.KeyaggCache) (session : T.Session) :
    List (MusigNonces T) → Harness T (Option (List (MusigSigs T)))
  | [] => pure (some [])
  | nonce :: nonces => do
      let (ok, psig, _) ← secpMusig
        (.partialSign nonce.slot nonce.secnonce nonce.keypair cache session)
      transcriptInt ok
      if ok = 0 then
        pure none
      else do
        let (_, ser) ← secpMusig (.partialSigSerialize psig)
        transcriptBytes ser.toList
        match ← musigPartialSigns cache session nonces with
        | none => pure none
        | some sigs => pure (some (⟨nonce, psig⟩ :: sigs))

def musigPartialVerifies (cache : T.KeyaggCache) (session : T.Session) :
    List (MusigSigs T) → Harness T Unit
  | [] => pure ()
  | sig :: sigs => do
      transcriptInt
        (← secpMusig (.partialSigVerify sig.psig sig.pubnonce sig.pubkey cache session))
      musigPartialVerifies cache session sigs

/-- The partial signatures, the victim's fuzzed where it parses. -/
def musigPartialSigs (mi : MusigInput) (cache : T.KeyaggCache) (session : T.Session)
    (sigs : List (MusigSigs T)) : Harness T (List T.PartialSig) := do
  let ptrs := sigs.map (·.psig)
  if mi.flags &&& MusigFlag.fuzzPartialSig ≠ 0 then do
    let (ok, fuzzed) ← secpMusig (.partialSigParse mi.partialSig)
    transcriptInt ok
    if ok ≠ 0 then
      match sigs[mi.victim]? with
      | none => pure ptrs
      | some victim => do
          transcriptInt (← secpMusig
            (.partialSigVerify fuzzed victim.pubnonce victim.pubkey cache session))
          pure (ptrs.set mi.victim fuzzed)
    else pure ptrs
  else pure ptrs

/-- The final signature, checked against the aggregate key. -/
def musigFinish (mi : MusigInput) (agg : T.Pubkey) (session : T.Session)
    (psigs : List T.PartialSig) :
    Harness T Unit := do
  let (ok, sig64) ← secpMusig (.partialSigAgg session psigs)
  transcriptInt ok
  if ok ≠ 0 then do
    transcriptBytes sig64.toList
    -- agg is the tweaked key when tweaks were applied
    let (_, aggXonly, parity) ← secpKey (.xonlyPubkeyFromPubkey agg)
    transcriptInt parity
    transcriptInt (← secpSchnorrsig (.verify sig64 mi.msg.toList aggXonly))
  else pure ()

/-- From the tweaked key on. -/
def musigSign (mi : MusigInput) (keys : List (MusigKeys T)) (st : MusigAgg T) :
    Harness T Unit := do
  match ← musigNonces mi st.cache keys with
  | none => pure ()
  | some nonces => do
      let pubnonces ← musigPubnonces mi nonces
      match ← musigSession mi st.cache pubnonces with
      | none => pure ()
      | some session => do
          match ← musigPartialSigns st.cache session nonces with
          | none => pure ()
          | some sigs => do
              musigPartialVerifies st.cache session sigs
              let psigs ← musigPartialSigs mi st.cache session sigs
              musigFinish mi st.agg session psigs

def targetMusig : Harness T Unit := do
  let mi ← musigRead
  match ← musigKeys mi.signers with
  | none => pure ()
  | some keys => do
      match ← musigAggregate mi.flags keys with
      | none => pure ()
      | some st => do
          match ← musigTweaks mi keys st with
          | none => pure ()
          | some st => musigSign mi keys st

end Diffsecp
