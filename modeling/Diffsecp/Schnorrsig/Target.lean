import Diffsecp.Common

/-!
# Schnorrsig — Target

`src/targets/schnorrsig.c`: BIP340 and the taproot commitment check. Valid
signatures are produced first and then mutated, or turned into ones only the
signer's key can produce.
-/

namespace Diffsecp

open Interact

namespace SchnorrsigMode

def sign : Nat := 1 <<< 0
/-- Sign with aux_rand. -/
def aux : Nat := 1 <<< 1
/-- Custom signing with the fuzzed nonce. -/
def fixedNonce : Nat := 1 <<< 2
/-- Turn the signature into one whose R has an odd y. -/
def oddR : Nat := 1 <<< 3
/-- Or into one whose R is infinity. -/
def infinityR : Nat := 1 <<< 4
/-- Tweak the signer's key by its negation. -/
def cancelTweak : Nat := 1 <<< 5
/-- Custom signing with BIP340's nonce function under another name. -/
def taggedNonce : Nat := 1 <<< 6

end SchnorrsigMode

variable {T : Types}

/-! ## Forged signatures -/

/-- The secret key of the signer's x-only key: BIP340 signs with the one whose
public key has an even y. -/
def schnorrsigEvenKey (keypair : T.Keypair) (parity : Int32) :
    Harness T (Bool × Bytes 32) := do
  let (ret, d) ← secpKey (.keypairSec keypair)
  if ret = 0 then
    pure (false, d)
  else if parity = 0 then
    pure (true, d)
  else do
    let (ret, d) ← secpKey (.ecSeckeyNegate d)
    pure (ret ≠ 0, d)

/-- `"BIP0340/challenge"`. -/
def schnorrsigChallengeTag : List UInt8 :=
  [0x42, 0x49, 0x50, 0x30, 0x33, 0x34, 0x30, 0x2f, 0x63, 0x68, 0x61, 0x6c, 0x6c, 0x65,
    0x6e, 0x67, 0x65]

/-- e*d for the challenge e of `r32`, the signer's key and the message,
written over `ed`. -/
def schnorrsigChallengeKey (ed r32 msg32 : Bytes 32) (keypair : T.Keypair)
    (parity : Int32) (pk32 : Bytes 32) : Harness T (Bool × Bytes 32) := do
  let buf := r32.toList ++ pk32.toList ++ msg32.toList
  let (ret, e) ← secpKey (.taggedSha256 schnorrsigChallengeTag buf)
  if ret = 0 then
    pure (false, ed)
  else do
    let (ok, ed) ← schnorrsigEvenKey keypair parity
    if ok then do
      let (ret, ed) ← secpKey (.ecSeckeyTweakMul ed e)
      pure (ret ≠ 0, ed)
    else
      pure (false, ed)

/-- Turns a valid signature (r, s) into (r, 2ed - s), which verification
computes as -R. -/
def schnorrsigOddR (sig64 : Bytes 64) (msg32 : Bytes 32) (keypair : T.Keypair)
    (parity : Int32) (pk32 : Bytes 32) : Harness T (Bool × Bytes 64) := do
  let negS : Bytes 32 := sig64.extract 32 64
  let (ok, ed) ← schnorrsigChallengeKey (zeroBytes 32) (sig64.extract 0 32) msg32
    keypair parity pk32
  if ok = false then
    pure (false, sig64)
  else do
    let (ret, d) ← secpKey (.ecSeckeyTweakAdd ed ed)
    if ret = 0 then
      pure (false, sig64)
    else do
      let (ret, negS) ← secpKey (.ecSeckeyNegate negS)
      if ret = 0 then
        pure (false, sig64)
      else do
        let (ret, d) ← secpKey (.ecSeckeyTweakAdd d negS)
        if ret = 0 then
          pure (false, sig64)
        else
          pure (true, sig64.extract 0 32 ++ d)

/-- Turns a signature into (0, ed), which verification computes as infinity.
The second half is overwritten where the signature fails, too. -/
def schnorrsigInfinityR (sig64 : Bytes 64) (msg32 : Bytes 32) (keypair : T.Keypair)
    (parity : Int32) (pk32 : Bytes 32) : Harness T (Bool × Bytes 64) := do
  let (ok, ed) ← schnorrsigChallengeKey (sig64.extract 32 64)
    (zeroBytes 32) msg32 keypair parity pk32
  pure (ok, zeroBytes 32 ++ ed)

/-- The negated key of the signer. -/
def schnorrsigCancel (keypair : T.Keypair) (parity : Int32) :
    Harness T (Bool × Bytes 32) := do
  let (ok, cancel) ← schnorrsigEvenKey keypair parity
  if ok then do
    let (ret, cancel) ← secpKey (.ecSeckeyNegate cancel)
    pure (ret ≠ 0, cancel)
  else
    pure (false, cancel)

/-- A C truth value. -/
def cBool (b : Bool) : Int32 := if b then 1 else 0

/-! ## Tweaks -/

/-- `cancel`, when set, replaces the fuzzed tweak. -/
def schnorrsigRecordTweak (internal : T.XonlyPubkey) (cancel : Option (Bytes 32)) :
    Harness T Unit := do
  let tweak ← readerTake 32
  let tweak := cancel.getD tweak
  let (ok, tweaked) ← secpKey (.xonlyPubkeyTweakAdd internal tweak)
  transcriptInt ok
  if ok = 0 then do
    -- a tweak at least the order, or one summing to infinity, commits to no key
    let (_, tweaked32) ← secpKey (.xonlyPubkeySerialize internal)
    transcriptInt (← secpKey (.xonlyPubkeyTweakAddCheck tweaked32 0 internal tweak))
  else do
    let (ok, tweakedXonly, parity) ← secpKey (.xonlyPubkeyFromPubkey tweaked)
    transcriptInt ok
    if ok = 0 then
      pure ()
    else do
      let (_, tweaked32) ← secpKey (.xonlyPubkeySerialize tweakedXonly)
      transcriptInt parity
      transcriptBytes tweaked32.toList
      transcriptInt
        (← secpKey (.xonlyPubkeyTweakAddCheck tweaked32 parity internal tweak))
      let flip ← readerU8
      let pos ← readerU8
      let mask ← readerU8
      let parity := parity ^^^ Int32.ofNat (flip &&& 1)
      let tweaked32 := flipByte tweaked32 pos mask
      transcriptInt
        (← secpKey (.xonlyPubkeyTweakAddCheck tweaked32 parity internal tweak))

/-! ## Custom signing -/

/-- Returns the fuzzed nonce in `data`. -/
def schnorrsigFixedNonce (data : Bytes 32) : SchnorrsigNonceFn :=
  fun _msg _key32 _xonlyPk32 =>
  pure (1, data)

/-- The exported BIP340 nonce function under the algorithm name in `data`, a
length byte and the name. An empty name passes NULL. -/
def schnorrsigTaggedNonce (data : Bytes 32) : SchnorrsigNonceFn :=
  fun msg key32 xonlyPk32 =>
  let namelen := data[0].toNat % 32
  let algo := if namelen > 0 then some ((data.toList.drop 1).take namelen) else none
  Prog.invoke (.nonceFunctionBip340 msg key32 xonlyPk32 algo none)

/-- The nonce is the nonce itself, the name for the tagged nonce function, or
aux_rand for the default one. Without any, the parameters are left out. -/
def schnorrsigExtraparams (mode : Nat) (nonce : Bytes 32) :
    Option SchnorrsigExtraparams :=
  let noncefp :=
    if mode &&& SchnorrsigMode.taggedNonce ≠ 0 then some (schnorrsigTaggedNonce nonce)
    else if mode &&& SchnorrsigMode.fixedNonce ≠ 0 then some (schnorrsigFixedNonce nonce)
    else none
  if mode &&& (SchnorrsigMode.aux ||| SchnorrsigMode.fixedNonce |||
    SchnorrsigMode.taggedNonce) ≠ 0 then
    some ⟨noncefp, nonce⟩
  else none

/-- Messages of any length. `pk` is the parsed, possibly mutated key; `signed`
holds the keypair and its x-only key when the input signed. -/
def schnorrsigRecordCustom (mode : Nat) (sig64 : Bytes 64) (pk : Option T.XonlyPubkey)
    (signed : Option (T.Keypair × T.XonlyPubkey)) : Harness T Unit := do
  let msglen ← readerU8
  let msg ← readerTake msglen
  let nonce ← readerTake 32
  let pos ← readerU8
  let mask ← readerU8
  (match pk with
    | some pk => do transcriptInt (← secpSchnorrsig (.verify sig64 msg.toList pk))
    | none => pure ())
  match signed with
  | none => pure ()
  | some (keypair, signer) => do
      let (ok, sig) ← secpSchnorrsig
        (.signCustom msg.toList keypair (schnorrsigExtraparams mode nonce))
      transcriptInt ok
      if ok ≠ 0 then do
        transcriptBytes sig.toList
        let sig := flipByte sig pos mask
        transcriptInt (← secpSchnorrsig (.verify sig msg.toList signer))
      else pure ()

/-! ## The target -/

/-- The buffers the mutations work on. -/
structure SchnorrsigBuffers where
  msg : Bytes 32
  pk32 : Bytes 32
  sig64 : Bytes 64

/-- What signing leaves: the keypair with its x-only key, and the cancelling
tweak. -/
structure SchnorrsigSigned (T : Types) where
  signed : Option (T.Keypair × T.XonlyPubkey)
  cancel : Option (Bytes 32)

/-- The signature as signed, or forged where a mode bit asks for it. -/
def schnorrsigForge (mode : Nat) (sig64 : Bytes 64) (msg : Bytes 32) (keypair : T.Keypair)
    (parity : Int32) (pk32 : Bytes 32) : Harness T (Bytes 64) :=
  if mode &&& SchnorrsigMode.oddR ≠ 0 then do
    let (ret, sig64) ← schnorrsigOddR sig64 msg keypair parity pk32
    transcriptInt (cBool ret)
    transcriptBytes sig64.toList
    pure sig64
  else if mode &&& SchnorrsigMode.infinityR ≠ 0 then do
    let (ret, sig64) ← schnorrsigInfinityR sig64 msg keypair parity pk32
    transcriptInt (cBool ret)
    transcriptBytes sig64.toList
    pure sig64
  else pure sig64

/-- With `sign`: a keypair, and where it is valid a signature of it. -/
def schnorrsigSignInput (mode : Nat) (msg : Bytes 32) :
    Harness T (SchnorrsigBuffers × SchnorrsigSigned T) := do
  let seckey ← readerTake 32
  let aux ← readerTake 32
  let (ok, keypair) ← secpKey (.keypairCreate seckey)
  transcriptInt ok
  if ok = 0 then
    pure (⟨msg, zeroBytes 32, zeroBytes 64⟩, ⟨none, none⟩)
  else do
    let (_, signer, parity) ← secpKey (.keypairXonlyPub keypair)
    let (_, pk32) ← secpKey (.xonlyPubkeySerialize signer)
    transcriptInt parity
    transcriptBytes pk32.toList
    let (ok, sig64) ← secpSchnorrsig
      (.sign32 msg keypair (if mode &&& SchnorrsigMode.aux ≠ 0 then some aux else none))
    transcriptInt ok
    transcriptBytes sig64.toList
    let sig64 ← schnorrsigForge mode sig64 msg keypair parity pk32
    let cancel ← (if mode &&& SchnorrsigMode.cancelTweak ≠ 0 then do
        let (ok, cancel) ← schnorrsigCancel keypair parity
        transcriptInt (cBool ok)
        pure (if ok then some cancel else none)
      else pure none)
    pure (⟨msg, pk32, sig64⟩, ⟨some (keypair, signer), cancel⟩)

def schnorrsigMutate (which pos mask : Nat) (st : SchnorrsigBuffers) :
    SchnorrsigBuffers :=
  match which with
  | 0 => { st with sig64 := flipByte st.sig64 pos mask }
  | 1 => { st with msg := flipByte st.msg pos mask }
  | _ => { st with pk32 := flipByte st.pk32 pos mask }

def targetSchnorrsig : Harness T Unit := do
  let mode ← readerU8
  let msg ← readerTake 32
  let (st, signed) ← (if mode &&& SchnorrsigMode.sign ≠ 0 then
      schnorrsigSignInput mode msg
    else do
      let pk32 ← readerTake 32
      let sig64 ← readerTake 64
      pure (⟨msg, pk32, sig64⟩, ⟨none, none⟩))
  let st ← mutateUpTo7 3 schnorrsigMutate st
  let (ok, pk) ← secpKey (.xonlyPubkeyParse st.pk32)
  transcriptInt ok
  (if ok ≠ 0 then do
      transcriptInt (← secpSchnorrsig (.verify st.sig64 st.msg.toList pk))
      schnorrsigRecordTweak pk signed.cancel
    else pure ())
  schnorrsigRecordCustom mode st.sig64 (if ok ≠ 0 then some pk else none) signed.signed

end Diffsecp
