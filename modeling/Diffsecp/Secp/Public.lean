import Diffsecp.Secp.Arith

/-!
# Secp — Public

The public API of libsecp256k1 the targets call, by module. Where a C
function returns a code and writes outputs, the answer is the code with the
outputs; whether the outputs mean anything when the code is zero is for a
contract to say.
-/

namespace Diffsecp

open Interact

/-! ## Keys: `secp256k1.h`, `secp256k1_extrakeys.h`, `secp256k1_ecdh.h` -/

/-- The hash function argument of `secp256k1_ecdh`: none, the exported
default, or a callback of the harness, which may fail. -/
inductive EcdhHashFn (n : Nat) where
  | null
  | sha256
  | harness (f : Bytes 32 → Bytes 32 → Option (Bytes n))

inductive KeyCall (T : Types) : Type → Type 1 where
  | ecSeckeyVerify (seckey : Bytes 32) : KeyCall T Int32
  | ecSeckeyNegate (seckey : Bytes 32) : KeyCall T (Int32 × Bytes 32)
  | ecSeckeyTweakAdd (seckey tweak : Bytes 32) : KeyCall T (Int32 × Bytes 32)
  | ecSeckeyTweakMul (seckey tweak : Bytes 32) : KeyCall T (Int32 × Bytes 32)
  | ecPubkeyCreate (seckey : Bytes 32) : KeyCall T (Int32 × T.Pubkey)
  | ecPubkeyParse (input : List UInt8) : KeyCall T (Int32 × T.Pubkey)
  | ecPubkeySerialize (pubkey : T.Pubkey) (compressed : Bool) :
      KeyCall T (Int32 × List UInt8)
  | ecPubkeyNegate (pubkey : T.Pubkey) : KeyCall T (Int32 × T.Pubkey)
  | ecPubkeyTweakAdd (pubkey : T.Pubkey) (tweak : Bytes 32) : KeyCall T (Int32 × T.Pubkey)
  | ecPubkeyTweakMul (pubkey : T.Pubkey) (tweak : Bytes 32) : KeyCall T (Int32 × T.Pubkey)
  | ecPubkeyCombine (ins : List T.Pubkey) : KeyCall T (Int32 × T.Pubkey)
  | ecPubkeyCmp (pubkey0 pubkey1 : T.Pubkey) : KeyCall T Int32
  | ecPubkeySort {n : Nat} (pubkeys : Fin n → T.Pubkey) :
      KeyCall T (Int32 × (Fin n → T.Pubkey))
  | keypairCreate (seckey : Bytes 32) : KeyCall T (Int32 × T.Keypair)
  | keypairSec (keypair : T.Keypair) : KeyCall T (Int32 × Bytes 32)
  | keypairPub (keypair : T.Keypair) : KeyCall T (Int32 × T.Pubkey)
  | keypairXonlyPub (keypair : T.Keypair) : KeyCall T (Int32 × T.XonlyPubkey × Int32)
  | keypairXonlyTweakAdd (keypair : T.Keypair) (tweak : Bytes 32) :
      KeyCall T (Int32 × T.Keypair)
  | xonlyPubkeyParse (input32 : Bytes 32) : KeyCall T (Int32 × T.XonlyPubkey)
  | xonlyPubkeySerialize (pubkey : T.XonlyPubkey) : KeyCall T (Int32 × Bytes 32)
  | xonlyPubkeyFromPubkey (pubkey : T.Pubkey) : KeyCall T (Int32 × T.XonlyPubkey × Int32)
  | xonlyPubkeyCmp (pk1 pk2 : T.XonlyPubkey) : KeyCall T Int32
  | xonlyPubkeyTweakAdd (internal : T.XonlyPubkey) (tweak : Bytes 32) :
      KeyCall T (Int32 × T.Pubkey)
  | xonlyPubkeyTweakAddCheck (tweaked32 : Bytes 32) (parity : Int32)
      (internal : T.XonlyPubkey) (tweak : Bytes 32) : KeyCall T Int32
  | ecdh {n : Nat} (pubkey : T.Pubkey) (seckey : Bytes 32) (hashfp : EcdhHashFn n) :
      KeyCall T (Int32 × Bytes n)
  | ecdhHashFunctionSha256 (x32 y32 : Bytes 32) : KeyCall T (Int32 × Bytes 32)
  | taggedSha256 (tag msg : List UInt8) : KeyCall T (Int32 × Bytes 32)
  | pubkeyLoad (pubkey : T.Pubkey) : KeyCall T (Int32 × Ge T)
  | pubkeySave (ge : Ge T) : KeyCall T T.Pubkey

/-! ## ECDSA: `secp256k1.h`, `contrib/lax_der_parsing.h`, `secp256k1_recovery.h` -/

/-- The exported RFC6979 nonce function, as a harness callback calls it. -/
inductive Rfc6979Call : Type → Type where
  | nonceFunctionRfc6979 (msg32 key32 : Bytes 32) (algo16 : Option (Bytes 16))
      (ndata : Option (Bytes 32)) (counter : Nat) : Rfc6979Call (Int32 × Bytes 32)

/-- The nonce function of `secp256k1_ecdsa_sign` with its data: none, the
exported RFC6979 one, or a callback of the harness given the message, the key
and the attempt number. -/
inductive EcdsaNonceFn where
  | null (ndata : Option (Bytes 32))
  | rfc6979 (ndata : Option (Bytes 32))
  | harness
      (f : Bytes 32 → Bytes 32 → Nat → Prog NoCall Rfc6979Call UInt8 (Int32 × Bytes 32))

/-- `signatureSerializeDer` answers the code, the bytes written and the
length reported; `constOrderAsFe` is the constant of the name, the group
order as a field element. -/
inductive EcdsaCall (T : Types) : Type → Type 1 where
  | signatureParseCompact (input64 : Bytes 64) : EcdsaCall T (Int32 × T.EcdsaSig)
  | signatureParseDer (input : List UInt8) : EcdsaCall T (Int32 × T.EcdsaSig)
  | signatureParseDerLax (input : List UInt8) : EcdsaCall T (Int32 × T.EcdsaSig)
  | signatureSerializeDer (outputlen : Nat) (sig : T.EcdsaSig) :
      EcdsaCall T (Int32 × List UInt8 × Nat)
  | signatureSerializeCompact (sig : T.EcdsaSig) : EcdsaCall T (Int32 × Bytes 64)
  | signatureNormalize (out : Bool) (sigin : T.EcdsaSig) :
      EcdsaCall T (Int32 × T.EcdsaSig)
  | sign (msg32 seckey : Bytes 32) (noncefp : EcdsaNonceFn) :
      EcdsaCall T (Int32 × T.EcdsaSig)
  | verify (sig : T.EcdsaSig) (msg32 : Bytes 32) (pubkey : T.Pubkey) : EcdsaCall T Int32
  | signRecoverable (msg32 seckey : Bytes 32) (ndata : Option (Bytes 32)) :
      EcdsaCall T (Int32 × T.RecoverableSig)
  | recoverableSerializeCompact (sig : T.RecoverableSig) :
      EcdsaCall T (Int32 × Bytes 64 × Int32)
  | recoverableParseCompact (input64 : Bytes 64) (recid : Int32) :
      EcdsaCall T (Int32 × T.RecoverableSig)
  | recoverableConvert (sigin : T.RecoverableSig) : EcdsaCall T (Int32 × T.EcdsaSig)
  | recover (sig : T.RecoverableSig) (msg32 : Bytes 32) : EcdsaCall T (Int32 × T.Pubkey)
  | constOrderAsFe : EcdsaCall T T.Fe

/-! ## Schnorr signatures: `secp256k1_schnorrsig.h` -/

/-- The exported BIP340 nonce function, as a harness callback calls it. -/
inductive Bip340Call : Type → Type where
  | nonceFunctionBip340 (msg : List UInt8) (key32 xonlyPk32 : Bytes 32)
      (algo : Option (List UInt8)) (ndata : Option (Bytes 32)) :
      Bip340Call (Int32 × Bytes 32)

/-- A nonce function of the harness, given the message, the key and the
public key. -/
abbrev SchnorrsigNonceFn :=
  List UInt8 → Bytes 32 → Bytes 32 → Prog NoCall Bip340Call UInt8 (Int32 × Bytes 32)

/-- `secp256k1_schnorrsig_extraparams`. -/
structure SchnorrsigExtraparams where
  noncefp : Option SchnorrsigNonceFn
  ndata : Bytes 32

inductive SchnorrsigCall (T : Types) : Type → Type 1 where
  | sign32 (msg32 : Bytes 32) (keypair : T.Keypair) (auxRand32 : Option (Bytes 32)) :
      SchnorrsigCall T (Int32 × Bytes 64)
  | signCustom (msg : List UInt8) (keypair : T.Keypair)
      (extraparams : Option SchnorrsigExtraparams) : SchnorrsigCall T (Int32 × Bytes 64)
  | verify (sig64 : Bytes 64) (msg : List UInt8) (pubkey : T.XonlyPubkey) :
      SchnorrsigCall T Int32

/-! ## ElligatorSwift: `secp256k1_ellswift.h` -/

/-- The hash function of the x-only ECDH: an exported one, or a callback of
the harness given the shared x coordinate and both encodings. -/
inductive EllswiftXdhHashFn where
  | xdhPrefix
  | xdhBip324
  | harness (f : Bytes 32 → Bytes 64 → Bytes 64 → Option (Bytes 32))

inductive EllswiftCall (T : Types) : Type → Type 1 where
  | decode (ell64 : Bytes 64) : EllswiftCall T (Int32 × T.Pubkey)
  | encode (pubkey : T.Pubkey) (rnd32 : Bytes 32) : EllswiftCall T (Int32 × Bytes 64)
  | create (seckey32 : Bytes 32) (auxrnd32 : Option (Bytes 32)) :
      EllswiftCall T (Int32 × Bytes 64)
  | xdh (ellA64 ellB64 : Bytes 64) (seckey32 : Bytes 32) (party : Int32)
      (hashfp : EllswiftXdhHashFn) (data : Option (Bytes 64)) :
      EllswiftCall T (Int32 × Bytes 32)
  | xdhHashFunction (hashfp : EllswiftXdhHashFn) (x32 : Bytes 32)
      (ellA64 ellB64 : Bytes 64)
      (data : Option (Bytes 64)) : EllswiftCall T (Int32 × Bytes 32)
  | xswiftecInvVar (x u : T.Fe) (c : Int32) : EllswiftCall T (Int32 × T.Fe)

/-! ## MuSig2: `secp256k1_musig.h` -/

/-- What `secp256k1_keyagg_cache_load` reads from a cache. -/
structure KeyaggCacheInternal (T : Types) where
  pk : Ge T
  secondPk : Ge T
  pksHash : Bytes 32
  tweak : T.Scalar
  parityAcc : Int32

/-- An `output` flag tells whether an optional output is asked for; a secret
nonce is passed with the slot it lives in, as signing overwrites it. -/
inductive MusigCall (T : Types) : Type → Type 1 where
  | pubkeyAgg (output : Bool) (pubkeys : List T.Pubkey) :
      MusigCall T (Int32 × T.XonlyPubkey × T.KeyaggCache)
  | pubkeyGet (cache : T.KeyaggCache) : MusigCall T (Int32 × T.Pubkey)
  | pubkeyEcTweakAdd (output : Bool) (cache : T.KeyaggCache) (tweak32 : Bytes 32) :
      MusigCall T (Int32 × T.Pubkey × T.KeyaggCache)
  | pubkeyXonlyTweakAdd (output : Bool) (cache : T.KeyaggCache) (tweak32 : Bytes 32) :
      MusigCall T (Int32 × T.Pubkey × T.KeyaggCache)
  | nonceGen (slot : Fin 3) (secrand32 : Bytes 32) (seckey : Option (Bytes 32))
      (pubkey : T.Pubkey) (msg32 : Option (Bytes 32)) (cache : Option T.KeyaggCache)
      (extra32 : Option (Bytes 32)) : MusigCall T (Int32 × T.Secnonce × T.Pubnonce)
  | nonceGenCounter (slot : Fin 3) (counter : UInt64) (keypair : T.Keypair)
      (msg32 : Option (Bytes 32)) (cache : Option T.KeyaggCache)
      (extra32 : Option (Bytes 32)) : MusigCall T (Int32 × T.Secnonce × T.Pubnonce)
  | pubnonceParse (in66 : Bytes 66) : MusigCall T (Int32 × T.Pubnonce)
  | pubnonceSerialize (nonce : T.Pubnonce) : MusigCall T (Int32 × Bytes 66)
  | nonceAgg (pubnonces : List T.Pubnonce) : MusigCall T (Int32 × T.Aggnonce)
  | aggnonceParse (in66 : Bytes 66) : MusigCall T (Int32 × T.Aggnonce)
  | aggnonceSerialize (nonce : T.Aggnonce) : MusigCall T (Int32 × Bytes 66)
  | nonceProcess (aggnonce : T.Aggnonce) (msg32 : Bytes 32) (cache : T.KeyaggCache) :
      MusigCall T (Int32 × T.Session)
  | partialSign (slot : Fin 3) (secnonce : T.Secnonce) (keypair : T.Keypair)
      (cache : T.KeyaggCache) (session : T.Session) :
      MusigCall T (Int32 × T.PartialSig × T.Secnonce)
  | partialSigParse (in32 : Bytes 32) : MusigCall T (Int32 × T.PartialSig)
  | partialSigSerialize (sig : T.PartialSig) : MusigCall T (Int32 × Bytes 32)
  | partialSigVerify (sig : T.PartialSig) (pubnonce : T.Pubnonce) (pubkey : T.Pubkey)
      (cache : T.KeyaggCache) (session : T.Session) : MusigCall T Int32
  | partialSigAgg (session : T.Session) (partialSigs : List T.PartialSig) :
      MusigCall T (Int32 × Bytes 64)
  | keyaggCacheLoad (cache : T.KeyaggCache) : MusigCall T (Int32 × KeyaggCacheInternal T)
  | keyaggcoef (cache : KeyaggCacheInternal T) (pk : Ge T) : MusigCall T T.Scalar

/-! ## Silent payments: `secp256k1_silentpayments.h` -/

/-- `secp256k1_silentpayments_recipient`. -/
structure SpRecipient (T : Types) where
  scanPubkey : T.Pubkey
  spendPubkey : T.Pubkey
  index : Nat

/-- `secp256k1_silentpayments_found_output`. -/
structure SpFoundOutput (T : Types) where
  output : T.XonlyPubkey
  tweak : Bytes 32
  foundWithLabel : Int32
  label : T.SpLabel

/-- `recipientScanOutputs` answers the code, the number found and the
`found_outputs` array as the call leaves it. -/
inductive SpCall (T : Types) : Type → Type 1 where
  | recipientLabelCreate (scanKey32 : Bytes 32) (m : UInt32) :
      SpCall T (Int32 × T.SpLabel × Bytes 32)
  | recipientLabelParse (in33 : Bytes 33) : SpCall T (Int32 × T.SpLabel)
  | recipientLabelSerialize (label : T.SpLabel) : SpCall T (Int32 × Bytes 33)
  | recipientCreateLabeledSpendPubkey (spendPubkey : T.Pubkey) (label : T.SpLabel) :
      SpCall T (Int32 × T.Pubkey)
  | senderCreateOutputs {n : Nat} (recipients : Fin n → SpRecipient T)
      (outpoint36 : Bytes 36) (keypairs : List T.Keypair) (seckeys : List (Bytes 32)) :
      SpCall T (Int32 × (Fin n → T.XonlyPubkey))
  | recipientPrevoutsSummaryCreate (outpoint36 : Bytes 36) (xonly : List T.XonlyPubkey)
      (pubkeys : List T.Pubkey) : SpCall T (Int32 × T.SpSummary)
  | recipientScanOutputs (tx : List T.XonlyPubkey) (scanKey32 : Bytes 32)
      (summary : T.SpSummary)
      (spendPubkey : T.Pubkey) (labelLookup : Option (Bytes 33 → Option (Bytes 32))) :
      SpCall T (Int32 × UInt32 × (Nat → SpFoundOutput T))

/-! ## The library -/

/-- Every function of libsecp256k1 the targets call. -/
inductive LibCall (T : Types) : Type → Type 1 where
  | fe {β : Type} (q : FeCall T β) : LibCall T β
  | scalar {β : Type} (q : ScalarCall T β) : LibCall T β
  | group {β : Type} (q : GroupCall T β) : LibCall T β
  | key {β : Type} (q : KeyCall T β) : LibCall T β
  | ecdsa {β : Type} (q : EcdsaCall T β) : LibCall T β
  | schnorrsig {β : Type} (q : SchnorrsigCall T β) : LibCall T β
  | ellswift {β : Type} (q : EllswiftCall T β) : LibCall T β
  | musig {β : Type} (q : MusigCall T β) : LibCall T β
  | sp {β : Type} (q : SpCall T β) : LibCall T β

/-- A program of the harness: it reads the input, puts transcript blocks and
calls the library. -/
abbrev Harness (T : Types) := Prog ReaderOp (LibCall T) UInt8

/-- A reference machine: it reads the input, puts transcript blocks and
calls nothing. -/
abbrev Ideal := Prog ReaderOp NoCall UInt8

/-- One build of libsecp256k1 with its context. -/
abbrev Build (T : Types) (σ : Type) := Handler (LibCall T) σ

section Calls

variable {T : Types} {β : Type}

abbrev secpFe (q : FeCall T β) : Harness T β := Prog.invoke (.fe q)
abbrev secpScalar (q : ScalarCall T β) : Harness T β := Prog.invoke (.scalar q)
abbrev secpGroup (q : GroupCall T β) : Harness T β := Prog.invoke (.group q)
abbrev secpKey (q : KeyCall T β) : Harness T β := Prog.invoke (.key q)
abbrev secpEcdsa (q : EcdsaCall T β) : Harness T β := Prog.invoke (.ecdsa q)
abbrev secpSchnorrsig (q : SchnorrsigCall T β) : Harness T β :=
  Prog.invoke (.schnorrsig q)
abbrev secpEllswift (q : EllswiftCall T β) : Harness T β := Prog.invoke (.ellswift q)
abbrev secpMusig (q : MusigCall T β) : Harness T β := Prog.invoke (.musig q)
abbrev secpSp (q : SpCall T β) : Harness T β := Prog.invoke (.sp q)

end Calls

/-- The transcript a target writes for an input, in a buffer of `cap` bytes. -/
def transcriptFor {T : Types} {σ α : Type} (target : Harness T α)
    (lib : Build T σ) (s : σ) (cap : Nat) (inp : List UInt8) : Option (List UInt8) :=
  transcriptOf cap (target.run reader lib inp s).out

end Diffsecp
