import Mathlib.Data.List.OfFn
import Diffsecp.Common
import Diffsecp.Interact.Twin
import Diffsecp.Secp.Curve

/-!
# Secp — Pairing

Two builds of libsecp256k1, each with its own objects: which objects of the
two stand for the same thing, which calls of the two are a pair, and what is
asked of their answers. A call is a pair with another where both are made on
objects that stand for the same and within what the API allows. Answers are
asked to agree in the code and, where it reports success, in the outputs.

Where the documentation says more, it is asked of both answers: the value of
an arithmetic call, a recovery id of at most 3, that 72 bytes hold a DER
signature, and the outputs of a call that always succeeds, whatever its code.
Two builds that answer alike but not as documented break a rule too.
-/

namespace Diffsecp

set_option linter.constructorNameAsVariable false

open Interact

universe v

/-- Which objects of the two builds stand for the same. -/
structure Pairing (T T' : Types) where
  gen : Point
  /-- Both represent the element, with magnitudes up to the bound. -/
  fe : T.Fe → T'.Fe → F → Int → Prop
  normalized : T.Fe → T'.Fe → Prop
  scalar : T.Scalar → T'.Scalar → Zn → Prop
  gej : Gej T → Gej T' → Point → Prop
  pubkey : T.Pubkey → T'.Pubkey → Prop
  xonly : T.XonlyPubkey → T'.XonlyPubkey → Prop
  keypair : T.Keypair → T'.Keypair → Prop
  sig : T.EcdsaSig → T'.EcdsaSig → Prop
  recoverable : T.RecoverableSig → T'.RecoverableSig → Prop
  cache : T.KeyaggCache → T'.KeyaggCache → Prop
  secnonce : T.Secnonce → T'.Secnonce → Prop
  pubnonce : T.Pubnonce → T'.Pubnonce → Prop
  aggnonce : T.Aggnonce → T'.Aggnonce → Prop
  session : T.Session → T'.Session → Prop
  partialSig : T.PartialSig → T'.PartialSig → Prop
  label : T.SpLabel → T'.SpLabel → Prop
  summary : T.SpSummary → T'.SpSummary → Prop

/-- The codes agree, and on success the outputs. -/
def Gives {α α' : Type} (R : α → α' → Prop) (a : Int32 × α) (a' : Int32 × α') : Prop :=
  a.1 = a'.1 ∧ (a.1 ≠ 0 → R a.2 a'.2)

/-- A call that always succeeds: the outputs agree whatever the code. -/
def Same {α α' : Type} (R : α → α' → Prop) (a : Int32 × α) (a' : Int32 × α') : Prop :=
  a.1 = a'.1 ∧ R a.2 a'.2

section Answers

variable {α α' : Type} {rel : α → α' → Prop} {motive : Int32 × α → Int32 × α' → Prop}
  {a : Int32 × α} {a' : Int32 × α'}

/-- Two such answers have one code. -/
@[elab_as_elim]
theorem Gives.cases (h : Gives rel a a')
    (hcode : ∀ ret x x', (ret ≠ 0 → rel x x') → motive (ret, x) (ret, x')) :
    motive a a' := by
  obtain ⟨ret, x⟩ := a
  obtain ⟨ret', x'⟩ := a'
  obtain ⟨rfl, hrel⟩ := h
  exact hcode ret x x' hrel

@[elab_as_elim]
theorem Same.cases (h : Same rel a a')
    (hcode : ∀ ret x x', rel x x' → motive (ret, x) (ret, x')) :
    motive a a' := by
  obtain ⟨ret, x⟩ := a
  obtain ⟨ret', x'⟩ := a'
  obtain ⟨rfl, hrel⟩ := h
  exact hcode ret x x' hrel

end Answers

variable {T T' : Types}

namespace Pairing

/-! ## Composed objects -/

section Objects

variable (R : Pairing T T')

/-- Affine representations of a point. -/
def ge (a : Ge T) (a' : Ge T') : Point → Prop
  | .zero => a.infinity = true ∧ a'.infinity = true
  | .some x y _ =>
      a.infinity = false ∧ a'.infinity = false ∧ R.fe a.x a'.x x 4 ∧ R.fe a.y a'.y y 3

/-- Loaded caches; the key of a cache is finite. -/
structure Loaded (ci : KeyaggCacheInternal T) (ci' : KeyaggCacheInternal T') : Prop where
  pk : ∃ P, P ≠ 0 ∧ R.ge ci.pk ci'.pk P
  secondPk : ∃ P, R.ge ci.secondPk ci'.secondPk P
  pksHash : ci.pksHash = ci'.pksHash
  tweak : ∃ t, R.scalar ci.tweak ci'.tweak t
  parityAcc : ci.parityAcc = ci'.parityAcc

structure Recipient (a : SpRecipient T) (a' : SpRecipient T') : Prop where
  scanPubkey : R.pubkey a.scanPubkey a'.scanPubkey
  spendPubkey : R.pubkey a.spendPubkey a'.spendPubkey
  index : a.index = a'.index

/-- The label is only set where the output was found with one. -/
structure Found (a : SpFoundOutput T) (a' : SpFoundOutput T') : Prop where
  output : R.xonly a.output a'.output
  tweak : a.tweak = a'.tweak
  foundWithLabel : a.foundWithLabel = a'.foundWithLabel
  label : a.foundWithLabel ≠ 0 → R.label a.label a'.label

end Objects

/-! ## Pairs of calls -/

inductive FeRule (R : Pairing T T') :
    {β β' : Type} → FeCall T β → FeCall T' β' → (β → β' → Prop) → Prop where
  | setInt (k : Int) (h : 0 ≤ k) (h' : k ≤ 0x7FFF) :
      FeRule R (.setInt k) (.setInt k) fun v v' => R.fe v v' k (if k ≠ 0 then 1 else 0)
  | setB32Mod (b32 : Bytes 32) :
      FeRule R (.setB32Mod b32) (.setB32Mod b32) fun v v' =>
        R.fe v v' (natOfBytes b32.toList) 1
  | setB32Limit (b32 : Bytes 32) :
      FeRule R (.setB32Limit b32) (.setB32Limit b32)
        (Gives fun v v' => R.fe v v' (natOfBytes b32.toList) 1 ∧ R.normalized v v')
  | add {r a : FePtr} {vr va vr' va' x y m n} (hr : R.fe vr vr' x m)
      (ha : R.fe va va' y n) (h : m + n ≤ 32) :
      FeRule R (.add r a vr va) (.add r a vr' va') fun v v' => R.fe v v' (x + y) (m + n)
  | addInt {vr vr' x m} (k : Int) (hr : R.fe vr vr' x m) (hk : 0 ≤ k) (hk' : k ≤ 0x7FFF)
      (hm : m ≤ 31) :
      FeRule R (.addInt vr k) (.addInt vr' k) fun v v' => R.fe v v' (x + k) (m + 1)
  | mul {r a b : FePtr} {va vb va' vb' x y m n} (ha : R.fe va va' x m)
      (hb : R.fe vb vb' y n) (hm : m ≤ 8) (hn : n ≤ 8) (hr : b ≠ r) (hab : b ≠ a) :
      FeRule R (.mul r a b va vb) (.mul r a b va' vb') fun v v' => R.fe v v' (x * y) 1
  | sqr {r a : FePtr} {va va' x m} (ha : R.fe va va' x m) (hm : m ≤ 8) :
      FeRule R (.sqr r a va) (.sqr r a va') fun v v' => R.fe v v' (x * x) 1
  | negateUnchecked {r a : FePtr} {va va' x m} (k : Int) (ha : R.fe va va' x m)
      (hm : m ≤ k) (hk : k ≤ 31) :
      FeRule R (.negateUnchecked r a va k) (.negateUnchecked r a va' k) fun v v' =>
        R.fe v v' (-x) (k + 1)
  | mulIntUnchecked {vr vr' x m} (k : Int) (hr : R.fe vr vr' x m) (hk : 0 ≤ k)
      (hk' : k ≤ 32) (hm : k * m ≤ 32) :
      FeRule R (.mulIntUnchecked vr k) (.mulIntUnchecked vr' k) fun v v' =>
        R.fe v v' (x * k) (k * m)
  | normalizeVar {vr vr' x m} (hr : R.fe vr vr' x m) :
      FeRule R (.normalizeVar vr) (.normalizeVar vr') fun v v' => R.fe v v' x 1 ∧
        R.normalized v v'
  | invVar {r a : FePtr} {va va' x m} (ha : R.fe va va' x m) :
      FeRule R (.invVar r a va) (.invVar r a va') fun v v' => R.fe v v' x⁻¹ 1
  | getB32 {va va' x m} (ha : R.fe va va' x m) (hnorm : R.normalized va va') :
      FeRule R (.getB32 va) (.getB32 va') Eq
  | normalizesToZeroVar {va va' x m} (ha : R.fe va va' x m) :
      FeRule R (.normalizesToZeroVar va) (.normalizesToZeroVar va') fun ret ret' =>
        ret = flag (x = 0) ∧ ret' = flag (x = 0)
  | isOdd {va va' x m} (ha : R.fe va va' x m) (hnorm : R.normalized va va') :
      FeRule R (.isOdd va) (.isOdd va') Eq

inductive ScalarRule (R : Pairing T T') :
    {β β' : Type} → ScalarCall T β → ScalarCall T' β' → (β → β' → Prop) → Prop where
  | setInt (k : ℕ) : ScalarRule R (.setInt k) (.setInt k) fun v v' => R.scalar v v' k
  | setB32 (b32 : Bytes 32) :
      ScalarRule R (.setB32 b32) (.setB32 b32) fun a a' =>
        R.scalar a.1 a'.1 (natOfBytes b32.toList) ∧ a.2 = a'.2
  | add {r a b : ScalarPtr} {va vb va' vb' x y} (ha : R.scalar va va' x)
      (hb : R.scalar vb vb' y) :
      ScalarRule R (.add r a b va vb) (.add r a b va' vb') (Same fun v v' =>
        R.scalar v v' (x + y))
  | mul {r a b : ScalarPtr} {va vb va' vb' x y} (ha : R.scalar va va' x)
      (hb : R.scalar vb vb' y) :
      ScalarRule R (.mul r a b va vb) (.mul r a b va' vb') fun v v' =>
        R.scalar v v' (x * y)
  | negate {r a : ScalarPtr} {va va' x} (ha : R.scalar va va' x) :
      ScalarRule R (.negate r a va) (.negate r a va') fun v v' => R.scalar v v' (-x)
  | inverseVar {r a : ScalarPtr} {va va' x} (ha : R.scalar va va' x) :
      ScalarRule R (.inverseVar r a va) (.inverseVar r a va') fun v v' =>
        R.scalar v v' x⁻¹
  | getB32 {va va' x} (ha : R.scalar va va' x) :
      ScalarRule R (.getB32 va) (.getB32 va') Eq

inductive GroupRule (R : Pairing T T') :
    {β β' : Type} → GroupCall T β → GroupCall T' β' → (β → β' → Prop) → Prop where
  | gejSetInfinity : GroupRule R .gejSetInfinity .gejSetInfinity fun r r' => R.gej r r' 0
  | gejSetGe {a a' P} (ha : R.ge a a' P) : GroupRule R (.gejSetGe a)
      (.gejSetGe a') fun r r' => R.gej r r' P
  | geSetXoVar {x x' u m} (odd : Int32) (hx : R.fe x x' u m) (hm : m ≤ 8)
      (hodd : odd = 0 ∨ odd = 1) :
      GroupRule R (.geSetXoVar x odd) (.geSetXoVar x' odd) (Gives fun r r' => ∃ P,
        P ≠ 0 ∧ R.ge r r' P)
  | ecmult {a a' na na' ng ng' P k l} (ha : R.gej a a' P) (hna : R.scalar na na' k)
      (hng : R.scalar ng ng' l) :
      GroupRule R (.ecmult a na (some ng)) (.ecmult a' na' (some ng')) fun r r' =>
        R.gej r r' (k.val • P + l.val • R.gen)
  | gejIsInfinity {a a' P} (ha : R.gej a a' P) :
      GroupRule R (.gejIsInfinity a) (.gejIsInfinity a') fun ret ret' =>
        ret = flag (P = 0) ∧ ret' = flag (P = 0)
  | geSetGej {a a' P} (ha : R.gej a a' P) :
      GroupRule R (.geSetGej a) (.geSetGej a') fun r r' => R.ge r.1 r'.1 P
  | geXOnCurveVar {x x' u m} (hx : R.fe x x' u m) (hm : m ≤ 8) :
      GroupRule R (.geXOnCurveVar x) (.geXOnCurveVar x') fun ret ret' =>
        ret = flag (onCurve u) ∧ ret' = flag (onCurve u)

inductive KeyRule (R : Pairing T T') :
    {β β' : Type} → KeyCall T β → KeyCall T' β' → (β → β' → Prop) → Prop where
  | ecPubkeyCreate (seckey : Bytes 32) :
      KeyRule R (.ecPubkeyCreate seckey) (.ecPubkeyCreate seckey) (Gives R.pubkey)
  | ecPubkeyParse (input : List UInt8) :
      KeyRule R (.ecPubkeyParse input) (.ecPubkeyParse input) (Gives R.pubkey)
  | ecPubkeySerialize {pk pk'} (compressed : Bool) (h : R.pubkey pk pk') :
      KeyRule R (.ecPubkeySerialize pk compressed)
        (.ecPubkeySerialize pk' compressed) (Same Eq)
  | ecPubkeyNegate {pk pk'} (h : R.pubkey pk pk') :
      KeyRule R (.ecPubkeyNegate pk) (.ecPubkeyNegate pk') (Same R.pubkey)
  | ecPubkeySort {n n' : ℕ} {pks : Fin n → T.Pubkey} {pks' : Fin n' → T'.Pubkey}
      (h : List.Forall₂ R.pubkey (List.ofFn pks) (List.ofFn pks')) :
      KeyRule R (.ecPubkeySort pks) (.ecPubkeySort pks')
        (Same fun s s' => List.Forall₂ R.pubkey (List.ofFn s) (List.ofFn s'))
  | keypairCreate (seckey : Bytes 32) :
      KeyRule R (.keypairCreate seckey) (.keypairCreate seckey) (Gives R.keypair)
  | keypairPub {kp kp'} (h : R.keypair kp kp') :
      KeyRule R (.keypairPub kp) (.keypairPub kp') (Same R.pubkey)
  | keypairXonlyPub {kp kp'} (h : R.keypair kp kp') :
      KeyRule R (.keypairXonlyPub kp) (.keypairXonlyPub kp') (Same fun a a' =>
        R.xonly a.1 a'.1 ∧ a.2 = a'.2)
  | xonlyPubkeyParse (input32 : Bytes 32) :
      KeyRule R (.xonlyPubkeyParse input32) (.xonlyPubkeyParse input32) (Gives R.xonly)
  | xonlyPubkeySerialize {pk pk'} (h : R.xonly pk pk') :
      KeyRule R (.xonlyPubkeySerialize pk) (.xonlyPubkeySerialize pk') (Same Eq)
  | xonlyPubkeyFromPubkey {pk pk'} (h : R.pubkey pk pk') :
      KeyRule R (.xonlyPubkeyFromPubkey pk) (.xonlyPubkeyFromPubkey pk')
        (Same fun a a' => R.xonly a.1 a'.1 ∧ a.2 = a'.2)
  | pubkeyLoad {pk pk'} (h : R.pubkey pk pk') :
      KeyRule R (.pubkeyLoad pk) (.pubkeyLoad pk') (Same fun a a' => ∃ P,
        P ≠ 0 ∧ R.ge a a' P)
  | pubkeySave {a a' P} (h : R.ge a a' P) (hP : P ≠ 0) :
      KeyRule R (.pubkeySave a) (.pubkeySave a') R.pubkey

inductive EcdsaRule (R : Pairing T T') :
    {β β' : Type} → EcdsaCall T β → EcdsaCall T' β' → (β → β' → Prop) → Prop where
  | signatureParseCompact (input64 : Bytes 64) :
      EcdsaRule R (.signatureParseCompact input64)
        (.signatureParseCompact input64) (Gives R.sig)
  | signatureParseDer (input : List UInt8) :
      EcdsaRule R (.signatureParseDer input) (.signatureParseDer input) (Gives R.sig)
  | signatureParseDerLax (input : List UInt8) :
      EcdsaRule R (.signatureParseDerLax input)
        (.signatureParseDerLax input) (Gives R.sig)
  -- 72 bytes are always enough, and the length needed is reported either way
  | signatureSerializeDer {sig sig'} (outputlen : ℕ) (h : R.sig sig sig') :
      EcdsaRule R (.signatureSerializeDer outputlen sig)
        (.signatureSerializeDer outputlen sig') fun a a' =>
        Gives (fun o o' => o.1 = o'.1) a a' ∧ (72 ≤ outputlen → a.1 ≠ 0) ∧ a.2.2 = a'.2.2
  | signatureSerializeCompact {sig sig'} (h : R.sig sig sig') :
      EcdsaRule R (.signatureSerializeCompact sig)
        (.signatureSerializeCompact sig') (Same Eq)
  | signatureNormalize {sig sig'} (out : Bool) (h : R.sig sig sig') :
      EcdsaRule R (.signatureNormalize out sig) (.signatureNormalize out sig')
        (Same fun low low' => out = true → R.sig low low')
  | sign (msg32 seckey : Bytes 32) (noncefp : EcdsaNonceFn) :
      EcdsaRule R (.sign msg32 seckey noncefp) (.sign msg32 seckey noncefp) (Gives R.sig)
  | verify {sig sig' pk pk'} (msg32 : Bytes 32) (h : R.sig sig sig')
      (hpk : R.pubkey pk pk') :
      EcdsaRule R (.verify sig msg32 pk) (.verify sig' msg32 pk') Eq
  | signRecoverable (msg32 seckey : Bytes 32) (ndata : Option (Bytes 32)) :
      EcdsaRule R (.signRecoverable msg32 seckey ndata)
        (.signRecoverable msg32 seckey ndata) (Gives R.recoverable)
  | recoverableSerializeCompact {sig sig'} (h : R.recoverable sig sig') :
      EcdsaRule R (.recoverableSerializeCompact sig) (.recoverableSerializeCompact sig')
        (Same fun o o' => o = o' ∧ 0 ≤ o.2 ∧ o.2 ≤ 3)
  | recoverableParseCompact (input64 : Bytes 64) (recid : Int32) (h : 0 ≤ recid)
      (h' : recid ≤ 3) :
      EcdsaRule R (.recoverableParseCompact input64 recid)
        (.recoverableParseCompact input64 recid) (Gives R.recoverable)
  | recoverableConvert {sig sig'} (h : R.recoverable sig sig') :
      EcdsaRule R (.recoverableConvert sig) (.recoverableConvert sig') (Same R.sig)
  | recover {sig sig'} (msg32 : Bytes 32) (h : R.recoverable sig sig') :
      EcdsaRule R (.recover sig msg32) (.recover sig' msg32) (Gives R.pubkey)
  | constOrderAsFe : EcdsaRule R .constOrderAsFe .constOrderAsFe fun v v' =>
      R.fe v v' secpN 1

inductive SchnorrsigRule (R : Pairing T T') :
    {β β' : Type} → SchnorrsigCall T β → SchnorrsigCall T' β' →
    (β → β' → Prop) → Prop where
  | verify {pk pk'} (sig64 : Bytes 64) (msg : List UInt8) (h : R.xonly pk pk') :
      SchnorrsigRule R (.verify sig64 msg pk) (.verify sig64 msg pk') Eq

inductive EllswiftRule (R : Pairing T T') :
    {β β' : Type} → EllswiftCall T β → EllswiftCall T' β' → (β → β' → Prop) → Prop where
  | decode (ell64 : Bytes 64) :
      EllswiftRule R (.decode ell64) (.decode ell64) (Same R.pubkey)
  | encode {pk pk'} (rnd32 : Bytes 32) (h : R.pubkey pk pk') :
      EllswiftRule R (.encode pk rnd32) (.encode pk' rnd32) (Same Eq)
  | create (seckey32 : Bytes 32) (auxrnd32 : Option (Bytes 32)) :
      EllswiftRule R (.create seckey32 auxrnd32) (.create seckey32 auxrnd32) (Gives Eq)
  | xdh (ellA64 ellB64 : Bytes 64) (seckey32 : Bytes 32) (party : Int32)
      (hashfp : EllswiftXdhHashFn) (data : Option (Bytes 64)) :
      EllswiftRule R (.xdh ellA64 ellB64 seckey32 party hashfp data)
        (.xdh ellA64 ellB64 seckey32 party hashfp data) (Gives Eq)
  | xdhHashFunction (hashfp : EllswiftXdhHashFn) (x32 : Bytes 32)
      (ellA64 ellB64 : Bytes 64) (data : Option (Bytes 64)) :
      EllswiftRule R (.xdhHashFunction hashfp x32 ellA64 ellB64 data)
        (.xdhHashFunction hashfp x32 ellA64 ellB64 data) (Same Eq)
  -- defined for an x on the curve and a nonzero u
  | xswiftecInvVar {x x' u u' xv uv m n} (c : Int32) (hx : R.fe x x' xv m)
      (hu : R.fe u u' uv n)
      (hcurve : onCurve xv) (hne : uv ≠ 0) (hc : 0 ≤ c) (hc' : c < 8) :
      EllswiftRule R (.xswiftecInvVar x u c) (.xswiftecInvVar x' u' c) (Gives fun t t' =>
        ∃ tv k, R.fe t t' tv k)

inductive MusigRule (R : Pairing T T') :
    {β β' : Type} → MusigCall T β → MusigCall T' β' → (β → β' → Prop) → Prop where
  | pubkeyAgg {pks pks'} (output : Bool) (h : List.Forall₂ R.pubkey pks pks')
      (hne : pks ≠ []) : MusigRule R (.pubkeyAgg output pks) (.pubkeyAgg output pks')
        (Gives fun o o' => output = true → R.xonly o.1 o'.1 ∧ R.cache o.2 o'.2)
  | pubkeyGet {cache cache'} (h : R.cache cache cache') :
      MusigRule R (.pubkeyGet cache) (.pubkeyGet cache') (Same R.pubkey)
  | pubkeyEcTweakAdd {cache cache'} (output : Bool) (tweak32 : Bytes 32)
      (h : R.cache cache cache') :
      MusigRule R (.pubkeyEcTweakAdd output cache tweak32)
        (.pubkeyEcTweakAdd output cache' tweak32)
        (Gives fun o o' => R.cache o.2 o'.2 ∧ (output = true → R.pubkey o.1 o'.1))
  | pubkeyXonlyTweakAdd {cache cache'} (output : Bool) (tweak32 : Bytes 32)
      (h : R.cache cache cache') :
      MusigRule R (.pubkeyXonlyTweakAdd output cache tweak32)
        (.pubkeyXonlyTweakAdd output cache' tweak32)
        (Gives fun o o' => R.cache o.2 o'.2 ∧ (output = true → R.pubkey o.1 o'.1))
  | nonceGen {pk pk' cache cache'} (slot : Fin 3) (secrand32 : Bytes 32)
      (seckey msg32 extra32 : Option (Bytes 32))
      (hpk : R.pubkey pk pk') (hcache : Option.Rel R.cache cache cache') :
      MusigRule R (.nonceGen slot secrand32 seckey pk msg32 cache extra32)
        (.nonceGen slot secrand32 seckey pk' msg32 cache' extra32)
        (Gives fun o o' => R.secnonce o.1 o'.1 ∧ R.pubnonce o.2 o'.2)
  | nonceGenCounter {kp kp' cache cache'} (slot : Fin 3) (counter : UInt64)
      (msg32 extra32 : Option (Bytes 32))
      (hkp : R.keypair kp kp') (hcache : Option.Rel R.cache cache cache') :
      MusigRule R (.nonceGenCounter slot counter kp msg32 cache extra32)
        (.nonceGenCounter slot counter kp' msg32 cache' extra32)
        (Gives fun o o' => R.secnonce o.1 o'.1 ∧ R.pubnonce o.2 o'.2)
  | pubnonceParse (in66 : Bytes 66) :
      MusigRule R (.pubnonceParse in66) (.pubnonceParse in66) (Gives R.pubnonce)
  | pubnonceSerialize {nonce nonce'} (h : R.pubnonce nonce nonce') :
      MusigRule R (.pubnonceSerialize nonce) (.pubnonceSerialize nonce') (Same Eq)
  | nonceAgg {nonces nonces'} (h : List.Forall₂ R.pubnonce nonces nonces')
      (hne : nonces ≠ []) :
      MusigRule R (.nonceAgg nonces) (.nonceAgg nonces') (Gives R.aggnonce)
  | aggnonceParse (in66 : Bytes 66) :
      MusigRule R (.aggnonceParse in66) (.aggnonceParse in66) (Gives R.aggnonce)
  | aggnonceSerialize {nonce nonce'} (h : R.aggnonce nonce nonce') :
      MusigRule R (.aggnonceSerialize nonce) (.aggnonceSerialize nonce') (Same Eq)
  | nonceProcess {nonce nonce' cache cache'} (msg32 : Bytes 32)
      (h : R.aggnonce nonce nonce') (hcache : R.cache cache cache') :
      MusigRule R (.nonceProcess nonce msg32 cache) (.nonceProcess nonce' msg32 cache')
        (Gives R.session)
  | partialSign {nonce nonce' kp kp' cache cache' session session'} (slot : Fin 3)
      (h : R.secnonce nonce nonce')
      (hkp : R.keypair kp kp') (hcache : R.cache cache cache')
      (hsession : R.session session session') :
      MusigRule R (.partialSign slot nonce kp cache session)
        (.partialSign slot nonce' kp' cache' session')
        (Gives fun o o' => R.partialSig o.1 o'.1)
  | partialSigParse (in32 : Bytes 32) :
      MusigRule R (.partialSigParse in32) (.partialSigParse in32) (Gives R.partialSig)
  | partialSigSerialize {sig sig'} (h : R.partialSig sig sig') :
      MusigRule R (.partialSigSerialize sig) (.partialSigSerialize sig') (Same Eq)
  | partialSigVerify {sig sig' nonce nonce' pk pk' cache cache' session session'}
      (h : R.partialSig sig sig')
      (hnonce : R.pubnonce nonce nonce') (hpk : R.pubkey pk pk')
      (hcache : R.cache cache cache')
      (hsession : R.session session session') :
      MusigRule R (.partialSigVerify sig nonce pk cache session)
        (.partialSigVerify sig' nonce' pk' cache' session') Eq
  | partialSigAgg {session session' sigs sigs'} (h : R.session session session')
      (hsigs : List.Forall₂ R.partialSig sigs sigs') (hne : sigs ≠ []) :
      MusigRule R (.partialSigAgg session sigs) (.partialSigAgg session' sigs') (Gives Eq)
  | keyaggCacheLoad {cache cache'} (h : R.cache cache cache') :
      MusigRule R (.keyaggCacheLoad cache) (.keyaggCacheLoad cache') (Same R.Loaded)
  | keyaggcoef {ci ci' pk pk' P} (h : R.Loaded ci ci') (hpk : R.ge pk pk' P) :
      MusigRule R (.keyaggcoef ci pk) (.keyaggcoef ci' pk') fun a a' =>
        ∃ c, R.scalar a a' c

inductive SpRule (R : Pairing T T') :
    {β β' : Type} → SpCall T β → SpCall T' β' → (β → β' → Prop) → Prop where
  | recipientLabelCreate (scanKey32 : Bytes 32) (m : UInt32) :
      SpRule R (.recipientLabelCreate scanKey32 m) (.recipientLabelCreate scanKey32 m)
        (Gives fun o o' => R.label o.1 o'.1 ∧ o.2 = o'.2)
  | recipientLabelParse (in33 : Bytes 33) :
      SpRule R (.recipientLabelParse in33) (.recipientLabelParse in33) (Gives R.label)
  | recipientLabelSerialize {label label'} (h : R.label label label') :
      SpRule R (.recipientLabelSerialize label)
        (.recipientLabelSerialize label') (Same Eq)
  | recipientCreateLabeledSpendPubkey {pk pk' label label'} (hpk : R.pubkey pk pk')
      (h : R.label label label') :
      SpRule R (.recipientCreateLabeledSpendPubkey pk label)
        (.recipientCreateLabeledSpendPubkey pk' label') (Gives R.pubkey)
  | senderCreateOutputs {n : ℕ} {recipients : Fin n → SpRecipient T}
      {recipients' : Fin n → SpRecipient T'}
      {kps kps'} (outpoint36 : Bytes 36) (seckeys : List (Bytes 32)) (hn : 0 < n)
      (h : ∀ i, R.Recipient (recipients i) (recipients' i))
      (hkps : List.Forall₂ R.keypair kps kps')
      (hkeys : 0 < kps.length + seckeys.length) :
      SpRule R (.senderCreateOutputs recipients outpoint36 kps seckeys)
        (.senderCreateOutputs recipients' outpoint36 kps' seckeys) (Gives fun o o' => ∀ i,
          R.xonly (o i) (o' i))
  | recipientPrevoutsSummaryCreate {xonly xonly' pks pks'} (outpoint36 : Bytes 36)
      (h : List.Forall₂ R.xonly xonly xonly') (hpks : List.Forall₂ R.pubkey pks pks')
      (hkeys : 0 < xonly.length + pks.length) :
      SpRule R (.recipientPrevoutsSummaryCreate outpoint36 xonly pks)
        (.recipientPrevoutsSummaryCreate outpoint36 xonly' pks') (Gives R.summary)
  | recipientScanOutputs {tx tx' summary summary' pk pk'} (scanKey32 : Bytes 32)
      (labelLookup : Option (Bytes 33 → Option (Bytes 32)))
      (h : List.Forall₂ R.xonly tx tx') (hne : tx ≠ [])
      (hsummary : R.summary summary summary') (hpk : R.pubkey pk pk') :
      SpRule R (.recipientScanOutputs tx scanKey32 summary pk labelLookup)
        (.recipientScanOutputs tx' scanKey32 summary' pk' labelLookup)
        (Gives fun o o' => o.1 = o'.1 ∧ ∀ i < o.1.toNat, R.Found (o.2 i) (o'.2 i))

inductive LibRule (R : Pairing T T') :
    {β β' : Type} → LibCall T β → LibCall T' β' → (β → β' → Prop) → Prop where
  | fe {β β' : Type} {q : FeCall T β} {q' : FeCall T' β'} {ok} (h : R.FeRule q q' ok) :
      LibRule R (.fe q) (.fe q') ok
  | scalar {β β' : Type} {q : ScalarCall T β} {q' : ScalarCall T' β'} {ok}
      (h : R.ScalarRule q q' ok) : LibRule R (.scalar q) (.scalar q') ok
  | group {β β' : Type} {q : GroupCall T β} {q' : GroupCall T' β'} {ok}
      (h : R.GroupRule q q' ok) : LibRule R (.group q) (.group q') ok
  | key {β β' : Type} {q : KeyCall T β} {q' : KeyCall T' β'} {ok}
      (h : R.KeyRule q q' ok) : LibRule R (.key q) (.key q') ok
  | ecdsa {β β' : Type} {q : EcdsaCall T β} {q' : EcdsaCall T' β'} {ok}
      (h : R.EcdsaRule q q' ok) : LibRule R (.ecdsa q) (.ecdsa q') ok
  | schnorrsig {β β' : Type} {q : SchnorrsigCall T β} {q' : SchnorrsigCall T' β'} {ok}
      (h : R.SchnorrsigRule q q' ok) : LibRule R (.schnorrsig q) (.schnorrsig q') ok
  | ellswift {β β' : Type} {q : EllswiftCall T β} {q' : EllswiftCall T' β'} {ok}
      (h : R.EllswiftRule q q' ok) : LibRule R (.ellswift q) (.ellswift q') ok
  | musig {β β' : Type} {q : MusigCall T β} {q' : MusigCall T' β'} {ok}
      (h : R.MusigRule q q' ok) : LibRule R (.musig q) (.musig q') ok
  | sp {β β' : Type} {q : SpCall T β} {q' : SpCall T' β'} {ok} (h : R.SpRule q q' ok) :
      LibRule R (.sp q) (.sp q') ok

def rules (R : Pairing T T') : Rules (LibCall T) (LibCall T') :=
  ⟨fun q q' ok => R.LibRule q q' ok⟩

end Pairing

/-! ## Rules for programs -/

section Twin

variable {R : Pairing T T'} {α α' β β' : Type} {Post : α → α' → Prop} {r : List UInt8}

/-- Twins over the calls of the pairing. -/
abbrev Twins (R : Pairing T T') (Post : α → α' → Prop) (p : Harness T α)
    (p' : Harness T' α') (r : List UInt8) :
    Prop := Twin reader R.rules Post p p' r

theorem twin_readerTake {n : ℕ} {f : Bytes n → Harness T α} {f' : Bytes n → Harness T' α'}
    (h : ∀ b r, Twins R Post (f b) (f' b) r) :
    Twins R Post (readerTake n >>= f) (readerTake n >>= f') r :=
  Twin.ask_bind h

theorem twin_readerU8 {f : ℕ → Harness T α} {f' : ℕ → Harness T' α'}
    (h : ∀ k r, Twins R Post (f k) (f' k) r) :
    Twins R Post (readerU8 >>= f) (readerU8 >>= f') r := by
  simp only [readerU8, bind_assoc, pure_bind]
  exact twin_readerTake fun _ _ => h _ _

theorem twin_readerU16 {f : ℕ → Harness T α} {f' : ℕ → Harness T' α'}
    (h : ∀ k r, Twins R Post (f k) (f' k) r) :
    Twins R Post (readerU16 >>= f) (readerU16 >>= f') r := by
  simp only [readerU16, bind_assoc, pure_bind]
  exact twin_readerTake fun _ _ => h _ _

theorem twin_readerLeft {f : ℕ → Harness T α} {f' : ℕ → Harness T' α'}
    (h : ∀ k r, Twins R Post (f k) (f' k) r) :
    Twins R Post (readerLeft >>= f) (readerLeft >>= f') r := Twin.ask_bind h

theorem twin_int {x x' : Int32} {f : Unit → Harness T α}
    {f' : Unit → Harness T' α'} (hx : x = x') (h : Twins R Post (f ()) (f' ()) r) :
    Twins R Post (transcriptInt x >>= f) (transcriptInt x' >>= f') r :=
  Twin.emit_bind (by rw [hx]) h

theorem twin_u32 {x x' : UInt32} {f : Unit → Harness T α}
    {f' : Unit → Harness T' α'} (hx : x = x') (h : Twins R Post (f ()) (f' ()) r) :
    Twins R Post (transcriptU32 x >>= f) (transcriptU32 x' >>= f') r :=
  Twin.emit_bind (by rw [hx]) h

theorem twin_bytes {p p' : List UInt8} {f : Unit → Harness T α}
    {f' : Unit → Harness T' α'} (hp : p = p') (h : Twins R Post (f ()) (f' ()) r) :
    Twins R Post (transcriptBytes p >>= f) (transcriptBytes p' >>= f') r :=
  Twin.emit_bind hp h

theorem twin_fe {q : FeCall T β} {q' : FeCall T' β'} {ok : β → β' → Prop}
    {f : β → Harness T α} {f' : β' → Harness T' α'} (hpair : R.FeRule q q' ok)
    (h : ∀ x x', ok x x' → Twins R Post (f x) (f' x') r) :
    Twins R Post (secpFe q >>= f) (secpFe q' >>= f') r := Twin.invoke_bind (.fe hpair) h

theorem twin_scalar {q : ScalarCall T β} {q' : ScalarCall T' β'} {ok : β → β' → Prop}
    {f : β → Harness T α} {f' : β' → Harness T' α'} (hpair : R.ScalarRule q q' ok)
    (h : ∀ x x', ok x x' → Twins R Post (f x) (f' x') r) :
    Twins R Post (secpScalar q >>= f) (secpScalar q' >>= f') r :=
      Twin.invoke_bind (.scalar hpair) h

theorem twin_group {q : GroupCall T β} {q' : GroupCall T' β'} {ok : β → β' → Prop}
    {f : β → Harness T α} {f' : β' → Harness T' α'} (hpair : R.GroupRule q q' ok)
    (h : ∀ x x', ok x x' → Twins R Post (f x) (f' x') r) :
    Twins R Post (secpGroup q >>= f) (secpGroup q' >>= f') r :=
      Twin.invoke_bind (.group hpair) h

theorem twin_key {q : KeyCall T β} {q' : KeyCall T' β'} {ok : β → β' → Prop}
    {f : β → Harness T α} {f' : β' → Harness T' α'} (hpair : R.KeyRule q q' ok)
    (h : ∀ x x', ok x x' → Twins R Post (f x) (f' x') r) :
    Twins R Post (secpKey q >>= f) (secpKey q' >>= f') r :=
      Twin.invoke_bind (.key hpair) h

theorem twin_ecdsa {q : EcdsaCall T β} {q' : EcdsaCall T' β'} {ok : β → β' → Prop}
    {f : β → Harness T α} {f' : β' → Harness T' α'} (hpair : R.EcdsaRule q q' ok)
    (h : ∀ x x', ok x x' → Twins R Post (f x) (f' x') r) :
    Twins R Post (secpEcdsa q >>= f) (secpEcdsa q' >>= f') r :=
      Twin.invoke_bind (.ecdsa hpair) h

theorem twin_schnorrsig {q : SchnorrsigCall T β} {q' : SchnorrsigCall T' β'}
    {ok : β → β' → Prop} {f : β → Harness T α} {f' : β' → Harness T' α'}
    (hpair : R.SchnorrsigRule q q' ok)
    (h : ∀ x x', ok x x' → Twins R Post (f x) (f' x') r) :
    Twins R Post (secpSchnorrsig q >>= f) (secpSchnorrsig q' >>= f') r :=
      Twin.invoke_bind (.schnorrsig hpair) h

theorem twin_ellswift {q : EllswiftCall T β} {q' : EllswiftCall T' β'}
    {ok : β → β' → Prop} {f : β → Harness T α} {f' : β' → Harness T' α'}
    (hpair : R.EllswiftRule q q' ok)
    (h : ∀ x x', ok x x' → Twins R Post (f x) (f' x') r) :
    Twins R Post (secpEllswift q >>= f) (secpEllswift q' >>= f') r :=
      Twin.invoke_bind (.ellswift hpair) h

theorem twin_musig {q : MusigCall T β} {q' : MusigCall T' β'} {ok : β → β' → Prop}
    {f : β → Harness T α} {f' : β' → Harness T' α'} (hpair : R.MusigRule q q' ok)
    (h : ∀ x x', ok x x' → Twins R Post (f x) (f' x') r) :
    Twins R Post (secpMusig q >>= f) (secpMusig q' >>= f') r :=
      Twin.invoke_bind (.musig hpair) h

theorem twin_sp {q : SpCall T β} {q' : SpCall T' β'} {ok : β → β' → Prop}
    {f : β → Harness T α} {f' : β' → Harness T' α'} (hpair : R.SpRule q q' ok)
    (h : ∀ x x', ok x x' → Twins R Post (f x) (f' x') r) :
    Twins R Post (secpSp q >>= f) (secpSp q' >>= f') r := Twin.invoke_bind (.sp hpair) h

/-! ## What the targets share -/

theorem twin_int_end {x x' : Int32} (hx : x = x') :
    Twins R Eq (transcriptInt x) (transcriptInt x') r :=
  Twin.emit (by rw [hx]) rfl

theorem twin_bytes_end {p p' : List UInt8} (hp : p = p') :
    Twins R Eq (transcriptBytes p) (transcriptBytes p') r :=
  Twin.emit hp rfl

theorem twin_recordPubkey (compressed : Bool) {pk : T.Pubkey} {pk' : T'.Pubkey}
    (h : R.pubkey pk pk') :
    Twins R Eq (recordPubkey compressed pk) (recordPubkey compressed pk') r := by
  refine twin_key (.ecPubkeySerialize compressed h) fun _ _ h => h.cases ?_
  rintro _ ser _ rfl
  exact twin_bytes_end rfl

theorem twin_recordPubkeyBoth {pk : T.Pubkey} {pk' : T'.Pubkey} (h : R.pubkey pk pk') :
    Twins R Eq (recordPubkeyBoth pk) (recordPubkeyBoth pk') r :=
  Twin.bind (twin_recordPubkey true h) fun _ _ _ _ => twin_recordPubkey false h

/-- Mutations keep what each of them keeps. -/
theorem twin_mutations {kinds : ℕ} {mutate : ℕ → ℕ → ℕ → α → α}
    {mutate' : ℕ → ℕ → ℕ → α' → α'} (hmutate : ∀ which pos mask a a', Post a a' →
      Post (mutate which pos mask a) (mutate' which pos mask a'))
    (count : ℕ) {a : α} {a' : α'} (h : Post a a') :
    Twins R Post (mutations kinds mutate count a)
      (mutations kinds mutate' count a') r := by
  induction count generalizing a a' r with
  | zero => exact Twin.pure h
  | succ count ih =>
      refine twin_readerU8 fun which _ => twin_readerU8 fun pos _ =>
        twin_readerU8 fun mask _ => ?_
      exact ih (hmutate (which % kinds) pos mask a a' h)

theorem twin_mutateUpTo7 {kinds : ℕ} {mutate : ℕ → ℕ → ℕ → α → α}
    {mutate' : ℕ → ℕ → ℕ → α' → α'} (hmutate : ∀ which pos mask a a', Post a a' →
      Post (mutate which pos mask a) (mutate' which pos mask a'))
    {a : α} {a' : α'} (h : Post a a') :
    Twins R Post (mutateUpTo7 kinds mutate a) (mutateUpTo7 kinds mutate' a') r :=
  twin_readerU8 fun nmut _ => twin_mutations hmutate (nmut % 8) h

theorem twin_readerTakes (size n : ℕ) :
    Twins R Eq (readerTakes size n : Harness T _)
      (readerTakes size n : Harness T' _) r := by
  induction n generalizing r with
  | zero => exact Twin.pure rfl
  | succ n ih =>
      refine Twin.bind ih ?_
      rintro bs _ r' rfl
      exact twin_readerTake fun b _ => Twin.pure rfl

/-! ## Runs -/

/-- On any two builds the runs on an input leave the same transcript and every
call is a pair that keeps the rules, or some first pair breaks them. -/
def Pairing.Accounts (R : Pairing T T') (p : Harness T Unit) (p' : Harness T' Unit)
    (inp : List UInt8) : Prop :=
  ∀ {σ σ' : Type} (lib : Build T σ) (lib' : Build T' σ') (s : σ) (s' : σ'),
    ((∀ cap, transcriptFor p lib s cap inp = transcriptFor p' lib' s' cap inp) ∧
        List.Forall₂ (Twin.Kept R.rules) (p.run reader lib inp s).log
          (p'.run reader lib' inp s').log) ∨
      Twin.Blames R.rules (p.run reader lib inp s).log (p'.run reader lib' inp s').log

theorem Pairing.accounts_of_twins {p : Harness T Unit} {p' : Harness T' Unit}
    {inp : List UInt8} (h : Twins R Eq p p' inp) : R.Accounts p p' inp := by
  intro σ σ' lib lib' s s'
  rcases h.run_or_blames lib lib' s s' with ⟨hout, -, -, hkept⟩ | hblames
  · refine .inl ⟨fun cap => ?_, hkept⟩
    rw [transcriptFor, transcriptFor, hout]
  · exact .inr hblames

end Twin

end Diffsecp
