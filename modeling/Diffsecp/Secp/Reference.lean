import Diffsecp.Musig.Tweaked
import Diffsecp.Secp.Curve
import Diffsecp.Secp.Public

/-!
# Secp — Reference

A build that computes over `ZMod p` and `ZMod n` and keeps magnitudes
explicitly, as the VERIFY builds do, one that does not reduce, and the objects
of two more. They show that the contracts of this development can be met.
-/

namespace Diffsecp

open Interact

/-- A field element with its magnitude and normalized flag. -/
structure RefFe where
  val : F
  mag : Int
  normalized : Bool
  deriving Inhabited

abbrev refTypes : Types where
  Fe := RefFe
  FeStorage := F
  Scalar := Zn
  Scratch := Unit
  Pubkey := Unit
  XonlyPubkey := Unit
  Keypair := Unit
  EcdsaSig := Unit
  RecoverableSig := Unit
  KeyaggCache := Unit
  Secnonce := Unit
  Pubnonce := Unit
  Aggnonce := Unit
  Session := Unit
  PartialSig := Unit
  SpLabel := Unit
  SpSummary := Unit
  zeroPubkey := ()

instance : Inhabited (Ge refTypes) := ⟨⟨default, default, true⟩⟩

instance : Inhabited (Gej refTypes) := ⟨⟨default, default, default, true⟩⟩

instance : Inhabited (KeyaggCacheInternal refTypes) := ⟨⟨default, default, default, 0, 0⟩⟩

instance : Inhabited (SpFoundOutput refTypes) := ⟨⟨(), default, 0, ()⟩⟩

def refFe : {β : Type} → FeCall refTypes β → β
  | _, .setInt a => ⟨a, if a ≠ 0 then 1 else 0, true⟩
  | _, .setB32Mod b32 => ⟨natOfBytes b32.toList, 1, false⟩
  | _, .setB32Limit b32 =>
      (flag (natOfBytes b32.toList < secpP), ⟨natOfBytes b32.toList, 1, true⟩)
  | _, .add _ _ vr va => ⟨vr.val + va.val, vr.mag + va.mag, false⟩
  | _, .addInt vr a => ⟨vr.val + a, vr.mag + 1, false⟩
  | _, .mul _ _ _ va vb => ⟨va.val * vb.val, 1, false⟩
  | _, .sqr _ _ va => ⟨va.val * va.val, 1, false⟩
  | _, .negateUnchecked _ _ va m => ⟨-va.val, m + 1, false⟩
  | _, .mulIntUnchecked vr a => ⟨vr.val * a, a * vr.mag, false⟩
  | _, .half vr => ⟨vr.val * 2⁻¹, (vr.mag >>> (1 : ℕ)) + 1, false⟩
  | _, .normalize vr => ⟨vr.val, 1, true⟩
  | _, .normalizeWeak vr => ⟨vr.val, 1, false⟩
  | _, .normalizeVar vr => ⟨vr.val, 1, true⟩
  | _, .inv _ _ va => ⟨va.val⁻¹, if va.mag ≠ 0 then 1 else 0, true⟩
  | _, .invVar _ _ va => ⟨va.val⁻¹, if va.mag ≠ 0 then 1 else 0, true⟩
  | _, .sqrt _ _ va => (flag (IsSquare va.val), ⟨feRoot va.val, 1, false⟩)
  | _, .cmov _ _ vr va f => ⟨if f = 1 then va.val else vr.val, max vr.mag va.mag, false⟩
  | _, .toStorage va => va.val
  | _, .fromStorage va => ⟨va, 1, true⟩
  | _, .getB32 va => bytesOfNat 32 va.val.val
  | _, .normalizesToZero va => flag (va.val = 0)
  | _, .normalizesToZeroVar va => flag (va.val = 0)
  | _, .isSquareVar va => flag (IsSquare va.val)
  | _, .equal va vb => flag (va.val = vb.val)
  | _, .isZero va => flag (va.val = 0)
  | _, .isOdd va => flag (va.val.val % 2 = 1)
  | _, .cmpVar va vb => cmpInt va.val.val vb.val.val

/-- The product of two scalars over `2^shift`, rounded to the nearest
integer. -/
def mulShift (x y : Zn) (shift : ℕ) : ℕ := (x.val * y.val + 2 ^ (shift - 1)) / 2 ^ shift

/-- `count` bits of a scalar from `offset` on. -/
def scalarBits (x : Zn) (offset count : ℕ) : UInt32 :=
  UInt32.ofNat (x.val / 2 ^ offset % 2 ^ count)

/-- The split by lambda is the trivial one. -/
def refScalar : {β : Type} → ScalarCall refTypes β → β
  | _, .setInt v => (v : Zn)
  | _, .setB32 b32 => ((natOfBytes b32.toList : Zn), flag (secpN ≤ natOfBytes b32.toList))
  | _, .setB32Seckey b32 =>
      (flag (0 < natOfBytes b32.toList ∧ natOfBytes b32.toList < secpN),
        (natOfBytes b32.toList : Zn))
  | _, .add _ _ _ (va : Zn) (vb : Zn) => (flag (secpN ≤ va.val + vb.val), (va + vb : Zn))
  | _, .mul _ _ _ (va : Zn) vb => (va * vb : Zn)
  | _, .negate _ _ (va : Zn) => (-va : Zn)
  | _, .half _ _ (va : Zn) => (va * 2⁻¹ : Zn)
  | _, .inverse _ _ (va : Zn) => (va⁻¹ : Zn)
  | _, .inverseVar _ _ (va : Zn) => (va⁻¹ : Zn)
  | _, .condNegate vr f => (if f = 1 then -1 else 1, (if f = 1 then -vr else vr : Zn))
  | _, .cmov _ _ vr (va : Zn) f => if f = 1 then va else vr
  | _, .split128 _ _ _ (va : Zn) =>
      (((va.val % 2 ^ 128 : ℕ) : Zn), ((va.val / 2 ^ 128 : ℕ) : Zn))
  | _, .splitLambda _ _ _ (va : Zn) => (va, (0 : Zn))
  | _, .mulShiftVar _ _ _ (va : Zn) vb shift => (mulShift va vb shift : Zn)
  | _, .getB32 (va : Zn) => bytesOfNat 32 va.val
  | _, .isZero (va : Zn) => flag (va = 0)
  | _, .isOne (va : Zn) => flag (va = 1)
  | _, .isEven (va : Zn) => flag (va.val % 2 = 0)
  | _, .isHigh (va : Zn) => flag (secpN / 2 < va.val)
  | _, .eq (va : Zn) vb => flag (va = vb)
  | _, .getBitsVar (va : Zn) offset count => scalarBits va offset count
  | _, .getBitsLimb32 (va : Zn) offset count => scalarBits va offset count

/-- No key is valid; the calls that always succeed do. -/
def refKey {β : Type} (q : KeyCall refTypes β) : β := by
  cases q with
  | ecPubkeySerialize pk compressed =>
      exact (1, List.replicate (if compressed then 33 else 65) 0)
  | ecPubkeySort pks => exact (1, pks)
  | keypairSec kp => exact (1, zeroBytes 32)
  | keypairPub kp => exact (1, ())
  | keypairXonlyPub kp => exact (1, (), 0)
  | xonlyPubkeySerialize pk => exact (1, zeroBytes 32)
  | xonlyPubkeyFromPubkey pk => exact (1, (), 0)
  | ecdhHashFunctionSha256 x32 y32 => exact (1, zeroBytes 32)
  | taggedSha256 tag msg => exact (1, zeroBytes 32)
  | _ => exact default

/-- Some answer, for the parts of the library a build leaves unspecified. -/
def idle {β : Type} (q : LibCall refTypes β) : β := by
  cases q with
  | fe q => exact refFe q
  | scalar q => exact refScalar q
  | group q => cases q <;> exact default
  | key q => exact refKey q
  | ecdsa q => cases q <;> exact default
  | schnorrsig q => cases q <;> exact default
  | ellswift q => cases q <;> exact default
  | musig q => cases q <;> exact default
  | sp q => cases q <;> exact default

def refLib : Build refTypes Unit where
  answer q s := (idle q, s)

/-! ## Elements that are not reduced -/

/-- A field element as any integer that is congruent to it, with its
magnitude. -/
structure LazyFe where
  val : ℤ
  mag : Int
  deriving Inhabited

abbrev lazyTypes : Types :=
  { refTypes with
    Fe := LazyFe
    FeStorage := ℤ }

instance : Inhabited (Ge lazyTypes) := ⟨⟨default, default, true⟩⟩

instance : Inhabited (Gej lazyTypes) := ⟨⟨default, default, default, true⟩⟩

instance : Inhabited (KeyaggCacheInternal lazyTypes) :=
  ⟨⟨default, default, default, 0, 0⟩⟩

instance : Inhabited (SpFoundOutput lazyTypes) := ⟨⟨(), default, 0, ()⟩⟩

/-- Sums, products and negations are those of the integers; only `normalize`
reduces. -/
def lazyFe : {β : Type} → FeCall lazyTypes β → β
  | _, .setInt a => ⟨a, if a ≠ 0 then 1 else 0⟩
  | _, .setB32Mod b32 => ⟨natOfBytes b32.toList, 1⟩
  | _, .setB32Limit b32 =>
      (flag (natOfBytes b32.toList < secpP), ⟨natOfBytes b32.toList, 1⟩)
  | _, .add _ _ vr va => ⟨vr.val + va.val, vr.mag + va.mag⟩
  | _, .addInt vr a => ⟨vr.val + a, vr.mag + 1⟩
  | _, .mul _ _ _ va vb => ⟨va.val * vb.val, 1⟩
  | _, .sqr _ _ va => ⟨va.val * va.val, 1⟩
  | _, .negateUnchecked _ _ va m => ⟨-va.val, m + 1⟩
  | _, .mulIntUnchecked vr a => ⟨vr.val * a, a * vr.mag⟩
  | _, .half vr => ⟨((vr.val : F) * 2⁻¹).val, (vr.mag >>> (1 : ℕ)) + 1⟩
  | _, .normalize vr => ⟨vr.val % secpP, 1⟩
  | _, .normalizeWeak vr => ⟨vr.val, 1⟩
  | _, .normalizeVar vr => ⟨vr.val % secpP, 1⟩
  | _, .inv _ _ va => ⟨(va.val : F)⁻¹.val, if va.mag ≠ 0 then 1 else 0⟩
  | _, .invVar _ _ va => ⟨(va.val : F)⁻¹.val, if va.mag ≠ 0 then 1 else 0⟩
  | _, .sqrt _ _ va => (flag (IsSquare (va.val : F)), ⟨(feRoot va.val).val, 1⟩)
  | _, .cmov _ _ vr va f => ⟨if f = 1 then va.val else vr.val, max vr.mag va.mag⟩
  | _, .toStorage va => va.val
  | _, .fromStorage va => ⟨va, 1⟩
  | _, .getB32 va => bytesOfNat 32 va.val.toNat
  | _, .normalizesToZero va => flag ((va.val : F) = 0)
  | _, .normalizesToZeroVar va => flag ((va.val : F) = 0)
  | _, .isSquareVar va => flag (IsSquare (va.val : F))
  | _, .equal va vb => flag ((va.val : F) = vb.val)
  | _, .isZero va => flag (va.val = 0)
  | _, .isOdd va => flag (va.val % 2 = 1)
  | _, .cmpVar va vb => cmpInt va.val.toNat vb.val.toNat

/-- Some answer, for the rest of the library. -/
def lazyIdle {β : Type} (q : LibCall lazyTypes β) : β := by
  cases q with
  | fe q => exact lazyFe q
  | scalar q => cases q <;> exact default
  | group q => cases q <;> exact default
  | key q => cases q <;> exact default
  | ecdsa q => cases q <;> exact default
  | schnorrsig q => cases q <;> exact default
  | ellswift q => cases q <;> exact default
  | musig q => cases q <;> exact default
  | sp q => cases q <;> exact default

def lazyLib : Build lazyTypes Unit where
  answer q s := (lazyIdle q, s)

/-! ## Keys that are scalars and points

A handler gives the answers its contract speaks of, and `keyIdle` the
others. -/

/-- A key aggregation cache: the current key, what the coefficients depend on,
and the tweaks so far. -/
structure KeyCache where
  pk : Point
  secondPk : Point
  pksHash : Bytes 32
  tweak : Zn
  parityAcc : Bool

instance : Inhabited KeyCache := ⟨⟨0, 0, default, 0, false⟩⟩

abbrev keyTypes : Types where
  Fe := F
  FeStorage := F
  Scalar := Zn
  Scratch := Unit
  Pubkey := Point
  XonlyPubkey := Point
  Keypair := Zn
  EcdsaSig := Unit
  RecoverableSig := Unit
  KeyaggCache := KeyCache
  Secnonce := Unit
  Pubnonce := Unit
  Aggnonce := Unit
  Session := Unit
  PartialSig := Unit
  SpLabel := Unit
  SpSummary := Unit
  zeroPubkey := 0

instance : Inhabited (Ge keyTypes) := ⟨⟨0, 0, true⟩⟩

instance : Inhabited (Gej keyTypes) := ⟨⟨0, 0, 0, true⟩⟩

instance : Inhabited (KeyaggCacheInternal keyTypes) := ⟨⟨default, default, default, 0, 0⟩⟩

instance : Inhabited (SpFoundOutput keyTypes) := ⟨⟨0, default, 0, ()⟩⟩

/-- Some answer. -/
def keyIdle {β : Type} (q : LibCall keyTypes β) : β := by
  cases q with
  | fe q => cases q <;> exact default
  | scalar q => cases q <;> exact default
  | group q => cases q <;> exact default
  | key q =>
      cases q with
      | ecPubkeySort pks => exact (1, pks)
      | _ => exact default
  | ecdsa q => cases q <;> exact default
  | schnorrsig q => cases q <;> exact default
  | ellswift q => cases q <;> exact default
  | musig q => cases q <;> exact default
  | sp q => cases q <;> exact default

/-! ## Keys and points that are discrete logarithms -/

/-- A session: the aggregate nonce, the challenge, and what the tweaks of the
key add to the signature. -/
structure LogSession where
  nonce : Zn
  challenge : Zn
  tweak : Zn

instance : Inhabited LogSession := ⟨⟨0, 0, 0⟩⟩

/-- A cache: the tweaked key and the second distinct key. -/
structure LogCache where
  key : TweakedKey Zn Zn
  secondPk : Zn

instance : Inhabited LogCache := ⟨⟨.fresh 0, 0⟩⟩

abbrev logTypes : Types where
  Fe := F
  FeStorage := F
  Scalar := Zn
  Scratch := Unit
  Pubkey := Zn
  XonlyPubkey := Zn
  Keypair := Zn
  EcdsaSig := Unit
  RecoverableSig := Unit
  KeyaggCache := LogCache
  Secnonce := Zn
  Pubnonce := Zn
  Aggnonce := Zn
  Session := LogSession
  PartialSig := Zn
  SpLabel := Zn
  SpSummary := Zn
  zeroPubkey := 0

instance : Inhabited (Ge logTypes) := ⟨⟨0, 0, true⟩⟩

instance : Inhabited (Gej logTypes) := ⟨⟨0, 0, 0, true⟩⟩

instance : Inhabited (KeyaggCacheInternal logTypes) := ⟨⟨default, default, default, 0, 0⟩⟩

instance : Inhabited (SpFoundOutput logTypes) := ⟨⟨0, default, 0, 0⟩⟩

/-- Some answer; the two loads succeed. -/
def logIdle {β : Type} (q : LibCall logTypes β) : β := by
  cases q with
  | fe q => cases q <;> exact default
  | scalar q => cases q <;> exact default
  | group q => cases q <;> exact default
  | key q =>
      cases q with
      | ecPubkeySort pks => exact (1, pks)
      | pubkeyLoad pk => exact (1, default)
      | _ => exact default
  | ecdsa q => cases q <;> exact default
  | schnorrsig q => cases q <;> exact default
  | ellswift q => cases q <;> exact default
  | musig q =>
      cases q with
      | keyaggCacheLoad cache => exact (1, default)
      | _ => exact default
  | sp q => cases q <;> exact default

end Diffsecp
