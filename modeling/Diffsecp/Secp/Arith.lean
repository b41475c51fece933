import Diffsecp.Transcript

/-!
# Secp — Arith

The internal API of libsecp256k1 the targets reach: field elements, scalars
and group elements. libsecp is a submodule, so these are signatures only: an
operation takes the values its C function reads and answers the values it
writes. A function with an output parameter that may alias an input also
takes which objects it was given, so that an implementation is free to
misbehave where its contract does not allow the alias.
-/

namespace Diffsecp

set_option linter.constructorNameAsVariable false

open Interact

/-- The object types of one build of libsecp256k1. -/
structure Types where
  Fe : Type
  FeStorage : Type
  Scalar : Type
  Scratch : Type
  Pubkey : Type
  XonlyPubkey : Type
  Keypair : Type
  EcdsaSig : Type
  RecoverableSig : Type
  KeyaggCache : Type
  Secnonce : Type
  Pubnonce : Type
  Aggnonce : Type
  Session : Type
  PartialSig : Type
  SpLabel : Type
  SpSummary : Type
  /-- The pubkey object of all zero bytes. -/
  zeroPubkey : Pubkey

/-! ## Field elements -/

/-- The field element objects the targets pass by address: registers, the
coordinates of registers and points, and locals by their name in C. -/
inductive FePtr where
  | reg (i : Fin 4)
  | aX | aZ | gbX | gbY | geX | geY
  | tmp | x | z | n | d | f1 | f2 | f3 | rzr
  | u | u2 | num | den | orderAsFe
  deriving DecidableEq, Repr

/-- `secp256k1_fe_*`. -/
inductive FeCall (T : Types) : Type → Type 1 where
  | setInt (a : Int) : FeCall T T.Fe
  | setB32Mod (b32 : Bytes 32) : FeCall T T.Fe
  | setB32Limit (b32 : Bytes 32) : FeCall T (Int32 × T.Fe)
  | add (r a : FePtr) (vr va : T.Fe) : FeCall T T.Fe
  | addInt (vr : T.Fe) (a : Int) : FeCall T T.Fe
  | mul (r a b : FePtr) (va vb : T.Fe) : FeCall T T.Fe
  | sqr (r a : FePtr) (va : T.Fe) : FeCall T T.Fe
  | negateUnchecked (r a : FePtr) (va : T.Fe) (m : Int) : FeCall T T.Fe
  | mulIntUnchecked (vr : T.Fe) (a : Int) : FeCall T T.Fe
  | half (vr : T.Fe) : FeCall T T.Fe
  | normalize (vr : T.Fe) : FeCall T T.Fe
  | normalizeWeak (vr : T.Fe) : FeCall T T.Fe
  | normalizeVar (vr : T.Fe) : FeCall T T.Fe
  | inv (r a : FePtr) (va : T.Fe) : FeCall T T.Fe
  | invVar (r a : FePtr) (va : T.Fe) : FeCall T T.Fe
  | sqrt (r a : FePtr) (va : T.Fe) : FeCall T (Int32 × T.Fe)
  | cmov (r a : FePtr) (vr va : T.Fe) (flag : Int32) : FeCall T T.Fe
  | toStorage (va : T.Fe) : FeCall T T.FeStorage
  | fromStorage (va : T.FeStorage) : FeCall T T.Fe
  | getB32 (va : T.Fe) : FeCall T (Bytes 32)
  | normalizesToZero (va : T.Fe) : FeCall T Int32
  | normalizesToZeroVar (va : T.Fe) : FeCall T Int32
  | isSquareVar (va : T.Fe) : FeCall T Int32
  | equal (va vb : T.Fe) : FeCall T Int32
  | isZero (va : T.Fe) : FeCall T Int32
  | isOdd (va : T.Fe) : FeCall T Int32
  | cmpVar (va vb : T.Fe) : FeCall T Int32

/-! ## Scalars -/

/-- The scalar objects the targets pass by address. -/
inductive ScalarPtr where
  | reg (i : Fin 4)
  | a | y | res | res2
  | k | step | sc | msc (i : Fin 4)
  | r | s | zs | rinv | zr | na | ng | d | x | cacheTweak
  deriving DecidableEq, Repr

/-- `secp256k1_scalar_*`. `setB32` also answers the overflow flag. -/
inductive ScalarCall (T : Types) : Type → Type 1 where
  | setInt (v : Nat) : ScalarCall T T.Scalar
  | setB32 (b32 : Bytes 32) : ScalarCall T (T.Scalar × Int32)
  | setB32Seckey (b32 : Bytes 32) : ScalarCall T (Int32 × T.Scalar)
  | add (r a b : ScalarPtr) (va vb : T.Scalar) : ScalarCall T (Int32 × T.Scalar)
  | mul (r a b : ScalarPtr) (va vb : T.Scalar) : ScalarCall T T.Scalar
  | negate (r a : ScalarPtr) (va : T.Scalar) : ScalarCall T T.Scalar
  | half (r a : ScalarPtr) (va : T.Scalar) : ScalarCall T T.Scalar
  | inverse (r a : ScalarPtr) (va : T.Scalar) : ScalarCall T T.Scalar
  | inverseVar (r a : ScalarPtr) (va : T.Scalar) : ScalarCall T T.Scalar
  | condNegate (vr : T.Scalar) (flag : Int32) : ScalarCall T (Int32 × T.Scalar)
  | cmov (r a : ScalarPtr) (vr va : T.Scalar) (flag : Int32) : ScalarCall T T.Scalar
  | split128 (r1 r2 a : ScalarPtr) (va : T.Scalar) : ScalarCall T (T.Scalar × T.Scalar)
  | splitLambda (r1 r2 a : ScalarPtr) (va : T.Scalar) : ScalarCall T (T.Scalar × T.Scalar)
  | mulShiftVar (r a b : ScalarPtr) (va vb : T.Scalar) (shift : Nat) :
      ScalarCall T T.Scalar
  | getB32 (va : T.Scalar) : ScalarCall T (Bytes 32)
  | isZero (va : T.Scalar) : ScalarCall T Int32
  | isOne (va : T.Scalar) : ScalarCall T Int32
  | isEven (va : T.Scalar) : ScalarCall T Int32
  | isHigh (va : T.Scalar) : ScalarCall T Int32
  | eq (va vb : T.Scalar) : ScalarCall T Int32
  | getBitsVar (va : T.Scalar) (offset count : Nat) : ScalarCall T UInt32
  | getBitsLimb32 (va : T.Scalar) (offset count : Nat) : ScalarCall T UInt32

/-! ## Group elements -/

/-- `secp256k1_ge`. -/
structure Ge (T : Types) where
  x : T.Fe
  y : T.Fe
  infinity : Bool

/-- `secp256k1_gej`. -/
structure Gej (T : Types) where
  x : T.Fe
  y : T.Fe
  z : T.Fe
  infinity : Bool

/-- A callback of `secp256k1_ecmult_multi_var`: it computes scalar and point
`idx` with scalar operations of the library, or fails. -/
abbrev MultiCallback (T : Types) :=
  Nat → Prog NoCall (ScalarCall T) UInt8 (Option (T.Scalar × Ge T))

/-- `secp256k1_ge_*`, `secp256k1_gej_*` and `secp256k1_ecmult*`. A `rzr` flag
tells whether the ratio is asked for; its value is arbitrary otherwise. -/
inductive GroupCall (T : Types) : Type → Type 1 where
  | gejSetInfinity : GroupCall T (Gej T)
  | gejSetGe (a : Ge T) : GroupCall T (Gej T)
  | geSetXoVar (x : T.Fe) (odd : Int32) : GroupCall T (Int32 × Ge T)
  | geSetGej (a : Gej T) : GroupCall T (Ge T × Gej T)
  | geSetGejVar (a : Gej T) : GroupCall T (Ge T × Gej T)
  | geSetAllGej {n : Nat} (a : Vector (Gej T) n) : GroupCall T (Vector (Ge T) n)
  | geSetAllGejVar {n : Nat} (a : Vector (Gej T) n) : GroupCall T (Vector (Ge T) n)
  | gejAddVar (a b : Gej T) (rzr : Bool) : GroupCall T (Gej T × T.Fe)
  | gejAddGe (a : Gej T) (b : Ge T) : GroupCall T (Gej T)
  | gejAddGeVar (a : Gej T) (b : Ge T) (rzr : Bool) : GroupCall T (Gej T × T.Fe)
  | gejAddZinvVar (a : Gej T) (b : Ge T) (bzinv : T.Fe) : GroupCall T (Gej T)
  | gejDouble (a : Gej T) : GroupCall T (Gej T)
  | gejDoubleVar (a : Gej T) (rzr : Bool) : GroupCall T (Gej T × T.Fe)
  | gejNeg (a : Gej T) : GroupCall T (Gej T)
  | gejRescale (r : Gej T) (s : T.Fe) : GroupCall T (Gej T)
  | geMulLambda (a : Ge T) : GroupCall T (Ge T)
  | ecmultGenGej (gn : T.Scalar) : GroupCall T (Gej T)
  | ecmult (a : Gej T) (na : T.Scalar) (ng : Option T.Scalar) : GroupCall T (Gej T)
  | ecmultConstGej (a : Ge T) (q : T.Scalar) : GroupCall T (Gej T)
  | ecmultConstXonly (n : T.Fe) (d : Option T.Fe) (q : T.Scalar) (knownOnCurve : Bool) :
      GroupCall T (Int32 × T.Fe)
  | scratchSpaceCreate (size : Nat) : GroupCall T T.Scratch
  | scratchSpaceDestroy (scratch : Option T.Scratch) : GroupCall T Unit
  | ecmultMultiVar (scratch : Option T.Scratch) (ng : Option T.Scalar)
      (cb : MultiCallback T) (n : Nat) : GroupCall T (Int32 × Gej T)
  | gejIsInfinity (a : Gej T) : GroupCall T Int32
  | gejEqVar (a b : Gej T) : GroupCall T Int32
  | gejEqGeVar (a : Gej T) (b : Ge T) : GroupCall T Int32
  | geEqVar (a b : Ge T) : GroupCall T Int32
  | geIsValidVar (a : Ge T) : GroupCall T Int32
  | gejEqXVar (x : T.Fe) (a : Gej T) : GroupCall T Int32
  | geXOnCurveVar (x : T.Fe) : GroupCall T Int32
  | geXFracOnCurveVar (xn xd : T.Fe) : GroupCall T Int32

end Diffsecp
