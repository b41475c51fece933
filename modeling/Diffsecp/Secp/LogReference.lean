import Diffsecp.Common
import Diffsecp.Secp.KeyReference

/-!
# Secp — LogReference

A build whose points are their discrete logarithms: the group law is that of
`ZMod n`, a multiple of the generator is its factor, and of a point and its
negation the one with the larger logarithm counts as odd. Its protocols can
be run to the end by evaluation.
-/

namespace Diffsecp

/-! ## Points -/

def logOdd (P : Zn) : Bool := secpN / 2 < P.val

/-- The even one of a point and its negation. -/
def logEven (P : Zn) : Zn := signed (logOdd P) P

/-- The compressed encoding. -/
def logBytes (P : Zn) : Bytes 33 :=
  let tag : Bytes 1 := #v[if logOdd P then 3 else 2]
  (tag ++ bytesOfNat 32 (logEven P).val : Bytes (1 + 32))

/-- The point of an encoding. -/
def logParse (b : Bytes 33) : Int32 × Zn :=
  let P := scalarOf (bytesAt b.toList 1 32)
  if b[0] = 2 then (1, P) else if b[0] = 3 then (1, -P) else (0, 0)

/-! ## Keys -/

def logKey {β : Type} : KeyCall logTypes β → β
  | .ecPubkeyCreate seckey =>
      if secpKeyValid seckey then (1, scalarOf seckey) else (0, (0 : Zn))
  | .keypairCreate seckey =>
      if secpKeyValid seckey then (1, scalarOf seckey) else (0, (0 : Zn))
  | .keypairPub (k : Zn) => (1, k)
  | .keypairXonlyPub (k : Zn) => (1, logEven k, flag (logOdd k))
  | .xonlyPubkeyFromPubkey (P : Zn) => (1, logEven P, flag (logOdd P))
  | .xonlyPubkeyParse input32 =>
      if secpKeyValid input32 then (1, logEven (scalarOf input32)) else (0, (0 : Zn))
  | .xonlyPubkeySerialize (P : Zn) => (1, bytesOfNat 32 P.val)
  | .ecPubkeySerialize (P : Zn) _ => (1, (logBytes P).toList)
  | .ecPubkeyNegate (P : Zn) => (1, -P)
  | q => logIdle (.key q)

end Diffsecp
