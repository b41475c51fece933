import Diffsecp.Group.Reference
import Diffsecp.Secp.Documented

/-!
# Secp — KeyReference

Builds whose keys are the scalars and points they stand for.
-/

namespace Diffsecp

/-- The keys that secp256k1 accepts. -/
def secpKeyValid (seckey : Bytes 32) : Bool :=
  0 < natOfBytes seckey.toList ∧ natOfBytes seckey.toList < secpN

/-- The affine form of a point, and back. -/
def keyGe : Point → Ge keyTypes
  | .zero => ⟨(0 : F), (0 : F), true⟩
  | .some x y _ => ⟨x, y, false⟩

def geKey (a : Ge keyTypes) : Point := if a.infinity then 0 else pointOf a.x a.y

end Diffsecp
