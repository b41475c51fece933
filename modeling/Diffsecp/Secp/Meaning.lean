import Diffsecp.Secp.Public

/-!
# Secp — Meaning

What the serializations of a build say, where nothing else about it is known:
a scalar, a field element and a pubkey have the value their bytes decode to,
and a jacobian point has the value of its affine conversion.
-/

namespace Diffsecp

open Interact

/-- The values serialized objects stand for. -/
structure Decoding where
  Scalar : Type
  Fe : Type
  Pubkey : Type
  scalar : Bytes 32 → Scalar
  fe : Bytes 32 → Fe
  pubkey : List UInt8 → Pubkey

/-- The values of a build's objects. -/
structure Meaning (V : Decoding) (T : Types) where
  scalar : T.Scalar → V.Scalar
  fe : T.Fe → V.Fe
  normalized : T.Fe → Prop
  pubkey : T.Pubkey → V.Pubkey
  point : Gej T → Option (V.Fe × V.Fe)

namespace Meaning

variable {V : Decoding} {T : Types} (M : Meaning V T)

/-- Serialization and affine conversion, which keeps the infinity flag,
determine the value they serialize. Nothing is asked of a call, and nothing
else is known of an answer. -/
def contract : Contract (LibCall T) Unit :=
  .stateless (fun _ => True)
    (fun {β} (q : LibCall T β) (a : β) => match β, q, a with
      | _, .scalar (.getB32 v), b32 => V.scalar b32 = M.scalar v
      | _, .fe (.normalizeVar v), n => M.fe n = M.fe v ∧ M.normalized n
      | _, .fe (.getB32 v), b32 => M.normalized v → V.fe b32 = M.fe v
      | _, .group (.geSetGejVar a), (r, _) =>
          r.infinity = a.infinity ∧ M.point a = if r.infinity then none
            else some (M.fe r.x, M.fe r.y)
      | _, .key (.ecPubkeySerialize pk true), (_, ser) =>
          ser.length = 33 ∧ V.pubkey ser = M.pubkey pk
      | _, _, _ => True)

end Meaning

end Diffsecp
