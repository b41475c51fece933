import Diffsecp.Secp.Bytes
import Diffsecp.Secp.Order
import Diffsecp.Secp.Public

/-!
# Secp — Documented

The vocabulary of contracts that state documented results: return codes,
scalars and x coordinates as bytes, and rules for blocks of the transcript.
-/

namespace Diffsecp

open Interact

universe u

/-- The scalar 32 bytes spell, mod n. -/
def scalarOf (b : Bytes 32) : Zn := natOfBytes b.toList

/-- The x coordinate as 32 bytes. -/
def xBytes (P : Point) : Bytes 32 := bytesOfNat 32 (xOf P).val

theorem scalarOf_bytes (k : Zn) : scalarOf (bytesOfNat 32 k.val) = k := by
  rw [scalarOf, natOfBytes_bytesOfNat (k.val_lt.trans (by decide)), ZMod.natCast_zmod_val]

/-! The halves of a signature. -/

theorem extract_append_left (a b : Bytes 32) :
    ((a ++ b : Bytes (32 + 32)).extract 0 32 : Bytes 32) = a := by
  ext i hi
  rw [Vector.getElem_extract, Vector.getElem_append_left (by omega)]
  simp only [Nat.zero_add]

theorem extract_append_right (a b : Bytes 32) :
    ((a ++ b : Bytes (32 + 32)).extract 32 64 : Bytes 32) = b := by
  ext i hi
  rw [Vector.getElem_extract, Vector.getElem_append_right (by omega) (by omega)]
  simp only [Nat.add_sub_cancel_left]

/-- A C code with a result that is only promised on success. -/
def Done (ret : Int32) (result : Prop) : Prop := (ret = 0 ∨ ret = 1) ∧ (ret = 1 → result)

theorem Done.eq_one {ret : Int32} {result : Prop} (h : Done ret result)
    (hret : ret ≠ 0) : ret = 1 :=
  h.1.resolve_left hret

theorem Done.of_ne {ret : Int32} {result : Prop} (h : Done ret result)
    (hret : ret ≠ 0) : result :=
  h.2 (h.eq_one hret)

section Sat

variable {T : Types} {γ : Type u} {C : Contract (LibCall T) γ} {α : Type}
  {r : List UInt8} {g : γ} {Post : α → List UInt8 → γ → List (List UInt8) → Prop}

theorem sat_int {v : Int32} {f : Unit → Harness T α}
    (h : Sat reader C (f ()) r g fun a r g os => Post a r g (be32 v.toUInt32 :: os)) :
    Sat reader C (transcriptInt v >>= f) r g Post := h

theorem sat_bytes {p : List UInt8} {f : Unit → Harness T α}
    (h : Sat reader C (f ()) r g fun a r g os => Post a r g (p :: os)) :
    Sat reader C (transcriptBytes p >>= f) r g Post := h

end Sat

end Diffsecp
