import Mathlib.Tactic.Ring
import Diffsecp.Secp.Numbers

/-!
# Secp — Bytes

A byte string of a given length and the number it spells determine each
other.
-/

namespace Diffsecp

theorem natOfBytes_snoc (b : List UInt8) (x : UInt8) :
    natOfBytes (b ++ [x]) = 256 * natOfBytes b + x.toNat := by
  simp only [natOfBytes, List.foldl_append, List.foldl_cons, List.foldl_nil]

theorem natOfBytes_append (b c : List UInt8) :
    natOfBytes (b ++ c) = natOfBytes b * 256 ^ c.length + natOfBytes c := by
  induction c using List.reverseRecOn with
  | nil => simp [natOfBytes]
  | append_singleton c x ih =>
      rw [← List.append_assoc, natOfBytes_snoc, natOfBytes_snoc, ih, List.length_append,
        List.length_singleton, pow_succ]
      ring

theorem natOfBytes_lt (b : List UInt8) : natOfBytes b < 256 ^ b.length := by
  induction b using List.reverseRecOn with
  | nil => exact Nat.one_pos
  | append_singleton b x ih =>
      have hx := x.toNat_lt
      rw [natOfBytes_snoc, List.length_append, List.length_singleton, pow_succ]
      omega

/-- The last byte apart. -/
theorem bytesOfNat_succ (n x : ℕ) :
    (bytesOfNat (n + 1) x).toList =
      (bytesOfNat n (x / 256)).toList ++ [UInt8.ofNat x] := by
  simp only [bytesOfNat, Vector.toList_ofFn, List.ofFn_succ_last]
  congr 1
  · congr 1
    funext i
    have hi : n + 1 - 1 - i.val = (n - 1 - i.val) + 1 := by omega
    rw [Fin.val_castSucc, hi, pow_succ, Nat.mul_comm, Nat.div_div_eq_div_mul]
  · simp

theorem natOfBytes_bytesOfNat {n x : ℕ} (hx : x < 256 ^ n) :
    natOfBytes (bytesOfNat n x).toList = x := by
  induction n generalizing x with
  | zero =>
      have hzero : x = 0 := by simpa using hx
      rw [hzero]
      rfl
  | succ n ih =>
      rw [pow_succ] at hx
      rw [bytesOfNat_succ, natOfBytes_snoc, ih (Nat.div_lt_of_lt_mul (by omega)),
        UInt8.toNat_ofNat']
      omega

end Diffsecp
