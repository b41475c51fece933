import Mathlib.Data.ZMod.Basic
import Diffsecp.Reader

/-!
# Secp — Numbers

The two primes of secp256k1 and big-endian numbers.
-/

namespace Diffsecp

/-- The order of the base field. -/
def secpP : ℕ := 2 ^ 256 - 2 ^ 32 - 977

/-- The order of the group. -/
def secpN : ℕ := 0xFFFFFFFFFFFFFFFFFFFFFFFFFFFFFFFEBAAEDCE6AF48A03BBFD25E8CD0364141

instance : NeZero secpP := ⟨by decide⟩

instance : NeZero secpN := ⟨by decide⟩

/-- The number a byte string spells, most significant byte first. -/
def natOfBytes (b : List UInt8) : ℕ := b.foldl (fun acc x => 256 * acc + x.toNat) 0

/-- The `n` big-endian bytes of `x`. -/
def bytesOfNat (n x : ℕ) : Bytes n :=
  Vector.ofFn fun i => UInt8.ofNat (x / 256 ^ (n - 1 - i))

/-- The C value of a truth value. -/
def flag (b : Bool) : Int32 := if b then 1 else 0

@[simp] theorem flag_ne_zero (b : Bool) : flag b ≠ 0 ↔ b = true := by
  cases b <;> decide

@[simp] theorem flag_eq_one (b : Bool) : flag b = 1 ↔ b = true := by
  cases b <;> decide

theorem flag_zero_or_one (b : Bool) : flag b = 0 ∨ flag b = 1 := by
  cases b <;> decide

/-- The low bit of a byte, as the targets pass it to `cmov`. -/
theorem ofNat_and_one (k : ℕ) : Int32.ofNat (k &&& 1) = flag (k % 2 = 1) := by
  rw [Nat.and_one_is_mod]
  rcases Nat.mod_two_eq_zero_or_one k with h | h
  · rw [h]
    rfl
  · rw [h]
    rfl

/-- Three-way comparison as C functions answer it. -/
def cmpInt (a b : ℕ) : Int32 := if a < b then -1 else if b < a then 1 else 0

end Diffsecp
