import Mathlib.Analysis.SpecialFunctions.Pow.Real
import Mathlib.NumberTheory.PrimeCounting
import Diffsecp.Numerals

/-!
# Sha256 — Standard

SHA-256's compression function in the equations of FIPS 180-4, with the round
constants from their definition, and how to compute these.
-/

namespace Fips180

abbrev Word := BitVec 32

/-! ## The functions on words -/

def ch (x y z : Word) : Word := (x &&& y) ^^^ (~~~x &&& z)

def maj (x y z : Word) : Word := (x &&& y) ^^^ (x &&& z) ^^^ (y &&& z)

def bigSigma0 (x : Word) : Word :=
  x.rotateRight 2 ^^^ x.rotateRight 13 ^^^ x.rotateRight 22

def bigSigma1 (x : Word) : Word :=
  x.rotateRight 6 ^^^ x.rotateRight 11 ^^^ x.rotateRight 25

def smallSigma0 (x : Word) : Word := x.rotateRight 7 ^^^ x.rotateRight 18 ^^^ x >>> 3

def smallSigma1 (x : Word) : Word := x.rotateRight 17 ^^^ x.rotateRight 19 ^^^ x >>> 10

/-! ## The constants -/

/-- The first 32 bits of the fractional part. -/
noncomputable def fractionBits (x : ℝ) : Word := BitVec.ofNat 32 ⌊Int.fract x * 2 ^ 32⌋₊

/-- Of the cube root of the `t`-th prime. -/
noncomputable def roundConstant (t : ℕ) : Word :=
  fractionBits ((Nat.nth Nat.Prime t : ℝ) ^ (1 / 3 : ℝ))

/-! ## Compression -/

/-- The message schedule of a block's sixteen words. -/
def schedule (M : ℕ → Word) (t : ℕ) : Word :=
  if t < 16 then M t
  else
    smallSigma1 (schedule M (t - 2)) + schedule M (t - 7) +
      smallSigma0 (schedule M (t - 15)) + schedule M (t - 16)

/-- The working variables, or the words of a hash value. -/
@[ext] structure Variables where
  (a b c d e f g h : Word)
  deriving DecidableEq

def round (K W : Word) (s : Variables) : Variables :=
  let T₁ := s.h + bigSigma1 s.e + ch s.e s.f s.g + K + W
  let T₂ := bigSigma0 s.a + maj s.a s.b s.c
  ⟨T₁ + T₂, s.a, s.b, s.c, s.d + T₁, s.e, s.f, s.g⟩

/-- The first `t` rounds. -/
def rounds (K W : ℕ → Word) (s : Variables) : ℕ → Variables
  | 0 => s
  | t + 1 => round (K t) (W t) (rounds K W s t)

def Variables.add (s s' : Variables) : Variables :=
  ⟨s.a + s'.a, s.b + s'.b, s.c + s'.c, s.d + s'.d, s.e + s'.e, s.f + s'.f,
    s.g + s'.g, s.h + s'.h⟩

noncomputable def compress (H : Variables) (M : ℕ → Word) : Variables :=
  H.add (rounds roundConstant (schedule M) H 64)

/-- A block of 64 bytes. -/
abbrev Block := Vector UInt8 64

/-- The `t`-th word of a block, its bytes big-endian. -/
def Block.word (block : Block) (t : ℕ) : Word :=
  let byte i := (block.toList.getD (4 * t + i) 0).toNat
  BitVec.ofNat 32 (byte 0 * 2 ^ 24 + byte 1 * 2 ^ 16 + byte 2 * 2 ^ 8 + byte 3)

/-- The compression of one block after the other. -/
noncomputable def hashBlocks (H : Variables) (blocks : List Block) : Variables :=
  blocks.foldl (fun H block => compress H block.word) H

/-! ## Computing a constant -/

/-- A cube root between two neighbours of denominator `2 ^ 32`. -/
theorem fractionBits_cbrt {p m k : ℕ} (hk : k < 2 ^ 32)
    (hlow : (m * 2 ^ 32 + k) ^ 3 ≤ p * 2 ^ 96)
    (hhigh : p * 2 ^ 96 < (m * 2 ^ 32 + k + 1) ^ 3) :
    fractionBits ((p : ℝ) ^ (1 / 3 : ℝ)) = BitVec.ofNat 32 k := by
  have hp : (0 : ℝ) ≤ p := Nat.cast_nonneg p
  have hroot : (0 : ℝ) ≤ (p : ℝ) ^ (1 / 3 : ℝ) := Real.rpow_nonneg hp _
  have hcube : ((p : ℝ) ^ (1 / 3 : ℝ)) ^ 3 = p := by
    rw [← Real.rpow_natCast, ← Real.rpow_mul hp]
    norm_num
  set x := (p : ℝ) ^ (1 / 3 : ℝ)
  have hscaled : (x * 2 ^ 32) ^ 3 = ((p * 2 ^ 96 : ℕ) : ℝ) := by
    rw [mul_pow, hcube]
    push_cast
    ring
  have hle : ((m * 2 ^ 32 + k : ℕ) : ℝ) ≤ x * 2 ^ 32 := by
    apply le_of_pow_le_pow_left₀ (by decide : 3 ≠ 0) (by positivity)
    rw [hscaled, ← Nat.cast_pow]
    exact Nat.cast_le.mpr hlow
  have hlt : x * 2 ^ 32 < ((m * 2 ^ 32 + k + 1 : ℕ) : ℝ) := by
    apply lt_of_pow_lt_pow_left₀ 3 (Nat.cast_nonneg _)
    rw [hscaled, ← Nat.cast_pow]
    exact Nat.cast_lt.mpr hhigh
  push_cast at hle hlt
  have hkr : (k : ℝ) + 1 ≤ 2 ^ 32 := by exact_mod_cast hk
  have hfloor : ⌊x⌋ = m := by
    rw [Int.floor_eq_iff]
    push_cast
    constructor
    · nlinarith [Nat.cast_nonneg (α := ℝ) k]
    · nlinarith
  have hfract : Int.fract x = x - m := by
    rw [Int.fract, hfloor, Int.cast_natCast]
  rw [fractionBits, hfract]
  congr 1
  rw [Nat.floor_eq_iff]
  · constructor <;> nlinarith
  · nlinarith [Nat.cast_nonneg (α := ℝ) k]

/-! ## The first primes -/

def firstPrimes : List ℕ :=
  [2, 3, 5, 7, 11, 13, 17, 19, 23, 29, 31, 37, 41, 43, 47, 53, 59, 61, 67, 71, 73, 79, 83,
    89, 97, 101, 103, 107,
    109, 113, 127, 131, 137, 139, 149, 151, 157, 163, 167, 173, 179, 181, 191, 193, 197,
    199, 211, 223, 227, 229,
    233, 239, 241, 251, 257, 263, 269, 271, 277, 281, 283, 293, 307, 311]

/-- Trial division by what is below 18. -/
def survives (n : ℕ) : Bool :=
  decide (2 ≤ n) && (List.range' 2 16).all fun d => n % d != 0 || d == n

theorem prime_iff_survives {n : ℕ} (hn : n < 18 * 18) : n.Prime ↔ survives n = true := by
  rw [survives, Bool.and_eq_true, decide_eq_true_iff, List.all_eq_true]
  constructor
  · intro h
    refine ⟨h.two_le, fun d hd => ?_⟩
    rw [List.mem_range'_1] at hd
    by_cases hdvd : d ∣ n
    · rcases (Nat.dvd_prime h).mp hdvd with rfl | rfl
      · omega
      · simp
    · simp [Nat.dvd_iff_mod_eq_zero.not.mp hdvd]
  · rintro ⟨hn2, htrial⟩
    by_contra hnot
    have hsq := Nat.minFac_sq_le_self (by omega) hnot
    have hlt : n.minFac < 18 := by nlinarith
    have hprime := Nat.minFac_prime (by omega : n ≠ 1)
    have hself := htrial n.minFac (List.mem_range'_1.mpr ⟨hprime.two_le, by omega⟩)
    rw [Nat.mod_eq_zero_of_dvd (Nat.minFac_dvd n)] at hself
    have heq : n.minFac = n := by simpa using hself
    exact hnot (heq ▸ hprime)

/-- What a search finds, in order, are the first such numbers. -/
theorem filter_range_eq (p : ℕ → Prop) [DecidablePred p] (n : ℕ) :
    (List.range n).filter (fun m => decide (p m)) =
      (List.range (Nat.count p n)).map (Nat.nth p) := by
  induction n with
  | zero => simp
  | succ n ih =>
      rw [List.range_succ, List.filter_append, ih, Nat.count_succ]
      by_cases hp : p n
      · rw [if_pos hp, List.range_succ, List.map_append, List.map_singleton,
          Nat.nth_count hp]
        simp [hp]
      · rw [if_neg hp, Nat.add_zero]
        simp [hp]

theorem firstPrimes_eq :
    (List.range 312).filter (fun n => decide n.Prime) = firstPrimes := by
  have hall : (List.range 312).filter survives = firstPrimes := by decide +kernel
  rw [← hall]
  apply List.filter_congr
  intro n hn
  rw [List.mem_range] at hn
  rw [Bool.eq_iff_iff, decide_eq_true_iff, prime_iff_survives (by omega)]

/-- The list is that of the first primes, in order. -/
theorem nth_prime {t p : ℕ} (h : firstPrimes[t]? = some p) : Nat.nth Nat.Prime t = p := by
  rw [← firstPrimes_eq, filter_range_eq, List.getElem?_map, Option.map_eq_some_iff] at h
  obtain ⟨u, hu, rfl⟩ := h
  obtain ⟨hlt, rfl⟩ := List.getElem?_eq_some_iff.mp hu
  rw [List.getElem_range]

end Fips180
