import Mathlib.Dynamics.PeriodicPts.Lemmas
import Mathlib.Data.Nat.Bitwise
import Mathlib.Data.Set.Card
import Mathlib.Tactic.Ring

/-!
# Gf2 — Period

Linear maps of bit vectors: polynomials in such a map, as numbers whose bits
are the coefficients, powers of the map computed modulo a polynomial that
annihilates the vector, and the period that follows from a few powers.
-/

namespace Gf2

open Function

variable {w n m : ℕ} {T : BitVec w → BitVec w} {v : BitVec w}

/-- Additive, addition of bits being `^^^`. -/
def Linear (T : BitVec w → BitVec w) : Prop := ∀ x y, T (x ^^^ y) = T x ^^^ T y

theorem Linear.map_zero (hT : Linear T) : T 0#w = 0#w := by
  have h := hT 0#w 0#w
  rwa [BitVec.xor_self, BitVec.xor_self] at h

theorem Linear.comp {S : BitVec w → BitVec w} (hS : Linear S) (hT : Linear T) :
    Linear fun x => S (T x) := by
  intro x y
  show S (T (x ^^^ y)) = S (T x) ^^^ S (T y)
  rw [hT, hS]

theorem linear_xorShiftLeft (k : ℕ) : Linear fun x : BitVec w => x ^^^ x <<< k := by
  intro x y
  show (x ^^^ y) ^^^ (x ^^^ y) <<< k = (x ^^^ x <<< k) ^^^ (y ^^^ y <<< k)
  rw [BitVec.shiftLeft_xor_distrib]
  ac_rfl

theorem linear_xorShiftRight (k : ℕ) : Linear fun x : BitVec w => x ^^^ x >>> k := by
  intro x y
  show (x ^^^ y) ^^^ (x ^^^ y) >>> k = (x ^^^ x >>> k) ^^^ (y ^^^ y >>> k)
  rw [BitVec.ushiftRight_xor_distrib]
  ac_rfl

/-! ## Polynomials in the map -/

/-- The first `n` coefficients of `p`, applied to a vector. -/
def act (T : BitVec w → BitVec w) : ℕ → ℕ → BitVec w → BitVec w
  | 0, _, _ => 0#w
  | n + 1, p, v => (if p % 2 = 1 then v else 0#w) ^^^ T (act T n (p / 2) v)

theorem act_zero (hT : Linear T) (n : ℕ) (v : BitVec w) : act T n 0 v = 0#w := by
  induction n with
  | zero => rfl
  | succ n ih =>
      rw [act, Nat.zero_div, ih, hT.map_zero, if_neg (by decide), BitVec.xor_self]

theorem act_one (hT : Linear T) (n : ℕ) (v : BitVec w) : act T (n + 1) 1 v = v := by
  show (if 1 % 2 = 1 then v else 0#w) ^^^ T (act T n 0 v) = v
  rw [act_zero hT, hT.map_zero, if_pos rfl, BitVec.xor_zero]

theorem act_double (n p : ℕ) (v : BitVec w) :
    act T (n + 1) (2 * p) v = T (act T n p v) := by
  rw [act, Nat.mul_div_cancel_left p (by decide), if_neg (by omega), BitVec.zero_xor]

theorem act_xor (hT : Linear T) (n p q : ℕ) (v : BitVec w) :
    act T n (p ^^^ q) v = act T n p v ^^^ act T n q v := by
  induction n generalizing p q with
  | zero => rw [act, act, act, BitVec.xor_self]
  | succ n ih =>
      have hbit : (if (p ^^^ q) % 2 = 1 then v else 0#w) =
          (if p % 2 = 1 then v else 0#w) ^^^ if q % 2 = 1 then v else 0#w := by
        simp only [Nat.xor_mod_two_eq_one]
        by_cases hp : p % 2 = 1 <;> by_cases hq : q % 2 = 1 <;> simp [hp, hq]
      rw [act, act, act, Nat.xor_div_two, ih, hT, hbit]
      ac_rfl

theorem act_apply (hT : Linear T) (n p : ℕ) (v : BitVec w) :
    act T n p (T v) = T (act T n p v) := by
  induction n generalizing p with
  | zero => rw [act, act, hT.map_zero]
  | succ n ih =>
      have hbit :
          (if p % 2 = 1 then T v else 0#w) = T (if p % 2 = 1 then v else 0#w) := by
        by_cases hp : p % 2 = 1 <;> simp [hp, hT.map_zero]
      rw [act, act, ih, hT, hbit]

theorem act_iterate (hT : Linear T) (n p k : ℕ) (v : BitVec w) :
    act T n p (T^[k] v) = T^[k] (act T n p v) := by
  induction k with
  | zero => rfl
  | succ k ih => rw [iterate_succ_apply', iterate_succ_apply', act_apply hT, ih]

/-- No coefficients above. -/
theorem act_of_lt (hT : Linear T) {n p : ℕ} (h : p < 2 ^ n) (v : BitVec w) :
    act T (n + 1) p v = act T n p v := by
  induction n generalizing p with
  | zero =>
      have hp : p = 0 := by omega
      rw [hp, act_zero hT, act_zero hT]
  | succ n ih => rw [act, ih (by omega), act]

/-! ## Polynomials modulo one of degree `n` -/

/-- What is computed modulo: a polynomial of degree `n` that takes the vector to 0. -/
structure Annihilates (T : BitVec w → BitVec w) (n m : ℕ) (v : BitVec w) : Prop where
  linear : Linear T
  pos : 0 < n
  lower : 2 ^ n ≤ m
  upper : m < 2 ^ (n + 1)
  zero : act T (n + 1) m v = 0#w

/-- `X * p`. -/
def timesX (n m p : ℕ) : ℕ := 2 * p ^^^ 2 * p / 2 ^ n * m

/-- Nothing is subtracted, or the modulus once. -/
theorem timesX_cases (m : ℕ) {n p : ℕ} (hp : p < 2 ^ n) :
    (2 * p < 2 ^ n ∧ timesX n m p = 2 * p) ∨
    (2 * p / 2 ^ n = 1 ∧ timesX n m p = 2 * p ^^^ m) := by
  rcases Nat.lt_or_ge (2 * p) (2 ^ n) with hlt | hge
  · left
    rw [timesX, Nat.div_eq_of_lt hlt, Nat.zero_mul, Nat.xor_zero]
    exact ⟨hlt, rfl⟩
  · right
    have hone : 2 * p / 2 ^ n = 1 := Nat.div_eq_of_lt_le (by omega) (by omega)
    rw [timesX, hone, Nat.one_mul]
    exact ⟨rfl, rfl⟩

theorem timesX_lt (h : Annihilates T n m v) {p : ℕ} (hp : p < 2 ^ n) :
    timesX n m p < 2 ^ n := by
  rcases timesX_cases m hp with ⟨hlt, htimes⟩ | ⟨hone, htimes⟩
  · rwa [htimes]
  · -- both have their leading coefficient at `n`
    have hupper := h.upper
    have hlower := h.lower
    rw [Nat.pow_succ] at hupper
    have hm1 : m / 2 ^ n = 1 := Nat.div_eq_of_lt_le (by omega) (by omega)
    have hdiv : (2 * p ^^^ m) / 2 ^ n = 0 := by
      rw [Nat.xor_div_two_pow, hone, hm1, Nat.xor_self]
    rw [htimes]
    exact (Nat.div_eq_zero_iff_lt (Nat.two_pow_pos n)).mp hdiv

theorem act_timesX (h : Annihilates T n m v) {p : ℕ} (hp : p < 2 ^ n) :
    act T n (timesX n m p) v = T (act T n p v) := by
  rw [← act_of_lt h.linear (timesX_lt h hp), ← act_double (T := T)]
  rcases timesX_cases m hp with ⟨-, htimes⟩ | ⟨-, htimes⟩
  · rw [htimes]
  · rw [htimes, act_xor h.linear, h.zero, BitVec.xor_zero]

/-- The product with the first `k` coefficients of `p`. -/
def mul (n m : ℕ) : ℕ → ℕ → ℕ → ℕ
  | 0, _, _ => 0
  | k + 1, p, q => p % 2 * q ^^^ timesX n m (mul n m k (p / 2) q)

theorem mul_lt (h : Annihilates T n m v) (k p : ℕ) {q : ℕ} (hq : q < 2 ^ n) :
    mul n m k p q < 2 ^ n := by
  induction k generalizing p with
  | zero => exact Nat.two_pow_pos n
  | succ k ih =>
      apply Nat.xor_lt_two_pow
      · rcases Nat.mod_two_eq_zero_or_one p with hp | hp
        · rw [hp, Nat.zero_mul]
          exact Nat.two_pow_pos n
        · rwa [hp, Nat.one_mul]
      · exact timesX_lt h (ih _)

theorem act_mul (h : Annihilates T n m v) (k p : ℕ) {q : ℕ} (hq : q < 2 ^ n) :
    act T n (mul n m k p q) v = act T k p (act T n q v) := by
  induction k generalizing p with
  | zero => exact act_zero h.linear n v
  | succ k ih =>
      have hbit : act T n (p % 2 * q) v = if p % 2 = 1 then act T n q v else 0#w := by
        rcases Nat.mod_two_eq_zero_or_one p with hp | hp
        · rw [hp, Nat.zero_mul, act_zero h.linear, if_neg (by decide)]
        · rw [hp, Nat.one_mul, if_pos rfl]
      rw [mul, act_xor h.linear, act_timesX h (mul_lt h k _ hq), ih, hbit, act]

/-- `X ^ k` for a `k` of at most `f` bits. -/
def powX (n m : ℕ) : ℕ → ℕ → ℕ
  | 0, _ => 1
  | f + 1, k =>
      let square := mul n m n (powX n m f (k / 2)) (powX n m f (k / 2))
      bif k % 2 == 1 then timesX n m square else square

theorem powX_lt (h : Annihilates T n m v) (f k : ℕ) : powX n m f k < 2 ^ n := by
  induction f generalizing k with
  | zero => exact Nat.one_lt_two_pow (Nat.ne_of_gt h.pos)
  | succ f ih =>
      have hsquare := mul_lt h n (powX n m f (k / 2)) (ih (k / 2))
      rw [powX]
      cases k % 2 == 1 with
      | false => exact hsquare
      | true => exact timesX_lt h hsquare

/-- Powers of the map on the vector, from powers of `X`. -/
theorem act_powX (h : Annihilates T n m v) {f k : ℕ} (hk : k < 2 ^ f) :
    act T n (powX n m f k) v = T^[k] v := by
  induction f generalizing k with
  | zero =>
      obtain rfl : k = 0 := by omega
      obtain ⟨n, rfl⟩ := Nat.exists_eq_add_of_lt h.pos
      rw [powX, Nat.zero_add, act_one h.linear]
      rfl
  | succ f ih =>
      have hlt := powX_lt h f (k / 2)
      have hsquare : act T n (mul n m n (powX n m f (k / 2)) (powX n m f (k / 2))) v =
          T^[k / 2 + k / 2] v := by
        rw [act_mul h n _ hlt, ih (by omega), act_iterate h.linear, ih (by omega),
          iterate_add_apply]
      rw [powX]
      cases hbit : k % 2 == 1 with
      | false =>
          have heven : k = k / 2 + k / 2 := by
            rw [beq_eq_false_iff_ne] at hbit
            omega
          rw [cond_false, hsquare, ← heven]
      | true =>
          have hodd : k = k / 2 + k / 2 + 1 := by
            rw [beq_iff_eq] at hbit
            omega
          rw [cond_true, act_timesX h (mul_lt h n _ hlt), hsquare,
            ← iterate_succ_apply' T, Nat.succ_eq_add_one, ← hodd]

/-! ## Periods -/

/-- A period is the least one if no quotient by a prime is a period. -/
theorem minimalPeriod_eq {α : Type*} {f : α → α} {x : α} {N : ℕ} (hN : f^[N] x = x)
    (hq : ∀ q, q.Prime → q ∣ N → f^[N / q] x ≠ x) : minimalPeriod f x = N := by
  obtain ⟨e, he⟩ := IsPeriodicPt.minimalPeriod_dvd (n := N) hN
  by_contra hne
  have he1 : e ≠ 1 := by
    rintro rfl
    exact hne (by omega)
  have hprime := Nat.minFac_prime he1
  obtain ⟨c, hc⟩ := Nat.minFac_dvd e
  apply hq e.minFac hprime (he ▸ Dvd.dvd.mul_left (Nat.minFac_dvd e) _)
  have hquot : N / e.minFac = minimalPeriod f x * c := by
    have hsplit : N = minimalPeriod f x * c * e.minFac :=
      calc
        N = minimalPeriod f x * e := he
        _ = minimalPeriod f x * (e.minFac * c) := by rw [← hc]
        _ = minimalPeriod f x * c * e.minFac := by ring
    rw [hsplit, Nat.mul_div_cancel _ hprime.pos]
  rw [hquot]
  exact (isPeriodicPt_minimalPeriod f x).mul_const c

/-- A cycle does not reach a fixed point outside it. -/
theorem iterate_ne_of_fixed {α : Type*} {f : α → α} {x z : α} {N : ℕ} (hpos : 0 < N)
    (hN : f^[N] x = x) (hz : f z = z) (hne : x ≠ z) (k : ℕ) : f^[k] x ≠ z := by
  intro hk
  apply hne
  have hper : IsPeriodicPt f N x := hN
  have hlen : N * k - k + k = N * k := Nat.sub_add_cancel (Nat.le_mul_of_pos_left k hpos)
  calc
    x = f^[N * k] x := (hper.mul_const k).symm
    _ = f^[N * k - k] (f^[k] x) := by rw [← iterate_add_apply, hlen]
    _ = z := by rw [hk, iterate_fixed hz]

/-- An orbit as large as a set it stays in is that set. -/
theorem exists_iterate {α : Type*} {f : α → α} {x : α} {S : Set α} (hfin : S.Finite)
    (hS : ∀ k, f^[k] x ∈ S) (hcard : S.ncard ≤ minimalPeriod f x) {y : α} (hy : y ∈ S) :
    ∃ k < minimalPeriod f x, f^[k] x = y := by
  have hinj := iterate_injOn_Iio_minimalPeriod (f := f) (x := x)
  have himage : (fun k => f^[k] x) '' Set.Iio (minimalPeriod f x) = S := by
    apply Set.eq_of_subset_of_ncard_le
    · rintro _ ⟨k, -, rfl⟩
      exact hS k
    · have hcount : (Set.Iio (minimalPeriod f x)).ncard = minimalPeriod f x := by
        rw [Set.ncard_eq_toFinset_card', Set.toFinset_Iio, Nat.card_Iio]
      rw [hinj.ncard_image, hcount]
      exact hcard
    · exact hfin
  rw [← himage] at hy
  exact hy

end Gf2
