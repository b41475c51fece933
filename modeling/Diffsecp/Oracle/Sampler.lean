import Mathlib.Data.List.Prime
import Mathlib.Data.Nat.Count
import Mathlib.Order.Interval.Finset.Nat
import Mathlib.Tactic.NormNum.Prime
import Diffsecp.Gf2.Period

/-!
# Oracle — Sampler

The generator behind `oracle_due`: its step is linear over bits, its period is
that of all nonzero words, and so the sampled fraction is exact.
-/

namespace Diffsecp

open Function Gf2

/-! ## The sampler -/

/-- What `oracle_start` seeds the generator with. -/
def oracleSeed (pid : Int32) : UInt64 := pid.toInt64.toUInt64 <<< 32 ||| 1

def oracleStep (rng : UInt64) : UInt64 :=
  let rng := rng ^^^ rng <<< 13
  let rng := rng ^^^ rng >>> 7
  rng ^^^ rng <<< 17

/-- `oracle_due` and what it leaves in `oracle_rng`. -/
def oracleDue (threshold rng : UInt64) : Bool × UInt64 :=
  (decide (threshold ≠ 0 ∧ oracleStep rng ≤ threshold), oracleStep rng)

/-- `oracle_rng` after some calls. -/
def rngAfter (threshold : UInt64) : ℕ → UInt64 → UInt64
  | 0, rng => rng
  | n + 1, rng => rngAfter threshold n (oracleDue threshold rng).2

/-- What some calls return. -/
def dueAnswers (threshold : UInt64) : ℕ → UInt64 → List Bool
  | 0, _ => []
  | n + 1, rng =>
      (oracleDue threshold rng).1 :: dueAnswers threshold n (oracleDue threshold rng).2

/-! ## The step -/

/-- On bit vectors. -/
def oracleShift (x : BitVec 64) : BitVec 64 := (oracleStep ⟨x⟩).toBitVec

theorem oracleShift_linear : Linear oracleShift :=
  (linear_xorShiftLeft 17).comp ((linear_xorShiftRight 7).comp (linear_xorShiftLeft 13))

theorem oracleShift_iterate (k : ℕ) (x : UInt64) :
    oracleShift^[k] x.toBitVec = (oracleStep^[k] x).toBitVec := by
  have hsemi : Semiconj UInt64.toBitVec oracleStep oracleShift := fun _ => rfl
  exact ((hsemi.iterate_right k).eq x).symm

/-- The polynomial that the step satisfies on 1. -/
def stepPoly : ℕ := 0x1013ed4a358913201

theorem stepPoly_annihilates : Annihilates oracleShift 64 stepPoly 1#64 where
  linear := oracleShift_linear
  pos := by decide
  lower := by decide
  upper := by decide
  zero := by decide +kernel

/-- The number of nonzero words. -/
def rngPeriod : ℕ := 2 ^ 64 - 1

def periodPrimes : List ℕ := [3, 5, 17, 257, 641, 65537, 6700417]

theorem periodPrimes_prime : ∀ p ∈ periodPrimes, p.Prime := by
  norm_num [periodPrimes]

theorem mem_periodPrimes {q : ℕ} (hq : q.Prime) (hdvd : q ∣ rngPeriod) :
    q ∈ periodPrimes := by
  have hprod : rngPeriod = periodPrimes.prod := by decide
  rw [hprod] at hdvd
  exact mem_list_primes_of_dvd_prod hq.prime
    (fun p hp => (periodPrimes_prime p hp).prime) hdvd

theorem iterate_one {k : ℕ} (hk : k < 2 ^ 64) :
    (oracleStep^[k] 1).toBitVec = act oracleShift 64 (powX 64 stepPoly 64 k) 1#64 := by
  rw [act_powX stepPoly_annihilates hk]
  exact (oracleShift_iterate k 1).symm

theorem minimalPeriod_one : minimalPeriod oracleStep 1 = rngPeriod := by
  have hfull : powX 64 stepPoly 64 rngPeriod = 1 := by decide +kernel
  have hshort : ∀ q ∈ periodPrimes,
      act oracleShift 64 (powX 64 stepPoly 64 (rngPeriod / q)) 1#64 ≠ 1#64 := by
    decide +kernel
  apply minimalPeriod_eq
  · apply UInt64.toBitVec_inj.mp
    rw [iterate_one (by decide), hfull, act_one oracleShift_linear]
    rfl
  · intro q hq hdvd heq
    apply hshort q (mem_periodPrimes hq hdvd)
    rw [← iterate_one (Nat.lt_of_le_of_lt (Nat.div_le_self _ _) (by decide)), heq]
    rfl

/-! ## The period -/

theorem natCard_uint64 : Nat.card UInt64 = 2 ^ 64 := by
  have e : UInt64 ≃ Fin (2 ^ 64) :=
    ⟨fun x => x.toBitVec.toFin, fun i => ⟨⟨i⟩⟩, fun _ => rfl, fun _ => rfl⟩
  rw [Nat.card_congr e, Nat.card_eq_fintype_card, Fintype.card_fin]

instance finite_uint64 : Finite UInt64 :=
  Nat.finite_of_card_ne_zero (natCard_uint64 ▸ Nat.ne_of_gt (Nat.two_pow_pos 64))

theorem ncard_nonzero : ({0}ᶜ : Set UInt64).ncard = rngPeriod := by
  have hadd := Set.ncard_add_ncard_compl ({0} : Set UInt64)
  rw [Set.ncard_singleton, natCard_uint64] at hadd
  rw [rngPeriod]
  omega

theorem oracleStep_zero : oracleStep 0 = 0 := by decide

theorem iterate_rngPeriod_one : oracleStep^[rngPeriod] 1 = 1 := by
  have h := iterate_minimalPeriod (f := oracleStep) (x := 1)
  rwa [minimalPeriod_one] at h

/-- The orbit of 1 is every nonzero word. -/
theorem exists_iterate_one {y : UInt64} (hy : y ≠ 0) : ∃ k, oracleStep^[k] 1 = y := by
  have hstay (k : ℕ) : oracleStep^[k] 1 ∈ ({0}ᶜ : Set UInt64) :=
    iterate_ne_of_fixed (by decide : 0 < rngPeriod) iterate_rngPeriod_one
      oracleStep_zero (by decide) k
  obtain ⟨k, -, hk⟩ :=
    exists_iterate (Set.toFinite _) hstay (by rw [ncard_nonzero, minimalPeriod_one]) hy
  exact ⟨k, hk⟩

theorem iterate_rngPeriod (x : UInt64) : oracleStep^[rngPeriod] x = x := by
  by_cases hx : x = 0
  · rw [hx, iterate_fixed oracleStep_zero]
  · obtain ⟨k, rfl⟩ := exists_iterate_one hx
    rw [← iterate_add_apply, Nat.add_comm, iterate_add_apply, iterate_rngPeriod_one]

theorem oracleStep_bijective : Bijective oracleStep := by
  have hlast : rngPeriod - 1 + 1 = rngPeriod := by decide
  have hleft (x : UInt64) : oracleStep^[rngPeriod - 1] (oracleStep x) = x := by
    rw [← iterate_succ_apply, Nat.succ_eq_add_one, hlast, iterate_rngPeriod]
  have hright (x : UInt64) : oracleStep (oracleStep^[rngPeriod - 1] x) = x := by
    rw [← iterate_succ_apply' oracleStep, Nat.succ_eq_add_one, hlast, iterate_rngPeriod]
  exact bijective_iff_has_inverse.mpr ⟨_, hleft, hright⟩

theorem iterate_ne_zero {x : UInt64} (hx : x ≠ 0) (k : ℕ) : oracleStep^[k] x ≠ 0 :=
  iterate_ne_of_fixed (by decide : 0 < rngPeriod)
    (iterate_rngPeriod x) oracleStep_zero hx k

theorem minimalPeriod_of_ne {x : UInt64} (hx : x ≠ 0) :
    minimalPeriod oracleStep x = rngPeriod := by
  obtain ⟨k, rfl⟩ := exists_iterate_one hx
  have hmem : (1 : UInt64) ∈ periodicPts oracleStep :=
    ⟨rngPeriod, by decide, iterate_rngPeriod 1⟩
  rw [minimalPeriod_apply_iterate hmem, minimalPeriod_one]

/-- One period of calls visits every nonzero word once. -/
theorem bijOn_iterate {x : UInt64} (hx : x ≠ 0) :
    Set.BijOn (fun k => oracleStep^[k + 1] x) (Set.Iio rngPeriod) ({0}ᶜ) := by
  have hstep : oracleStep x ≠ 0 := iterate_ne_zero hx 1
  have hperiod := minimalPeriod_of_ne hstep
  refine ⟨fun k _ => iterate_ne_zero hx (k + 1), ?_, ?_⟩
  · have hinj := iterate_injOn_Iio_minimalPeriod (f := oracleStep) (x := oracleStep x)
    rwa [hperiod] at hinj
  · intro y hy
    have hstay (k : ℕ) : oracleStep^[k] (oracleStep x) ∈ ({0}ᶜ : Set UInt64) :=
      iterate_ne_zero hstep k
    obtain ⟨k, hk, rfl⟩ :=
      exists_iterate (Set.toFinite _) hstay (by rw [ncard_nonzero, hperiod]) hy
    rw [hperiod] at hk
    exact ⟨k, hk, rfl⟩

/-! ## The calls -/

theorem rngAfter_eq (threshold : UInt64) (n : ℕ) (rng : UInt64) :
    rngAfter threshold n rng = oracleStep^[n] rng := by
  induction n generalizing rng with
  | zero => rfl
  | succ n ih => exact ih _

theorem dueAnswers_length (threshold : UInt64) (n : ℕ) (rng : UInt64) :
    (dueAnswers threshold n rng).length = n := by
  induction n generalizing rng with
  | zero => rfl
  | succ n ih => rw [dueAnswers, List.length_cons, ih]

theorem dueAnswers_add (threshold : UInt64) (k n : ℕ) (rng : UInt64) :
    dueAnswers threshold (k + n) rng =
      dueAnswers threshold k rng ++ dueAnswers threshold n (oracleStep^[k] rng) := by
  induction k generalizing rng with
  | zero =>
      rw [Nat.zero_add]
      rfl
  | succ k ih => rw [Nat.succ_add, dueAnswers, ih, dueAnswers, List.cons_append,
        iterate_succ_apply]; rfl

/-- The answers of a run that are true. -/
theorem dueAnswers_count (threshold : UInt64) (n : ℕ) (rng : UInt64) :
    (dueAnswers threshold n rng).count true =
    Nat.count (fun k => threshold ≠ 0 ∧ oracleStep^[k + 1] rng ≤ threshold) n := by
  induction n with
  | zero => rfl
  | succ n ih =>
      rw [dueAnswers_add, List.count_append, ih, Nat.count_succ]
      congr 1
      rw [iterate_succ_apply' oracleStep]
      show List.count true [decide _] = _
      split <;> simp [*]

/-- Of a period of calls, as many are true as the threshold says. -/
theorem dueAnswers_period (threshold : UInt64) {rng : UInt64} (hrng : rng ≠ 0) :
    (dueAnswers threshold rngPeriod rng).count true = threshold.toNat := by
  obtain ⟨hmaps, hinj, hsurj⟩ := bijOn_iterate hrng
  have hall : (Finset.Icc 1 threshold.toNat).card = threshold.toNat := by
    rw [Nat.card_Icc, Nat.add_sub_cancel]
  rw [dueAnswers_count, Nat.count_eq_card_filter_range, ← hall]
  apply Finset.card_bij fun k _ => (oracleStep^[k + 1] rng).toNat
  · intro k hk
    rw [Finset.mem_filter, Finset.mem_range] at hk
    obtain ⟨hk, -, hle⟩ := hk
    have hne : oracleStep^[k + 1] rng ≠ 0 := hmaps hk
    rw [Finset.mem_Icc]
    refine ⟨Nat.pos_of_ne_zero fun h => hne (UInt64.toNat_inj.mp h),
      UInt64.le_iff_toNat_le.mp hle⟩
  · intro k hk l hl heq
    rw [Finset.mem_filter, Finset.mem_range] at hk hl
    exact hinj hk.1 hl.1 (UInt64.toNat_inj.mp heq)
  · intro n hn
    rw [Finset.mem_Icc] at hn
    have hlt := Nat.lt_of_le_of_lt hn.2 threshold.toNat_lt
    have hword : (UInt64.ofNat n).toNat = n := by
      rw [UInt64.toNat_ofNat', Nat.mod_eq_of_lt hlt]
    have hne : UInt64.ofNat n ∈ ({0}ᶜ : Set UInt64) := by
      intro h
      rw [h] at hword
      exact Nat.ne_of_gt hn.1 hword.symm
    obtain ⟨k, hk, heq⟩ := hsurj hne
    dsimp only at heq
    refine ⟨k, ?_, by rw [heq, hword]⟩
    rw [Finset.mem_filter, Finset.mem_range, heq, UInt64.le_iff_toNat_le, hword]
    refine ⟨hk, ?_, hn.2⟩
    rintro rfl
    exact Nat.not_lt.mpr hn.2 hn.1

theorem oracleSeed_ne_zero (pid : Int32) : oracleSeed pid ≠ 0 := by
  rw [oracleSeed, Ne, UInt64.or_eq_zero_iff]
  exact fun h => absurd h.2 (by decide)

/-- At the ends of the range, all calls answer alike. -/
theorem dueAnswers_const {threshold : UInt64} {b : Bool}
    (h : ∀ rng, (oracleDue threshold rng).1 = b) (n : ℕ) (rng : UInt64) :
    dueAnswers threshold n rng = List.replicate n b := by
  induction n generalizing rng with
  | zero => rfl
  | succ n ih => rw [dueAnswers, ih, h, List.replicate_succ]

/-- The step is a bijection that fixes 0; from any process's seed no state is
0 and a period of calls visits every other word once; so of any period of
calls, as many are true as the threshold, and all or none at its ends. -/
theorem oracleDue_fullPeriod :
    Bijective oracleStep ∧ oracleStep 0 = 0 ∧
    (∀ pid threshold n, rngAfter threshold n (oracleSeed pid) ≠ 0) ∧
    (∀ pid threshold,
      Set.BijOn (fun n => rngAfter threshold (n + 1) (oracleSeed pid))
        (Set.Iio (2 ^ 64 - 1)) ({0}ᶜ)) ∧
    (∀ pid threshold k,
      ((dueAnswers threshold (k + (2 ^ 64 - 1)) (oracleSeed pid)).drop k).count true =
        threshold.toNat) ∧
    (∀ pid n, dueAnswers 0xffffffffffffffff n (oracleSeed pid) = List.replicate n true) ∧
    ∀ pid n, dueAnswers 0 n (oracleSeed pid) = List.replicate n false := by
  refine ⟨oracleStep_bijective, oracleStep_zero, ?_, ?_, ?_, ?_, ?_⟩
  · intro pid threshold n
    rw [rngAfter_eq]
    exact iterate_ne_zero (oracleSeed_ne_zero pid) n
  · intro pid threshold
    simp only [rngAfter_eq]
    exact bijOn_iterate (oracleSeed_ne_zero pid)
  · intro pid threshold k
    rw [dueAnswers_add, List.drop_left' (dueAnswers_length threshold k _)]
    exact dueAnswers_period threshold (iterate_ne_zero (oracleSeed_ne_zero pid) k)
  · intro pid n
    refine dueAnswers_const (fun rng => decide_eq_true ⟨by decide, ?_⟩) n _
    exact UInt64.le_iff_toNat_le.mpr (Nat.le_of_lt_succ (oracleStep rng).toNat_lt)
  · intro pid n
    exact dueAnswers_const (fun rng => decide_eq_false fun h => h.1 rfl) n _

end Diffsecp
