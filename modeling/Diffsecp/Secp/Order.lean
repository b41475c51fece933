import Mathlib.Algebra.Module.ZMod
import Mathlib.GroupTheory.Perm.Cycle.Type
import Mathlib.Tactic.FieldSimp
import Mathlib.Tactic.LinearCombination
import Diffsecp.Secp.Curve

/-!
# Secp — Order

The group has prime order: n times any point is infinity. The generator has
order n, which a ladder in jacobian coordinates computes; there are at most
two points over each x, so the group has order n or 2n; and no point has
order 2, as -7 is not a cube.
-/

namespace Diffsecp

/-! ## A ladder in jacobian coordinates -/

structure Jac where
  x : F
  y : F
  z : F

/-- `J` are jacobian coordinates of `P`, which is finite. -/
structure Jac.Rep (J : Jac) (P : Point) : Prop where
  z_ne : J.z ≠ 0
  affine : ∃ x y h, P = .some x y h ∧ J.x = x * J.z ^ 2 ∧ J.y = y * J.z ^ 3

def Jac.double (J : Jac) : Jac :=
  let s := 4 * J.x * (J.y * J.y)
  let m := 3 * (J.x * J.x)
  let x := m * m - 2 * s
  ⟨x, m * (s - x) - 8 * (J.y * J.y) * (J.y * J.y), 2 * J.y * J.z⟩

/-- The sum with an affine point of another x. -/
def Jac.add (J : Jac) (gx gy : F) : Jac :=
  let zz := J.z * J.z
  let h := gx * zz - J.x
  let r := gy * (zz * J.z) - J.y
  let hh := h * h
  let x := r * r - hh * h - 2 * J.x * hh
  ⟨x, r * (J.x * hh - x) - J.y * (hh * h), J.z * h⟩

theorem two_ne_zero_F : (2 : F) ≠ 0 := by decide +kernel

/-- The z of a double is a multiple of y and z, so a finite double has a
tangent that is not vertical. -/
theorem Jac.Rep.double {J : Jac} {P : Point} (h : J.z ≠ 0 → J.Rep P)
    (hz : J.double.z ≠ 0) :
    J.double.Rep (P + P) := by
  have hfactors : 2 * J.y * J.z ≠ 0 := hz
  have hJy : J.y ≠ 0 := right_ne_zero_of_mul (left_ne_zero_of_mul hfactors)
  obtain ⟨hJz, x, y, hxy, rfl, hx, hy⟩ := h (right_ne_zero_of_mul hfactors)
  have hy0 : y ≠ 0 := by
    rintro rfl
    exact hJy (by rw [hy, zero_mul])
  have hneg : curve.negY x y = -y := by
    simp only [WeierstrassCurve.Affine.negY, curve]; ring
  have hne : y ≠ curve.negY x y := by
    rw [hneg]
    intro heq
    have : 2 * y = 0 := by linear_combination heq
    exact (mul_ne_zero two_ne_zero_F hy0) this
  have hslope : curve.slope x x y y = 3 * x ^ 2 / (2 * y) := by
    rw [WeierstrassCurve.Affine.slope_of_Y_ne rfl hne, hneg]
    simp only [curve]
    congr 1 <;> ring
  refine ⟨hz, _, _, _, WeierstrassCurve.Affine.Point.add_self_of_Y_ne hne, ?_, ?_⟩
  · rw [hslope]
    simp only [Jac.double, WeierstrassCurve.Affine.addX, curve, hx, hy]
    have := two_ne_zero_F
    field_simp
    ring
  · rw [hslope]
    simp only [Jac.double, WeierstrassCurve.Affine.addY, WeierstrassCurve.Affine.negAddY,
      WeierstrassCurve.Affine.negY, WeierstrassCurve.Affine.addX, curve, hx, hy]
    have := two_ne_zero_F
    field_simp
    ring

theorem Jac.Rep.add {J : Jac} {P : Point} {gx gy : F} {hg : curve.Nonsingular gx gy}
    (h : J.z ≠ 0 → J.Rep P) (hz : (J.add gx gy).z ≠ 0) :
    (J.add gx gy).Rep (P + .some gx gy hg) := by
  have hfactors : J.z * (gx * (J.z * J.z) - J.x) ≠ 0 := hz
  have hh := right_ne_zero_of_mul hfactors
  obtain ⟨hJz, x, y, hxy, rfl, hx, hy⟩ := h (left_ne_zero_of_mul hfactors)
  have hne : x ≠ gx := by
    rintro rfl
    exact hh (by rw [hx]; ring)
  have hsub : x - gx ≠ 0 := sub_ne_zero.mpr hne
  refine ⟨hz, _, _, _, WeierstrassCurve.Affine.Point.add_of_X_ne hne, ?_, ?_⟩
  · rw [WeierstrassCurve.Affine.slope_of_X_ne hne]
    simp only [Jac.add, WeierstrassCurve.Affine.addX, curve, hx, hy]
    field_simp
    ring
  · rw [WeierstrassCurve.Affine.slope_of_X_ne hne]
    simp only [Jac.add, WeierstrassCurve.Affine.addY, WeierstrassCurve.Affine.negAddY,
      WeierstrassCurve.Affine.negY, WeierstrassCurve.Affine.addX, curve, hx, hy]
    field_simp
    ring

/-- `e` times an affine point, for an `e` of `k + 1` bits. -/
def ladder (gx gy : F) : ℕ → ℕ → Jac
  | 0, _ => ⟨gx, gy, 1⟩
  | k + 1, e =>
      let J := (ladder gx gy k (e / 2)).double
      if e % 2 = 1 then J.add gx gy else J

theorem ladder_rep {gx gy : F} (hg : curve.Nonsingular gx gy) (k : ℕ) {e : ℕ}
    (hlow : 2 ^ k ≤ e) (hhigh : e < 2 ^ (k + 1)) (hz : (ladder gx gy k e).z ≠ 0) :
    (ladder gx gy k e).Rep (e • (.some gx gy hg : Point)) := by
  induction k generalizing e with
  | zero =>
      have he : e = 1 := by omega
      subst he
      rw [one_nsmul]
      exact ⟨hz, gx, gy, hg, rfl, by simp [ladder], by simp [ladder]⟩
  | succ k ih =>
      rw [pow_succ] at hlow hhigh
      have hhalf := ih (e := e / 2) (by omega) (by omega)
      rw [ladder] at hz ⊢
      split at hz
      · have he : e • (.some gx gy hg : Point)
            = (e / 2) • .some gx gy hg + (e / 2) • .some gx gy hg + .some gx gy hg := by
          rw [← add_nsmul, ← succ_nsmul]
          congr 1
          omega
        rw [if_pos ‹_›, he]
        exact Jac.Rep.add (Jac.Rep.double hhalf) hz
      · have he : e • (.some gx gy hg : Point) =
            (e / 2) • .some gx gy hg + (e / 2) • .some gx gy hg := by
          rw [← add_nsmul]
          congr 1
          omega
        rw [if_neg ‹_›, he]
        exact Jac.Rep.double hhalf hz

/-! ## The generator -/

def secpGx : F := 0x79be667ef9dcbbac55a06295ce870b07029bfcdb2dce28d959f2815b16f81798

def secpGy : F := 0x483ada7726a3c4655da4fbfc0e1108a8fd17b448a68554199c47d08ffb10d4b8

theorem secpG_nonsingular : curve.Nonsingular secpGx secpGy :=
  (curve_nonsingular_iff _ _).mpr (by decide +kernel)

def secpG : Point := .some secpGx secpGy secpG_nonsingular

/-- `n - 1` times the generator has its x and the other y. -/
theorem secpG_order : secpN • secpG = 0 := by
  have hcheck : (ladder secpGx secpGy 255 (secpN - 1)).z ≠ 0 ∧
      (ladder secpGx secpGy 255 (secpN - 1)).x =
        secpGx * (ladder secpGx secpGy 255 (secpN - 1)).z ^ 2 ∧
      (ladder secpGx secpGy 255 (secpN - 1)).y =
        -secpGy * (ladder secpGx secpGy 255 (secpN - 1)).z ^ 3 := by
    decide +kernel
  obtain ⟨hz, hx, hy⟩ := hcheck
  obtain ⟨-, x, y, hxy, hmul, hx', hy'⟩ :=
    ladder_rep secpG_nonsingular 255 (e := secpN - 1) (by decide) (by decide) hz
  have hxeq : x = secpGx := mul_right_cancel₀ (pow_ne_zero 2 hz) (hx'.symm.trans hx)
  have hyeq : y = -secpGy := mul_right_cancel₀ (pow_ne_zero 3 hz) (hy'.symm.trans hy)
  have hneg : y = curve.negY secpGx secpGy := by
    rw [hyeq]
    simp only [WeierstrassCurve.Affine.negY, curve]
    ring
  calc secpN • secpG = (secpN - 1) • secpG + secpG := by
        rw [← succ_nsmul]
        rfl
    _ = 0 := by
        rw [secpG, hmul]
        exact WeierstrassCurve.Affine.Point.add_of_Y_eq hxeq hneg

theorem secpG_addOrderOf : addOrderOf secpG = secpN :=
  addOrderOf_eq_prime secpG_order nofun

/-! ## The number of points -/

/-- A point is known by its x and the oddness of its y. -/
def pointCode : Point → Option (F × Bool)
  | .zero => none
  | .some x y _ => some (x, y.val % 2 = 1)

theorem val_neg_odd {y : F} (hy : y ≠ 0) : (-y).val % 2 = 1 ↔ y.val % 2 ≠ 1 := by
  have hlt := y.val_lt
  have hpos : y.val ≠ 0 := (ZMod.val_ne_zero y).mpr hy
  have hodd : secpP % 2 = 1 := by decide
  rw [ZMod.neg_val, if_neg hy]
  omega

theorem pointCode_injective : Function.Injective pointCode := by
  intro P Q h
  cases P with
  | zero =>
      cases Q with
      | zero => rfl
      | some x y hxy => cases h
  | some x y hxy =>
      cases Q with
      | zero => cases h
      | some x' y' hxy' =>
          simp only [pointCode, Option.some.injEq, Prod.mk.injEq, decide_eq_decide] at h
          obtain ⟨rfl, hodd⟩ := h
          have hsq : y * y = y' * y' :=
            ((curve_nonsingular_iff x y).mp hxy).trans
              ((curve_nonsingular_iff x y').mp hxy').symm
          rcases mul_self_eq_mul_self_iff.mp hsq with rfl | rfl
          · rfl
          · by_cases hy' : y' = 0
            · subst hy'
              simp only [neg_zero]
            · rw [val_neg_odd hy'] at hodd
              exact absurd hodd (by tauto)

instance : Finite Point := Finite.of_injective pointCode pointCode_injective

theorem card_point_le : Nat.card Point ≤ 2 * secpP + 1 := by
  calc Nat.card Point ≤ Nat.card (Option (F × Bool)) :=
        Nat.card_le_card_of_injective _ pointCode_injective
    _ = 2 * secpP + 1 := by
        rw [Finite.card_option, Nat.card_prod, Nat.card_zmod, Nat.card_eq_fintype_card,
          Fintype.card_bool, Nat.mul_comm]

/-- -7 is not a cube: its power `(p - 1) / 3` is not 1. -/
theorem cube_ne (x : F) : x * x * x + 7 ≠ 0 := by
  intro heq
  have hcube : x ^ 3 = -7 := by linear_combination heq
  have hx : x ≠ 0 := by
    rintro rfl
    exact absurd hcube (by decide +kernel)
  have hseven : (-7 : F) = ((secpP - 7 : ℕ) : F) := by decide +kernel
  have hpow : (((secpP - 7) ^ ((secpP - 1) / 3) : ℕ) : F) = ((1 : ℕ) : F) := by
    rw [Nat.cast_pow, ← hseven, ← hcube, ← pow_mul, Nat.cast_one]
    exact ZMod.pow_card_sub_one_eq_one hx
  rw [ZMod.natCast_eq_natCast_iff', ← powMod_eq _ _ 256 (by decide)] at hpow
  exact absurd hpow (by decide +kernel)

theorem no_order_two {P : Point} (h : P + P = 0) : P = 0 := by
  cases P with
  | zero => rfl
  | some x y hxy =>
      have hneg := eq_neg_of_add_eq_zero_left h
      rw [WeierstrassCurve.Affine.Point.neg_some] at hneg
      injection hneg with _ hyneg
      have hy : y = 0 := by
        simp only [WeierstrassCurve.Affine.negY, curve] at hyneg
        have hdouble : 2 * y = 0 := by linear_combination hyneg
        exact (mul_eq_zero.mp hdouble).resolve_left two_ne_zero_F
      have hcurve := (curve_nonsingular_iff x y).mp hxy
      rw [hy, zero_mul] at hcurve
      exact absurd hcurve.symm (cube_ne x)

theorem card_point : Nat.card Point = secpN := by
  have hdvd : secpN ∣ Nat.card Point := by
    rw [← secpG_addOrderOf]
    exact addOrderOf_dvd_natCard secpG
  obtain ⟨k, hk⟩ := hdvd
  have hle := card_point_le
  have hpos : 0 < Nat.card Point := Nat.card_pos
  rw [hk] at hle hpos
  have hk3 : k < 3 := by
    by_contra hge
    have h3 : 2 * secpP + 1 < secpN * 3 := by decide
    have := Nat.mul_le_mul_left secpN (Nat.not_lt.mp hge)
    omega
  interval_cases k
  · omega
  · rw [hk, Nat.mul_one]
  · -- an even order has a point of order 2
    obtain ⟨P, hP⟩ :=
      exists_prime_addOrderOf_dvd_card' (G := Point) 2 (hk ▸ Nat.dvd_mul_left 2 secpN)
    have hzero : P = 0 :=
      no_order_two (by rw [← two_nsmul, ← hP, addOrderOf_nsmul_eq_zero])
    rw [hzero, addOrderOf_zero] at hP
    exact absurd hP (by decide)

theorem secpN_nsmul (P : Point) : secpN • P = 0 := by
  rw [← card_point]
  exact card_nsmul_eq_zero'

/-- Scalars mod n act on the points. -/
instance pointModule : Module Zn Point := AddCommGroup.zmodModule secpN_nsmul

theorem val_nsmul (k : Zn) (P : Point) : k.val • P = k • P := by
  rw [← Nat.cast_smul_eq_nsmul Zn, ZMod.natCast_zmod_val]

/-- Multiples of the generator are told apart mod n. -/
theorem smul_secpG_ne {k : Zn} (hk : k ≠ 0) : k • secpG ≠ 0 := by
  intro hzero
  rw [← val_nsmul, ← addOrderOf_dvd_iff_nsmul_eq_zero, secpG_addOrderOf] at hzero
  exact hk ((ZMod.val_eq_zero k).mp (Nat.eq_zero_of_dvd_of_lt hzero k.val_lt))

/-! ## Even points -/

def yOdd : Point → Bool
  | .zero => false
  | .some _ y _ => y.val % 2 = 1

/-- The one of `P` and `-P` that has an even y: the point an x-only key
stands for. -/
def evenPoint (P : Point) : Point := if yOdd P then -P else P

end Diffsecp
