import Mathlib.AlgebraicGeometry.EllipticCurve.Affine.Point
import Diffsecp.Secp.Primes

/-!
# Secp — Curve

The points of `y^2 = x^3 + 7` over `ZMod p`, with the group law.
-/

namespace Diffsecp

def curve : WeierstrassCurve.Affine F := ⟨0, 0, 0, 0, 7⟩

abbrev Point := curve.Point

theorem curve_nonsingular_iff (x y : F) :
    curve.Nonsingular x y ↔ y * y = x * x * x + 7 := by
  have hΔ : curve.Δ ≠ 0 := by
    simp only [WeierstrassCurve.Δ, WeierstrassCurve.b₂, WeierstrassCurve.b₄,
      WeierstrassCurve.b₆, WeierstrassCurve.b₈, curve]
    decide +kernel
  rw [← WeierstrassCurve.Affine.equation_iff_nonsingular_of_Δ_ne_zero hΔ,
    WeierstrassCurve.Affine.equation_iff]
  simp only [curve, zero_mul, add_zero, pow_succ, pow_zero, one_mul]

def onCurve (x : F) : Prop := IsSquare (x * x * x + 7)

instance (x : F) : Decidable (onCurve x) := inferInstanceAs (Decidable (IsSquare _))

/-- The y coordinate over `x` of a given oddness. -/
def liftY (x : F) (odd : Bool) : F :=
  let y := feRoot (x * x * x + 7)
  if (decide (y.val % 2 = 1)) = odd then y else -y

theorem liftY_sq {x : F} (h : onCurve x) (odd : Bool) :
    liftY x odd * liftY x odd = x * x * x + 7 := by
  have hy := feRoot_sq h
  rw [liftY]
  split
  · exact hy
  · rw [neg_mul_neg]
    exact hy

/-- The point with x coordinate `x` and a y of the given oddness. -/
def liftX (x : F) (odd : Bool) : Option Point :=
  if h : onCurve x then
    some (.some x (liftY x odd) ((curve_nonsingular_iff _ _).mpr (liftY_sq h odd)))
  else
    none

/-- The x coordinate; infinity has none, and `0` stands for it. -/
def xOf : Point → F
  | .zero => 0
  | .some x _ _ => x

theorem xOf_neg (P : Point) : xOf (-P) = xOf P := by
  cases P with
  | zero => rfl
  | some x y h => rfl

/-- The x coordinate of `q` times a point over `x`. -/
def xMul (q : ℕ) (x : F) : Option F := (liftX x false).map fun P => xOf (q • P)

theorem onCurve_of_point {x y : F} (h : curve.Nonsingular x y) : onCurve x :=
  ⟨y, ((curve_nonsingular_iff x y).mp h).symm⟩

/-- Both points over `x` have multiples with the same x coordinate. -/
theorem xMul_point (q : ℕ) {x y : F} (h : curve.Nonsingular x y) :
    xMul q x = some (xOf (q • (.some x y h : Point))) := by
  have hx := onCurve_of_point h
  have hlift := (curve_nonsingular_iff _ _).mpr (liftY_sq hx false)
  have hor : (.some x (liftY x false) hlift : Point) = .some x y h ∨
      (.some x (liftY x false) hlift : Point) = -.some x y h :=
    WeierstrassCurve.Affine.Point.X_eq_iff.mp rfl
  rw [xMul, liftX, dif_pos hx, Option.map_some]
  rcases hor with hpos | hneg
  · rw [hpos]
  · rw [hneg, neg_nsmul, xOf_neg]

end Diffsecp
