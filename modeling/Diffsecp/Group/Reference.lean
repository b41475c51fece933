import Diffsecp.Group.Ideal
import Diffsecp.Secp.Order

/-!
# Group — Reference

Builds that compute with the points themselves. The build `refGroupLib z`
represents every finite point with jacobian coordinate `z`.
-/

namespace Diffsecp

set_option linter.constructorNameAsVariable false

open Interact GroupRep

instance (x y : F) : Decidable (curve.Nonsingular x y) :=
  decidable_of_iff _ (curve_nonsingular_iff x y).symm

/-- The generator of secp256k1 and the lambda of its endomorphism. -/
def secpParams : GroupParams where
  gen := secpG
  lambda := 0x5363ad4cc05c30e0a5261c028812645a122e22ea20816678df02967c1b23bd72

def refGroupRep : GroupRep refTypes := ⟨refRep, refScalarRep, trivialSplit⟩

/-! ## Points and their representations -/

def pointOf (x y : F) : Point := if h : curve.Nonsingular x y then .some x y h else 0

def ofGe (a : Ge refTypes) : Point := if a.infinity then 0 else pointOf a.x.val a.y.val

def ofGej (a : Gej refTypes) : Point :=
  if a.infinity then 0
  else pointOf (a.x.val * (a.z.val * a.z.val)⁻¹)
    (a.y.val * (a.z.val * a.z.val * a.z.val)⁻¹)

def refOf (x : F) : RefFe := ⟨x, 1, true⟩

def toGe : Point → Ge refTypes
  | .zero => ⟨refOf 0, refOf 0, true⟩
  | .some x y _ => ⟨refOf x, refOf y, false⟩

def toGej (z : F) : Point → Gej refTypes
  | .zero => ⟨refOf 0, refOf 0, refOf 0, true⟩
  | .some x y _ => ⟨refOf (x * (z * z)), refOf (y * (z * z * z)), refOf z, false⟩

theorem refGroupRep_feRep {v : RefFe} {x : F} {m : Int} (h : refGroupRep.feRep v x m) :
    v.val = x := by
  obtain ⟨k, -, hval, -⟩ := h
  exact hval

theorem feRep_refOf (x : F) {m : Int} (hm : 1 ≤ m) : refGroupRep.feRep (refOf x) x m :=
  ⟨1, hm, rfl, rfl⟩

theorem ofGe_eq {a : Ge refTypes} {P : Point} (h : refGroupRep.repA a P) :
    ofGe a = P := by
  cases P with
  | zero =>
      have hinf : a.infinity = true := h
      rw [ofGe, if_pos hinf]
      rfl
  | some x y hxy =>
      obtain ⟨hinf, hx, hy⟩ := h
      rw [ofGe, if_neg (by rw [hinf]; exact nofun), refGroupRep_feRep hx,
        refGroupRep_feRep hy, pointOf, dif_pos hxy]

theorem ofGej_some {a : Gej refTypes} {x y z : F} (hxy : curve.Nonsingular x y)
    (hinf : a.infinity = false) (hz : z ≠ 0) (hax : a.x.val = x * (z * z))
    (hay : a.y.val = y * (z * z * z)) (haz : a.z.val = z) : ofGej a = .some x y hxy := by
  have hz2 : z * z ≠ 0 := mul_ne_zero hz hz
  have hz3 : z * z * z ≠ 0 := mul_ne_zero hz2 hz
  rw [ofGej, if_neg (by rw [hinf]; exact nofun), hax, hay, haz, mul_inv_cancel_right₀ hz2,
    mul_inv_cancel_right₀ hz3, pointOf, dif_pos hxy]

theorem ofGej_eq {a : Gej refTypes} {P : Point} (h : refGroupRep.repJ a P) :
    ofGej a = P := by
  cases P with
  | zero =>
      have hinf : a.infinity = true := h
      rw [ofGej, if_pos hinf]
      rfl
  | some x y hxy =>
      obtain ⟨hinf, z, hz, hx, hy, haz⟩ := h
      exact ofGej_some hxy hinf hz (refGroupRep_feRep hx) (refGroupRep_feRep hy)
        (refGroupRep_feRep haz)

theorem repA_toGe (P : Point) : refGroupRep.repA (toGe P) P := by
  cases P with
  | zero => rfl
  | some x y hxy => exact ⟨rfl, feRep_refOf x (by omega), feRep_refOf y (by omega)⟩

theorem repJ_toGej {z : F} (hz : z ≠ 0) (P : Point) : refGroupRep.repJ (toGej z P) P := by
  cases P with
  | zero => rfl
  | some x y hxy =>
      exact ⟨rfl, z, hz, feRep_refOf _ (by omega), feRep_refOf _ (by omega),
        feRep_refOf _ (by omega)⟩

/-- Every result has the coordinate `z`, so the ratio is `z` over that of the
operand. -/
theorem ratio_toGej (z : F) {a : Gej refTypes} {P : Point}
    (ha : refGroupRep.repJ a P) (hP : P ≠ 0) (Q : Point) :
    refGroupRep.ratio (toGej z Q) a (refOf (z * a.z.val⁻¹)) := by
  intro z' hz'
  have hval := refGroupRep_feRep hz'
  refine ⟨z * z'⁻¹, ⟨1, by omega, by rw [← hval]; rfl, rfl⟩, fun hinf => ?_⟩
  cases P with
  | zero => exact absurd rfl hP
  | some x y hxy =>
      obtain ⟨-, u, hu, -, -, hu'⟩ := ha
      have hne : z' ≠ 0 := by rw [← hval, refGroupRep_feRep hu']; exact hu
      have hmul : z' * (z * z'⁻¹) = z := by
        rw [mul_left_comm, mul_inv_cancel₀ hne, mul_one]
      rw [hmul]
      cases Q with
      | zero => exact absurd hinf nofun
      | some x' y' hxy' => exact feRep_refOf z (by omega)

/-! ## The build -/

/-- The scalar calls of a callback. -/
def refScalars : Handler (ScalarCall refTypes) Unit := ⟨fun q s => (refScalar q, s)⟩

/-- What callback `i` gives. -/
def refTerm (cb : MultiCallback refTypes) (i : ℕ) : Option (Zn × Ge refTypes) :=
  ((cb i).run noDevice refScalars () ()).val

noncomputable def refMulti (z : F) (gen : Point) (cb : MultiCallback refTypes) (n : ℕ) :
    Int32 × Gej refTypes :=
  if ∃ i < n, refTerm cb i = none then (0, toGej z 0)
  else (1, toGej z (gen + ∑ i ∈ Finset.range n,
    match refTerm cb i with
    | none => 0
    | some (k, pt) => k.val • ofGe pt))

noncomputable def refGroup (G : GroupParams) (z : F) :
    {β : Type} → GroupCall refTypes β → β
  | _, .gejSetInfinity => toGej z 0
  | _, .gejSetGe a => toGej z (ofGe a)
  | _, .geSetXoVar x odd =>
      (flag (liftX x.val (odd = 1)).isSome, toGe ((liftX x.val (odd = 1)).getD 0))
  | _, .geSetGej a => (toGe (ofGej a), a)
  | _, .geSetGejVar a => (toGe (ofGej a), a)
  | _, .geSetAllGej a => a.map fun b => toGe (ofGej b)
  | _, .geSetAllGejVar a => a.map fun b => toGe (ofGej b)
  | _, .gejAddVar a b _ => (toGej z (ofGej a + ofGej b), refOf (z * a.z.val⁻¹))
  | _, .gejAddGe a b => toGej z (ofGej a + ofGe b)
  | _, .gejAddGeVar a b _ => (toGej z (ofGej a + ofGe b), refOf (z * a.z.val⁻¹))
  | _, .gejAddZinvVar a b bzinv =>
      toGej z (ofGej a + ofGej ⟨b.x, b.y, refOf bzinv.val⁻¹, b.infinity⟩)
  | _, .gejDouble a => toGej z (ofGej a + ofGej a)
  | _, .gejDoubleVar a _ => (toGej z (ofGej a + ofGej a), refOf (z * a.z.val⁻¹))
  | _, .gejNeg a => toGej z (-ofGej a)
  | _, .gejRescale a _ => toGej z (ofGej a)
  | _, .geMulLambda a => toGe (G.lambda • ofGe a)
  | _, .ecmultGenGej (gn : Zn) => toGej z (gn.val • G.gen)
  | _, .ecmult a (na : Zn) none => toGej z (na.val • ofGej a)
  | _, .ecmult a (na : Zn) (some (ng : Zn)) => toGej z (na.val • ofGej a + ng.val • G.gen)
  | _, .ecmultConstGej a (q : Zn) => toGej z (q.val • ofGe a)
  | _, .ecmultConstXonly n d (q : Zn) _ =>
      let x := xMul q.val (n.val * ((d.map RefFe.val).getD 1)⁻¹)
      (flag x.isSome, refOf (x.getD 0))
  | _, .scratchSpaceCreate _ => ()
  | _, .scratchSpaceDestroy _ => ()
  | _, .ecmultMultiVar _ none cb n => refMulti z 0 cb n
  | _, .ecmultMultiVar _ (some (ng : Zn)) cb n => refMulti z (ng.val • G.gen) cb n
  | _, .gejIsInfinity a => flag (ofGej a = 0)
  | _, .gejEqVar a b => flag (ofGej a = ofGej b)
  | _, .gejEqGeVar a b => flag (ofGej a = ofGe b)
  | _, .geEqVar a b => flag (ofGe a = ofGe b)
  | _, .geIsValidVar a => flag (ofGe a ≠ 0)
  | _, .gejEqXVar x a => flag (x.val = xOf (ofGej a))
  | _, .geXOnCurveVar x => flag (onCurve x.val)
  | _, .geXFracOnCurveVar xn xd => flag (onCurve (xn.val * xd.val⁻¹))

noncomputable def refGroupLib (G : GroupParams) (z : F) : Build refTypes Unit where
  answer
    | .group q, s => (refGroup G z q, s)
    | q, s => (idle q, s)

/-! ## The build meets the contract -/

theorem refScalar_eq {v k : Zn} (h : refGroupRep.sc.rep v k) : v = k :=
  ZMod.val_injective secpN h

theorem refScalar_callback {β : Type} (q : ScalarCall refTypes β)
    (hreq : refGroupRep.callbackReq q) :
    refScalarRep.spec trivialSplit q (refScalar q) := by
  cases q with
  | mul r a b va vb =>
      intro x y hx hy
      rw [refScalar_eq hx, refScalar_eq hy]
      rfl
  | _ => exact refScalar_rep _ hreq

theorem refScalars_meets : refScalars.Meets refGroupRep.callbackContract :=
  fun _ _ q _ hreq => refScalar_callback q hreq

theorem refTerm_gives {cb : MultiCallback refTypes} {i : ℕ} {k : Zn} {P : Point}
    (h : refGroupRep.callbackGives cb i k P) :
    ∃ pt, refTerm cb i = some (k, pt) ∧ ofGe pt = P := by
  obtain ⟨-, sc, pt, hval, hsc, hpt⟩ := Sat.run h refScalars_meets ()
  rw [← refScalar_eq hsc]
  exact ⟨pt, hval, ofGe_eq hpt⟩

theorem refTerm_fails {cb : MultiCallback refTypes} {i : ℕ}
    (h : refGroupRep.callbackFails cb i) :
    refTerm cb i = none := (Sat.run h refScalars_meets ()).2

theorem refMulti_rep {z : F} (hz : z ≠ 0) (gen : Point)
    (cb : MultiCallback refTypes) (n : ℕ) :
    ((∃ i < n, refGroupRep.callbackFails cb i) → (refMulti z gen cb n).1 = 0) ∧
      ∀ (k : ℕ → Zn) (P : ℕ → Point),
        (∀ i < n, refGroupRep.callbackGives cb i (k i) (P i)) →
        (refMulti z gen cb n).1 = 1 ∧
          refGroupRep.repJ (refMulti z gen cb n).2
            (gen + ∑ i ∈ Finset.range n, (k i).val • P i) := by
  constructor
  · rintro ⟨i, hi, hfail⟩
    have hnone : ∃ i < n, refTerm cb i = none := ⟨i, hi, refTerm_fails hfail⟩
    rw [refMulti, if_pos hnone]
  · intro k P hgives
    have hsome : ¬ ∃ i < n, refTerm cb i = none := by
      rintro ⟨i, hi, hnone⟩
      obtain ⟨pt, hterm, -⟩ := refTerm_gives (hgives i hi)
      rw [hterm] at hnone
      cases hnone
    have hsum : (∑ i ∈ Finset.range n, match refTerm cb i with
        | none => 0
        | some (k, pt) => k.val • ofGe pt) = ∑ i ∈ Finset.range n, (k i).val • P i := by
      apply Finset.sum_congr rfl
      intro i hi
      obtain ⟨pt, hterm, hpt⟩ := refTerm_gives (hgives i (Finset.mem_range.mp hi))
      rw [hterm, ← hpt]
    rw [refMulti, if_neg hsome, hsum]
    exact ⟨rfl, repJ_toGej hz _⟩

theorem refGroup_rep (G : GroupParams) {z : F} (hz : z ≠ 0) {β : Type}
    (q : GroupCall refTypes β) :
    refGroupRep.spec G q (refGroup G z q) := by
  cases q with
  | gejSetInfinity => exact repJ_toGej hz 0
  | gejSetGe a =>
      intro P ha
      show refGroupRep.repJ (toGej z (ofGe a)) P
      rw [ofGe_eq ha]
      exact repJ_toGej hz P
  | geSetXoVar x odd =>
      intro u hx _
      have hval : x.val = u := refGroupRep_feRep hx
      show flag (liftX x.val (odd = 1)).isSome = _ ∧ ∀ P, _ →
        refGroupRep.repA (toGe ((liftX x.val (odd = 1)).getD 0)) P
      rw [hval]
      refine ⟨rfl, fun P hP => ?_⟩
      rw [hP]
      exact repA_toGe P
  | geSetGej a | geSetGejVar a =>
      intro P ha
      show refGroupRep.repA (toGe (ofGej a)) P
      rw [ofGej_eq ha]
      exact repA_toGe P
  | geSetAllGej a =>
      intro P ha _ i
      show refGroupRep.repA ((a.map fun b => toGe (ofGej b))[i.val]) (P i)
      rw [Vector.getElem_map, show ofGej a[i.val] = P i from ofGej_eq (ha i)]
      exact repA_toGe _
  | geSetAllGejVar a =>
      intro P ha i
      show refGroupRep.repA ((a.map fun b => toGe (ofGej b))[i.val]) (P i)
      rw [Vector.getElem_map, show ofGej a[i.val] = P i from ofGej_eq (ha i)]
      exact repA_toGe _
  | gejAddVar a b rzr =>
      intro P Q ha hb
      refine ⟨?_, fun _ hP => ratio_toGej z ha hP _⟩
      show refGroupRep.repJ (toGej z (ofGej a + ofGej b)) (P + Q)
      rw [ofGej_eq ha, ofGej_eq hb]
      exact repJ_toGej hz _
  | gejAddGe a b =>
      intro P Q ha hb _
      show refGroupRep.repJ (toGej z (ofGej a + ofGe b)) (P + Q)
      rw [ofGej_eq ha, ofGe_eq hb]
      exact repJ_toGej hz _
  | gejAddGeVar a b rzr =>
      intro P Q ha hb
      refine ⟨?_, fun _ hP => ratio_toGej z ha hP _⟩
      show refGroupRep.repJ (toGej z (ofGej a + ofGe b)) (P + Q)
      rw [ofGej_eq ha, ofGe_eq hb]
      exact repJ_toGej hz _
  | gejAddZinvVar a b bzinv =>
      intro P ha
      constructor
      · intro hinf
        have hzero : ofGej ⟨b.x, b.y, refOf bzinv.val⁻¹, b.infinity⟩ = 0 := by
          rw [ofGej, if_pos hinf]
        show refGroupRep.repJ
          (toGej z (ofGej a + ofGej ⟨b.x, b.y, refOf bzinv.val⁻¹, b.infinity⟩)) P
        rw [hzero, ofGej_eq ha, add_zero]
        exact repJ_toGej hz P
      · intro zi x y h hinf hzi hbz hx hy
        have hsome : ofGej ⟨b.x, b.y, refOf bzinv.val⁻¹, b.infinity⟩ = .some x y h :=
          ofGej_some h hinf (inv_ne_zero hzi) (refGroupRep_feRep hx)
            (refGroupRep_feRep hy) (congrArg (·⁻¹) (refGroupRep_feRep hbz))
        show refGroupRep.repJ
          (toGej z (ofGej a + ofGej ⟨b.x, b.y, refOf bzinv.val⁻¹, b.infinity⟩)) _
        rw [hsome, ofGej_eq ha]
        exact repJ_toGej hz _
  | gejDouble a =>
      intro P ha
      show refGroupRep.repJ (toGej z (ofGej a + ofGej a)) _
      rw [ofGej_eq ha]
      exact repJ_toGej hz _
  | gejDoubleVar a rzr =>
      intro P ha
      refine ⟨?_, fun _ hP => ratio_toGej z ha hP _⟩
      show refGroupRep.repJ (toGej z (ofGej a + ofGej a)) _
      rw [ofGej_eq ha]
      exact repJ_toGej hz _
  | gejNeg a =>
      intro P ha
      show refGroupRep.repJ (toGej z (-ofGej a)) _
      rw [ofGej_eq ha]
      exact repJ_toGej hz _
  | gejRescale a s =>
      intro P u ha _ _
      show refGroupRep.repJ (toGej z (ofGej a)) _
      rw [ofGej_eq ha]
      exact repJ_toGej hz _
  | geMulLambda a =>
      intro P ha
      show refGroupRep.repA (toGe (G.lambda • ofGe a)) _
      rw [ofGe_eq ha]
      exact repA_toGe _
  | ecmultGenGej gn =>
      intro k hk
      rw [refScalar_eq hk]
      exact repJ_toGej hz _
  | ecmult a na ng =>
      cases ng with
      | none =>
          intro P k ha hk
          rw [refScalar_eq hk]
          show refGroupRep.repJ (toGej z (k.val • ofGej a)) _
          rw [ofGej_eq ha]
          exact repJ_toGej hz _
      | some ng =>
          intro P k l ha hk hl
          rw [refScalar_eq hk, refScalar_eq hl]
          show refGroupRep.repJ (toGej z (k.val • ofGej a + l.val • G.gen)) _
          rw [ofGej_eq ha]
          exact repJ_toGej hz _
  | ecmultConstGej a q =>
      intro P k ha hk
      rw [refScalar_eq hk]
      show refGroupRep.repJ (toGej z (k.val • ofGe a)) _
      rw [ofGe_eq ha]
      exact repJ_toGej hz _
  | ecmultConstXonly n d q known =>
      intro u w k hn hd _ hk _ _
      have hd' : (d.map RefFe.val).getD 1 = w := by
        cases d with
        | none => exact hd.symm
        | some v => exact refGroupRep_feRep hd
      rw [refScalar_eq hk, ← hd', ← refGroupRep_feRep hn]
      refine ⟨rfl, fun x hx => ?_⟩
      show refGroupRep.feRep (refOf ((xMul k.val _).getD 0)) x 8
      rw [hx]
      exact feRep_refOf x (by omega)
  | scratchSpaceCreate size | scratchSpaceDestroy scratch => trivial
  | ecmultMultiVar scratch ng cb n =>
      intro l hng
      cases ng with
      | none => exact refMulti_rep hz 0 cb n
      | some ng =>
          rw [refScalar_eq (hng ng rfl)]
          exact refMulti_rep hz (l.val • G.gen) cb n
  | gejIsInfinity a =>
      intro P ha
      rw [← ofGej_eq ha]
      rfl
  | gejEqVar a b =>
      intro P Q ha hb
      rw [← ofGej_eq ha, ← ofGej_eq hb]
      rfl
  | gejEqGeVar a b =>
      intro P Q ha hb
      rw [← ofGej_eq ha, ← ofGe_eq hb]
      rfl
  | geEqVar a b =>
      intro P Q ha hb
      rw [← ofGe_eq ha, ← ofGe_eq hb]
      rfl
  | geIsValidVar a =>
      intro P ha
      rw [← ofGe_eq ha]
      rfl
  | gejEqXVar x a =>
      intro u P hx ha _
      rw [← ofGej_eq ha, ← refGroupRep_feRep hx]
      rfl
  | geXOnCurveVar x =>
      intro u hx
      rw [← refGroupRep_feRep hx]
      rfl
  | geXFracOnCurveVar xn xd =>
      intro u w hxn hxd _
      rw [← refGroupRep_feRep hxn, ← refGroupRep_feRep hxd]
      rfl

theorem refGroupLib_meets (G : GroupParams) {z : F} (hz : z ≠ 0) :
    (refGroupLib G z).Meets (refGroupRep.contract G) := by
  intro g β q s hreq
  cases q with
  | fe q => exact refFe_rep q
  | scalar q => exact refScalar_rep q hreq
  | group q => exact refGroup_rep G hz q
  | _ => trivial

end Diffsecp
