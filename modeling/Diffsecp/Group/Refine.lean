import Diffsecp.Group.Ideal

/-!
# Group — Refine

The group target over any group implementation does what the ideal machine
does, and never leaves the contract.
-/

namespace Diffsecp

set_option linter.constructorNameAsVariable false

open Interact

variable {T : Types} {σ σ' : Type}

/-! ## Representations -/

namespace GroupRep

variable {R : GroupRep T} {G : GroupParams}

theorem feRep_le {v : T.Fe} {x : F} {m n : Int} (h : R.feRep v x m) (hmn : m ≤ n) :
    R.feRep v x n := by
  obtain ⟨k, hk, hrep⟩ := h
  exact ⟨k, le_trans hk hmn, hrep⟩

theorem repA_infinity {a : Ge T} {P : Point} (h : R.repA a P) :
    a.infinity = decide (P = 0) := by
  cases P with
  | zero => exact h
  | some x y hxy => exact h.1

theorem repJ_infinity {a : Gej T} {P : Point} (h : R.repJ a P) :
    a.infinity = decide (P = 0) := by
  cases P with
  | zero => exact h
  | some x y hxy => exact h.1

/-- A finite jacobian point has a z. -/
theorem repJ_z {a : Gej T} {P : Point} (h : R.repJ a P) (hP : P ≠ 0) :
    ∃ z, R.feRep a.z z 1 := by
  cases P with
  | zero => exact absurd rfl hP
  | some x y hxy =>
      obtain ⟨-, z, -, -, -, hz⟩ := h
      exact ⟨z, hz⟩

/-- A finite affine point has its x. -/
theorem repA_x {a : Ge T} {P : Point} (h : R.repA a P) (hP : P ≠ 0) :
    R.feRep a.x (xOf P) 4 := by
  cases P with
  | zero => exact absurd rfl hP
  | some x y hxy => exact h.2.1

theorem onCurve_xOf {P : Point} (hP : P ≠ 0) : onCurve (xOf P) := by
  cases P with
  | zero => exact absurd rfl hP
  | some x y hxy => exact onCurve_of_point hxy

end GroupRep

/-- The registers represent the ideal ones. -/
def GroupSim (R : GroupRep T) (ideal : IdealGroup) (st : GroupState T) : Prop :=
  (∀ i, R.repJ (st.reg i) (ideal.reg i)) ∧ st.large = ideal.large

section Refines

open GroupRep

variable {R : GroupRep T} {G : GroupParams} {r : List UInt8} {g : Unit} {α β : Type}
  {M : α → Unit → β → Prop}

/-! ## Operands -/

theorem refines_groupTakeScalar {f : T.Scalar → Harness T α} {f' : Zn → Ideal β}
    (h : ∀ s k r', R.sc.rep s k → Refines reader (R.contract G) (f s) (f' k) M r' g) :
    Refines reader (R.contract G) (groupTakeScalar >>= f)
      (idealTakeScalar >>= f') M r g := by
  simp only [groupTakeScalar, idealTakeScalar, bind_assoc, pure_bind]
  refine refines_readerTake fun b32 r' => Refines.invoke_bind trivial fun ⟨s, _⟩ hs => ?_
  exact h s _ r' hs.1

/-- The product, where the operands are in range and the second is neither
the output nor the first. -/
theorem refines_feMul {p a b : FePtr} {va vb : T.Fe} {x y : F} (ha : R.feRep va x 8)
    (hb : R.feRep vb y 8) (hbp : b ≠ p) (hba : b ≠ a)
    {f : T.Fe → Harness T α} {i : Ideal β}
    (h : ∀ v, R.feRep v (x * y) 1 → Refines reader (R.contract G) (f v) i M r g) :
    Refines reader (R.contract G) (secpFe (.mul p a b va vb) >>= f) i M r g := by
  refine Refines.invoke_bind ⟨⟨x, ha⟩, ⟨y, hb⟩, hbp, hba⟩ fun v hv => h v ?_
  obtain ⟨m, hm, hx⟩ := ha
  obtain ⟨n, hn, hy⟩ := hb
  exact ⟨1, le_rfl, hv x y m n hx hy hm hn hbp hba⟩

theorem refines_feSqr {p a : FePtr} {va : T.Fe} {x : F} (ha : R.feRep va x 8)
    {f : T.Fe → Harness T α} {i : Ideal β}
    (h : ∀ v, R.feRep v (x * x) 1 → Refines reader (R.contract G) (f v) i M r g) :
    Refines reader (R.contract G) (secpFe (.sqr p a va) >>= f) i M r g := by
  refine Refines.invoke_bind ⟨x, ha⟩ fun v hv => h v ?_
  obtain ⟨m, hm, hx⟩ := ha
  exact ⟨1, le_rfl, hv x m hx hm⟩

theorem refines_groupTakeFe {f : T.Fe → Harness T α} {f' : F → Ideal β}
    (h : ∀ v x r', R.feRep v x 1 → Refines reader (R.contract G) (f v) (f' x) M r' g) :
    Refines reader (R.contract G) (groupTakeFe >>= f) (idealTakeFe >>= f') M r g := by
  simp only [groupTakeFe, idealTakeFe, bind_assoc, pure_bind]
  refine refines_readerTake fun b32 r' => Refines.invoke_bind trivial fun v hv => ?_
  exact h v _ r' ⟨1, le_rfl, hv⟩

theorem refines_groupTakeNonzeroFe {f : T.Fe → Harness T α} {f' : F → Ideal β}
    (h : ∀ v x r', x ≠ 0 → R.feRep v x 1 →
      Refines reader (R.contract G) (f v) (f' x) M r' g) :
    Refines reader (R.contract G) (groupTakeNonzeroFe >>= f)
      (idealTakeNonzeroFe >>= f') M r g := by
  simp only [groupTakeNonzeroFe, idealTakeNonzeroFe, bind_assoc, pure_bind]
  refine refines_groupTakeFe fun v x r' hv =>
    Refines.invoke_bind trivial fun zero hzero => ?_
  obtain ⟨m, hm, hrep⟩ := hv
  have hflag : zero = flag (x = 0) := hzero x m hrep
  by_cases hx : x = 0
  · rw [if_pos hx, if_pos (by rw [hflag, flag_ne_zero]; exact decide_eq_true hx)]
    have hone : (0 : Int) ≤ 1 ∧ (1 : Int) ≤ 0x7FFF := by omega
    refine Refines.invoke_bind hone fun v' hv' => h v' 1 r' one_ne_zero ⟨1, le_rfl, ?_⟩
    simpa using hv' hone.1 hone.2
  · rw [if_neg hx, if_neg (by rw [hflag, flag_ne_zero]; simpa using hx), pure_bind]
    exact h v x r' hx ⟨m, hm, hrep⟩

theorem refines_groupAffine {a : Gej T} {P : Point} (ha : R.repJ a P)
    {f : Ge T → Harness T α} {i : Ideal β}
    (h : ∀ ga, R.repA ga P → Refines reader (R.contract G) (f ga) i M r g) :
    Refines reader (R.contract G) (groupAffine a >>= f) i M r g := by
  simp only [groupAffine, bind_assoc, pure_bind]
  exact Refines.invoke_bind trivial fun ⟨ga, _⟩ hga => h ga (hga P ha)

/-! ## Records -/

theorem refines_groupRecordFe {v : T.Fe} {x : F} {m : Int} (hv : R.feRep v x m) :
    Refines reader (R.contract G) (groupRecordFe v) (idealRecordFe x)
      (fun _ _ _ => True) r g := by
  obtain ⟨k, -, hrep⟩ := hv
  refine Refines.invoke_bind trivial fun n hn => ?_
  obtain ⟨hrep', hnorm⟩ := hn x k hrep
  refine Refines.invoke_bind hnorm fun b32 hb => ?_
  have hb32 : b32 = bytesOfNat 32 x.val := hb x 1 hrep' hnorm
  exact Refines.emit (by rw [hb32]) trivial

theorem refines_groupRecordGe {a : Ge T} {P : Point} (ha : R.repA a P) :
    Refines reader (R.contract G) (groupRecordGe a) (idealRecordPoint P)
      (fun _ _ _ => True) r g := by
  have hinf := repA_infinity ha
  cases P with
  | zero =>
      have hinf' : a.infinity = true := ha
      simp only [groupRecordGe, hinf', if_true, Bool.true_eq_false, if_false]
      exact Refines.emit rfl trivial
  | some x y hxy =>
      obtain ⟨hinf', hx, hy⟩ := ha
      simp only [groupRecordGe, hinf', Bool.false_eq_true, if_true, if_false]
      refine refines_transcriptU8
        (Refines.bind (refines_groupRecordFe hx) fun _ _ _ _ _ => ?_)
      exact refines_groupRecordFe hy

theorem refines_groupRecordGes {as : List (Ge T)} {Ps : List Point}
    (h : List.Forall₂ R.repA as Ps) :
    Refines reader (R.contract G) (groupRecordGes as) (idealRecordPoints Ps)
      (fun _ _ _ => True) r g := by
  induction h generalizing r g with
  | nil => exact Refines.pure trivial
  | cons ha _ ih => exact Refines.bind (refines_groupRecordGe ha) fun _ _ _ _ _ => ih

/-- The ratio promise is recorded as kept. -/
theorem refines_groupRecordRzr {a res : Gej T} {rzr : T.Fe} {P : Point}
    (ha : R.repJ a P) (hP : P ≠ 0) (hratio : R.ratio res a rzr) :
    Refines reader (R.contract G) (groupRecordRzr res a rzr) (idealRecordRzr P)
      (fun _ _ _ => True) r g := by
  rw [idealRecordRzr, if_neg hP]
  obtain ⟨z, hz⟩ := repJ_z ha hP
  obtain ⟨w, hw, hres⟩ := hratio z hz
  refine refines_feMul (feRep_le hz (by omega)) hw FePtr.noConfusion FePtr.noConfusion
    fun v hv => ?_
  cases hinf : res.infinity with
  | true => exact Refines.emit rfl trivial
  | false =>
      have hrz := feRep_le (hres hinf) (by omega : (1 : Int) ≤ 31)
      simp only [Bool.false_eq_true, if_false]
      refine Refines.invoke_bind ⟨⟨z * w, hv⟩, z * w, hrz⟩ fun eq heq => ?_
      obtain ⟨m, hm, hv'⟩ := hv
      obtain ⟨n, hn, hrz'⟩ := hrz
      have heq' : eq = flag (z * w = z * w) := heq _ _ _ _ hv' hrz' hm hn
      exact Refines.emit (by rw [heq']; simp [flag]) trivial

/-! ## Ops with a body of their own -/

theorem refines_groupQuery {a b : Gej T} {ga gb : Ge T} {P Q : Point} (ha : R.repJ a P)
    (hb : R.repJ b Q) (hga : R.repA ga P) (hgb : R.repA gb Q) :
    Refines reader (R.contract G) (groupQuery a b ga gb) (idealGroupQuery P Q)
      (fun _ _ _ => True) r g := by
  refine refines_groupTakeFe fun xn u r₁ hxn =>
    refines_groupTakeNonzeroFe fun xd w r₂ hw hxd => ?_
  refine Refines.invoke_bind trivial fun _ h => refines_transcriptInt (h P ha) ?_
  refine Refines.invoke_bind trivial fun _ h => refines_transcriptInt (h P Q ha hb) ?_
  refine Refines.invoke_bind trivial fun _ h => refines_transcriptInt (h P Q ha hgb) ?_
  refine Refines.invoke_bind trivial fun _ h => refines_transcriptInt (h P Q hga hgb) ?_
  refine Refines.invoke_bind trivial fun _ h => refines_transcriptInt (h P hga) ?_
  have hfinite : (a.infinity = false ∧ gb.infinity = false) ↔ (P ≠ 0 ∧ Q ≠ 0) := by
    rw [repJ_infinity ha, repA_infinity hgb, decide_eq_false_iff_not,
      decide_eq_false_iff_not]
  have hxeq : Refines reader (R.contract G)
      (if a.infinity = false ∧ gb.infinity = false then do
          transcriptInt (← secpGroup (.gejEqXVar gb.x a))
        else pure ())
      (if P ≠ 0 ∧ Q ≠ 0 then transcriptInt (flag (xOf Q = xOf P)) else pure ())
      (fun _ _ _ => True) r₂ () := by
    by_cases hPQ : P ≠ 0 ∧ Q ≠ 0
    · rw [if_pos hPQ, if_pos (hfinite.mpr hPQ)]
      refine Refines.invoke_bind (hfinite.mpr hPQ).1 fun ret h => ?_
      have hret : ret = flag (xOf Q = xOf P) :=
        h _ P (feRep_le (repA_x hgb hPQ.2) (by omega)) ha hPQ.1
      exact Refines.emit (by rw [hret]) trivial
    · rw [if_neg hPQ, if_neg (mt hfinite.mp hPQ)]
      exact Refines.pure trivial
  refine Refines.bind hxeq fun _ _ _ r₃ _ => ?_
  have hxn' := feRep_le hxn (by omega : (1 : Int) ≤ 8)
  have hxd' := feRep_le hxd (by omega : (1 : Int) ≤ 8)
  refine Refines.invoke_bind trivial fun _ h => refines_transcriptInt (h u hxn') ?_
  refine Refines.invoke_bind ⟨w, hw, hxd'⟩ fun ret h => ?_
  have hret : ret = flag (onCurve (u * w⁻¹)) := h u w hxn' hxd' hw
  exact Refines.emit (by rw [hret]) trivial

/-- The scalar of an x-only multiplication is made nonzero. -/
theorem refines_groupNonzeroScalar {q : T.Scalar} {k : Zn} (hq : R.sc.rep q k)
    {f : T.Scalar → Harness T α} {i : Ideal β}
    (h : ∀ q', R.sc.rep q' (if k = 0 then 1 else k) →
      Refines reader (R.contract G) (f q') i M r g) :
    Refines reader (R.contract G) (do
      let zero ← secpScalar (.isZero q)
      let q' ← (if zero ≠ 0 then secpScalar (.setInt 1) else pure q)
      f q') i M r g := by
  refine Refines.invoke_bind hq.reduced fun zero hzero => ?_
  have hflag : zero = flag (k = 0) := hzero k hq
  by_cases hk : k = 0
  · rw [if_pos (by rw [hflag, flag_ne_zero]; exact decide_eq_true hk)]
    refine Refines.invoke_bind trivial fun q' hq' => h q' ?_
    rw [if_pos hk]
    exact_mod_cast hq' (by omega)
  · rw [if_neg (by rw [hflag, flag_ne_zero]; simpa using hk), pure_bind]
    refine h q ?_
    rw [if_neg hk]
    exact hq

/-- What x-only multiplication is asked: numerator and denominator with the
quotient of the ideal machine, claimed to be on the curve only where it is. -/
theorem refines_groupXonlyCall {n : T.Fe} {d : Option T.Fe} {q : T.Scalar}
    {known : Bool} {u w x : F} {k : Zn} (hn : R.feRep n u 8) (hd : R.denominator d w)
    (hw : w ≠ 0) (hx : u * w⁻¹ = x) (hq : R.sc.rep q k) (hk : k ≠ 0)
    (hknown : known = true → onCurve x) :
    Refines reader (R.contract G)
      (do
        let (ret, x) ← secpGroup (.ecmultConstXonly n d q known)
        transcriptInt ret
        if ret ≠ 0 then groupRecordFe x else pure ())
      (idealRecordXonly (xMul k.val x)) (fun _ _ _ => True) r g := by
  subst hx
  have hreq : R.req (.ecmultConstXonly n d q known) :=
    ⟨⟨k, hk, hq⟩, u, w, hw, hn, hd, hknown⟩
  refine Refines.invoke_bind hreq fun ⟨ret, v⟩ hret => ?_
  obtain ⟨hflag, hx⟩ := hret u w k hn hd hw hq hk hknown
  cases hmul : xMul k.val (u * w⁻¹) with
  | none =>
      rw [hmul] at hflag
      rw [hflag]
      exact Refines.emit rfl trivial
  | some x =>
      rw [hmul] at hflag
      rw [hflag]
      exact refines_transcriptInt rfl (refines_groupRecordFe (hx x hmul))

theorem refines_groupEcmultConstXonly {a : Ge T} {P : Point} (ha : R.repA a P) :
    Refines reader (R.contract G) (groupEcmultConstXonly a) (idealEcmultConstXonly P)
      (fun _ _ _ => True) r g := by
  refine refines_groupTakeScalar fun q k r₁ hq => refines_readerU8 fun flags r₂ => ?_
  refine refines_groupTakeFe fun n u r₃ hn =>
    refines_groupTakeNonzeroFe fun d w r₄ hw hd => ?_
  refine refines_groupNonzeroScalar hq fun q' hq' => ?_
  have hk : (if k = 0 then 1 else k) ≠ 0 := by
    split
    · exact one_ne_zero
    · assumption
  have hraw : (flags &&& 1 ≠ 0 ∨ a.infinity = true) ↔ (flags &&& 1 ≠ 0 ∨ P = 0) := by
    rw [repA_infinity ha, decide_eq_true_eq]
  have hd' : R.feRep d w 8 := feRep_le hd (by omega)
  have hden : R.denominator (some d) w := hd'
  have hnone : R.denominator none 1 := rfl
  by_cases hr : flags &&& 1 ≠ 0 ∨ P = 0
  · -- a raw fraction is not claimed to be on the curve
    have hr' := hraw.mpr hr
    simp only [hr, hr', if_true, not_true_eq_false, false_and, if_false,
      pure_bind, decide_false]
    have hn' : R.feRep n u 8 := feRep_le hn (by omega)
    by_cases hf : flags &&& 2 ≠ 0
    · rw [if_pos hf, if_pos hf]
      exact refines_groupXonlyCall hn' hden hw rfl hq' hk nofun
    · rw [if_neg hf, if_neg hf]
      exact refines_groupXonlyCall hn' hnone one_ne_zero
        (by rw [inv_one, mul_one]) hq' hk nofun
  · -- a known point has its own x, whatever the denominator
    have hr' := mt hraw.mp hr
    have hP : P ≠ 0 := fun h => hr (Or.inr h)
    have hx := repA_x ha hP
    have hx' : R.feRep a.x (xOf P) 8 := feRep_le hx (by omega)
    simp only [hr, hr', if_false, not_false_eq_true, true_and, if_true, decide_true]
    by_cases hf : flags &&& 2 ≠ 0
    · rw [if_pos hf, if_pos hf]
      refine refines_feMul hx' hd' FePtr.noConfusion FePtr.noConfusion fun n' hn' => ?_
      exact refines_groupXonlyCall (feRep_le hn' (by omega)) hden hw
        (mul_inv_cancel_right₀ hw _) hq' hk fun _ => onCurve_xOf hP
    · rw [if_neg hf, if_neg hf, pure_bind]
      exact refines_groupXonlyCall hx' hnone one_ne_zero
        (by rw [inv_one, mul_one]) hq' hk fun _ => onCurve_xOf hP

/-! ## Multi-point multiplication -/

/-- The callback gives point `i % 4` and its scalar, except where it is to
fail. -/
theorem groupMultiCallback_gives {m : GroupMulti T} {sc : Fin 4 → Zn}
    {P : Fin 4 → Point} {step : Zn} (hsc : ∀ j, R.sc.rep (m.sc j) (sc j))
    (hpt : ∀ j, R.repA (m.pt j) (P j)) (hstep : R.sc.rep m.step step) {i : ℕ}
    (hi : i ≠ m.failAt) (hlt : i < 2 ^ 32) :
    R.callbackGives (groupMultiCallback m) i (sc (Fin.ofNat 4 i) + (i / 4 : ℕ) * step)
      (P (Fin.ofNat 4 i)) := by
  have hquot : i / 4 < 2 ^ 32 := by omega
  rw [GroupRep.callbackGives, groupMultiCallback, if_neg hi]
  refine sat_bind.mpr ⟨trivial, fun k hk => sat_bind.mpr ?_⟩
  have hk' : R.sc.rep k ((i / 4 : ℕ) : Zn) := hk hquot
  refine ⟨⟨hk'.reduced, hstep.reduced⟩, fun k' hmul => sat_bind.mpr ?_⟩
  have hmul' := hmul _ _ hk' hstep
  refine ⟨⟨(hsc _).reduced, hmul'.reduced, ScalarPtr.noConfusion, ScalarPtr.noConfusion⟩,
    fun ⟨_, v⟩ hadd => ?_⟩
  exact ⟨v, m.pt (Fin.ofNat 4 i), rfl, (hadd _ _ (hsc _) hmul').2, hpt _⟩

theorem groupMultiCallback_fails (m : GroupMulti T) :
    R.callbackFails (groupMultiCallback m) m.failAt := by
  rw [GroupRep.callbackFails, groupMultiCallback, if_pos rfl]
  rfl

theorem refines_groupMultiOperand {reg : Fin 4 → Gej T} {P : Fin 4 → Point}
    (h : ∀ i, R.repJ (reg i) (P i)) (j : Fin 4) {f : T.Scalar × Ge T → Harness T α}
    {f' : Zn → Ideal β} (hf : ∀ sc pt k r', R.sc.rep sc k → R.repA pt (P j) →
      Refines reader (R.contract G) (f (sc, pt)) (f' k) M r' g) :
    Refines reader (R.contract G) (groupMultiOperand reg j >>= f)
      (idealTakeScalar >>= f') M r g := by
  simp only [groupMultiOperand, bind_assoc, pure_bind]
  exact refines_groupTakeScalar fun sc k r' hsc => refines_groupAffine (h j) fun pt hpt =>
    hf sc pt k r' hsc hpt

/-- The same number of points on both sides, at most `groupLargeMax`. -/
theorem refines_groupMultiSize (flags : ℕ) {large : Bool} {step : T.Scalar}
    (hstep : R.sc.rep step 0) :
    Refines reader (R.contract G) (groupMultiSize flags large step)
      (idealMultiSize flags large)
      (fun c _ c' => c.1 = c'.1 ∧ c.1 ≤ groupLargeMax ∧ R.sc.rep c.2.1 c'.2.1 ∧
        c.2.2.2 = c'.2.2)
      r g := by
  unfold groupMultiSize idealMultiSize
  by_cases hf : flags &&& 2 ≠ 0
  · rw [if_pos hf, if_pos hf]
    refine Refines.bind
      (M := fun c _ c' => c.1 = c'.1 ∧ c.1 ≤ groupLargeMax ∧ c.2.2 = c'.2) ?_ ?_
    · by_cases hl : flags &&& 8 ≠ 0 ∧ large = true
      · rw [if_pos hl, if_pos hl]
        refine refines_readerU16 fun k r' => Refines.pure ⟨rfl, ?_, rfl⟩
        have hk :
            k % (groupLargeMax - groupLargeMin + 1) < groupLargeMax - groupLargeMin + 1 :=
          Nat.mod_lt _ (by decide)
        have hrange : groupLargeMin ≤ groupLargeMax := by decide
        show groupLargeMin + k % (groupLargeMax - groupLargeMin + 1) ≤ groupLargeMax
        omega
      · rw [if_neg hl, if_neg hl]
        refine refines_readerU8_lt fun k r' hk => Refines.pure ⟨rfl, ?_, rfl⟩
        show k ≤ 16384
        omega
    · rintro ⟨n, scale, large₁⟩ _ ⟨n', large₁'⟩ r₁ ⟨rfl, hn, rfl⟩
      refine refines_groupTakeScalar fun s k r₂ hs => refines_readerU16 fun size r₃ => ?_
      exact Refines.invoke_bind trivial fun scratch _ => Refines.pure ⟨rfl, hn, hs, rfl⟩
  · rw [if_neg hf, if_neg hf]
    exact Refines.pure ⟨rfl, (by decide : 4 ≤ groupLargeMax), hstep, rfl⟩

/-- What the multiplication itself gives: 0 where the callback fails, and the
sum elsewhere. -/
theorem groupMultiCall_spec {m : GroupMulti T} {sc : Fin 4 → Zn}
    {P : Fin 4 → Point} {step : Zn} (hsc : ∀ j, R.sc.rep (m.sc j) (sc j))
    (hpt : ∀ j, R.repA (m.pt j) (P j)) (hstep : R.sc.rep m.step step) {n : ℕ}
    (hn : n ≤ groupLargeMax) {scratch : Option T.Scratch} {ng : Option T.Scalar} {l : Zn}
    (hng : ∀ s, ng = some s → R.sc.rep s l) {ret : Int32} {res : Gej T}
    (h : R.spec G (.ecmultMultiVar scratch ng (groupMultiCallback m) n) (ret, res)) :
    (m.failAt < n → ret = 0) ∧ (¬ m.failAt < n → ret = 1 ∧
      R.repJ res ((if ng.isSome then l.val • G.gen else 0)
        + ∑ i ∈ Finset.range n, multiTerm P sc step i)) := by
  obtain ⟨hfail, hsum⟩ := h l hng
  constructor
  · intro hlt
    exact hfail ⟨m.failAt, hlt, groupMultiCallback_fails m⟩
  · intro hge
    have hmax : groupLargeMax < 2 ^ 32 := by decide
    exact hsum _ _ fun i hi =>
      groupMultiCallback_gives hsc hpt hstep (by omega) (by omega)

theorem refines_groupEcmultMulti {reg : Fin 4 → Gej T} {P : Fin 4 → Point}
    (h : ∀ i, R.repJ (reg i) (P i)) (large : Bool) :
    Refines reader (R.contract G) (groupEcmultMulti reg large)
      (idealEcmultMulti G P large)
      (fun c _ c' => c.1 = c'.1 ∧ R.repJ c.2.1 c'.2.1 ∧ c.2.2 = c'.2.2) r g := by
  refine refines_groupTakeScalar fun ng l r₁ hng => refines_readerU8 fun flags r₂ => ?_
  refine refines_groupMultiOperand h 0 fun sc0 pt0 k0 r₃ hs0 hp0 => ?_
  refine refines_groupMultiOperand h 1 fun sc1 pt1 k1 r₄ hs1 hp1 => ?_
  refine refines_groupMultiOperand h 2 fun sc2 pt2 k2 r₅ hs2 hp2 => ?_
  refine refines_groupMultiOperand h 3 fun sc3 pt3 k3 r₆ hs3 hp3 => ?_
  refine Refines.invoke_bind trivial fun step hstep => ?_
  have hstep' : R.sc.rep step 0 := by exact_mod_cast hstep (by omega)
  refine Refines.bind (refines_groupMultiSize flags hstep') ?_
  rintro ⟨n, step, scratch, large₁⟩ _ ⟨n', step', large₁'⟩ r₇ ⟨rfl, hn, hst, rfl⟩
  have hfailAt :
      Refines reader (R.contract G) (if flags &&& 4 ≠ 0 then readerU8 else pure sizeMax)
      (if flags &&& 4 ≠ 0 then readerU8 else pure sizeMax)
      (fun c _ c' => c = c') r₇ () := by
    by_cases hf : flags &&& 4 ≠ 0
    · rw [if_pos hf, if_pos hf, ← bind_pure readerU8, ← bind_pure readerU8]
      exact refines_readerU8 fun k r' => Refines.pure rfl
    · rw [if_neg hf, if_neg hf]
      exact Refines.pure rfl
  refine Refines.bind hfailAt ?_
  rintro failAt _ _ r₈ rfl
  have hsc : ∀ j, R.sc.rep (![sc0, sc1, sc2, sc3] j) (![k0, k1, k2, k3] j) := by
    intro j
    fin_cases j <;> assumption
  have hpt : ∀ j, R.repA (![pt0, pt1, pt2, pt3] j) (P j) := by
    intro j
    fin_cases j <;> assumption
  refine Refines.invoke_bind trivial fun ⟨ret, res⟩ hret =>
    Refines.invoke_bind trivial fun _ _ => ?_
  have hng' : ∀ s, (if flags &&& 1 ≠ 0 then none else some ng) = some s →
      R.sc.rep s l := by
    intro s hs
    split at hs
    · cases hs
    · cases hs
      exact hng
  have hret' :
    R.spec G (.ecmultMultiVar scratch (if flags &&& 1 ≠ 0 then none else some ng)
      (groupMultiCallback ⟨![sc0, sc1, sc2, sc3], ![pt0, pt1, pt2, pt3], step, failAt⟩) n)
    (ret, res) := hret
  obtain ⟨hfail, hsum⟩ := groupMultiCall_spec hsc hpt hst hn hng' hret'
  by_cases hlt : failAt < n
  · rw [if_pos hlt, if_pos (hfail hlt)]
    exact Refines.invoke_bind trivial fun res' hres' =>
      Refines.pure ⟨hfail hlt, hres', rfl⟩
  · obtain ⟨hone, hres⟩ := hsum hlt
    rw [if_neg hlt, if_neg (by rw [hone]; decide), pure_bind]
    refine Refines.pure ⟨hone, ?_, rfl⟩
    by_cases hf : flags &&& 1 ≠ 0
    · rw [if_pos hf] at hres ⊢
      simpa using hres
    · rw [if_neg hf] at hres ⊢
      simpa using hres

end Refines

end Diffsecp
