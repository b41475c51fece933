import Diffsecp.Group.Reference
import Diffsecp.Group.Refine

/-!
# Group — Run

Whole runs of the group target: every op, the loop, and the transcripts.
-/

namespace Diffsecp

set_option linter.constructorNameAsVariable false

open Interact GroupRep

variable {T : Types} {σ σ' : Type}

section Refines

variable {R : GroupRep T} {G : GroupParams} {r : List UInt8} {g : Unit}
  {ideal : IdealGroup} {st : GroupState T}

/-! ## Batches -/

theorem refines_groupBatchAffine {reg : Fin 4 → Gej T} {P : Fin 4 → Point}
    (h : ∀ i, R.repJ (reg i) (P i)) (n : ℕ) :
    Refines reader (R.contract G) (groupBatchAffine reg n) (idealBatchAffine P n)
      (fun _ _ _ => True) r g := by
  have hreg : ∀ i : Fin n,
      R.repJ ((Vector.ofFn fun i : Fin n => reg (Fin.ofNat 4 i)).get i)
      (P (Fin.ofNat 4 i)) := by
    intro i
    show R.repJ (Vector.ofFn fun i : Fin n => reg (Fin.ofNat 4 i))[i.val] _
    rw [Vector.getElem_ofFn]
    exact h _
  have hall : ∀ ge : Vector (Ge T) n,
      (∀ i : Fin n, R.repA (ge.get i) (P (Fin.ofNat 4 i))) →
      List.Forall₂ R.repA ge.toList (List.ofFn fun i : Fin n => P (Fin.ofNat 4 i)) := by
    intro ge hge
    apply List.forall₂_of_length_eq_of_get
    · simp
    · intro i h₁ h₂
      have hi : i < n := by simpa using h₁
      simp only [List.get_eq_getElem, Vector.getElem_toList, List.getElem_ofFn]
      exact hge ⟨i, hi⟩
  have hany : (Vector.ofFn fun i : Fin n => reg (Fin.ofNat 4 i)).any (·.infinity) = true ↔
      ∃ i : Fin n, P (Fin.ofNat 4 i) = 0 := by
    rw [Vector.any_eq_true]
    constructor
    · rintro ⟨i, hi, hinf⟩
      rw [Vector.getElem_ofFn, repJ_infinity (h _), decide_eq_true_eq] at hinf
      exact ⟨⟨i, hi⟩, hinf⟩
    · rintro ⟨i, hP⟩
      refine ⟨i, i.isLt, ?_⟩
      rw [Vector.getElem_ofFn, repJ_infinity (h _), decide_eq_true_eq]
      exact hP
  refine Refines.invoke_bind trivial fun ge hge => ?_
  refine Refines.bind (refines_groupRecordGes (hall ge (hge _ hreg))) fun _ _ _ _ _ => ?_
  by_cases hinf : ∃ i : Fin n, P (Fin.ofNat 4 i) = 0
  · rw [if_pos hinf, if_pos (hany.mpr hinf)]
    exact Refines.pure trivial
  · rw [if_neg hinf, if_neg (mt hany.mp hinf)]
    have hfinite : ∀ i : Fin n, P (Fin.ofNat 4 i) ≠ 0 := fun i hi => hinf ⟨i, hi⟩
    have hreq : ∀ i : Fin n,
        ((Vector.ofFn fun i : Fin n => reg (Fin.ofNat 4 i)).get i).infinity = false := by
      intro i
      rw [repJ_infinity (hreg i)]
      exact decide_eq_false (hfinite i)
    refine Refines.invoke_bind hreq fun ge' hge' => ?_
    exact refines_groupRecordGes (hall ge' (hge' _ hreg hfinite))

/-! ## Ops -/

/-- The ratio is recorded where `a` is finite. -/
theorem refines_groupRatio {a res : Gej T} {rzr : T.Fe} {A : Point} (ha : R.repJ a A)
    (hratio : A ≠ 0 → R.ratio res a rzr) :
    Refines reader (R.contract G)
      (if a.infinity = false then groupRecordRzr res a rzr else pure ())
      (idealRecordRzr A)
      (fun _ _ _ => True) r g := by
  have hinf := repJ_infinity ha
  by_cases hA : A = 0
  · rw [idealRecordRzr, if_pos hA, if_neg (by rw [hinf]; simpa using hA)]
    exact Refines.pure trivial
  · have hfinite : a.infinity = false := by rw [hinf, decide_eq_false hA]
    rw [if_pos hfinite]
    exact refines_groupRecordRzr ha hA (hratio hA)

/-- An addition asks for the ratio where `a` is finite, and records that it
is kept. -/
theorem refines_groupRatioOp {a : Gej T} {A S : Point} (ha : R.repJ a A)
    {q : Bool → GroupCall T (Gej T × T.Fe)}
    (hreq : ∀ rzr, (rzr = true → a.infinity = false) → R.req (q rzr))
    (hspec : ∀ rzr c, R.spec G (q rzr) c →
      R.repJ c.1 S ∧ (rzr = true → A ≠ 0 → R.ratio c.1 a c.2)) (large : Bool) :
    Refines reader (R.contract G)
      (if a.infinity then do
          let (res, _) ← secpGroup (q false)
          pure (res, large)
        else do
          let (res, rzr) ← secpGroup (q true)
          groupRecordRzr res a rzr
          pure (res, large))
      (do
        idealRecordRzr A
        pure (S, large))
      (fun c _ c' => R.repJ c.1 c'.1 ∧ c.2 = c'.2) r g := by
  have hinf := repJ_infinity ha
  by_cases hA : A = 0
  · have hinf' : a.infinity = true := by rw [hinf, decide_eq_true hA]
    rw [if_pos hinf', idealRecordRzr, if_pos hA, pure_bind]
    refine Refines.invoke_bind (hreq false fun h => absurd h Bool.false_ne_true)
      fun c hc => Refines.pure ⟨?_, rfl⟩
    exact (hspec false c hc).1
  · have hinf' : a.infinity = false := by rw [hinf, decide_eq_false hA]
    rw [if_neg (by rw [hinf']; exact Bool.false_ne_true)]
    refine Refines.invoke_bind (hreq true fun _ => hinf') fun c hc => ?_
    obtain ⟨hres, hratio⟩ := hspec true c hc
    refine Refines.bind (refines_groupRecordRzr ha hA (hratio rfl hA)) fun _ _ _ _ _ => ?_
    exact Refines.pure ⟨hres, rfl⟩

/-- `b` is given a fuzzed z before it is added. -/
theorem refines_groupAddZinvVar {a : Gej T} {gb : Ge T} {A B : Point} (ha : R.repJ a A)
    (hgb : R.repA gb B) (large : Bool) {f1 : T.Fe} {z : F} (hz : z ≠ 0)
    (hf1 : R.feRep f1 z 1) :
    Refines reader (R.contract G)
      (do
        let (ge, f2) ← (if gb.infinity = false then do
            let f2 ← secpFe (.sqr .f2 .f1 f1)
            let x ← secpFe (.mul .geX .gbX .f2 gb.x f2)
            let f3 ← secpFe (.mul .f3 .f2 .f1 f2 f1)
            let y ← secpFe (.mul .geY .gbY .f3 gb.y f3)
            let f2 ← secpFe (.invVar .f2 .f1 f1)
            pure ((⟨x, y, gb.infinity⟩ : Ge T), f2)
          else pure (gb, f1))
        let res ← secpGroup (.gejAddZinvVar a ge f2)
        pure (res, large))
      (pure (A + B, large)) (fun c _ c' => R.repJ c.1 c'.1 ∧ c.2 = c'.2) r g := by
  cases B with
  | zero =>
      have hinf : gb.infinity = true := hgb
      rw [if_neg (by rw [hinf]; exact nofun), pure_bind]
      have hreq : R.req (.gejAddZinvVar a gb f1) :=
        fun h => absurd (hinf.symm.trans h) nofun
      refine Refines.invoke_bind hreq fun res hres => Refines.pure ⟨?_, rfl⟩
      show R.repJ res (A + 0)
      rw [add_zero]
      exact (hres A ha).1 hinf
  | some x y hxy =>
      obtain ⟨hinf, hx, hy⟩ := hgb
      have hinv : (z⁻¹)⁻¹ = z := inv_inv z
      rw [if_pos hinf]
      simp only [bind_assoc, pure_bind]
      have hf1' : R.feRep f1 z 8 := feRep_le hf1 (by omega)
      refine refines_feSqr hf1' fun f2 hf2 => ?_
      refine refines_feMul (feRep_le hx (by omega)) (feRep_le hf2 (by omega))
        FePtr.noConfusion FePtr.noConfusion fun x' hx' => ?_
      refine refines_feMul (feRep_le hf2 (by omega)) hf1' FePtr.noConfusion
        FePtr.noConfusion fun f3 hf3 => ?_
      refine refines_feMul (feRep_le hy (by omega)) (feRep_le hf3 (by omega))
        FePtr.noConfusion FePtr.noConfusion fun y' hy' => ?_
      obtain ⟨m, hm, hrep⟩ := hf1
      refine Refines.invoke_bind trivial fun zi hzi => ?_
      have hzi' : R.feRep zi z⁻¹ 8 := ⟨_, by split <;> omega, hzi z m hrep⟩
      have hreq : R.req (.gejAddZinvVar a ⟨x', y', gb.infinity⟩ zi) :=
        fun _ => ⟨z⁻¹, inv_ne_zero hz, hzi'⟩
      refine Refines.invoke_bind hreq fun res hres => Refines.pure ⟨?_, rfl⟩
      refine (hres A ha).2 z⁻¹ x y hxy hinf (inv_ne_zero hz) hzi' ?_ ?_
      · rw [hinv]
        exact feRep_le hx' (by omega)
      · rw [hinv]
        exact feRep_le hy' (by omega)

theorem refines_groupSetXo {res : Gej T} {P : Point} (hres : R.repJ res P)
    (large : Bool) :
    Refines reader (R.contract G)
      (do
        let f1 ← groupTakeFe
        let k ← readerU8
        let (ret, ge) ← secpGroup (.geSetXoVar f1 (Int32.ofNat (k &&& 1)))
        transcriptInt ret
        let res ← (if ret ≠ 0 then secpGroup (.gejSetGe ge) else pure res)
        pure (res, large))
      (do
        let f1 ← idealTakeFe
        let k ← readerU8
        let Q ← idealSetPoint P (liftX f1 (k % 2 = 1))
        pure (Q, large))
      (fun c _ c' => R.repJ c.1 c'.1 ∧ c.2 = c'.2) r g := by
  refine refines_groupTakeFe fun v x r₁ hv => refines_readerU8 fun k r₂ => ?_
  rw [ofNat_and_one]
  refine Refines.invoke_bind trivial fun ⟨ret, ge⟩ hret => ?_
  obtain ⟨hflag, hge⟩ := hret x (feRep_le hv (by omega)) (flag_zero_or_one _)
  simp only [flag_eq_one, decide_eq_true_eq] at hflag hge
  cases hlift : liftX x (k % 2 = 1) with
  | none =>
      have hzero : ret = 0 := by rw [hflag, hlift]; rfl
      simp only [idealSetPoint, bind_assoc, pure_bind]
      refine refines_transcriptInt hzero ?_
      rw [if_neg (by rw [hzero]; decide), pure_bind]
      exact Refines.pure ⟨hres, rfl⟩
  | some Q =>
      have hone : ret = 1 := by rw [hflag, hlift]; rfl
      simp only [idealSetPoint, bind_assoc, pure_bind]
      refine refines_transcriptInt hone ?_
      rw [if_pos (by rw [hone]; decide)]
      exact Refines.invoke_bind trivial fun res' hres' =>
        Refines.pure ⟨hres' Q (hge Q hlift), rfl⟩

/-- Every op does what the ideal machine does and stays inside the contract,
whatever the registers `d`, `a` and `b` are. -/
theorem refines_groupSwitch (h : GroupSim R ideal st) (sel : ℕ) {res a b : Gej T}
    {ga gb : Ge T} {P A B : Point} (hres : R.repJ res P) (ha : R.repJ a A)
    (hb : R.repJ b B) (hga : R.repA ga A) (hgb : R.repA gb B) (op : GroupOp) :
    Refines reader (R.contract G) (groupSwitch st sel res a b ga gb op)
      (idealGroupSwitch G ideal sel P A B op)
      (fun c _ c' => R.repJ c.1 c'.1 ∧ c.2 = c'.2) r g := by
  obtain ⟨hreg, hlarge⟩ := h
  cases op with
  | gen =>
      refine refines_groupTakeScalar fun s k r₁ hs => ?_
      exact Refines.invoke_bind trivial fun _ h => Refines.pure ⟨h k hs, hlarge⟩
  | setXo =>
      rw [idealGroupSwitch, ← hlarge]
      exact refines_groupSetXo hres st.large
  | setInfinity => exact Refines.invoke_bind trivial fun _ h => Refines.pure ⟨h, hlarge⟩
  | addVar =>
      rw [idealGroupSwitch, ← hlarge]
      exact refines_groupRatioOp (q := fun rzr => .gejAddVar a b rzr) ha (fun _ h => h)
        (fun _ _ h => h A B ha hb) st.large
  | addGe =>
      have hinf := repA_infinity hgb
      by_cases hB : B = 0
      · rw [groupSwitch, idealGroupSwitch, if_pos hB,
          if_neg (by rw [hinf]; simpa using hB), pure_bind]
        exact Refines.pure ⟨hres, hlarge⟩
      · have hfinite : gb.infinity = false := by rw [hinf, decide_eq_false hB]
        rw [groupSwitch, idealGroupSwitch, if_neg hB, if_pos hfinite]
        exact Refines.invoke_bind hfinite fun _ h =>
          Refines.pure ⟨h A B ha hgb hB, hlarge⟩
  | addGeVar =>
      rw [idealGroupSwitch, ← hlarge]
      exact refines_groupRatioOp (q := fun rzr => .gejAddGeVar a gb rzr) ha (fun _ h => h)
        (fun _ _ h => h A B ha hgb) st.large
  | addZinvVar =>
      rw [idealGroupSwitch, ← hlarge]
      refine refines_groupTakeNonzeroFe fun f1 z r₁ hz hf1 => ?_
      exact refines_groupAddZinvVar ha hgb st.large hz hf1
  | double => exact Refines.invoke_bind trivial fun _ h => Refines.pure ⟨h A ha, hlarge⟩
  | doubleVar =>
      refine Refines.invoke_bind trivial fun c hdouble => ?_
      obtain ⟨res', rzr⟩ := c
      obtain ⟨hres', hratio⟩ := hdouble A ha
      refine Refines.bind (refines_groupRatio ha (hratio rfl)) fun _ _ _ _ _ => ?_
      exact Refines.pure ⟨hres', hlarge⟩
  | neg => exact Refines.invoke_bind trivial fun _ h => Refines.pure ⟨h A ha, hlarge⟩
  | rescale =>
      refine refines_groupTakeNonzeroFe fun f1 z r₁ hz hf1 => ?_
      have hf1' : R.feRep f1 z 8 := feRep_le hf1 (by omega)
      by_cases hfinite : res.infinity = false
      · rw [if_pos hfinite]
        refine Refines.invoke_bind ⟨z, hz, hf1'⟩ fun _ h => ?_
        exact Refines.pure ⟨h P z hres hf1' hz, hlarge⟩
      · rw [if_neg hfinite, pure_bind]
        exact Refines.pure ⟨hres, hlarge⟩
  | mulLambda =>
      refine Refines.invoke_bind trivial fun ge hge =>
        Refines.invoke_bind trivial fun _ h => ?_
      exact Refines.pure ⟨h _ (hge A hga), hlarge⟩
  | ecmult =>
      refine refines_groupTakeScalar fun s₁ k₁ r₁ hs₁ =>
        refines_groupTakeScalar fun s₂ k₂ r₂ hs₂ => ?_
      refine refines_readerU8 fun flags r₃ => Refines.invoke_bind trivial fun _ h => ?_
      refine Refines.pure ⟨?_, hlarge⟩
      by_cases hf : flags &&& 1 ≠ 0
      · rw [if_pos hf] at h
        rw [if_pos hf, add_zero]
        exact h A k₁ ha hs₁
      · rw [if_neg hf] at h
        rw [if_neg hf]
        exact h A k₁ k₂ ha hs₁ hs₂
  | ecmultConst =>
      refine refines_groupTakeScalar fun s k r₁ hs => ?_
      exact Refines.invoke_bind trivial fun _ h => Refines.pure ⟨h A k hga hs, hlarge⟩
  | ecmultConstXonly =>
      refine Refines.bind (refines_groupEcmultConstXonly hga) fun _ _ _ _ _ => ?_
      exact Refines.pure ⟨hres, hlarge⟩
  | ecmultMulti =>
      rw [idealGroupSwitch, ← hlarge]
      refine Refines.bind (refines_groupEcmultMulti hreg st.large) ?_
      rintro ⟨ret, res', large⟩ _ ⟨ret', P', large'⟩ r₁ ⟨hret, hrep, hlarge'⟩
      exact refines_transcriptInt hret (Refines.pure ⟨hrep, hlarge'⟩)
  | batchAffine =>
      refine Refines.bind (refines_groupBatchAffine hreg _) fun _ _ _ _ _ => ?_
      exact Refines.pure ⟨hres, hlarge⟩
  | query =>
      refine Refines.bind (refines_groupQuery ha hb hga hgb) fun _ _ _ _ _ => ?_
      exact Refines.pure ⟨hres, hlarge⟩

/-! ## The loop -/

theorem GroupSim.update (h : GroupSim R ideal st) {d : Fin 4} {res : Gej T}
    {P : Point} {b : Bool} (hres : R.repJ res P) :
    GroupSim R ⟨Function.update ideal.reg d P, b⟩ ⟨Function.update st.reg d res, b⟩ := by
  refine ⟨fun i => ?_, rfl⟩
  by_cases hi : i = d
  · subst hi
    simp only [Function.update_self]
    exact hres
  · simp only [Function.update_of_ne hi]
    exact h.1 i

theorem refines_groupStep (h : GroupSim R ideal st) :
    Refines reader (R.contract G) (groupStep st) (idealGroupStep G ideal)
      (fun st' _ ideal' => GroupSim R ideal' st') r g := by
  have hreg := h.1
  refine refines_readerU8 fun op r₁ => refines_readerU8 fun sel r₂ => ?_
  refine refines_groupAffine (hreg (selReg sel 1)) fun ga hga => ?_
  refine refines_groupAffine (hreg (selReg sel 2)) fun gb hgb => refines_transcriptU8 ?_
  refine Refines.bind (refines_groupSwitch h sel (hreg _) (hreg _) (hreg _) hga hgb _) ?_
  rintro ⟨res, large⟩ _ ⟨P, large'⟩ r₃ ⟨hres, rfl⟩
  have h' := h.update (d := selReg sel 0) (b := large) hres
  have hd : R.repJ (Function.update st.reg (selReg sel 0) res (selReg sel 0)) P := by
    rw [Function.update_self]
    exact hres
  refine refines_groupAffine hd fun ge hge => ?_
  refine Refines.bind (refines_groupRecordGe hge) fun _ _ _ _ _ => ?_
  exact Refines.pure h'

theorem sat_groupInit (inp : List UInt8) :
    Sat reader (R.contract G) (groupInit inp) r g fun st r' _ os =>
      r' = r ∧ os = [] ∧ GroupSim R ⟨fun _ => 0, groupLargeDue inp⟩ st := by
  refine sat_bind.mpr ⟨trivial, fun r0 h0 => sat_bind.mpr ⟨trivial, fun r1 h1 => ?_⟩⟩
  refine sat_bind.mpr ⟨trivial, fun r2 h2 => sat_bind.mpr ⟨trivial, fun r3 h3 => ?_⟩⟩
  refine ⟨rfl, rfl, fun i => ?_, rfl⟩
  fin_cases i <;> assumption

/-- The group target over any implementation does what the ideal machine
does. -/
theorem refines_groupLoop {ideal : IdealGroup} {st : GroupState T}
    (h : GroupSim R ideal st) (n : ℕ) :
    Refines reader (R.contract G) (Prog.loop readerMore groupStep n st)
      (Prog.loop readerMore (idealGroupStep G) n ideal)
      (fun st _ ideal => GroupSim R ideal st) r g :=
  Refines.loop refines_readerMore (fun _ _ _ _ h => refines_groupStep h) n h

theorem refines_groupOps (inp : List UInt8) (n : ℕ) :
    Refines reader (R.contract G) (groupOps inp n) (idealGroupOps G inp n)
      (fun st _ ideal => GroupSim R ideal st) r g := by
  refine Refines.silent_bind ((sat_groupInit inp).mono fun st r' g' os h => ?_)
  obtain ⟨hr, hos, hsim⟩ := h
  refine ⟨hr, hos, ?_⟩
  exact refines_groupLoop hsim n

end Refines

/-- After any number of ops, the group target over a group implementation has
read and put what the ideal machine has, its registers represent the ideal
points, and every call met its requirement; so its transcripts are the ideal
ones, whatever the implementation. From any two states that represent the same
points, with any z, two implementations put the same. -/
theorem groupOps_ideal {T' : Types} (R : GroupRep T) (R' : GroupRep T') (G : GroupParams)
    (lib : Build T σ) (lib' : Build T' σ') (hlib : lib.Meets (R.contract G))
    (hlib' : lib'.Meets (R'.contract G)) (s : σ) (s' : σ') (inp : List UInt8) :
    (∀ n, ((groupOps inp n).run reader lib inp s).rest =
      ((idealGroupOps G inp n).eval reader inp).rest ∧
      ((groupOps inp n).run reader lib inp s).out =
        ((idealGroupOps G inp n).eval reader inp).out ∧
      GroupSim R ((idealGroupOps G inp n).eval reader inp).val
        ((groupOps inp n).run reader lib inp s).val ∧
      ∀ e ∈ ((groupOps inp n).run reader lib inp s).log, (R.contract G).req () e.op) ∧
    (∀ cap, transcriptFor (targetGroup inp) lib s cap inp
        = transcriptOf cap ((idealGroupOps G inp groupMaxOps).eval reader inp).out ∧
      transcriptFor (targetGroup inp) lib s cap inp =
        transcriptFor (targetGroup inp) lib' s' cap inp) ∧
    ∀ n rest (ideal : IdealGroup) (st : GroupState T) (st' : GroupState T'),
      GroupSim R ideal st → GroupSim R' ideal st' →
        ((Prog.loop readerMore groupStep n st).run reader lib rest s).out
          = ((Prog.loop readerMore groupStep n st').run reader lib' rest s').out := by
  have hrun : ∀ n, _ := fun n =>
    Refines.run (refines_groupOps (R := R) (G := G) (r := inp) (g := ()) inp n) hlib s
  have hrun' := Refines.run
    (refines_groupOps (R := R') (G := G) (r := inp) (g := ()) inp groupMaxOps) hlib' s'
  refine ⟨fun n => ?_, fun cap => ?_, fun n rest ideal st st' h h' => ?_⟩
  · obtain ⟨hkept, hrest, hout, hsim⟩ := hrun n
    exact ⟨hrest, hout, hsim, Contract.stateless_kept.mp hkept⟩
  · have hout := (hrun groupMaxOps).2.2.1
    have hout' := hrun'.2.2.1
    exact ⟨congrArg (transcriptOf cap) hout,
      congrArg (transcriptOf cap) (hout.trans hout'.symm)⟩
  · have hloop :=
      Refines.run (refines_groupLoop (G := G) (r := rest) (g := ()) h n) hlib s
    have hloop' :=
      Refines.run (refines_groupLoop (G := G) (r := rest) (g := ()) h' n) hlib' s'
    exact hloop.2.2.1.trans hloop'.2.2.1.symm

/-- A multiple of the generator, on builds whose points have z of 1 and 2. -/
theorem refGroupLib_groupOps_ideal :
    (∀ n, ((groupOps [0, 0, 1] n).run reader (refGroupLib secpParams 1) [0, 0, 1] ()).rest
        = ((idealGroupOps secpParams [0, 0, 1] n).eval reader [0, 0, 1]).rest ∧
      ((groupOps [0, 0, 1] n).run reader (refGroupLib secpParams 1) [0, 0, 1] ()).out
        = ((idealGroupOps secpParams [0, 0, 1] n).eval reader [0, 0, 1]).out ∧
      GroupSim refGroupRep
        ((idealGroupOps secpParams [0, 0, 1] n).eval reader [0, 0, 1]).val
        ((groupOps [0, 0, 1] n).run reader (refGroupLib secpParams 1) [0, 0, 1] ()).val ∧
      ∀ e ∈
          ((groupOps [0, 0, 1] n).run reader (refGroupLib secpParams 1) [0, 0, 1] ()).log,
        (refGroupRep.contract secpParams).req () e.op) ∧
    (∀ cap,
      transcriptFor (targetGroup [0, 0, 1]) (refGroupLib secpParams 1) () cap [0, 0, 1]
        = transcriptOf cap ((idealGroupOps secpParams [0, 0, 1] groupMaxOps).eval reader
          [0, 0, 1]).out ∧
      transcriptFor (targetGroup [0, 0, 1]) (refGroupLib secpParams 1) () cap [0, 0, 1]
        = transcriptFor (targetGroup [0, 0, 1]) (refGroupLib secpParams 2)
          () cap [0, 0, 1]) ∧
    ∀ n rest (ideal : IdealGroup) (st st' : GroupState refTypes),
      GroupSim refGroupRep ideal st → GroupSim refGroupRep ideal st' →
        ((Prog.loop readerMore groupStep n st).run reader
          (refGroupLib secpParams 1) rest ()).out
          = ((Prog.loop readerMore groupStep n st').run reader (refGroupLib secpParams 2)
            rest ()).out := by
  have hone : (1 : F) ≠ 0 := one_ne_zero
  have htwo : (2 : F) ≠ 0 := by decide +kernel
  exact groupOps_ideal refGroupRep refGroupRep secpParams _ _
    (refGroupLib_meets secpParams hone) (refGroupLib_meets secpParams htwo)
    () () [0, 0, 1]

end Diffsecp
