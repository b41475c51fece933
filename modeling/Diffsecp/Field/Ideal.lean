import Diffsecp.Field.Magnitude

/-!
# Field — Ideal

The field target over `ZMod p`. The ideal machine has four registers and no
magnitudes, every op reads its sources before it writes `d`, and it calls
nothing. A field implementation is any library whose calls compute the right
value whenever their operands represent values of `ZMod p` within the
documented magnitude and aliasing bounds; the field target over any of them
does what the ideal machine does.
-/

namespace Diffsecp

open Interact

variable {T : Types} {σ : Type}

/-! ## The ideal machine -/

abbrev IdealField := Fin 4 → F

def idealFieldQuery (x y : F) : Ideal Unit := do
  transcriptInt (flag (x = 0))
  transcriptInt (flag (x = 0))
  transcriptInt (flag (IsSquare x))
  transcriptInt (flag (x = y))
  transcriptInt (flag (x = 0))
  transcriptInt (flag (x.val % 2 = 1))
  transcriptInt (cmpInt x.val y.val)

def idealFieldSwitch (reg : IdealField) (d a b : Fin 4) : FieldOp → Ideal IdealField
  | .setB32Mod => do
      let b32 ← readerTake 32
      pure (Function.update reg d (natOfBytes b32.toList))
  | .setB32Limit => do
      let b32 ← readerTake 32
      let x := natOfBytes b32.toList
      transcriptInt (flag (x < secpP))
      pure (Function.update reg d (if x < secpP then x else 0))
  | .add => pure (Function.update reg d (reg d + reg a))
  | .addInt => do
      let k ← readerU16
      pure (Function.update reg d (reg d + (k % 0x8000 : ℕ)))
  | .mul => pure (Function.update reg d (reg a * reg b))
  | .sqr => pure (Function.update reg d (reg a * reg a))
  | .negate => do
      let _ ← readerU8
      pure (Function.update reg d (-reg a))
  | .mulInt => do
      let k ← readerU8
      pure (Function.update reg d (reg d * (k % 33 : ℕ)))
  | .half => pure (Function.update reg d (reg d * 2⁻¹))
  | .normalize | .normalizeWeak | .normalizeVar | .storage => pure reg
  | .inv | .invVar => pure (Function.update reg d (reg a)⁻¹)
  | .sqrt => do
      transcriptInt (flag (IsSquare (reg a)))
      pure (Function.update reg d (feRoot (reg a)))
  | .cmov => do
      let k ← readerU8
      pure (Function.update reg d (if k % 2 = 1 then reg a else reg d))
  | .query => do
      idealFieldQuery (reg a) (reg b)
      pure reg

def idealFieldStep (reg : IdealField) : Ideal IdealField := do
  let op ← readerU8
  let op := op % fieldOpCount
  let sel ← readerU8
  let d := selReg sel 0
  transcriptU8 op
  let reg ← idealFieldSwitch reg d (selReg sel 1) (selReg sel 2) (FieldOp.cast op)
  transcriptBytes (bytesOfNat 32 (reg d).val).toList
  pure reg

def idealFieldOps (n : ℕ) : Ideal IdealField :=
  Prog.loop readerMore idealFieldStep n fun _ => 0

/-! ## Implementations -/

/-- How a build represents values of `ZMod p`: `rep v x m` says that `v`
stands for `x` with magnitude `m`. -/
structure FieldRep (T : Types) where
  rep : T.Fe → F → Int → Prop
  normalized : T.Fe → Prop
  stored : T.FeStorage → F → Prop

namespace FieldRep

variable (R : FieldRep T)

/-- The value a call computes, whenever its requirements hold. -/
def spec {β : Type} : FeCall T β → β → Prop
  | .setInt k, v => 0 ≤ k → k ≤ 0x7FFF → R.rep v k (if k ≠ 0 then 1 else 0)
  | .setB32Mod b32, v => R.rep v (natOfBytes b32.toList) 1
  | .setB32Limit b32, (ret, v) =>
      ret = flag (natOfBytes b32.toList < secpP) ∧
        (natOfBytes b32.toList < secpP → R.rep v (natOfBytes b32.toList) 1)
  | .add _ _ vr va, v =>
      ∀ x y m n, R.rep vr x m → R.rep va y n → m + n ≤ 32 → R.rep v (x + y) (m + n)
  | .addInt vr k, v =>
      ∀ x m, R.rep vr x m → 0 ≤ k → k ≤ 0x7FFF → m ≤ 31 → R.rep v (x + k) (m + 1)
  | .mul r a b va vb, v =>
      ∀ x y m n, R.rep va x m → R.rep vb y n → m ≤ 8 → n ≤ 8 → b ≠ r → b ≠ a →
        R.rep v (x * y) 1
  | .sqr _ _ va, v => ∀ x m, R.rep va x m → m ≤ 8 → R.rep v (x * x) 1
  | .negateUnchecked _ _ va k, v =>
      ∀ x m, R.rep va x m → m ≤ k → k ≤ 31 → R.rep v (-x) (k + 1)
  | .mulIntUnchecked vr k, v =>
      ∀ x m, R.rep vr x m → 0 ≤ k → k ≤ 32 → k * m ≤ 32 → R.rep v (x * k) (k * m)
  | .half vr, v => ∀ x m, R.rep vr x m → m ≤ 31 → R.rep v (x * 2⁻¹) ((m >>> (1 : ℕ)) + 1)
  | .normalize vr, v => ∀ x m, R.rep vr x m → R.rep v x 1 ∧ R.normalized v
  | .normalizeWeak vr, v => ∀ x m, R.rep vr x m → R.rep v x 1
  | .normalizeVar vr, v => ∀ x m, R.rep vr x m → R.rep v x 1 ∧ R.normalized v
  | .inv _ _ va, v => ∀ x m, R.rep va x m → R.rep v x⁻¹ (if m ≠ 0 then 1 else 0)
  | .invVar _ _ va, v => ∀ x m, R.rep va x m → R.rep v x⁻¹ (if m ≠ 0 then 1 else 0)
  | .sqrt r a va, (ret, v) =>
      ∀ x m, R.rep va x m → m ≤ 8 → r ≠ a → ret = flag (IsSquare x) ∧ R.rep v (feRoot x) 1
  | .cmov _ _ vr va f, v =>
      ∀ x y m n, R.rep vr x m → R.rep va y n → (f = 0 ∨ f = 1) →
        R.rep v (if f = 1 then y else x) (max m n)
  | .toStorage va, s => ∀ x m, R.rep va x m → R.normalized va → R.stored s x
  | .fromStorage s, v => ∀ x, R.stored s x → R.rep v x 1
  | .getB32 va, b32 => ∀ x m, R.rep va x m → R.normalized va → b32 = bytesOfNat 32 x.val
  | .normalizesToZero va, ret => ∀ x m, R.rep va x m → ret = flag (x = 0)
  | .normalizesToZeroVar va, ret => ∀ x m, R.rep va x m → ret = flag (x = 0)
  | .isSquareVar va, ret => ∀ x m, R.rep va x m → ret = flag (IsSquare x)
  | .equal va vb, ret =>
      ∀ x y m n, R.rep va x m → R.rep vb y n → m ≤ 1 → n ≤ 31 → ret = flag (x = y)
  | .isZero va, ret => ∀ x m, R.rep va x m → R.normalized va → ret = flag (x = 0)
  | .isOdd va, ret => ∀ x m, R.rep va x m → R.normalized va → ret = flag (x.val % 2 = 1)
  | .cmpVar va vb, ret =>
      ∀ x y m n, R.rep va x m → R.rep vb y n → R.normalized va → R.normalized vb →
        ret = cmpInt x.val y.val

/-- The field implementations: nothing is asked of the rest of the library. -/
def contract : Contract (LibCall T) Unit :=
  .stateless (fun _ => True)
    (fun {β} (q : LibCall T β) (a : β) => match β, q, a with
      | _, .fe q, a => R.spec q a
      | _, _, _ => True)

@[simp] theorem contract_spec {β : Type} (g : Unit) (q : FeCall T β) (a : β) :
    R.contract.spec g (.fe q) a ↔ R.spec q a := Iff.rfl

end FieldRep

/-! ## The simulation -/

/-- Each register represents the ideal one, with the tracked magnitude. -/
def FieldSim (R : FieldRep T) (ideal : IdealField) (reg : FieldRegs T) : Prop :=
  ∀ i, R.rep (reg i).v (ideal i) (reg i).mag ∧ 0 ≤ (reg i).mag ∧ (reg i).mag ≤ 32

theorem FieldSim.update {R : FieldRep T} {ideal : IdealField} {reg : FieldRegs T}
    (h : FieldSim R ideal reg) {d : Fin 4} {v : T.Fe} {x : F} {m : Int} (hv : R.rep v x m)
    (h0 : 0 ≤ m) (h32 : m ≤ 32) :
    FieldSim R (Function.update ideal d x) (Function.update reg d ⟨v, m⟩) := by
  intro i
  by_cases hi : i = d
  · subst hi
    simp only [Function.update_self]
    exact ⟨hv, h0, h32⟩
  · simp only [Function.update_of_ne hi]
    exact h i

/-- A new representative of the value a register already has. -/
theorem FieldSim.refresh {R : FieldRep T} {ideal : IdealField} {reg : FieldRegs T}
    (h : FieldSim R ideal reg) {d : Fin 4} {v : T.Fe} {m : Int} (hv : R.rep v (ideal d) m)
    (h0 : 0 ≤ m) (h32 : m ≤ 32) : FieldSim R ideal (Function.update reg d ⟨v, m⟩) := by
  have hup := h.update (d := d) hv h0 h32
  rw [Function.update_eq_self] at hup
  exact hup

/-- Weakening does not change what a register represents. -/
theorem FieldRep.weakenOk (R : FieldRep T) (ideal : IdealField) :
    WeakenOk R.contract (FieldSim R ideal) where
  legal _ := trivial
  keeps reg x v h hv := by
    have hrep : R.rep v (ideal x) 1 := hv _ _ (h x).1
    exact h.refresh hrep (by omega) (by omega)

section Refines

variable {R : FieldRep T} {ideal : IdealField} {reg : FieldRegs T}
  {r : List UInt8} {g : Unit}

theorem refines_fieldRecord {v : T.Fe} {x : F} {m : Int} (hv : R.rep v x m) :
    Refines reader R.contract (fieldRecord v)
      (transcriptBytes (bytesOfNat 32 x.val).toList) (fun _ _ _ => True) r g := by
  refine Refines.invoke_bind trivial fun n hn => ?_
  obtain ⟨hrep, hnorm⟩ := hn x m hv
  refine Refines.invoke_bind trivial fun b32 hb => ?_
  have hb32 : b32 = bytesOfNat 32 x.val := hb x 1 hrep hnorm
  exact Refines.emit (by rw [hb32]) trivial

theorem refines_fieldQuery {a b : FieldReg T} {x y : F} (ha : R.rep a.v x a.mag)
    (hb : R.rep b.v y b.mag) :
    Refines reader R.contract (fieldQuery a b) (idealFieldQuery x y)
      (fun _ _ _ => True) r g := by
  refine Refines.invoke_bind trivial fun _ h => refines_transcriptInt (h x _ ha) ?_
  refine Refines.invoke_bind trivial fun _ h => refines_transcriptInt (h x _ ha) ?_
  refine Refines.invoke_bind trivial fun _ h => refines_transcriptInt (h x _ ha) ?_
  refine Refines.invoke_bind trivial fun x₁ h => ?_
  have hx₁ : R.rep x₁ x 1 := h x _ ha
  refine Refines.invoke_bind trivial fun y₁ h => ?_
  have hy₁ : R.rep y₁ y 1 := h y _ hb
  refine Refines.invoke_bind trivial fun _ h =>
    refines_transcriptInt (h x y 1 1 hx₁ hy₁ (by omega) (by omega)) ?_
  refine Refines.invoke_bind trivial fun x₂ h => ?_
  obtain ⟨hx₂, hxn⟩ := h x 1 hx₁
  refine Refines.invoke_bind trivial fun y₂ h => ?_
  obtain ⟨hy₂, hyn⟩ := h y 1 hy₁
  refine Refines.invoke_bind trivial fun _ h => refines_transcriptInt (h x 1 hx₂ hxn) ?_
  refine Refines.invoke_bind trivial fun _ h => refines_transcriptInt (h x 1 hx₂ hxn) ?_
  refine Refines.invoke_bind trivial fun _ h => ?_
  exact Refines.emit (by rw [h x y 1 1 hx₂ hy₂ hxn hyn]) trivial

/-- The common end of an op: a call whose result represents the ideal one. -/
theorem refines_assign (h : FieldSim R ideal reg) (d : Fin 4) {q : FeCall T T.Fe}
    {x : F} {m : Int} (hspec : ∀ v, R.spec q v → R.rep v x m) (h0 : 0 ≤ m)
    (h32 : m ≤ 32) :
    Refines reader R.contract (do let v ← secpFe q; pure (Function.update reg d ⟨v, m⟩))
      (pure (Function.update ideal d x))
      (fun reg' _ ideal' => FieldSim R ideal' reg') r g :=
  Refines.invoke_bind trivial fun v hv => Refines.pure (h.update (hspec v hv) h0 h32)

/-- As above, where the value of `d` stays. -/
theorem refines_refresh (h : FieldSim R ideal reg) (d : Fin 4)
    {q : FeCall T T.Fe} {m : Int} (hspec : ∀ v, R.spec q v → R.rep v (ideal d) m)
    (h0 : 0 ≤ m) (h32 : m ≤ 32) :
    Refines reader R.contract (do let v ← secpFe q; pure (Function.update reg d ⟨v, m⟩))
      (pure ideal) (fun reg' _ ideal' => FieldSim R ideal' reg') r g :=
  Refines.invoke_bind trivial fun v hv => Refines.pure (h.refresh (hspec v hv) h0 h32)

/-- Every op does what the ideal machine does, whatever the registers `d`,
`a` and `b` are. -/
theorem refines_fieldSwitch (h : FieldSim R ideal reg) (d a b : Fin 4) (op : FieldOp) :
    Refines reader R.contract (fieldSwitch reg d a b op) (idealFieldSwitch ideal d a b op)
      (fun reg' _ ideal' => FieldSim R ideal' reg') r g := by
  have hweak := R.weakenOk ideal
  cases op with
  | setB32Mod =>
      refine refines_readerTake fun b32 r' => ?_
      exact refines_assign h d (fun v hv => hv) (by omega) (by omega)
  | setB32Limit =>
      refine refines_readerTake fun b32 r' => Refines.invoke_bind trivial fun x hv => ?_
      obtain ⟨ret, v⟩ := x
      obtain ⟨hret, hrep⟩ := hv
      refine refines_transcriptInt hret ?_
      subst hret
      by_cases hlt : natOfBytes b32.toList < secpP
      · rw [if_pos ((flag_ne_zero _).mpr (decide_eq_true hlt)), if_pos hlt]
        exact Refines.pure (h.update (hrep hlt) (by omega) (by omega))
      · rw [if_neg ((flag_ne_zero _).not.mpr (by simpa using hlt)), if_neg hlt]
        refine refines_assign h d (fun v hv => ?_) (by omega) (by omega)
        have hv' := hv (by omega) (by omega)
        simpa using hv'
  | add =>
      rw [fieldSwitch, ← bind_assoc]
      refine Refines.silent_bind (sat_fieldFit hweak h d a fun reg' h' hle =>
        ⟨rfl, rfl, ?_⟩)
      obtain ⟨hd, hd0, -⟩ := h' d
      obtain ⟨ha, ha0, -⟩ := h' a
      exact refines_assign h' d (fun v hv => hv _ _ _ _ hd ha hle) (by omega) hle
  | addInt =>
      refine Refines.silent_bind (sat_fieldLimit hweak h d (by omega) fun reg' h' hd _ =>
        ⟨rfl, rfl, ?_⟩)
      obtain ⟨hrep, h0, -⟩ := h' d
      refine refines_readerU16 fun k r' => ?_
      have hk : k % 0x8000 < 0x8000 := Nat.mod_lt _ (by omega)
      refine refines_assign h' d (fun v hv => ?_) (by omega) (by omega)
      have hv' := hv _ _ hrep (by omega) (by omega) hd
      rwa [Int.cast_natCast] at hv'
  | mul =>
      refine Refines.silent_bind (sat_fieldLimit hweak h a (by omega) fun reg₁ h₁ ha _ =>
        ⟨rfl, rfl, ?_⟩)
      refine Refines.silent_bind
        (sat_fieldLimit hweak h₁ b (by omega) fun reg₂ h₂ hb hkeep => ⟨rfl, rfl, ?_⟩)
      have ha₂ := hkeep a ha
      refine refines_assign h₂ d (fun v hv => ?_) (by omega) (by omega)
      exact hv _ _ _ _ (h₂ a).1 (h₂ b).1 ha₂ hb FePtr.noConfusion FePtr.noConfusion
  | sqr =>
      refine Refines.silent_bind (sat_fieldLimit hweak h a (by omega) fun reg' h' ha _ =>
        ⟨rfl, rfl, ?_⟩)
      exact refines_assign h' d (fun v hv => hv _ _ (h' a).1 ha) (by omega) (by omega)
  | negate =>
      refine Refines.silent_bind (sat_fieldLimit hweak h a (by omega) fun reg' h' ha _ =>
        ⟨rfl, rfl, ?_⟩)
      refine refines_readerU8 fun k r' => ?_
      obtain ⟨hrep, h0, -⟩ := h' a
      obtain ⟨hle, h31⟩ := negate_bound h0 ha k
      exact refines_assign h' d (fun v hv => hv _ _ hrep hle h31) (by omega) (by omega)
  | mulInt =>
      refine refines_readerU8 fun k r' => ?_
      have hk : k % 33 < 33 := Nat.mod_lt _ (by omega)
      refine Refines.silent_bind
        (sat_fieldFactor hweak h d (by omega) fun reg' h' hle => ⟨rfl, rfl, ?_⟩)
      obtain ⟨hrep, h0, -⟩ := h' d
      refine refines_assign h' d (fun v hv => ?_) (mul_nonneg h0 (by omega)) ?_
      · have hv' := hv _ _ hrep (by omega) (by omega) hle
        rwa [mul_comm ((k % 33 : ℕ) : Int), Int.cast_natCast] at hv'
      · rw [mul_comm]
        exact hle
  | half =>
      refine Refines.silent_bind (sat_fieldLimit hweak h d (by omega) fun reg' h' hd _ =>
        ⟨rfl, rfl, ?_⟩)
      obtain ⟨hrep, h0, -⟩ := h' d
      obtain ⟨hh0, hh⟩ := half_bound h0 hd
      exact refines_assign h' d (fun v hv => hv _ _ hrep hd) (by omega) (by omega)
  | normalize =>
      exact refines_refresh h d (fun v hv => (hv _ _ (h d).1).1) (by omega) (by omega)
  | normalizeWeak =>
      exact refines_refresh h d (fun v hv => hv _ _ (h d).1) (by omega) (by omega)
  | normalizeVar =>
      exact refines_refresh h d (fun v hv => (hv _ _ (h d).1).1) (by omega) (by omega)
  | inv =>
      exact refines_assign h d (fun v hv => hv _ _ (h a).1) (by split <;> omega)
        (by split <;> omega)
  | invVar =>
      exact refines_assign h d (fun v hv => hv _ _ (h a).1) (by split <;> omega)
        (by split <;> omega)
  | sqrt =>
      refine Refines.silent_bind (sat_fieldLimit hweak h a (by omega) fun reg' h' ha _ =>
        ⟨rfl, rfl, ?_⟩)
      refine Refines.invoke_bind trivial fun x hv => ?_
      obtain ⟨ret, tmp⟩ := x
      obtain ⟨hret, hrep⟩ := hv _ _ (h' a).1 ha FePtr.noConfusion
      exact refines_transcriptInt hret
        (Refines.pure (h'.update hrep (by omega) (by omega)))
  | cmov =>
      refine refines_readerU8 fun k r' => ?_
      obtain ⟨hd, hd0, hd32⟩ := h d
      obtain ⟨ha, ha0, ha32⟩ := h a
      rw [ofNat_and_one]
      refine refines_assign h d (fun v hv => ?_) (by split <;> omega) (by split <;> omega)
      have hv' := hv _ _ _ _ hd ha (flag_zero_or_one _)
      have hmax : (if (reg d).mag > (reg a).mag then (reg d).mag else (reg a).mag)
          = max (reg d).mag (reg a).mag := by
        split <;> omega
      rw [hmax]
      simpa only [flag_eq_one, decide_eq_true_eq] using hv'
  | storage =>
      refine Refines.invoke_bind trivial fun v hv => ?_
      obtain ⟨hrep, hnorm⟩ := hv _ _ (h d).1
      refine Refines.invoke_bind trivial fun s hs => ?_
      have hstored : R.stored s (ideal d) := hs _ _ hrep hnorm
      exact refines_refresh h d (fun v hv => hv _ hstored) (by omega) (by omega)
  | query =>
      refine Refines.bind (refines_fieldQuery (h a).1 (h b).1) fun _ _ _ _ _ => ?_
      exact Refines.pure h

theorem refines_fieldStep (h : FieldSim R ideal reg) :
    Refines reader R.contract (fieldStep reg) (idealFieldStep ideal)
      (fun reg' _ ideal' => FieldSim R ideal' reg') r g := by
  refine refines_readerU8 fun op r' => refines_readerU8 fun sel r'' =>
    refines_transcriptU8 ?_
  refine Refines.bind (refines_fieldSwitch h _ _ _ _) fun reg' _ ideal' _ h' => ?_
  refine Refines.bind (refines_fieldRecord (h' _).1) fun _ _ _ _ _ => ?_
  exact Refines.pure h'

theorem sat_fieldInit_sim :
    Sat reader R.contract fieldInit r g fun reg r' _ os =>
      r' = r ∧ os = [] ∧ FieldSim R (fun _ => 0) reg := by
  refine sat_bind.mpr ⟨trivial, fun v0 h0 => sat_bind.mpr ⟨trivial, fun v1 h1 => ?_⟩⟩
  refine sat_bind.mpr ⟨trivial, fun v2 h2 => sat_bind.mpr ⟨trivial, fun v3 h3 => ?_⟩⟩
  have hzero : ∀ v, R.spec (.setInt 0) v → R.rep v 0 0 := by
    intro v hv
    simpa using hv (le_refl 0) (by omega)
  refine ⟨rfl, rfl, fun i => ⟨?_, le_refl 0, by norm_num⟩⟩
  fin_cases i
  · exact hzero v0 h0
  · exact hzero v1 h1
  · exact hzero v2 h2
  · exact hzero v3 h3

/-- The field target over any implementation does what the ideal machine
does. -/
theorem refines_fieldOps (n : ℕ) :
    Refines reader R.contract (fieldOps n) (idealFieldOps n)
      (fun reg _ ideal => FieldSim R ideal reg) r g := by
  refine Refines.silent_bind (sat_fieldInit_sim.mono fun reg r' g' os h => ?_)
  obtain ⟨hr, hos, hsim⟩ := h
  refine ⟨hr, hos, ?_⟩
  exact Refines.loop refines_readerMore (fun _ _ _ _ h => refines_fieldStep h) n hsim

end Refines

/-- After any number of ops, the field target over a field implementation has
read what the ideal machine has read and has put the same blocks; so its
transcripts are the ideal ones, and are the same for any two
implementations. -/
theorem fieldOps_ideal {T' : Types} {σ' : Type} (R : FieldRep T) (R' : FieldRep T')
    (lib : Build T σ) (lib' : Build T' σ') (hlib : lib.Meets R.contract)
    (hlib' : lib'.Meets R'.contract) (s : σ) (s' : σ') (inp : List UInt8) :
    (∀ n, ((fieldOps n).run reader lib inp s).rest =
      ((idealFieldOps n).eval reader inp).rest ∧
      ((fieldOps n).run reader lib inp s).out = ((idealFieldOps n).eval reader inp).out) ∧
    (∀ cap, transcriptFor targetField lib s cap inp
      = transcriptOf cap ((idealFieldOps fieldMaxOps).eval reader inp).out) ∧
    ∀ cap, transcriptFor targetField lib s cap inp =
      transcriptFor targetField lib' s' cap inp := by
  have hrun : ∀ n, _ :=
    fun n => Refines.run (refines_fieldOps (R := R) (r := inp) (g := ()) n) hlib s
  have hrun' :=
    Refines.run (refines_fieldOps (R := R') (r := inp) (g := ()) fieldMaxOps) hlib' s'
  have hout := (hrun fieldMaxOps).2.2.1
  have hout' := hrun'.2.2.1
  refine ⟨fun n => ⟨(hrun n).2.1, (hrun n).2.2.1⟩, fun cap => ?_, fun cap => ?_⟩
  · exact congrArg (transcriptOf cap) hout
  · exact congrArg (transcriptOf cap) (hout.trans hout'.symm)

def refRep : FieldRep refTypes where
  rep v x m := v.val = x ∧ v.mag = m
  normalized v := v.normalized = true
  stored s x := s = x

theorem refFe_rep {β : Type} (q : FeCall refTypes β) : refRep.spec q (refFe q) := by
  cases q with
  | setInt a => exact fun _ _ => ⟨rfl, rfl⟩
  | setB32Mod b32 => exact ⟨rfl, rfl⟩
  | setB32Limit b32 => exact ⟨rfl, fun _ => ⟨rfl, rfl⟩⟩
  | add r a vr va =>
      intro x y m n hx hy _
      obtain ⟨⟨rfl, rfl⟩, ⟨rfl, rfl⟩⟩ := And.intro hx hy
      exact ⟨rfl, rfl⟩
  | mul r a b va vb =>
      intro x y m n hx hy _ _ _ _
      obtain ⟨⟨rfl, rfl⟩, ⟨rfl, rfl⟩⟩ := And.intro hx hy
      exact ⟨rfl, rfl⟩
  | addInt vr a | mulIntUnchecked vr a =>
      intro x m hx _ _ _
      obtain ⟨rfl, rfl⟩ := hx
      exact ⟨rfl, rfl⟩
  | sqr r a va | half va =>
      intro x m hx _
      obtain ⟨rfl, rfl⟩ := hx
      exact ⟨rfl, rfl⟩
  | negateUnchecked r a va k =>
      intro x m hx _ _
      obtain ⟨rfl, rfl⟩ := hx
      exact ⟨rfl, rfl⟩
  | normalize vr | normalizeVar vr => exact fun x m hx => ⟨⟨hx.1, rfl⟩, rfl⟩
  | normalizeWeak vr => exact fun x m hx => ⟨hx.1, rfl⟩
  | inv r a va | invVar r a va =>
      intro x m hx
      obtain ⟨rfl, rfl⟩ := hx
      exact ⟨rfl, rfl⟩
  | sqrt r a va =>
      intro x m hx _ _
      obtain ⟨rfl, rfl⟩ := hx
      exact ⟨rfl, rfl, rfl⟩
  | cmov r a vr va f =>
      intro x y m n hx hy _
      obtain ⟨⟨rfl, rfl⟩, ⟨rfl, rfl⟩⟩ := And.intro hx hy
      exact ⟨rfl, rfl⟩
  | toStorage va => exact fun x m hx _ => hx.1
  | fromStorage va => exact fun x hx => ⟨hx, rfl⟩
  | getB32 va | isZero va | isOdd va =>
      intro x m hx _
      obtain ⟨rfl, rfl⟩ := hx
      rfl
  | normalizesToZero va | normalizesToZeroVar va | isSquareVar va =>
      intro x m hx
      obtain ⟨rfl, rfl⟩ := hx
      rfl
  | equal va vb | cmpVar va vb =>
      intro x y m n hx hy _ _
      obtain ⟨⟨rfl, rfl⟩, ⟨rfl, rfl⟩⟩ := And.intro hx hy
      rfl

theorem refLib_rep : refLib.Meets refRep.contract := by
  intro g β q s _
  cases q with
  | fe q => exact refFe_rep q
  | _ => trivial

def lazyRep : FieldRep lazyTypes where
  rep v x m := (v.val : F) = x ∧ v.mag = m
  normalized v := 0 ≤ v.val ∧ v.val < secpP
  stored s x := ((s : ℤ) : F) = x

/-- A normalized integer is the value it stands for. -/
theorem lazyRep_val {v : LazyFe} (h : lazyRep.normalized v) :
    (v.val : F).val = v.val.toNat := by
  obtain ⟨k, hk⟩ := Int.eq_ofNat_of_zero_le h.1
  have hlt : k < secpP := by
    have := h.2
    omega
  rw [hk, Int.cast_natCast, ZMod.val_natCast, Nat.mod_eq_of_lt hlt, Int.toNat_natCast]

theorem lazyRep_reduce (k : ℤ) :
    ((k % (secpP : ℤ) : ℤ) : F) = k ∧ 0 ≤ k % (secpP : ℤ) ∧ k % (secpP : ℤ) < secpP :=
  ⟨ZMod.intCast_mod k secpP, Int.emod_nonneg _ (by decide),
    Int.emod_lt_of_pos _ (by decide)⟩

theorem intCast_val (x : F) : ((x.val : ℤ) : F) = x := by
  rw [Int.cast_natCast, ZMod.natCast_zmod_val]

theorem lazyFe_rep {β : Type} (q : FeCall lazyTypes β) : lazyRep.spec q (lazyFe q) := by
  cases q with
  | setInt a => exact fun _ _ => ⟨rfl, rfl⟩
  | setB32Mod b32 => exact ⟨Int.cast_natCast _, rfl⟩
  | setB32Limit b32 => exact ⟨rfl, fun _ => ⟨Int.cast_natCast _, rfl⟩⟩
  | add r a vr va =>
      rintro x y m n ⟨rfl, rfl⟩ ⟨rfl, rfl⟩ _
      exact ⟨Int.cast_add _ _, rfl⟩
  | mul r a b va vb =>
      rintro x y m n ⟨rfl, rfl⟩ ⟨rfl, rfl⟩ _ _ _ _
      exact ⟨Int.cast_mul _ _, rfl⟩
  | addInt vr a =>
      rintro x m ⟨rfl, rfl⟩ _ _ _
      exact ⟨Int.cast_add _ _, rfl⟩
  | mulIntUnchecked vr a =>
      rintro x m ⟨rfl, rfl⟩ _ _ _
      exact ⟨Int.cast_mul _ _, rfl⟩
  | sqr r a va =>
      rintro x m ⟨rfl, rfl⟩ _
      exact ⟨Int.cast_mul _ _, rfl⟩
  | half va =>
      rintro x m ⟨rfl, rfl⟩ _
      exact ⟨intCast_val _, rfl⟩
  | negateUnchecked r a va k =>
      rintro x m ⟨rfl, rfl⟩ _ _
      exact ⟨Int.cast_neg _, rfl⟩
  | normalize vr | normalizeVar vr =>
      rintro x m ⟨rfl, rfl⟩
      obtain ⟨hval, hnorm⟩ := lazyRep_reduce vr.val
      exact ⟨⟨hval, rfl⟩, hnorm⟩
  | normalizeWeak vr => exact fun x m hx => ⟨hx.1, rfl⟩
  | inv r a va | invVar r a va =>
      rintro x m ⟨rfl, rfl⟩
      exact ⟨intCast_val _, rfl⟩
  | sqrt r a va =>
      rintro x m ⟨rfl, rfl⟩ _ _
      exact ⟨rfl, intCast_val _, rfl⟩
  | cmov r a vr va f =>
      rintro x y m n ⟨rfl, rfl⟩ ⟨rfl, rfl⟩ _
      exact ⟨apply_ite _ _ _ _, rfl⟩
  | toStorage va => exact fun x m hx _ => hx.1
  | fromStorage va => exact fun x hx => ⟨hx, rfl⟩
  | getB32 va =>
      rintro x m ⟨rfl, rfl⟩ hnorm
      exact congrArg (bytesOfNat 32) (lazyRep_val hnorm).symm
  | isZero va =>
      rintro x m ⟨rfl, rfl⟩ hnorm
      have hzero : va.val = 0 ↔ (va.val : F) = 0 := by
        rw [← ZMod.val_eq_zero, lazyRep_val hnorm]
        have := hnorm.1
        omega
      exact congrArg flag (decide_eq_decide.mpr hzero)
  | isOdd va =>
      rintro x m ⟨rfl, rfl⟩ hnorm
      have hodd : va.val % 2 = 1 ↔ (va.val : F).val % 2 = 1 := by
        rw [lazyRep_val hnorm]
        have := hnorm.1
        omega
      exact congrArg flag (decide_eq_decide.mpr hodd)
  | normalizesToZero va | normalizesToZeroVar va | isSquareVar va =>
      rintro x m ⟨rfl, rfl⟩
      rfl
  | equal va vb =>
      rintro x y m n ⟨rfl, rfl⟩ ⟨rfl, rfl⟩ _ _
      rfl
  | cmpVar va vb =>
      rintro x y m n ⟨rfl, rfl⟩ ⟨rfl, rfl⟩ hnorm hnorm'
      rw [lazyRep_val hnorm, lazyRep_val hnorm']
      rfl

theorem lazyLib_rep : lazyLib.Meets lazyRep.contract := by
  intro g β q s _
  cases q with
  | fe q => exact lazyFe_rep q
  | _ => trivial

/-- One addition, on the input `0x02 0x24`, by a build that reduces and by
one that does not. -/
theorem refLib_fieldOps_ideal :
    (∀ n, ((fieldOps n).run reader refLib [2, 0x24] ()).rest
        = ((idealFieldOps n).eval reader [2, 0x24]).rest ∧
      ((fieldOps n).run reader refLib [2, 0x24] ()).out
        = ((idealFieldOps n).eval reader [2, 0x24]).out) ∧
    (∀ cap, transcriptFor targetField refLib () cap [2, 0x24]
      = transcriptOf cap ((idealFieldOps fieldMaxOps).eval reader [2, 0x24]).out) ∧
    ∀ cap, transcriptFor targetField refLib () cap [2, 0x24]
      = transcriptFor targetField lazyLib () cap [2, 0x24] :=
  fieldOps_ideal refRep lazyRep refLib lazyLib refLib_rep lazyLib_rep () () [2, 0x24]

end Diffsecp
