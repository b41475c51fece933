import Mathlib.Data.Fintype.Basic
import Mathlib.Tactic.FinCases
import Mathlib.Tactic.NormNum
import Diffsecp.Field.Target
import Diffsecp.Secp.Reference

/-!
# Field — Magnitude

libsecp's field contract as `src/field.h` documents it, in which every field
element has an integer magnitude, and the field target inside it: the
magnitude the harness tracks is the contract's, and every call is legal.
-/

namespace Diffsecp

open Interact

variable {T : Types} {σ : Type}

/-! ## Weakening

What the magnitudes are after the harness has weakened operands, for any
property of the registers that weakening keeps. -/

section Weaken

/-- Weakening a register is legal and keeps `Ok`. -/
structure WeakenOk (C : Contract (LibCall T) Unit) (Ok : FieldRegs T → Prop) : Prop where
  legal : ∀ v, C.req () (.fe (.normalizeWeak v))
  keeps : ∀ reg x v, Ok reg → C.spec () (.fe (.normalizeWeak (reg x).v)) v →
    Ok (Function.update reg x ⟨v, 1⟩)

variable {C : Contract (LibCall T) Unit} {Ok : FieldRegs T → Prop} (hw : WeakenOk C Ok)
  {reg : FieldRegs T} {r : List UInt8} {g : Unit}
  {Post : FieldRegs T → List UInt8 → Unit → List (List UInt8) → Prop}

include hw

/-- Weakening sets one magnitude to 1 and touches no other register. -/
theorem sat_fieldWeaken (h : Ok reg) (x : Fin 4)
    (hpost : ∀ reg', Ok reg' → (reg' x).mag = 1 → (∀ i, i ≠ x → reg' i = reg i) →
      Post reg' r g []) :
    Sat reader C (fieldWeaken reg x) r g Post := by
  refine sat_bind.mpr ⟨hw.legal _, fun v hv => ?_⟩
  have hx : (Function.update reg x ⟨v, 1⟩ x).mag = 1 := by rw [Function.update_self]
  exact hpost _ (hw.keeps reg x v h hv) hx fun i hi => Function.update_of_ne hi _ _

/-- Weakening where a bound is exceeded leaves every register that met the
bound within it. -/
theorem sat_fieldLimit (h : Ok reg) (x : Fin 4) {max : Int} (hmax : 1 ≤ max)
    (hpost : ∀ reg', Ok reg' → (reg' x).mag ≤ max →
      (∀ i, (reg i).mag ≤ max → (reg' i).mag ≤ max) → Post reg' r g []) :
    Sat reader C (fieldLimit reg x max) r g Post := by
  rw [fieldLimit]
  split
  · refine sat_fieldWeaken hw h x fun reg' hok hx hother => ?_
    refine hpost reg' hok (by omega) fun i hi => ?_
    by_cases hix : i = x
    · subst hix
      omega
    · rw [hother i hix]
      exact hi
  · exact hpost reg h (by omega) fun i hi => hi

/-- The operands of an addition are weakened until the sum fits. -/
theorem sat_fieldFit (h : Ok reg) (d a : Fin 4)
    (hpost : ∀ reg', Ok reg' → (reg' d).mag + (reg' a).mag ≤ 32 → Post reg' r g []) :
    Sat reader C (do
      let reg ← (if (reg d).mag + (reg a).mag > 32 then fieldWeaken reg d else pure reg)
      if (reg d).mag + (reg a).mag > 32 then fieldWeaken reg a
        else pure reg) r g Post := by
  have hsecond : ∀ reg', Ok reg' →
      ((reg' d).mag + (reg' a).mag ≤ 32 ∨ (reg' d).mag = 1) → Sat reader C
        (if (reg' d).mag + (reg' a).mag > 32 then fieldWeaken reg' a else pure reg')
          r g Post := by
    intro reg' h' hor
    split
    · refine sat_fieldWeaken hw h' a fun reg'' h'' ha hother => hpost reg'' h'' ?_
      by_cases hda : d = a
      · subst hda
        omega
      · rw [hother d hda]
        omega
    · exact hpost reg' h' (by omega)
  refine sat_bind.mpr ?_
  split
  · exact sat_fieldWeaken hw h d fun reg' h' hd _ => hsecond reg' h' (Or.inr hd)
  · exact hsecond reg h (Or.inl (by omega))

/-- The factor of `mulInt` is at most 32, so weakening is always enough. -/
theorem sat_fieldFactor (h : Ok reg) (d : Fin 4) {m : Int} (hm : m ≤ 32)
    (hpost : ∀ reg', Ok reg' → m * (reg' d).mag ≤ 32 → Post reg' r g []) :
    Sat reader C (if m * (reg d).mag > 32 then fieldWeaken reg d else pure reg)
      r g Post := by
  split
  · refine sat_fieldWeaken hw h d fun reg' h' hd _ => hpost reg' h' ?_
    rw [hd, mul_one]
    exact hm
  · exact hpost reg h (by omega)

end Weaken

/-- The negation bound the harness picks from an input byte: at least the
operand's magnitude and at most 31. -/
theorem negate_bound {m : Int} (h0 : 0 ≤ m) (h31 : m ≤ 31) (k : Nat) :
    m ≤ m + (k % toUnsigned (32 - m) : Nat) ∧
    m + (k % toUnsigned (32 - m) : Nat) ≤ 31 := by
  have hu : (toUnsigned (32 - m) : Int) = 32 - m := by
    rw [toUnsigned]
    omega
  have hlt : k % toUnsigned (32 - m) < toUnsigned (32 - m) := Nat.mod_lt _ (by omega)
  omega

/-- Halving keeps a magnitude of at most 31 in range. -/
theorem half_bound {m : Int} (h0 : 0 ≤ m) (h31 : m ≤ 31) :
    0 ≤ m >>> (1 : ℕ) ∧ m >>> (1 : ℕ) ≤ 15 := by
  rw [Int.shiftRight_eq_div_pow]
  omega

/-! ## The contract -/

/-- What the contract says of a field element. -/
structure FieldAttr (T : Types) where
  mag : T.Fe → Int
  normalized : T.Fe → Prop

namespace FieldAttr

variable (A : FieldAttr T)

/-- What a call needs. -/
def req {β : Type} : FeCall T β → Prop
  | .add _ _ vr va => A.mag vr + A.mag va ≤ 32
  | .addInt vr k => 0 ≤ k ∧ k ≤ 0x7FFF ∧ A.mag vr ≤ 31
  | .mul r a b va vb => A.mag va ≤ 8 ∧ A.mag vb ≤ 8 ∧ b ≠ r ∧ b ≠ a
  | .sqr _ _ va => A.mag va ≤ 8
  | .negateUnchecked _ _ va m => A.mag va ≤ m ∧ m ≤ 31
  | .mulIntUnchecked vr k => 0 ≤ k ∧ k ≤ 32 ∧ k * A.mag vr ≤ 32
  | .half vr => A.mag vr ≤ 31
  | .sqrt r a va => A.mag va ≤ 8 ∧ r ≠ a
  | .toStorage va => A.normalized va
  | .getB32 va => A.normalized va
  | .equal va vb => A.mag va ≤ 1 ∧ A.mag vb ≤ 31
  | .isZero va => A.normalized va
  | .isOdd va => A.normalized va
  | .cmpVar va vb => A.normalized va ∧ A.normalized vb
  | _ => True

/-- What a call gives. -/
def spec {β : Type} : FeCall T β → β → Prop
  | .setInt k, v => k = 0 → A.mag v = 0
  | .setB32Mod _, v => A.mag v = 1
  | .setB32Limit _, (ret, v) => ret ≠ 0 → A.mag v = 1
  | .add _ _ vr va, v => A.mag v = A.mag vr + A.mag va
  | .addInt vr _, v => A.mag v = A.mag vr + 1
  | .mul _ _ _ _ _, v => A.mag v = 1
  | .sqr _ _ _, v => A.mag v = 1
  | .negateUnchecked _ _ _ m, v => A.mag v = m + 1
  | .mulIntUnchecked vr k, v => A.mag v = k * A.mag vr
  | .half vr, v => A.mag v = (A.mag vr >>> (1 : ℕ)) + 1
  | .normalize _, v => A.mag v = 1 ∧ A.normalized v
  | .normalizeWeak _, v => A.mag v = 1
  | .normalizeVar _, v => A.mag v = 1 ∧ A.normalized v
  | .inv _ _ va, v => A.mag v = if A.mag va ≠ 0 then 1 else 0
  | .invVar _ _ va, v => A.mag v = if A.mag va ≠ 0 then 1 else 0
  | .sqrt _ _ _, (_, v) => A.mag v = 1
  | .cmov _ _ vr va _, v => A.mag v = max (A.mag vr) (A.mag va)
  | .fromStorage _, v => A.mag v = 1
  | _, _ => True

/-- The field contract on the whole library. -/
def contract : Contract (LibCall T) Unit :=
  .stateless
    (fun {β} (q : LibCall T β) => match q with
      | .fe q => A.req q
      | _ => True)
    (fun {β} (q : LibCall T β) (a : β) => match β, q, a with
      | _, .fe q, a => A.spec q a
      | _, _, _ => True)

@[simp] theorem contract_req {β : Type} (g : Unit) (q : FeCall T β) :
    A.contract.req g (.fe q) ↔ A.req q := Iff.rfl

@[simp] theorem contract_spec {β : Type} (g : Unit) (q : FeCall T β) (a : β) :
    A.contract.spec g (.fe q) a ↔ A.spec q a := Iff.rfl

end FieldAttr

/-! ## The invariant -/

/-- The tracked magnitude is the contract's, and in range. -/
def FieldOk (A : FieldAttr T) (reg : FieldRegs T) : Prop :=
  ∀ i, (reg i).mag = A.mag (reg i).v ∧ 0 ≤ (reg i).mag ∧ (reg i).mag ≤ 32

theorem FieldOk.update {A : FieldAttr T} {reg : FieldRegs T} (h : FieldOk A reg)
    {d : Fin 4} {v : T.Fe} {m : Int} (hv : A.mag v = m) (h0 : 0 ≤ m) (h32 : m ≤ 32) :
    FieldOk A (Function.update reg d ⟨v, m⟩) := by
  intro i
  by_cases hi : i = d
  · subst hi
    simp only [Function.update_self]
    exact ⟨hv.symm, h0, h32⟩
  · simp only [Function.update_of_ne hi]
    exact h i

/-- Weakening is legal and gives magnitude 1. -/
theorem FieldAttr.weakenOk (A : FieldAttr T) : WeakenOk A.contract (FieldOk A) :=
  ⟨fun _ => trivial, fun _ _ _ h hv => h.update hv (by omega) (by omega)⟩

section Invariant

variable {A : FieldAttr T} {reg : FieldRegs T} {r : List UInt8} {g : Unit}

/-- Recording reads a normalized copy. -/
theorem sat_fieldRecord {v : T.Fe}
    {Post : Unit → List UInt8 → Unit → List (List UInt8) → Prop}
    (hpost : ∀ os, Post () r g os) : Sat reader A.contract (fieldRecord v) r g Post := by
  refine sat_bind.mpr ⟨trivial, fun n hn => ?_⟩
  exact sat_bind.mpr ⟨hn.2, fun b32 _ => hpost _⟩

/-- The predicates read weakly normalized, then normalized copies. -/
theorem sat_fieldQuery {a b : FieldReg T}
    {Post : Unit → List UInt8 → Unit → List (List UInt8) → Prop}
    (hpost : ∀ os, Post () r g os) :
    Sat reader A.contract (fieldQuery a b) r g Post := by
  simp only [fieldQuery, transcriptInt, transcriptU32, sat_bind, sat_invoke, sat_emit,
    FieldAttr.contract_req, FieldAttr.contract_spec, FieldAttr.req,
    FieldAttr.spec, true_and,
    forall_const]
  intro _ _ _ x hx y hy
  refine ⟨⟨by omega, by omega⟩, ?_⟩
  intro _ x hx y hy
  exact ⟨hx.2, fun _ => ⟨hx.2, fun _ => ⟨⟨hx.2, hy.2⟩, fun _ => hpost _⟩⟩⟩

/-- The common end of an op: one legal call whose result goes to `d`. -/
theorem sat_assign (h : FieldOk A reg) (d : Fin 4) {q : FeCall T T.Fe} {m : Int}
    (hreq : A.req q) (hspec : ∀ v, A.spec q v → A.mag v = m) (h0 : 0 ≤ m) (h32 : m ≤ 32) :
    Sat reader A.contract (do let v ← secpFe q; pure (Function.update reg d ⟨v, m⟩)) r g
      fun reg' _ _ _ => FieldOk A reg' :=
  sat_bind.mpr ⟨hreq, fun v hv => h.update (hspec v hv) h0 h32⟩

/-- Every op makes only legal calls and keeps the invariant, whatever the
registers `d`, `a` and `b` are. -/
theorem sat_fieldSwitch (h : FieldOk A reg) (d a b : Fin 4) (op : FieldOp) :
    Sat reader A.contract (fieldSwitch reg d a b op) r g fun reg' _ _ _ =>
      FieldOk A reg' := by
  cases op with
  | setB32Mod =>
      exact sat_bind.mpr (sat_assign h d trivial (fun v hv => hv) (by omega) (by omega))
  | setB32Limit =>
      refine sat_bind.mpr (sat_bind.mpr ⟨trivial, fun ⟨ret, v⟩ hv => sat_bind.mpr ?_⟩)
      by_cases hret : ret = 0
      · simp only [hret, ne_eq, not_true, if_false]
        exact sat_assign h d trivial (fun v hv => hv rfl) (by omega) (by omega)
      · simp only [hret, ne_eq, not_false_eq_true, if_true]
        exact h.update (hv hret) (by omega) (by omega)
  | add =>
      rw [fieldSwitch, ← bind_assoc]
      refine sat_bind.mpr (sat_fieldFit A.weakenOk h d a fun reg' h' hle => ?_)
      have hd := h' d
      have ha := h' a
      refine sat_assign h' d ?_ (fun v hv => ?_) (by omega) hle
      · show A.mag _ + A.mag _ ≤ 32
        omega
      · have hv' : A.mag v = A.mag (reg' d).v + A.mag (reg' a).v := hv
        omega
  | addInt =>
      refine sat_bind.mpr
        (sat_fieldLimit A.weakenOk h d (by omega) fun reg' h' hd _ => ?_)
      have hmag := h' d
      refine sat_bind.mpr (sat_readerU16 fun k r' => ?_)
      have hk : k % 0x8000 < 0x8000 := Nat.mod_lt _ (by omega)
      refine sat_assign h' d ⟨by omega, by omega, by omega⟩ (fun v hv => ?_)
        (by omega) (by omega)
      have hv' : A.mag v = A.mag (reg' d).v + 1 := hv
      omega
  | mul =>
      refine sat_bind.mpr
        (sat_fieldLimit A.weakenOk h a (by omega) fun reg₁ h₁ ha _ => ?_)
      refine sat_bind.mpr
        (sat_fieldLimit A.weakenOk h₁ b (by omega) fun reg₂ h₂ hb hkeep => ?_)
      have ha₂ := h₂ a
      have hb₂ := h₂ b
      have := hkeep a ha
      refine sat_assign h₂ d ⟨by omega, by omega, ?_, ?_⟩ (fun v hv => hv)
        (by omega) (by omega)
      · exact FePtr.noConfusion
      · exact FePtr.noConfusion
  | sqr =>
      refine sat_bind.mpr
        (sat_fieldLimit A.weakenOk h a (by omega) fun reg' h' ha _ => ?_)
      have hmag := h' a
      refine sat_assign h' d ?_ (fun v hv => hv) (by omega) (by omega)
      show A.mag _ ≤ 8
      omega
  | negate =>
      refine sat_bind.mpr
        (sat_fieldLimit A.weakenOk h a (by omega) fun reg' h' ha _ => ?_)
      refine sat_bind.mpr (sat_readerU8 fun k r' => ?_)
      have hmag := h' a
      have hm := negate_bound hmag.2.1 ha k
      refine sat_assign h' d ⟨by omega, hm.2⟩ (fun v hv => hv) (by omega) (by omega)
  | mulInt =>
      refine sat_bind.mpr (sat_readerU8 fun k r' => ?_)
      have hk : k % 33 < 33 := Nat.mod_lt _ (by omega)
      refine sat_bind.mpr
        (sat_fieldFactor A.weakenOk h d (by omega) fun reg' h' hle => ?_)
      have hmag := h' d
      refine sat_assign h' d ⟨by omega, by omega, ?_⟩ (fun v hv => ?_) ?_ ?_
      · rw [← hmag.1]
        exact hle
      · have hv' : A.mag v = _ * A.mag (reg' d).v := hv
        rw [hv', hmag.1, mul_comm]
      · exact mul_nonneg hmag.2.1 (by omega)
      · rw [mul_comm]
        exact hle
  | half =>
      refine sat_bind.mpr
        (sat_fieldLimit A.weakenOk h d (by omega) fun reg' h' hd _ => ?_)
      have hmag := h' d
      have hhalf := half_bound hmag.2.1 hd
      refine sat_assign h' d ?_ (fun v hv => ?_) (by omega) (by omega)
      · show A.mag _ ≤ 31
        omega
      · rw [hmag.1]
        exact hv
  | normalize => exact sat_assign h d trivial (fun v hv => hv.1) (by omega) (by omega)
  | normalizeWeak => exact sat_assign h d trivial (fun v hv => hv) (by omega) (by omega)
  | normalizeVar => exact sat_assign h d trivial (fun v hv => hv.1) (by omega) (by omega)
  | inv =>
      refine sat_assign h d trivial (fun v hv => ?_) (by split <;> omega)
        (by split <;> omega)
      rw [(h a).1]
      exact hv
  | invVar =>
      refine sat_assign h d trivial (fun v hv => ?_) (by split <;> omega)
        (by split <;> omega)
      rw [(h a).1]
      exact hv
  | sqrt =>
      refine sat_bind.mpr
        (sat_fieldLimit A.weakenOk h a (by omega) fun reg' h' ha _ => ?_)
      have hmag := h' a
      refine sat_bind.mpr ⟨⟨by omega, FePtr.noConfusion⟩, fun ⟨ret, tmp⟩ hv => ?_⟩
      exact sat_bind.mpr (h'.update hv (by omega) (by omega))
  | cmov =>
      refine sat_bind.mpr (sat_readerU8 fun k r' => ?_)
      have hd := h d
      have ha := h a
      refine sat_assign h d trivial (fun v hv => ?_) (by split <;> omega)
        (by split <;> omega)
      have hv' : A.mag v = max (A.mag (reg d).v) (A.mag (reg a).v) := hv
      split <;> omega
  | storage =>
      refine sat_bind.mpr ⟨trivial, fun v hv => sat_bind.mpr ⟨hv.2, fun s _ => ?_⟩⟩
      exact sat_assign h d trivial (fun v hv => hv) (by omega) (by omega)
  | query => exact sat_bind.mpr (sat_fieldQuery fun _ => h)

/-- One round keeps the invariant. -/
theorem sat_fieldStep (h : FieldOk A reg) :
    Sat reader A.contract (fieldStep reg) r g fun reg' _ _ _ => FieldOk A reg' := by
  refine sat_bind.mpr (sat_readerU8 fun op r' =>
    sat_bind.mpr (sat_readerU8 fun sel r'' => ?_))
  refine sat_bind.mpr
    (sat_bind.mpr ((sat_fieldSwitch h _ _ _ _).mono fun reg' _ _ _ h' => ?_))
  exact sat_bind.mpr (sat_fieldRecord fun _ => h')

/-- The registers start at zero, of magnitude 0. -/
theorem sat_fieldInit :
    Sat reader A.contract fieldInit r g fun reg _ _ _ => FieldOk A reg := by
  refine sat_bind.mpr ⟨trivial, fun v0 h0 => sat_bind.mpr ⟨trivial, fun v1 h1 => ?_⟩⟩
  refine sat_bind.mpr ⟨trivial, fun v2 h2 => sat_bind.mpr ⟨trivial, fun v3 h3 => ?_⟩⟩
  intro i
  refine ⟨?_, le_refl 0, by norm_num⟩
  fin_cases i
  · exact (h0 rfl).symm
  · exact (h1 rfl).symm
  · exact (h2 rfl).symm
  · exact (h3 rfl).symm

/-- Any number of rounds keeps the invariant. -/
theorem sat_fieldOps (n : Nat) :
    Sat reader A.contract (fieldOps n) r g fun reg _ _ _ => FieldOk A reg :=
  sat_bind.mpr (sat_fieldInit.mono fun _ _ _ _ h =>
    Sat.loop sat_readerMore (fun _ _ _ => sat_fieldStep) n h)

end Invariant

/-- Run the field target for any number of ops: the magnitude tracked for
each register is the contract's and lies in 0..32, and every field call met
its requirement. -/
theorem fieldOps_magnitude (A : FieldAttr T) (lib : Build T σ)
    (hlib : lib.Meets A.contract) (s : σ) (inp : List UInt8) (n : Nat) :
    (∀ i, (((fieldOps n).run reader lib inp s).val i).mag
        = A.mag (((fieldOps n).run reader lib inp s).val i).v ∧
      0 ≤ (((fieldOps n).run reader lib inp s).val i).mag ∧
      (((fieldOps n).run reader lib inp s).val i).mag ≤ 32) ∧
    ∀ e ∈ ((fieldOps n).run reader lib inp s).log, A.contract.req () e.op := by
  obtain ⟨hkept, hok⟩ := Sat.run (sat_fieldOps (A := A) (r := inp) (g := ()) n) hlib s
  exact ⟨hok, Contract.stateless_kept.mp hkept⟩

def refAttr : FieldAttr refTypes := ⟨RefFe.mag, fun v => v.normalized = true⟩

theorem refFe_magnitude {β : Type} (q : FeCall refTypes β) :
    refAttr.spec q (refFe q) := by
  cases q with
  | setInt a => exact fun ha => if_neg (not_not.mpr ha)
  | setB32Limit b32 => exact fun _ => rfl
  | normalize vr => exact ⟨rfl, rfl⟩
  | normalizeVar vr => exact ⟨rfl, rfl⟩
  | toStorage | getB32 | normalizesToZero | normalizesToZeroVar | isSquareVar
  | equal | isZero
  | isOdd | cmpVar => trivial
  | _ => rfl

theorem refLib_magnitude : refLib.Meets refAttr.contract := by
  intro g β q s _
  cases q with
  | fe q => exact refFe_magnitude q
  | _ => trivial

/-- Two ops on the input `0x06 0x24 0x05 0x02 0x00`: a negation of magnitude 0
with the bound 5, then the addition of the result to another register. -/
theorem refLib_fieldOps_magnitude :
    (∀ i, (((fieldOps 2).run reader refLib [6, 0x24, 5, 2, 0] ()).val i).mag
        = refAttr.mag (((fieldOps 2).run reader refLib [6, 0x24, 5, 2, 0] ()).val i).v ∧
      0 ≤ (((fieldOps 2).run reader refLib [6, 0x24, 5, 2, 0] ()).val i).mag ∧
      (((fieldOps 2).run reader refLib [6, 0x24, 5, 2, 0] ()).val i).mag ≤ 32) ∧
    ∀ e ∈ ((fieldOps 2).run reader refLib [6, 0x24, 5, 2, 0] ()).log,
      refAttr.contract.req () e.op :=
  fieldOps_magnitude refAttr refLib refLib_magnitude () [6, 0x24, 5, 2, 0] 2

end Diffsecp
