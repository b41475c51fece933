import Mathlib.Tactic.FinCases
import Diffsecp.Scalar.Target
import Diffsecp.Secp.Reference

/-!
# Scalar — Ideal

The scalar target over `ZMod n`. The ideal machine has four registers, each
op reads `a`, `b` and `d` before it writes, and the splits write `d` and then
`b`. A scalar implementation is any library whose calls are correct on
reduced scalars and outputs that alias no input; the scalar target over any
of them does what the ideal machine does, and never leaves the contract.
-/

namespace Diffsecp

set_option linter.constructorNameAsVariable false

open Interact

variable {T : Types} {σ : Type}

/-! ## The ideal machine -/

/-- The decomposition `secp256k1_scalar_split_lambda` computes. -/
structure LambdaSplit where
  lambda : Zn
  split : Zn → Zn × Zn
  split_sum : ∀ k, (split k).1 + (split k).2 * lambda = k

abbrev IdealScalar := Fin 4 → Zn

def idealScalarRecord (x : Zn) : Ideal Unit :=
  transcriptBytes (bytesOfNat 32 x.val).toList

def idealScalarQuery (x y : Zn) : Ideal Unit := do
  transcriptInt (flag (x = 0))
  transcriptInt (flag (x = 1))
  transcriptInt (flag (x.val % 2 = 0))
  transcriptInt (flag (secpN / 2 < x.val))
  transcriptInt (flag (x = y))
  let count ← readerU8
  let count := 1 + count % 32
  let offset ← readerU16
  let offset := offset % (257 - count)
  transcriptU32 (scalarBits x offset count)
  let count ← readerU8
  let count := 1 + count % 32
  let limb ← readerU8
  let limb := limb % 8
  let offset ← readerU8
  let offset := 32 * limb + offset % (33 - count)
  transcriptU32 (scalarBits x offset count)

def idealScalarSwitch (G : LambdaSplit) (reg : IdealScalar) (d b : Fin 4) (x y : Zn) :
    ScalarOp → Ideal IdealScalar
  | .setB32 => do
      let b32 ← readerTake 32
      let v := natOfBytes b32.toList
      transcriptInt (flag (secpN ≤ v))
      pure (Function.update reg d v)
  | .setB32Seckey => do
      let b32 ← readerTake 32
      let v := natOfBytes b32.toList
      transcriptInt (flag (0 < v ∧ v < secpN))
      pure (Function.update reg d v)
  | .add => do
      transcriptInt (flag (secpN ≤ x.val + y.val))
      pure (Function.update reg d (x + y))
  | .mul => pure (Function.update reg d (x * y))
  | .negate => pure (Function.update reg d (-x))
  | .half => pure (Function.update reg d (x * 2⁻¹))
  | .inverse | .inverseVar => pure (Function.update reg d x⁻¹)
  | .condNegate => do
      let k ← readerU8
      transcriptInt (if k % 2 = 1 then -1 else 1)
      pure (Function.update reg d (if k % 2 = 1 then -reg d else reg d))
  | .cmov => do
      let k ← readerU8
      pure (Function.update reg d (if k % 2 = 1 then x else reg d))
  | .split128 => do
      let hi : Zn := (x.val / 2 ^ 128 : ℕ)
      idealScalarRecord hi
      pure (Function.update (Function.update reg d (x.val % 2 ^ 128 : ℕ)) b hi)
  | .splitLambda => do
      idealScalarRecord (G.split x).2
      pure (Function.update (Function.update reg d (G.split x).1) b (G.split x).2)
  | .mulShiftVar => do
      let k ← readerU8
      pure (Function.update reg d (mulShift x y (256 + k)))
  | .query => do
      idealScalarQuery x y
      pure reg

def idealScalarStep (G : LambdaSplit) (reg : IdealScalar) : Ideal IdealScalar := do
  let op ← readerU8
  let op := op % scalarOpCount
  let sel ← readerU8
  let d := selReg sel 0
  let b := selReg sel 2
  transcriptU8 op
  let reg ← idealScalarSwitch G reg d b (reg (selReg sel 1)) (reg b) (ScalarOp.cast op)
  idealScalarRecord (reg d)
  pure reg

def idealScalarOps (G : LambdaSplit) (n : ℕ) : Ideal IdealScalar :=
  Prog.loop readerMore (idealScalarStep G) n fun _ => 0

/-! ## Implementations -/

/-- What a build's scalars stand for: `val v` is the number `v` spells. -/
structure ScalarRep (T : Types) where
  val : T.Scalar → ℕ

namespace ScalarRep

variable (R : ScalarRep T) (G : LambdaSplit)

def reduced (v : T.Scalar) : Prop := R.val v < secpN

/-- `v` is the reduced scalar of `x`. -/
def rep (v : T.Scalar) (x : Zn) : Prop := R.val v = x.val

/-- What a call needs: reduced operands, outputs that alias no input, and
operands in range. -/
def req {β : Type} : ScalarCall T β → Prop
  | .add r a b va vb => R.reduced va ∧ R.reduced vb ∧ r ≠ a ∧ r ≠ b
  | .mul r a b va vb => R.reduced va ∧ R.reduced vb ∧ r ≠ a ∧ r ≠ b
  | .negate r a va => R.reduced va ∧ r ≠ a
  | .half r a va => R.reduced va ∧ r ≠ a
  | .inverse r a va => R.reduced va ∧ r ≠ a
  | .inverseVar r a va => R.reduced va ∧ r ≠ a
  | .condNegate vr f => R.reduced vr ∧ (f = 0 ∨ f = 1)
  | .cmov r a vr va f => R.reduced vr ∧ R.reduced va ∧ r ≠ a ∧ (f = 0 ∨ f = 1)
  | .split128 r1 r2 a va => R.reduced va ∧ r1 ≠ a ∧ r2 ≠ a ∧ r1 ≠ r2
  | .splitLambda r1 r2 a va => R.reduced va ∧ r1 ≠ a ∧ r2 ≠ a ∧ r1 ≠ r2
  | .mulShiftVar r a b va vb shift =>
      R.reduced va ∧ R.reduced vb ∧ r ≠ a ∧ r ≠ b ∧ 256 ≤ shift ∧ shift ≤ 512
  | .getB32 va => R.reduced va
  | .isZero va => R.reduced va
  | .isOne va => R.reduced va
  | .isEven va => R.reduced va
  | .isHigh va => R.reduced va
  | .eq va vb => R.reduced va ∧ R.reduced vb
  | .getBitsVar va offset count =>
      R.reduced va ∧ 1 ≤ count ∧ count ≤ 32 ∧ offset + count ≤ 256
  | .getBitsLimb32 va offset count =>
      R.reduced va ∧ 1 ≤ count ∧ count ≤ 32 ∧ offset + count ≤ 256 ∧
        offset / 32 = (offset + count - 1) / 32
  | _ => True

/-- What a call gives. -/
def spec {β : Type} : ScalarCall T β → β → Prop
  | .setInt k, v => k < 2 ^ 32 → R.rep v k
  | .setB32 b32, (v, overflow) =>
      R.rep v (natOfBytes b32.toList) ∧ overflow = flag (secpN ≤ natOfBytes b32.toList)
  | .setB32Seckey b32, (ret, v) =>
      R.rep v (natOfBytes b32.toList) ∧
        ret = flag (0 < natOfBytes b32.toList ∧ natOfBytes b32.toList < secpN)
  | .add _ _ _ va vb, (ret, v) =>
      ∀ x y, R.rep va x → R.rep vb y → ret = flag (secpN ≤ x.val + y.val) ∧
        R.rep v (x + y)
  | .mul _ _ _ va vb, v => ∀ x y, R.rep va x → R.rep vb y → R.rep v (x * y)
  | .negate _ _ va, v => ∀ x, R.rep va x → R.rep v (-x)
  | .half _ _ va, v => ∀ x, R.rep va x → R.rep v (x * 2⁻¹)
  | .inverse _ _ va, v => ∀ x, R.rep va x → R.rep v x⁻¹
  | .inverseVar _ _ va, v => ∀ x, R.rep va x → R.rep v x⁻¹
  | .condNegate vr f, (ret, v) =>
      ∀ x, R.rep vr x → ret = (if f = 1 then -1 else 1) ∧
        R.rep v (if f = 1 then -x else x)
  | .cmov _ _ vr va f, v =>
      ∀ x y, R.rep vr x → R.rep va y → R.rep v (if f = 1 then y else x)
  | .split128 _ _ _ va, (v1, v2) =>
      ∀ x, R.rep va x → R.val v1 = x.val % 2 ^ 128 ∧ R.val v2 = x.val / 2 ^ 128
  | .splitLambda _ _ _ va, (v1, v2) =>
      ∀ x, R.rep va x → R.rep v1 (G.split x).1 ∧ R.rep v2 (G.split x).2
  | .mulShiftVar _ _ _ va vb shift, v =>
      ∀ x y, R.rep va x → R.rep vb y → R.val v = mulShift x y shift
  | .getB32 va, b32 => ∀ x, R.rep va x → b32 = bytesOfNat 32 x.val
  | .isZero va, ret => ∀ x, R.rep va x → ret = flag (x = 0)
  | .isOne va, ret => ∀ x, R.rep va x → ret = flag (x = 1)
  | .isEven va, ret => ∀ x, R.rep va x → ret = flag (x.val % 2 = 0)
  | .isHigh va, ret => ∀ x, R.rep va x → ret = flag (secpN / 2 < x.val)
  | .eq va vb, ret => ∀ x y, R.rep va x → R.rep vb y → ret = flag (x = y)
  | .getBitsVar va offset count, bits =>
      ∀ x, R.rep va x → bits = scalarBits x offset count
  | .getBitsLimb32 va offset count, bits =>
      ∀ x, R.rep va x → bits = scalarBits x offset count

/-- The scalar implementations: nothing is asked of the rest of the
library. -/
def contract : Contract (LibCall T) Unit :=
  .stateless
    (fun {β} (q : LibCall T β) => match q with
      | .scalar q => R.req q
      | _ => True)
    (fun {β} (q : LibCall T β) (a : β) => match β, q, a with
      | _, .scalar q, a => R.spec G q a
      | _, _, _ => True)

end ScalarRep

/-! ## Ranges -/

theorem secpN_bounds : 2 ^ 128 < secpN ∧ secpN < 2 ^ 256 := by decide +kernel

/-- The rounded quotient of two reduced scalars by at least `2^256` is
reduced. -/
theorem mulShift_lt (x y : Zn) {shift : ℕ} (h : 256 ≤ shift) :
    mulShift x y shift < secpN := by
  obtain ⟨k, rfl⟩ := Nat.exists_eq_add_of_le h
  have hx : x.val ≤ secpN - 1 := Nat.le_sub_one_of_lt (ZMod.val_lt x)
  have hy : y.val ≤ secpN - 1 := Nat.le_sub_one_of_lt (ZMod.val_lt y)
  have hnum : (secpN - 1) * (secpN - 1) + 2 ^ 255 < secpN * 2 ^ 256 := by decide +kernel
  have hk : 0 < 2 ^ k := Nat.two_pow_pos k
  have hround : 2 ^ (256 + k - 1) = 2 ^ 255 * 2 ^ k := by
    rw [← pow_add]
    congr 1
    omega
  rw [mulShift, Nat.div_lt_iff_lt_mul (Nat.two_pow_pos _)]
  calc x.val * y.val + 2 ^ (256 + k - 1)
      ≤ (secpN - 1) * (secpN - 1) * 2 ^ k + 2 ^ 255 * 2 ^ k := by
        rw [hround]
        exact Nat.add_le_add_right
          (le_trans (Nat.mul_le_mul hx hy) (Nat.le_mul_of_pos_right _ hk)) _
    _ = ((secpN - 1) * (secpN - 1) + 2 ^ 255) * 2 ^ k := by rw [Nat.add_mul]
    _ < secpN * 2 ^ 256 * 2 ^ k := Nat.mul_lt_mul_of_pos_right hnum hk
    _ = secpN * 2 ^ (256 + k) := by rw [pow_add, mul_assoc]

theorem bits_range (c o : ℕ) :
    1 ≤ 1 + c % 32 ∧ 1 + c % 32 ≤ 32 ∧ o % (257 - (1 + c % 32)) + (1 + c % 32) ≤ 256 := by
  have hc : c % 32 < 32 := Nat.mod_lt _ (by omega)
  have ho : o % (257 - (1 + c % 32)) < 257 - (1 + c % 32) := Nat.mod_lt _ (by omega)
  omega

/-- The bits `scalarQuery` asks of one limb lie within it. -/
theorem limb_range (c l o : ℕ) :
    let count := 1 + c % 32
    let offset := 32 * (l % 8) + o % (33 - count)
    1 ≤ count ∧ count ≤ 32 ∧ offset + count ≤ 256 ∧
    offset / 32 = (offset + count - 1) / 32 := by
  intro count offset
  have hc : c % 32 < 32 := Nat.mod_lt _ (by omega)
  have hl : l % 8 < 8 := Nat.mod_lt _ (by omega)
  have ho : o % (33 - (1 + c % 32)) < 33 - (1 + c % 32) := Nat.mod_lt _ (by omega)
  have hcount : count = 1 + c % 32 := rfl
  have hoffset : offset = 32 * (l % 8) + o % (33 - (1 + c % 32)) := rfl
  omega

/-! ## The simulation -/

def ScalarSim (R : ScalarRep T) (ideal : IdealScalar) (reg : ScalarRegs T) : Prop :=
  ∀ i, R.rep (reg i) (ideal i)

section Refines

variable {R : ScalarRep T} {G : LambdaSplit} {ideal : IdealScalar} {reg : ScalarRegs T}
  {r : List UInt8} {g : Unit}

/-- A represented scalar is reduced. -/
theorem ScalarRep.rep.reduced {v : T.Scalar} {x : Zn} (h : R.rep v x) : R.reduced v := by
  rw [ScalarRep.reduced, show R.val v = x.val from h]
  exact ZMod.val_lt x

theorem rep_of_lt {v : T.Scalar} {n : ℕ} (hv : R.val v = n) (hn : n < secpN) :
    R.rep v (n : Zn) := by
  rw [ScalarRep.rep, ZMod.val_natCast_of_lt hn]
  exact hv

theorem ScalarSim.update (h : ScalarSim R ideal reg) {d : Fin 4} {v : T.Scalar} {x : Zn}
    (hv : R.rep v x) :
    ScalarSim R (Function.update ideal d x) (Function.update reg d v) := by
  intro i
  by_cases hi : i = d
  · subst hi
    simp only [Function.update_self]
    exact hv
  · simp only [Function.update_of_ne hi]
    exact h i

theorem refines_scalarRecord {v : T.Scalar} {x : Zn} (hv : R.rep v x) :
    Refines reader (R.contract G) (scalarRecord v) (idealScalarRecord x)
      (fun _ _ _ => True) r g := by
  refine Refines.invoke_bind hv.reduced fun b32 hb => ?_
  have hb32 : b32 = bytesOfNat 32 x.val := hb x hv
  exact Refines.emit (by rw [hb32]) trivial

theorem refines_scalarQuery {a b : T.Scalar} {x y : Zn} (ha : R.rep a x)
    (hb : R.rep b y) :
    Refines reader (R.contract G) (scalarQuery a b) (idealScalarQuery x y)
      (fun _ _ _ => True) r g := by
  refine Refines.invoke_bind ha.reduced fun _ h => refines_transcriptInt (h x ha) ?_
  refine Refines.invoke_bind ha.reduced fun _ h => refines_transcriptInt (h x ha) ?_
  refine Refines.invoke_bind ha.reduced fun _ h => refines_transcriptInt (h x ha) ?_
  refine Refines.invoke_bind ha.reduced fun _ h => refines_transcriptInt (h x ha) ?_
  refine Refines.invoke_bind ⟨ha.reduced, hb.reduced⟩ fun _ h =>
    refines_transcriptInt (h x y ha hb) ?_
  refine refines_readerU8 fun c _ => refines_readerU16 fun o _ => ?_
  refine Refines.invoke_bind ⟨ha.reduced, bits_range c o⟩ fun bits h => ?_
  have hbits : bits = scalarBits x (o % (257 - (1 + c % 32))) (1 + c % 32) := h x ha
  refine refines_transcriptU32 hbits ?_
  refine refines_readerU8 fun c _ => refines_readerU8 fun l _ =>
    refines_readerU8 fun o _ => ?_
  refine Refines.invoke_bind ⟨ha.reduced, limb_range c l o⟩ fun bits h => ?_
  have hbits :
      bits = scalarBits x (32 * (l % 8) + o % (33 - (1 + c % 32))) (1 + c % 32) := h x ha
  exact Refines.emit (by rw [hbits]) trivial

/-- The common end of an op: a call whose result represents the ideal one. -/
theorem refines_scalarAssign (h : ScalarSim R ideal reg) (d : Fin 4)
    {q : ScalarCall T T.Scalar} {x : Zn} (hreq : R.req q)
    (hspec : ∀ v, R.spec G q v → R.rep v x) :
    Refines reader (R.contract G)
      (do let v ← secpScalar q; pure (Function.update reg d v))
      (pure (Function.update ideal d x))
      (fun reg' _ ideal' => ScalarSim R ideal' reg') r g :=
  Refines.invoke_bind hreq fun v hv => Refines.pure (h.update (hspec v hv))

/-- Both splits: the second half is recorded, then `d` and `b` are written. -/
theorem refines_scalarSplit (h : ScalarSim R ideal reg) (d b : Fin 4)
    {q : ScalarCall T (T.Scalar × T.Scalar)} {x₁ x₂ : Zn} (hreq : R.req q)
    (hspec : ∀ v, R.spec G q v → R.rep v.1 x₁ ∧ R.rep v.2 x₂) :
    Refines reader (R.contract G)
      (do
        let (res, res2) ← secpScalar q
        scalarRecord res2
        pure (Function.update (Function.update reg d res) b res2))
      (do
        idealScalarRecord x₂
        pure (Function.update (Function.update ideal d x₁) b x₂))
      (fun reg' _ ideal' => ScalarSim R ideal' reg') r g := by
  refine Refines.invoke_bind hreq fun ⟨res, res2⟩ hv => ?_
  obtain ⟨h₁, h₂⟩ := hspec _ hv
  refine Refines.bind (refines_scalarRecord h₂) fun _ _ _ _ _ => ?_
  exact Refines.pure ((h.update h₁).update h₂)

/-- Every op does what the ideal machine does and stays inside the contract,
whatever the registers `d` and `b` are. -/
theorem refines_scalarSwitch (h : ScalarSim R ideal reg) (d b : Fin 4)
    {a y : T.Scalar} {xa xy : Zn} (ha : R.rep a xa) (hy : R.rep y xy) (op : ScalarOp) :
    Refines reader (R.contract G) (scalarSwitch reg d b a y op)
      (idealScalarSwitch G ideal d b xa xy op)
      (fun reg' _ ideal' => ScalarSim R ideal' reg') r g := by
  have hra := ha.reduced
  have hry := hy.reduced
  cases op with
  | setB32 =>
      refine refines_readerTake fun b32 r' =>
        Refines.invoke_bind trivial fun ⟨v, ret⟩ hv => ?_
      exact refines_transcriptInt hv.2 (Refines.pure (h.update hv.1))
  | setB32Seckey =>
      refine refines_readerTake fun b32 r' =>
        Refines.invoke_bind trivial fun ⟨ret, v⟩ hv => ?_
      exact refines_transcriptInt hv.2 (Refines.pure (h.update hv.1))
  | add =>
      refine Refines.invoke_bind ⟨hra, hry, ScalarPtr.noConfusion, ScalarPtr.noConfusion⟩
        fun ⟨ret, v⟩ hv => ?_
      obtain ⟨hret, hsum⟩ := hv xa xy ha hy
      exact refines_transcriptInt hret (Refines.pure (h.update hsum))
  | mul =>
      exact refines_scalarAssign h d ⟨hra, hry, ScalarPtr.noConfusion,
        ScalarPtr.noConfusion⟩ fun v hv => hv xa xy ha hy
  | negate =>
      exact refines_scalarAssign h d ⟨hra, ScalarPtr.noConfusion⟩ fun v hv => hv xa ha
  | half =>
      exact refines_scalarAssign h d ⟨hra, ScalarPtr.noConfusion⟩ fun v hv => hv xa ha
  | inverse =>
      exact refines_scalarAssign h d ⟨hra, ScalarPtr.noConfusion⟩ fun v hv => hv xa ha
  | inverseVar =>
      exact refines_scalarAssign h d ⟨hra, ScalarPtr.noConfusion⟩ fun v hv => hv xa ha
  | condNegate =>
      refine refines_readerU8 fun k r' => ?_
      rw [ofNat_and_one]
      refine Refines.invoke_bind ⟨(h d).reduced, flag_zero_or_one _⟩ fun ⟨ret, v⟩ hv => ?_
      obtain ⟨hret, hrep⟩ := hv (ideal d) (h d)
      simp only [flag_eq_one, decide_eq_true_eq] at hret hrep
      exact refines_transcriptInt hret (Refines.pure (h.update hrep))
  | cmov =>
      refine refines_readerU8 fun k r' => ?_
      rw [ofNat_and_one]
      refine refines_scalarAssign h d
        ⟨(h d).reduced, hra, ScalarPtr.noConfusion, flag_zero_or_one _⟩ fun v hv => ?_
      have hv' := hv (ideal d) xa (h d) ha
      simpa only [flag_eq_one, decide_eq_true_eq] using hv'
  | split128 =>
      have hxa := ZMod.val_lt xa
      have hbounds := secpN_bounds
      refine refines_scalarSplit h d b
        ⟨hra, ScalarPtr.noConfusion, ScalarPtr.noConfusion, ScalarPtr.noConfusion⟩
          fun v hv => ?_
      obtain ⟨h₁, h₂⟩ := hv xa ha
      have hlo : xa.val % 2 ^ 128 < 2 ^ 128 := Nat.mod_lt _ (Nat.two_pow_pos _)
      have hhi : xa.val / 2 ^ 128 ≤ xa.val := Nat.div_le_self _ _
      exact ⟨rep_of_lt h₁ (by omega), rep_of_lt h₂ (by omega)⟩
  | splitLambda =>
      exact refines_scalarSplit h d b
        ⟨hra, ScalarPtr.noConfusion, ScalarPtr.noConfusion, ScalarPtr.noConfusion⟩
        fun v hv => hv xa ha
  | mulShiftVar =>
      refine refines_readerU8_lt fun k r' hk => ?_
      refine refines_scalarAssign h d ⟨hra, hry, ScalarPtr.noConfusion,
        ScalarPtr.noConfusion, by omega, by omega⟩ fun v hv => ?_
      exact rep_of_lt (hv xa xy ha hy) (mulShift_lt xa xy (by omega))
  | query =>
      refine Refines.bind (refines_scalarQuery ha hy) fun _ _ _ _ _ => ?_
      exact Refines.pure h

theorem refines_scalarStep (h : ScalarSim R ideal reg) :
    Refines reader (R.contract G) (scalarStep reg) (idealScalarStep G ideal)
      (fun reg' _ ideal' => ScalarSim R ideal' reg') r g := by
  refine refines_readerU8 fun op r' => refines_readerU8 fun sel r'' =>
    refines_transcriptU8 ?_
  refine Refines.bind (refines_scalarSwitch h _ _ (h _) (h _) _)
    fun reg' _ ideal' _ h' => ?_
  refine Refines.bind (refines_scalarRecord (h' _)) fun _ _ _ _ _ => ?_
  exact Refines.pure h'

theorem sat_scalarInit :
    Sat reader (R.contract G) scalarInit r g fun reg r' _ os =>
      r' = r ∧ os = [] ∧ ScalarSim R (fun _ => 0) reg := by
  refine sat_bind.mpr ⟨trivial, fun v0 h0 => sat_bind.mpr ⟨trivial, fun v1 h1 => ?_⟩⟩
  refine sat_bind.mpr ⟨trivial, fun v2 h2 => sat_bind.mpr ⟨trivial, fun v3 h3 => ?_⟩⟩
  have hzero : ∀ v, R.spec G (.setInt 0) v → R.rep v 0 := by
    intro v hv
    exact_mod_cast hv (Nat.two_pow_pos 32)
  refine ⟨rfl, rfl, fun i => ?_⟩
  fin_cases i
  · exact hzero v0 h0
  · exact hzero v1 h1
  · exact hzero v2 h2
  · exact hzero v3 h3

/-- The scalar target over any implementation does what the ideal machine
does. -/
theorem refines_scalarOps (n : ℕ) :
    Refines reader (R.contract G) (scalarOps n) (idealScalarOps G n)
      (fun reg _ ideal => ScalarSim R ideal reg) r g := by
  refine Refines.silent_bind (sat_scalarInit.mono fun reg r' g' os h => ?_)
  obtain ⟨hr, hos, hsim⟩ := h
  refine ⟨hr, hos, ?_⟩
  exact Refines.loop refines_readerMore (fun _ _ _ _ h => refines_scalarStep h) n hsim

end Refines

/-- After any number of ops, the scalar target over a scalar implementation
has read and put what the ideal machine has, its registers are the ideal ones
and reduced, and every call met its requirement; so its transcripts are the
ideal ones. -/
theorem scalarOps_ideal (R : ScalarRep T) (G : LambdaSplit) (lib : Build T σ)
    (hlib : lib.Meets (R.contract G)) (s : σ) (inp : List UInt8) :
    (∀ n, ((scalarOps n).run reader lib inp s).rest =
      ((idealScalarOps G n).eval reader inp).rest ∧
      ((scalarOps n).run reader lib inp s).out =
        ((idealScalarOps G n).eval reader inp).out ∧
      (∀ i, R.val (((scalarOps n).run reader lib inp s).val i)
          = (((idealScalarOps G n).eval reader inp).val i).val ∧
        R.reduced (((scalarOps n).run reader lib inp s).val i)) ∧
      ∀ e ∈ ((scalarOps n).run reader lib inp s).log, (R.contract G).req () e.op) ∧
    ∀ cap, transcriptFor targetScalar lib s cap inp
      = transcriptOf cap ((idealScalarOps G scalarMaxOps).eval reader inp).out := by
  have hrun : ∀ n, _ := fun n =>
    Refines.run (refines_scalarOps (R := R) (G := G) (r := inp) (g := ()) n) hlib s
  refine ⟨fun n => ?_, fun cap => congrArg (transcriptOf cap) (hrun scalarMaxOps).2.2.1⟩
  obtain ⟨hkept, hrest, hout, hsim⟩ := hrun n
  exact ⟨hrest, hout, fun i => ⟨hsim i, (hsim i).reduced⟩,
    Contract.stateless_kept.mp hkept⟩

def refScalarRep : ScalarRep refTypes := ⟨fun v : Zn => v.val⟩

/-- The scalars `k` and 0 sum to `k` for any lambda. -/
def trivialSplit : LambdaSplit where
  lambda := 0x5363ad4cc05c30e0a5261c028812645a122e22ea20816678df02967c1b23bd72
  split k := (k, 0)
  split_sum k := by rw [zero_mul, add_zero]

theorem refScalar_rep {β : Type} (q : ScalarCall refTypes β) (hreq : refScalarRep.req q) :
    refScalarRep.spec trivialSplit q (refScalar q) := by
  have heq : ∀ {v x : Zn}, refScalarRep.rep v x → v = x :=
    fun h => ZMod.val_injective secpN h
  cases q with
  | setInt k => exact fun _ => rfl
  | setB32 b32 | setB32Seckey b32 => exact ⟨rfl, rfl⟩
  | add r a b va vb =>
      intro x y hx hy
      rw [heq hx, heq hy]
      exact ⟨rfl, rfl⟩
  | mul r a b va vb =>
      intro x y hx hy
      rw [heq hx, heq hy]
      rfl
  | negate r a va | half r a va | inverse r a va | inverseVar r a va
  | getB32 va | isZero va
  | isOne va | isEven va | isHigh va | getBitsVar va offset count
  | getBitsLimb32 va offset count =>
      intro x hx
      rw [heq hx]
      rfl
  | condNegate vr f | splitLambda r1 r2 a va =>
      intro x hx
      rw [heq hx]
      exact ⟨rfl, rfl⟩
  | cmov r a vr va f | eq va vb =>
      intro x y hx hy
      rw [heq hx, heq hy]
      rfl
  | split128 r1 r2 a va =>
      intro x hx
      rw [heq hx]
      have hlt := ZMod.val_lt x
      have hlo : x.val % 2 ^ 128 ≤ x.val := Nat.mod_le _ _
      have hhi : x.val / 2 ^ 128 ≤ x.val := Nat.div_le_self _ _
      constructor
      · show ((x.val % 2 ^ 128 : ℕ) : Zn).val = x.val % 2 ^ 128
        exact ZMod.val_natCast_of_lt (by omega)
      · show ((x.val / 2 ^ 128 : ℕ) : Zn).val = x.val / 2 ^ 128
        exact ZMod.val_natCast_of_lt (by omega)
  | mulShiftVar r a b va vb shift =>
      intro x y hx hy
      rw [heq hx, heq hy]
      exact ZMod.val_natCast_of_lt (mulShift_lt x y hreq.2.2.2.2.1)

theorem refLib_scalar : refLib.Meets (refScalarRep.contract trivialSplit) := by
  intro g β q s hreq
  cases q with
  | scalar q => exact refScalar_rep q hreq
  | _ => trivial

/-- A multiplication with shift on the input `0x0c 0x24 0x01`. -/
theorem refLib_scalarOps_ideal :
    (∀ n, ((scalarOps n).run reader refLib [12, 0x24, 1] ()).rest
        = ((idealScalarOps trivialSplit n).eval reader [12, 0x24, 1]).rest ∧
      ((scalarOps n).run reader refLib [12, 0x24, 1] ()).out
        = ((idealScalarOps trivialSplit n).eval reader [12, 0x24, 1]).out ∧
      (∀ i, refScalarRep.val (((scalarOps n).run reader refLib [12, 0x24, 1] ()).val i)
          = (((idealScalarOps trivialSplit n).eval reader [12, 0x24, 1]).val i).val ∧
        refScalarRep.reduced (((scalarOps n).run reader refLib [12, 0x24, 1] ()).val i)) ∧
      ∀ e ∈ ((scalarOps n).run reader refLib [12, 0x24, 1] ()).log,
        (refScalarRep.contract trivialSplit).req () e.op) ∧
    ∀ cap, transcriptFor targetScalar refLib () cap [12, 0x24, 1]
      = transcriptOf cap ((idealScalarOps trivialSplit scalarMaxOps).eval reader [12,
        0x24, 1]).out :=
  scalarOps_ideal refScalarRep trivialSplit refLib refLib_scalar () [12, 0x24, 1]

end Diffsecp
