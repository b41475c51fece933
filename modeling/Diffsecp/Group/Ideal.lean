import Mathlib.Algebra.BigOperators.Group.Finset.Basic
import Diffsecp.Field.Ideal
import Diffsecp.Group.Target
import Diffsecp.Scalar.Ideal
import Diffsecp.Secp.Curve

/-!
# Group — Ideal

The group target over the points of the curve, and what a group
implementation is: a library whose calls compute the group law for any
jacobian representation of their operands. The ideal machine has four points
for registers and every op reads its operands before it writes `d`.
-/

namespace Diffsecp

set_option linter.constructorNameAsVariable false

open Interact

variable {T : Types}

/-! ## The ideal machine -/

/-- The generator, and the multiplier of `secp256k1_ge_mul_lambda`. -/
structure GroupParams where
  gen : Point
  lambda : ℕ

structure IdealGroup where
  reg : Fin 4 → Point
  large : Bool

def idealTakeScalar : Ideal Zn := do
  let b32 ← readerTake 32
  pure (natOfBytes b32.toList : Zn)

def idealTakeFe : Ideal F := do
  let b32 ← readerTake 32
  pure (natOfBytes b32.toList : F)

def idealTakeNonzeroFe : Ideal F := do
  let x ← idealTakeFe
  pure (if x = 0 then 1 else x)

def idealRecordFe (x : F) : Ideal Unit := transcriptBytes (bytesOfNat 32 x.val).toList

def idealRecordPoint : Point → Ideal Unit
  | .zero => transcriptU8 1
  | .some x y _ => do
      transcriptU8 0
      idealRecordFe x
      idealRecordFe y

def idealRecordPoints : List Point → Ideal Unit
  | [] => pure ()
  | P :: Ps => do
      idealRecordPoint P
      idealRecordPoints Ps

/-- The promise `r.z = a.z * rzr` holds, where a ratio was asked for. -/
def idealRecordRzr (A : Point) : Ideal Unit := if A = 0 then pure () else transcriptInt 1

def idealGroupQuery (A B : Point) : Ideal Unit := do
  let xn ← idealTakeFe
  let xd ← idealTakeNonzeroFe
  transcriptInt (flag (A = 0))
  transcriptInt (flag (A = B))
  transcriptInt (flag (A = B))
  transcriptInt (flag (A = B))
  transcriptInt (flag (A ≠ 0))
  (if A ≠ 0 ∧ B ≠ 0 then transcriptInt (flag (xOf B = xOf A)) else pure ())
  transcriptInt (flag (onCurve xn))
  transcriptInt (flag (onCurve (xn * xd⁻¹)))

def idealRecordXonly : Option F → Ideal Unit
  | some u => do
      transcriptInt 1
      idealRecordFe u
  | none => transcriptInt 0

def idealEcmultConstXonly (A : Point) : Ideal Unit := do
  let q ← idealTakeScalar
  let flags ← readerU8
  let n ← idealTakeFe
  let d ← idealTakeNonzeroFe
  let q := if q = 0 then 1 else q
  let x := if flags &&& 1 ≠ 0 ∨ A = 0 then
      if flags &&& 2 ≠ 0 then n * d⁻¹ else n
    else xOf A
  idealRecordXonly (xMul q.val x)

def idealMultiSize (flags : ℕ) (large : Bool) : Ideal (ℕ × Zn × Bool) :=
  if flags &&& 2 ≠ 0 then do
    let (n, large) ← (if flags &&& 8 ≠ 0 ∧ large = true then do
        let k ← readerU16
        pure (groupLargeMin + k % (groupLargeMax - groupLargeMin + 1), false)
      else do
        let k ← readerU8
        pure (k, large))
    let step ← idealTakeScalar
    let _ ← readerU16
    pure (n, step, large)
  else
    pure (4, 0, large)

/-- Point `i` of a multi-point multiplication times its scalar. -/
def multiTerm (reg : Fin 4 → Point) (sc : Fin 4 → Zn) (step : Zn) (i : ℕ) : Point :=
  (sc (Fin.ofNat 4 i) + (i / 4 : ℕ) * step).val • reg (Fin.ofNat 4 i)

def idealEcmultMulti (G : GroupParams) (reg : Fin 4 → Point) (large : Bool) :
    Ideal (Int32 × Point × Bool) := do
  let ng ← idealTakeScalar
  let flags ← readerU8
  let sc0 ← idealTakeScalar
  let sc1 ← idealTakeScalar
  let sc2 ← idealTakeScalar
  let sc3 ← idealTakeScalar
  let (n, step, large) ← idealMultiSize flags large
  let failAt ← (if flags &&& 4 ≠ 0 then readerU8 else pure sizeMax)
  if failAt < n then
    pure (0, 0, large)
  else
    let sum := ∑ i ∈ Finset.range n, multiTerm reg ![sc0, sc1, sc2, sc3] step i
    pure (1, (if flags &&& 1 ≠ 0 then 0 else ng.val • G.gen) + sum, large)

def idealBatchAffine (reg : Fin 4 → Point) (n : ℕ) : Ideal Unit := do
  let firsts := List.ofFn fun i : Fin n => reg (Fin.ofNat 4 i)
  idealRecordPoints firsts
  if ∃ i : Fin n, reg (Fin.ofNat 4 i) = 0 then pure () else idealRecordPoints firsts

/-- `R` stays where there is no point to set. -/
def idealSetPoint (R : Point) : Option Point → Ideal Point
  | some P => do
      transcriptInt 1
      pure P
  | none => do
      transcriptInt 0
      pure R

def idealGroupSwitch (G : GroupParams) (st : IdealGroup) (sel : ℕ) (R A B : Point) :
    GroupOp → Ideal (Point × Bool)
  | .gen => do
      let s1 ← idealTakeScalar
      pure (s1.val • G.gen, st.large)
  | .setXo => do
      let f1 ← idealTakeFe
      let k ← readerU8
      let P ← idealSetPoint R (liftX f1 (k % 2 = 1))
      pure (P, st.large)
  | .setInfinity => pure (0, st.large)
  | .addVar => do
      idealRecordRzr A
      pure (A + B, st.large)
  | .addGe => pure (if B = 0 then R else A + B, st.large)
  | .addGeVar => do
      idealRecordRzr A
      pure (A + B, st.large)
  | .addZinvVar => do
      let _ ← idealTakeNonzeroFe
      pure (A + B, st.large)
  | .double => pure (A + A, st.large)
  | .doubleVar => do
      idealRecordRzr A
      pure (A + A, st.large)
  | .neg => pure (-A, st.large)
  | .rescale => do
      let _ ← idealTakeNonzeroFe
      pure (R, st.large)
  | .mulLambda => pure (G.lambda • A, st.large)
  | .ecmult => do
      let s1 ← idealTakeScalar
      let s2 ← idealTakeScalar
      let flags ← readerU8
      pure (s1.val • A + (if flags &&& 1 ≠ 0 then 0 else s2.val • G.gen), st.large)
  | .ecmultConst => do
      let s1 ← idealTakeScalar
      pure (s1.val • A, st.large)
  | .ecmultConstXonly => do
      idealEcmultConstXonly A
      pure (R, st.large)
  | .ecmultMulti => do
      let (ret, res, large) ← idealEcmultMulti G st.reg st.large
      transcriptInt ret
      pure (res, large)
  | .batchAffine => do
      idealBatchAffine st.reg (4 >>> (sel >>> 6))
      pure (R, st.large)
  | .query => do
      idealGroupQuery A B
      pure (R, st.large)

def idealGroupStep (G : GroupParams) (st : IdealGroup) : Ideal IdealGroup := do
  let op ← readerU8
  let op := op % groupOpCount
  let sel ← readerU8
  let d := selReg sel 0
  transcriptU8 op
  let (res, large) ← idealGroupSwitch G st sel (st.reg d) (st.reg (selReg sel 1))
    (st.reg (selReg sel 2)) (GroupOp.cast op)
  idealRecordPoint res
  pure ⟨Function.update st.reg d res, large⟩

def idealGroupOps (G : GroupParams) (inp : List UInt8) (n : ℕ) : Ideal IdealGroup :=
  Prog.loop readerMore (idealGroupStep G) n ⟨fun _ => 0, groupLargeDue inp⟩

/-! ## Implementations -/

/-- How a build represents field elements and scalars. -/
structure GroupRep (T : Types) where
  fe : FieldRep T
  sc : ScalarRep T
  split : LambdaSplit

namespace GroupRep

variable (R : GroupRep T) (G : GroupParams)

/-- `v` represents `x` with magnitude at most `m`. -/
def feRep (v : T.Fe) (x : F) (m : Int) : Prop := ∃ k, k ≤ m ∧ R.fe.rep v x k

/-- An affine representation. -/
def repA (a : Ge T) : Point → Prop
  | .zero => a.infinity = true
  | .some x y _ => a.infinity = false ∧ R.feRep a.x x 4 ∧ R.feRep a.y y 3

/-- A jacobian representation, for any z. -/
def repJ (a : Gej T) : Point → Prop
  | .zero => a.infinity = true
  | .some x y _ => a.infinity = false ∧ ∃ z, z ≠ 0 ∧ R.feRep a.x (x * (z * z)) 4 ∧
      R.feRep a.y (y * (z * z * z)) 4 ∧ R.feRep a.z z 1

/-- The ratio `rzr` of a result `r` to a finite operand `a`: a field element
with `r.z = a.z * rzr` where `r` is finite. -/
def ratio (r a : Gej T) (rzr : T.Fe) : Prop :=
  ∀ z, R.feRep a.z z 1 → ∃ w, R.feRep rzr w 8 ∧
    (r.infinity = false → R.feRep r.z (z * w) 1)

/-- An optional denominator. -/
def denominator (d : Option T.Fe) (w : F) : Prop :=
  match d with
  | none => w = 1
  | some v => R.feRep v w 8

/-- The device a callback runs on. -/
abbrev noDevice : Handler NoCall Unit := Handler.none

/-- What a field call needs. -/
def feReq {β : Type} : FeCall T β → Prop
  | .setInt k => 0 ≤ k ∧ k ≤ 0x7FFF
  | .mul r a b va vb => (∃ x, R.feRep va x 8) ∧ (∃ y, R.feRep vb y 8) ∧ b ≠ r ∧ b ≠ a
  | .sqr _ _ va => ∃ x, R.feRep va x 8
  | .getB32 va => R.fe.normalized va
  | .equal va vb => (∃ x, R.feRep va x 1) ∧ ∃ y, R.feRep vb y 31
  | _ => True

/-- What a scalar call of a callback needs: `mul` may write over an
operand. -/
def callbackReq {β : Type} : ScalarCall T β → Prop
  | .mul _ _ _ va vb => R.sc.reduced va ∧ R.sc.reduced vb
  | q => R.sc.req q

/-- The scalar calls a callback makes, answered by the library itself. -/
def callbackContract : Contract (ScalarCall T) Unit :=
  .stateless (fun q => R.callbackReq q) (fun q a => R.sc.spec R.split q a)

/-- Callback `i` gives a scalar for `k` and a point for `P`. -/
def callbackGives (cb : MultiCallback T) (i : ℕ) (k : Zn) (P : Point) : Prop :=
  Sat noDevice R.callbackContract (cb i) () () fun o _ _ _ =>
    ∃ sc pt, o = some (sc, pt) ∧ R.sc.rep sc k ∧ R.repA pt P

/-- Callback `i` fails. -/
def callbackFails (cb : MultiCallback T) (i : ℕ) : Prop :=
  Sat noDevice R.callbackContract (cb i) () () fun o _ _ _ => o = none

/-- What a call needs beyond operands that represent something: the
constant-time addition and batch reject infinity, a ratio to infinity is
undefined, factors and denominators are nonzero, and an x coordinate claimed
to be on the curve is. -/
def req {β : Type} : GroupCall T β → Prop
  | .gejAddVar a _ rzr => rzr = true → a.infinity = false
  | .gejAddGe _ b => b.infinity = false
  | .gejAddGeVar a _ rzr => rzr = true → a.infinity = false
  | .gejAddZinvVar _ b bzinv => b.infinity = false → ∃ zi, zi ≠ 0 ∧ R.feRep bzinv zi 8
  | .gejRescale _ s => ∃ u, u ≠ 0 ∧ R.feRep s u 8
  | .geSetAllGej (n := n) a => ∀ i : Fin n, (a.get i).infinity = false
  | .ecmultConstXonly n d q known =>
      (∃ k, k ≠ 0 ∧ R.sc.rep q k) ∧ ∃ u w, w ≠ 0 ∧ R.feRep n u 8 ∧ R.denominator d w ∧
        (known = true → onCurve (u * w⁻¹))
  | .gejEqXVar _ a => a.infinity = false
  | .geXFracOnCurveVar _ xd => ∃ w, w ≠ 0 ∧ R.feRep xd w 8
  | _ => True

/-- What a call gives. -/
def spec {β : Type} : GroupCall T β → β → Prop
  | .gejSetInfinity, r => R.repJ r 0
  | .gejSetGe a, r => ∀ P, R.repA a P → R.repJ r P
  | .geSetXoVar x odd, (ret, r) =>
      ∀ u, R.feRep x u 8 → (odd = 0 ∨ odd = 1) →
        ret = flag (liftX u (odd = 1)).isSome ∧
        ∀ P, liftX u (odd = 1) = some P → R.repA r P
  | .geSetGej a, (r, _) => ∀ P, R.repJ a P → R.repA r P
  | .geSetGejVar a, (r, _) => ∀ P, R.repJ a P → R.repA r P
  | .geSetAllGej (n := n) a, r =>
      ∀ P : Fin n → Point, (∀ i, R.repJ (a.get i) (P i)) → (∀ i, P i ≠ 0) →
        ∀ i, R.repA (r.get i) (P i)
  | .geSetAllGejVar (n := n) a, r =>
      ∀ P : Fin n → Point, (∀ i, R.repJ (a.get i) (P i)) → ∀ i, R.repA (r.get i) (P i)
  | .gejAddVar a b rzr, (r, w) =>
      ∀ P Q, R.repJ a P → R.repJ b Q → R.repJ r (P + Q) ∧
        (rzr = true → P ≠ 0 → R.ratio r a w)
  | .gejAddGe a b, r => ∀ P Q, R.repJ a P → R.repA b Q → Q ≠ 0 → R.repJ r (P + Q)
  | .gejAddGeVar a b rzr, (r, w) =>
      ∀ P Q, R.repJ a P → R.repA b Q → R.repJ r (P + Q) ∧
        (rzr = true → P ≠ 0 → R.ratio r a w)
  -- b has the coordinates of a jacobian point whose z has the inverse bzinv
  | .gejAddZinvVar a b bzinv, r =>
      ∀ P, R.repJ a P → (b.infinity = true → R.repJ r P) ∧
        ∀ zi x y h, b.infinity = false → zi ≠ 0 → R.feRep bzinv zi 8 →
          R.feRep b.x (x * (zi⁻¹ * zi⁻¹)) 4 → R.feRep b.y (y * (zi⁻¹ * zi⁻¹ * zi⁻¹)) 3 →
          R.repJ r (P + .some x y h)
  | .gejDouble a, r => ∀ P, R.repJ a P → R.repJ r (P + P)
  | .gejDoubleVar a rzr, (r, w) =>
      ∀ P, R.repJ a P → R.repJ r (P + P) ∧ (rzr = true → P ≠ 0 → R.ratio r a w)
  | .gejNeg a, r => ∀ P, R.repJ a P → R.repJ r (-P)
  | .gejRescale a s, r => ∀ P u, R.repJ a P → R.feRep s u 8 → u ≠ 0 → R.repJ r P
  | .geMulLambda a, r => ∀ P, R.repA a P → R.repA r (G.lambda • P)
  | .ecmultGenGej gn, r => ∀ k, R.sc.rep gn k → R.repJ r (k.val • G.gen)
  | .ecmult a na none, r => ∀ P k, R.repJ a P → R.sc.rep na k → R.repJ r (k.val • P)
  | .ecmult a na (some ng), r =>
      ∀ P k l, R.repJ a P → R.sc.rep na k → R.sc.rep ng l →
        R.repJ r (k.val • P + l.val • G.gen)
  | .ecmultConstGej a q, r => ∀ P k, R.repA a P → R.sc.rep q k → R.repJ r (k.val • P)
  | .ecmultConstXonly n d q known, (ret, r) =>
      ∀ u w k, R.feRep n u 8 → R.denominator d w → w ≠ 0 → R.sc.rep q k → k ≠ 0 →
        (known = true → onCurve (u * w⁻¹)) →
        ret = flag (xMul k.val (u * w⁻¹)).isSome ∧
          ∀ x, xMul k.val (u * w⁻¹) = some x → R.feRep r x 8
  | .ecmultMultiVar _ ng cb n, (ret, r) =>
      ∀ l, (∀ s, ng = some s → R.sc.rep s l) →
        ((∃ i < n, R.callbackFails cb i) → ret = 0) ∧
        ∀ (k : ℕ → Zn) (P : ℕ → Point), (∀ i < n, R.callbackGives cb i (k i) (P i)) →
          ret = 1 ∧
            R.repJ r ((if ng.isSome then l.val • G.gen else 0) + ∑ i ∈ Finset.range n,
              (k i).val • P i)
  | .gejIsInfinity a, ret => ∀ P, R.repJ a P → ret = flag (P = 0)
  | .gejEqVar a b, ret => ∀ P Q, R.repJ a P → R.repJ b Q → ret = flag (P = Q)
  | .gejEqGeVar a b, ret => ∀ P Q, R.repJ a P → R.repA b Q → ret = flag (P = Q)
  | .geEqVar a b, ret => ∀ P Q, R.repA a P → R.repA b Q → ret = flag (P = Q)
  | .geIsValidVar a, ret => ∀ P, R.repA a P → ret = flag (P ≠ 0)
  | .gejEqXVar x a, ret =>
      ∀ u P, R.feRep x u 8 → R.repJ a P → P ≠ 0 → ret = flag (u = xOf P)
  | .geXOnCurveVar x, ret => ∀ u, R.feRep x u 8 → ret = flag (onCurve u)
  | .geXFracOnCurveVar xn xd, ret =>
      ∀ u w, R.feRep xn u 8 → R.feRep xd w 8 → w ≠ 0 → ret = flag (onCurve (u * w⁻¹))
  | .scratchSpaceCreate _, _ => True
  | .scratchSpaceDestroy _, _ => True

/-- The group implementations, which are also field and scalar
implementations. -/
def contract : Contract (LibCall T) Unit :=
  .stateless
    (fun {β} (q : LibCall T β) => match q with
      | .fe q => R.feReq q
      | .scalar q => R.sc.req q
      | .group q => R.req q
      | _ => True)
    (fun {β} (q : LibCall T β) (a : β) => match β, q, a with
      | _, .fe q, a => R.fe.spec q a
      | _, .scalar q, a => R.sc.spec R.split q a
      | _, .group q, a => R.spec G q a
      | _, _, _ => True)

end GroupRep

end Diffsecp
