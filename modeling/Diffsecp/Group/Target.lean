import Mathlib.Data.Fin.VecNotation
import Diffsecp.Secp.Public

/-!
# Group — Target

`src/targets/group.c`: group arithmetic and point multiplication driven as a
register machine. Each op records its destination in affine coordinates,
since the jacobian z depends on how a point was computed and differs between
builds.
-/

namespace Diffsecp

open Interact

/-- `GROUP_MAX_OPS`. -/
def groupMaxOps : Nat := 32

inductive GroupOp where
  | gen
  | setXo
  | setInfinity
  | addVar
  | addGe
  | addGeVar
  | addZinvVar
  | double
  | doubleVar
  | neg
  | rescale
  | mulLambda
  | ecmult
  | ecmultConst
  | ecmultConstXonly
  | ecmultMulti
  | batchAffine
  | query
  deriving DecidableEq, Repr

/-- `GROUP_OP_COUNT`. -/
def groupOpCount : Nat := 18

/-- The cast of `op` to `enum group_op`; a number at or past
`GROUP_OP_COUNT` has no case of its own. -/
def GroupOp.cast : Nat → GroupOp
  | 0 => .gen
  | 1 => .setXo
  | 2 => .setInfinity
  | 3 => .addVar
  | 4 => .addGe
  | 5 => .addGeVar
  | 6 => .addZinvVar
  | 7 => .double
  | 8 => .doubleVar
  | 9 => .neg
  | 10 => .rescale
  | 11 => .mulLambda
  | 12 => .ecmult
  | 13 => .ecmultConst
  | 14 => .ecmultConstXonly
  | 15 => .ecmultMulti
  | 16 => .batchAffine
  | _ => .query

variable {T : Types}

/-- `SIZE_MAX`. -/
def sizeMax : Nat := 2 ^ 64 - 1

/-- Point `j` of a multi-point multiplication is register `j % 4`, with
scalar `sc (j % 4) + (j / 4) * step`. The callback fails at `failAt`. -/
structure GroupMulti (T : Types) where
  sc : Fin 4 → T.Scalar
  pt : Fin 4 → Ge T
  step : T.Scalar
  failAt : Nat

def groupMultiCallback (m : GroupMulti T) : MultiCallback T := fun idx =>
  if idx = m.failAt then
    pure none
  else do
    let j := Fin.ofNat 4 idx
    let k ← Prog.invoke (.setInt (idx / 4))
    let k ← Prog.invoke (.mul .k .k .step k m.step)
    let (_, sc) ← Prog.invoke (.add .sc (.msc j) .k (m.sc j) k)
    pure (some (sc, m.pt j))

def groupTakeScalar : Harness T T.Scalar := do
  let b32 ← readerTake 32
  let (s, _) ← secpScalar (.setB32 b32)
  pure s

/-- Magnitude 1, so it can feed any field op. -/
def groupTakeFe : Harness T T.Fe := do
  let b32 ← readerTake 32
  secpFe (.setB32Mod b32)

def groupTakeNonzeroFe : Harness T T.Fe := do
  let x ← groupTakeFe
  let zero ← secpFe (.normalizesToZeroVar x)
  if zero ≠ 0 then secpFe (.setInt 1) else pure x

/-- Works on a copy, as `geSetGejVar` normalizes its input. -/
def groupAffine (a : Gej T) : Harness T (Ge T) := do
  let (r, _) ← secpGroup (.geSetGejVar a)
  pure r

def groupRecordFe (x : T.Fe) : Harness T Unit := do
  let n ← secpFe (.normalizeVar x)
  let b32 ← secpFe (.getB32 n)
  transcriptBytes b32.toList

def groupRecordGe (p : Ge T) : Harness T Unit := do
  transcriptU8 (if p.infinity then 1 else 0)
  (if p.infinity = false then do
      groupRecordFe p.x
      groupRecordFe p.y
    else pure ())

def groupRecordGes : List (Ge T) → Harness T Unit
  | [] => pure ()
  | p :: ps => do
      groupRecordGe p
      groupRecordGes ps

/-- The `*_var` ops promise `r.z = a.z * rzr`. The ratio itself depends on
`a`'s z, so only whether the promise holds is comparable across builds. -/
def groupRecordRzr (r a : Gej T) (rzr : T.Fe) : Harness T Unit := do
  let z ← secpFe (.mul .z .aZ .rzr a.z rzr)
  if r.infinity then
    transcriptInt 1
  else do
    let eq ← secpFe (.equal z r.z)
    transcriptInt (if eq ≠ 0 then 1 else 0)

/-- Predicates on `a` and `b`, plus curve membership of fuzzed x
coordinates. -/
def groupQuery (a b : Gej T) (ga gb : Ge T) : Harness T Unit := do
  let xn ← groupTakeFe
  let xd ← groupTakeNonzeroFe
  transcriptInt (← secpGroup (.gejIsInfinity a))
  transcriptInt (← secpGroup (.gejEqVar a b))
  transcriptInt (← secpGroup (.gejEqGeVar a gb))
  transcriptInt (← secpGroup (.geEqVar ga gb))
  transcriptInt (← secpGroup (.geIsValidVar ga))
  (if a.infinity = false ∧ gb.infinity = false then do
      transcriptInt (← secpGroup (.gejEqXVar gb.x a))
    else pure ())
  transcriptInt (← secpGroup (.geXOnCurveVar xn))
  transcriptInt (← secpGroup (.geXFracOnCurveVar xn xd))

/-- `x(q*P)` from x-only multiplication, for `P = a` with x given as the
fraction `(x*d)/d`, or for a raw fraction `n/d` that may not be on the
curve. -/
def groupEcmultConstXonly (a : Ge T) : Harness T Unit := do
  let q ← groupTakeScalar
  let flags ← readerU8
  let n ← groupTakeFe
  let d ← groupTakeNonzeroFe
  -- q must be nonzero, and a known point must not be infinity
  let zero ← secpScalar (.isZero q)
  let q ← (if zero ≠ 0 then secpScalar (.setInt 1) else pure q)
  let raw := flags &&& 1 ≠ 0 ∨ a.infinity = true
  let n ← (if ¬ raw ∧ flags &&& 2 ≠ 0 then secpFe (.mul .n .aX .d a.x d)
    else if ¬ raw then pure a.x
    else pure n)
  let (ret, x) ← secpGroup
    (.ecmultConstXonly n (if flags &&& 2 ≠ 0 then some d else none) q (decide (¬ raw)))
  transcriptInt ret
  if ret ≠ 0 then groupRecordFe x else pure ()

/-- A scratch size from 16 fuzzed bits: a 12-bit mantissa shifted by up to
9. -/
def groupScratchSize (v : Nat) : Nat := (v &&& 0xFFF) <<< ((v >>> 12) % 10)

/-- `GROUP_LARGE_MIN`. -/
def groupLargeMin : Nat := 1261

/-- `GROUP_LARGE_MAX`. -/
def groupLargeMax : Nat := 16384

/-- `GROUP_LARGE_ODDS`. -/
def groupLargeOdds : UInt32 := 4096

/-- FNV-1a. -/
def fnv1a (inp : List UInt8) : UInt32 :=
  inp.foldl (fun h b => (h ^^^ b.toUInt32) * 16777619) 2166136261

/-- The hash of the whole input falls in its lowest `1/GROUP_LARGE_ODDS`. -/
def groupLargeDue (inp : List UInt8) : Bool := fnv1a inp ≤ 0xFFFFFFFF / groupLargeOdds

/-- The number of points and, where there is a scratch space, the step, the
space and whether a large run is still due. -/
def groupMultiSize (flags : Nat) (large : Bool) (step : T.Scalar) :
    Harness T (Nat × T.Scalar × Option T.Scratch × Bool) :=
  if flags &&& 2 ≠ 0 then do
    let (n, scale, large) ← (if flags &&& 8 ≠ 0 ∧ large = true then do
        let k ← readerU16
        pure (groupLargeMin + k % (groupLargeMax - groupLargeMin + 1), 4, false)
      else do
        let k ← readerU8
        pure (k, 0, large))
    let step ← groupTakeScalar
    let size ← readerU16
    let scratch ← secpGroup (.scratchSpaceCreate (groupScratchSize size <<< scale))
    pure (n, step, some scratch, large)
  else
    pure (4, step, none, large)

/-- Scalar and point of register `j`. -/
def groupMultiOperand (reg : Fin 4 → Gej T) (j : Fin 4) :
    Harness T (T.Scalar × Ge T) := do
  let sc ← groupTakeScalar
  let pt ← groupAffine (reg j)
  pure (sc, pt)

/-- `ng*G` plus the sum of the points. Flag bit 0 drops `ng`, bit 1 takes up
to 255 points and a scratch space of fuzzed size, bit 2 makes the callback
fail, and bit 3, while `large` is set, takes up to `GROUP_LARGE_MAX` points
and then clears `large`. -/
def groupEcmultMulti (reg : Fin 4 → Gej T) (large : Bool) :
    Harness T (Int32 × Gej T × Bool) := do
  let ng ← groupTakeScalar
  let flags ← readerU8
  let (sc0, pt0) ← groupMultiOperand reg 0
  let (sc1, pt1) ← groupMultiOperand reg 1
  let (sc2, pt2) ← groupMultiOperand reg 2
  let (sc3, pt3) ← groupMultiOperand reg 3
  let step ← secpScalar (.setInt 0)
  let (n, step, scratch, large) ← groupMultiSize flags large step
  let failAt ← (if flags &&& 4 ≠ 0 then readerU8 else pure sizeMax)
  let m : GroupMulti T := ⟨![sc0, sc1, sc2, sc3], ![pt0, pt1, pt2, pt3], step, failAt⟩
  let (ret, res) ← secpGroup
    (.ecmultMultiVar scratch (if flags &&& 1 ≠ 0 then none else some ng)
      (groupMultiCallback m) n)
  secpGroup (.scratchSpaceDestroy scratch)
  -- a failed batch leaves a partial sum, which depends on the batch sizes
  let res ← (if ret = 0 then secpGroup .gejSetInfinity else pure res)
  pure (ret, res, large)

/-- The first `n` registers to affine at once. The constant-time batch
rejects infinity. -/
def groupBatchAffine (reg : Fin 4 → Gej T) (n : Nat) : Harness T Unit := do
  let firsts := Vector.ofFn fun i : Fin n => reg (Fin.ofNat 4 i)
  let ge ← secpGroup (.geSetAllGejVar firsts)
  groupRecordGes ge.toList
  if firsts.any (·.infinity) then
    pure ()
  else do
    let ge ← secpGroup (.geSetAllGej firsts)
    groupRecordGes ge.toList

structure GroupState (T : Types) where
  reg : Fin 4 → Gej T
  large : Bool

/-- The `switch` of `target_group`. Results go to `res` first, so no op sees
its output alias an input; `ga` and `gb` are `a` and `b` in affine
coordinates. The value is `res` and the large-run flag. -/
def groupSwitch (st : GroupState T) (sel : Nat) (res a b : Gej T) (ga gb : Ge T) :
    GroupOp → Harness T (Gej T × Bool)
  | .gen => do
      let s1 ← groupTakeScalar
      let res ← secpGroup (.ecmultGenGej s1)
      pure (res, st.large)
  | .setXo => do
      let f1 ← groupTakeFe
      let k ← readerU8
      let (ret, ge) ← secpGroup (.geSetXoVar f1 (Int32.ofNat (k &&& 1)))
      transcriptInt ret
      let res ← (if ret ≠ 0 then secpGroup (.gejSetGe ge) else pure res)
      pure (res, st.large)
  | .setInfinity => do
      let res ← secpGroup .gejSetInfinity
      pure (res, st.large)
  | .addVar => do
      -- rzr is only defined when a is not infinity
      if a.infinity then
        let (res, _) ← secpGroup (.gejAddVar a b false)
        pure (res, st.large)
      else
        let (res, rzr) ← secpGroup (.gejAddVar a b true)
        groupRecordRzr res a rzr
        pure (res, st.large)
  | .addGe => do
      -- the constant-time addition rejects an infinite b
      let res ← (if gb.infinity = false then secpGroup (.gejAddGe a gb) else pure res)
      pure (res, st.large)
  | .addGeVar => do
      if a.infinity then
        let (res, _) ← secpGroup (.gejAddGeVar a gb false)
        pure (res, st.large)
      else
        let (res, rzr) ← secpGroup (.gejAddGeVar a gb true)
        groupRecordRzr res a rzr
        pure (res, st.large)
  | .addZinvVar => do
      -- b as the jacobian (X*z^2, Y*z^3, z) for a fuzzed z, passing 1/z;
      -- infinity has no coordinates to scale, so it goes as it is
      let f1 ← groupTakeNonzeroFe
      let (ge, f2) ← (if gb.infinity = false then do
          let f2 ← secpFe (.sqr .f2 .f1 f1)
          let x ← secpFe (.mul .geX .gbX .f2 gb.x f2)
          let f3 ← secpFe (.mul .f3 .f2 .f1 f2 f1)
          let y ← secpFe (.mul .geY .gbY .f3 gb.y f3)
          let f2 ← secpFe (.invVar .f2 .f1 f1)
          pure (⟨x, y, gb.infinity⟩, f2)
        else pure (gb, f1))
      let res ← secpGroup (.gejAddZinvVar a ge f2)
      pure (res, st.large)
  | .double => do
      let res ← secpGroup (.gejDouble a)
      pure (res, st.large)
  | .doubleVar => do
      let (res, rzr) ← secpGroup (.gejDoubleVar a true)
      (if a.infinity = false then groupRecordRzr res a rzr else pure ())
      pure (res, st.large)
  | .neg => do
      let res ← secpGroup (.gejNeg a)
      pure (res, st.large)
  | .rescale => do
      -- changes z but not the point
      let f1 ← groupTakeNonzeroFe
      let res ← (if res.infinity = false then secpGroup (.gejRescale res f1)
        else pure res)
      pure (res, st.large)
  | .mulLambda => do
      let ge ← secpGroup (.geMulLambda ga)
      let res ← secpGroup (.gejSetGe ge)
      pure (res, st.large)
  | .ecmult => do
      let s1 ← groupTakeScalar
      let s2 ← groupTakeScalar
      let flags ← readerU8
      let res ← secpGroup (.ecmult a s1 (if flags &&& 1 ≠ 0 then none else some s2))
      pure (res, st.large)
  | .ecmultConst => do
      let s1 ← groupTakeScalar
      let res ← secpGroup (.ecmultConstGej ga s1)
      pure (res, st.large)
  | .ecmultConstXonly => do
      groupEcmultConstXonly ga
      pure (res, st.large)
  | .ecmultMulti => do
      let (ret, res, large) ← groupEcmultMulti st.reg st.large
      transcriptInt ret
      pure (res, large)
  | .batchAffine => do
      -- all four registers, two, one or none
      groupBatchAffine st.reg (4 >>> (sel >>> 6))
      pure (res, st.large)
  | .query => do
      groupQuery a b ga gb
      pure (res, st.large)

/-- One round of the loop of `target_group`. -/
def groupStep (st : GroupState T) : Harness T (GroupState T) := do
  let op ← readerU8
  let op := op % groupOpCount
  let sel ← readerU8
  let d := selReg sel 0
  let a := st.reg (selReg sel 1)
  let b := st.reg (selReg sel 2)
  let ga ← groupAffine a
  let gb ← groupAffine b
  transcriptU8 op
  let (res, large) ← groupSwitch st sel (st.reg d) a b ga gb (GroupOp.cast op)
  let reg := Function.update st.reg d res
  let ge ← groupAffine (reg d)
  groupRecordGe ge
  pure ⟨reg, large⟩

/-- Every register is set to infinity; whether a large run is due depends on
the whole input. -/
def groupInit (inp : List UInt8) : Harness T (GroupState T) := do
  let r0 ← secpGroup .gejSetInfinity
  let r1 ← secpGroup .gejSetInfinity
  let r2 ← secpGroup .gejSetInfinity
  let r3 ← secpGroup .gejSetInfinity
  pure ⟨![r0, r1, r2, r3], groupLargeDue inp⟩

/-- The first `n` ops of `target_group` on the input `inp`. -/
def groupOps (inp : List UInt8) (n : Nat) : Harness T (GroupState T) := do
  let st ← groupInit inp
  Prog.loop readerMore groupStep n st

def targetGroup (inp : List UInt8) : Harness T (GroupState T) := groupOps inp groupMaxOps

/-- The run of `m + n` ops goes on from where the run of `m` ops ends. -/
theorem run_groupOps_add {σ : Type} (lib : Build T σ) (inp : List UInt8) (m n : Nat)
    (r : List UInt8) (s : σ) :
    (groupOps inp (m + n)).run reader lib r s =
      (groupOps inp m >>= Prog.loop readerMore groupStep n).run reader lib r s := by
  have hmore := readerMore_peeks lib
  simp only [groupOps, Prog.run_bind, Prog.run_loop_add hmore m n, List.append_assoc]

end Diffsecp
