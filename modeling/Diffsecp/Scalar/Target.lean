import Mathlib.Data.Fin.VecNotation
import Mathlib.Data.Finset.Insert
import Diffsecp.Secp.Public

/-!
# Scalar — Target

`src/targets/scalar.c`: scalar arithmetic driven as a register machine.
Operands are copied before each call, so that no call relies on aliasing the
contract leaves unspecified.
-/

namespace Diffsecp

open Interact

/-- `SCALAR_MAX_OPS`. -/
def scalarMaxOps : Nat := 1024

inductive ScalarOp where
  | setB32
  | setB32Seckey
  | add
  | mul
  | negate
  | half
  | inverse
  | inverseVar
  | condNegate
  | cmov
  | split128
  | splitLambda
  | mulShiftVar
  | query
  deriving DecidableEq, Repr

/-- `SCALAR_OP_COUNT`. -/
def scalarOpCount : Nat := 14

/-- The cast of `op` to `enum scalar_op`; a number at or past
`SCALAR_OP_COUNT` has no case of its own. -/
def ScalarOp.cast : Nat → ScalarOp
  | 0 => .setB32
  | 1 => .setB32Seckey
  | 2 => .add
  | 3 => .mul
  | 4 => .negate
  | 5 => .half
  | 6 => .inverse
  | 7 => .inverseVar
  | 8 => .condNegate
  | 9 => .cmov
  | 10 => .split128
  | 11 => .splitLambda
  | 12 => .mulShiftVar
  | _ => .query

/-- The registers an op writes, given `d` and the second source `b`. -/
def ScalarOp.writes (d b : Fin 4) : ScalarOp → Finset (Fin 4)
  | .query => ∅
  | .split128 | .splitLambda => {d, b}
  | _ => {d}

variable {T : Types}

abbrev ScalarRegs (T : Types) := Fin 4 → T.Scalar

def scalarRecord (s : T.Scalar) : Harness T Unit := do
  let b32 ← secpScalar (.getB32 s)
  transcriptBytes b32.toList

/-- Predicates and bit extraction on `a` and `b`. -/
def scalarQuery (a b : T.Scalar) : Harness T Unit := do
  transcriptInt (← secpScalar (.isZero a))
  transcriptInt (← secpScalar (.isOne a))
  transcriptInt (← secpScalar (.isEven a))
  transcriptInt (← secpScalar (.isHigh a))
  transcriptInt (← secpScalar (.eq a b))
  -- get_bits_var needs 1 <= count <= 32 and offset + count <= 256
  let count ← readerU8
  let count := 1 + count % 32
  let offset ← readerU16
  let offset := offset % (257 - count)
  transcriptU32 (← secpScalar (.getBitsVar a offset count))
  -- get_bits_limb32 additionally needs all bits within one 32-bit limb
  let count ← readerU8
  let count := 1 + count % 32
  let limb ← readerU8
  let limb := limb % 8
  let offset ← readerU8
  let offset := 32 * limb + offset % (33 - count)
  transcriptU32 (← secpScalar (.getBitsLimb32 a offset count))

/-- The `switch` of `target_scalar`. `a` and `y` are copies of the source
registers; `b` is the second source register itself, which the splits write
after `d`. -/
def scalarSwitch (reg : ScalarRegs T) (d b : Fin 4) (a y : T.Scalar) :
    ScalarOp → Harness T (ScalarRegs T)
  | .setB32 => do
      let b32 ← readerTake 32
      let (v, ret) ← secpScalar (.setB32 b32)
      transcriptInt ret
      pure (Function.update reg d v)
  | .setB32Seckey => do
      let b32 ← readerTake 32
      let (ret, v) ← secpScalar (.setB32Seckey b32)
      transcriptInt ret
      pure (Function.update reg d v)
  | .add => do
      let (ret, res) ← secpScalar (.add .res .a .y a y)
      transcriptInt ret
      pure (Function.update reg d res)
  | .mul => do
      let res ← secpScalar (.mul .res .a .y a y)
      pure (Function.update reg d res)
  | .negate => do
      let res ← secpScalar (.negate .res .a a)
      pure (Function.update reg d res)
  | .half => do
      let res ← secpScalar (.half .res .a a)
      pure (Function.update reg d res)
  | .inverse => do
      let res ← secpScalar (.inverse .res .a a)
      pure (Function.update reg d res)
  | .inverseVar => do
      let res ← secpScalar (.inverseVar .res .a a)
      pure (Function.update reg d res)
  | .condNegate => do
      let k ← readerU8
      let (ret, v) ← secpScalar (.condNegate (reg d) (Int32.ofNat (k &&& 1)))
      transcriptInt ret
      pure (Function.update reg d v)
  | .cmov => do
      let k ← readerU8
      let v ← secpScalar (.cmov (.reg d) .a (reg d) a (Int32.ofNat (k &&& 1)))
      pure (Function.update reg d v)
  | .split128 => do
      let (res, res2) ← secpScalar (.split128 .res .res2 .a a)
      scalarRecord res2
      pure (Function.update (Function.update reg d res) b res2)
  | .splitLambda => do
      let (res, res2) ← secpScalar (.splitLambda .res .res2 .a a)
      scalarRecord res2
      pure (Function.update (Function.update reg d res) b res2)
  | .mulShiftVar => do
      -- the shift must be at least 256
      let k ← readerU8
      let res ← secpScalar (.mulShiftVar .res .a .y a y (256 + k))
      pure (Function.update reg d res)
  | .query => do
      scalarQuery a y
      pure reg

/-- One round of the loop of `target_scalar`. -/
def scalarStep (reg : ScalarRegs T) : Harness T (ScalarRegs T) := do
  let op ← readerU8
  let op := op % scalarOpCount
  let sel ← readerU8
  let d := selReg sel 0
  let b := selReg sel 2
  transcriptU8 op
  let reg ← scalarSwitch reg d b (reg (selReg sel 1)) (reg b) (ScalarOp.cast op)
  scalarRecord (reg d)
  pure reg

/-- Every register is set to zero. -/
def scalarInit : Harness T (ScalarRegs T) := do
  let v0 ← secpScalar (.setInt 0)
  let v1 ← secpScalar (.setInt 0)
  let v2 ← secpScalar (.setInt 0)
  let v3 ← secpScalar (.setInt 0)
  pure ![v0, v1, v2, v3]

/-- The first `n` ops of `target_scalar`. -/
def scalarOps (n : Nat) : Harness T (ScalarRegs T) := do
  let reg ← scalarInit
  Prog.loop readerMore scalarStep n reg

def targetScalar : Harness T (ScalarRegs T) := scalarOps scalarMaxOps

/-- The run of `m + n` ops goes on from where the run of `m` ops ends. -/
theorem run_scalarOps_add {σ : Type} (lib : Build T σ) (m n : Nat)
    (r : List UInt8) (s : σ) : (scalarOps (m + n)).run reader lib r s =
      (scalarOps m >>= Prog.loop readerMore scalarStep n).run reader lib r s := by
  have hmore := readerMore_peeks lib
  simp only [scalarOps, Prog.run_bind, Prog.run_loop_add hmore m n, List.append_assoc]

end Diffsecp
