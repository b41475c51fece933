import Mathlib.Data.Fin.VecNotation
import Diffsecp.Secp.Public

/-!
# Field — Target

`src/targets/field.c`: field arithmetic driven as a register machine. The
harness tracks each register's magnitude and weakly normalizes operands
before any call that would exceed the documented bounds.
-/

namespace Diffsecp

open Interact

/-- `FIELD_MAX_OPS`. -/
def fieldMaxOps : Nat := 1024

inductive FieldOp where
  | setB32Mod
  | setB32Limit
  | add
  | addInt
  | mul
  | sqr
  | negate
  | mulInt
  | half
  | normalize
  | normalizeWeak
  | normalizeVar
  | inv
  | invVar
  | sqrt
  | cmov
  | storage
  | query
  deriving DecidableEq, Repr

/-- `FIELD_OP_COUNT`. -/
def fieldOpCount : Nat := 18

/-- The cast of `op` to `enum field_op`; a number at or past
`FIELD_OP_COUNT` has no case of its own. -/
def FieldOp.cast : Nat → FieldOp
  | 0 => .setB32Mod
  | 1 => .setB32Limit
  | 2 => .add
  | 3 => .addInt
  | 4 => .mul
  | 5 => .sqr
  | 6 => .negate
  | 7 => .mulInt
  | 8 => .half
  | 9 => .normalize
  | 10 => .normalizeWeak
  | 11 => .normalizeVar
  | 12 => .inv
  | 13 => .invVar
  | 14 => .sqrt
  | 15 => .cmov
  | 16 => .storage
  | _ => .query

/-- The value of `(unsigned int)` applied to a C `int`. -/
def toUnsigned (x : Int) : Nat := (x % 2 ^ 32).toNat

variable {T : Types}

structure FieldReg (T : Types) where
  v : T.Fe
  mag : Int

abbrev FieldRegs (T : Types) := Fin 4 → FieldReg T

def fieldWeaken (reg : FieldRegs T) (x : Fin 4) : Harness T (FieldRegs T) := do
  let v ← secpFe (.normalizeWeak (reg x).v)
  pure (Function.update reg x ⟨v, 1⟩)

def fieldLimit (reg : FieldRegs T) (x : Fin 4) (max : Int) : Harness T (FieldRegs T) :=
  if (reg x).mag > max then fieldWeaken reg x else pure reg

/-- Works on the copy `n`. -/
def fieldRecord (v : T.Fe) : Harness T Unit := do
  let n ← secpFe (.normalizeVar v)
  let b32 ← secpFe (.getB32 n)
  transcriptBytes b32.toList

/-- Predicates on `a` and `b`; works on the copies `x` and `y`. -/
def fieldQuery (a b : FieldReg T) : Harness T Unit := do
  let x := a.v
  let y := b.v
  transcriptInt (← secpFe (.normalizesToZero x))
  transcriptInt (← secpFe (.normalizesToZeroVar x))
  transcriptInt (← secpFe (.isSquareVar x))
  let x ← secpFe (.normalizeWeak x)
  let y ← secpFe (.normalizeWeak y)
  transcriptInt (← secpFe (.equal x y))
  let x ← secpFe (.normalize x)
  let y ← secpFe (.normalize y)
  transcriptInt (← secpFe (.isZero x))
  transcriptInt (← secpFe (.isOdd x))
  transcriptInt (← secpFe (.cmpVar x y))

/-- The `switch` of `target_field`: one op on the registers `d`, `a` and `b`,
which may be one and the same. -/
def fieldSwitch (reg : FieldRegs T) (d a b : Fin 4) : FieldOp → Harness T (FieldRegs T)
  | .setB32Mod => do
      let b32 ← readerTake 32
      let v ← secpFe (.setB32Mod b32)
      pure (Function.update reg d ⟨v, 1⟩)
  | .setB32Limit => do
      let b32 ← readerTake 32
      let (ret, v) ← secpFe (.setB32Limit b32)
      transcriptInt ret
      if ret ≠ 0 then
        pure (Function.update reg d ⟨v, 1⟩)
      else
        -- on overflow d is invalid and must be overwritten
        let v ← secpFe (.setInt 0)
        pure (Function.update reg d ⟨v, 0⟩)
  | .add => do
      let reg ← (if (reg d).mag + (reg a).mag > 32 then fieldWeaken reg d else pure reg)
      let reg ← (if (reg d).mag + (reg a).mag > 32 then fieldWeaken reg a else pure reg)
      let m := (reg a).mag
      let v ← secpFe (.add (.reg d) (.reg a) (reg d).v (reg a).v)
      pure (Function.update reg d ⟨v, (reg d).mag + m⟩)
  | .addInt => do
      let reg ← fieldLimit reg d 31
      let k ← readerU16
      let v ← secpFe (.addInt (reg d).v (k % 0x8000 : Nat))
      pure (Function.update reg d ⟨v, (reg d).mag + 1⟩)
  | .mul => do
      let reg ← fieldLimit reg a 8
      let reg ← fieldLimit reg b 8
      -- b may alias neither r nor a
      let tmp := (reg b).v
      let v ← secpFe (.mul (.reg d) (.reg a) .tmp (reg a).v tmp)
      pure (Function.update reg d ⟨v, 1⟩)
  | .sqr => do
      let reg ← fieldLimit reg a 8
      let v ← secpFe (.sqr (.reg d) (.reg a) (reg a).v)
      pure (Function.update reg d ⟨v, 1⟩)
  | .negate => do
      let reg ← fieldLimit reg a 31
      let k ← readerU8
      let m := (reg a).mag + (k % toUnsigned (32 - (reg a).mag) : Nat)
      let v ← secpFe (.negateUnchecked (.reg d) (.reg a) (reg a).v m)
      pure (Function.update reg d ⟨v, m + 1⟩)
  | .mulInt => do
      let k ← readerU8
      let m : Int := (k % 33 : Nat)
      let reg ← (if m * (reg d).mag > 32 then fieldWeaken reg d else pure reg)
      let v ← secpFe (.mulIntUnchecked (reg d).v m)
      pure (Function.update reg d ⟨v, (reg d).mag * m⟩)
  | .half => do
      let reg ← fieldLimit reg d 31
      let v ← secpFe (.half (reg d).v)
      pure (Function.update reg d ⟨v, ((reg d).mag >>> (1 : ℕ)) + 1⟩)
  | .normalize => do
      let v ← secpFe (.normalize (reg d).v)
      pure (Function.update reg d ⟨v, 1⟩)
  | .normalizeWeak => fieldWeaken reg d
  | .normalizeVar => do
      let v ← secpFe (.normalizeVar (reg d).v)
      pure (Function.update reg d ⟨v, 1⟩)
  | .inv => do
      let m : Int := if (reg a).mag ≠ 0 then 1 else 0
      let v ← secpFe (.inv (.reg d) (.reg a) (reg a).v)
      pure (Function.update reg d ⟨v, m⟩)
  | .invVar => do
      let m : Int := if (reg a).mag ≠ 0 then 1 else 0
      let v ← secpFe (.invVar (.reg d) (.reg a) (reg a).v)
      pure (Function.update reg d ⟨v, m⟩)
  | .sqrt => do
      let reg ← fieldLimit reg a 8
      -- r and a must not alias
      let (ret, tmp) ← secpFe (.sqrt .tmp (.reg a) (reg a).v)
      transcriptInt ret
      pure (Function.update reg d ⟨tmp, 1⟩)
  | .cmov => do
      let m := if (reg d).mag > (reg a).mag then (reg d).mag else (reg a).mag
      let k ← readerU8
      let v ← secpFe (.cmov (.reg d) (.reg a) (reg d).v (reg a).v (Int32.ofNat (k &&& 1)))
      pure (Function.update reg d ⟨v, m⟩)
  | .storage => do
      let v ← secpFe (.normalize (reg d).v)
      let s ← secpFe (.toStorage v)
      let v ← secpFe (.fromStorage s)
      pure (Function.update reg d ⟨v, 1⟩)
  | .query => do
      fieldQuery (reg a) (reg b)
      pure reg

/-- One round of the loop of `target_field`. -/
def fieldStep (reg : FieldRegs T) : Harness T (FieldRegs T) := do
  let op ← readerU8
  let op := op % fieldOpCount
  let sel ← readerU8
  let d := selReg sel 0
  transcriptU8 op
  let reg ← fieldSwitch reg d (selReg sel 1) (selReg sel 2) (FieldOp.cast op)
  fieldRecord (reg d).v
  pure reg

/-- Every register is set to zero, with magnitude 0. -/
def fieldInit : Harness T (FieldRegs T) := do
  let v0 ← secpFe (.setInt 0)
  let v1 ← secpFe (.setInt 0)
  let v2 ← secpFe (.setInt 0)
  let v3 ← secpFe (.setInt 0)
  pure fun i => ⟨![v0, v1, v2, v3] i, 0⟩

/-- The first `n` ops of `target_field`. -/
def fieldOps (n : Nat) : Harness T (FieldRegs T) := do
  let reg ← fieldInit
  Prog.loop readerMore fieldStep n reg

def targetField : Harness T (FieldRegs T) := fieldOps fieldMaxOps

end Diffsecp
