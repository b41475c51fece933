import Mathlib.Data.Finset.Lattice.Lemmas
import Diffsecp.Scalar.Target
import Diffsecp.Secp.Meaning

/-!
# Scalar — Recorded

Two runs of the scalar target over builds of which only the serialization is
trusted. Every op records what it writes, in blocks whose lengths the input
determines.
-/

namespace Diffsecp.Recorded

open Interact

variable {V : Decoding} {T T' : Types} {σ σ' : Type}

/-- The registers the op that begins with `left` writes. -/
def scalarWrites (left : List UInt8) : Finset (Fin 4) :=
  let op := (left.getD 0 0).toNat % scalarOpCount
  let sel := ((left.drop 1).getD 0 0).toNat
  (ScalarOp.cast op).writes (selReg sel 0) (selReg sel 2)

/-- What the first `k` ops leave of the input. -/
def scalarRest (lib : Build T σ) (inp : List UInt8) (s : σ) (k : ℕ) : List UInt8 :=
  ((scalarOps k).run reader lib inp s).rest

/-- The registers the first `k` ops have written; no op begins where nothing
is left. -/
def scalarWritten (lib : Build T σ) (inp : List UInt8) (s : σ) : ℕ → Finset (Fin 4)
  | 0 => ∅
  | k + 1 => scalarWritten lib inp s k ∪
      if (scalarRest lib inp s k).isEmpty then ∅
        else scalarWrites (scalarRest lib inp s k)

/-- The same scalar in both runs where it has been written; elsewhere each run
has the one it started with. -/
def ScalarSame (M : Meaning V T) (M' : Meaning V T') (reg₀ : ScalarRegs T)
    (reg₀' : ScalarRegs T') (written : Finset (Fin 4)) (reg : ScalarRegs T)
    (reg' : ScalarRegs T') : Prop :=
  ∀ i, (i ∈ written → M.scalar (reg i) = M'.scalar (reg' i)) ∧
    (i ∉ written → reg i = reg₀ i ∧ reg' i = reg₀' i)

/-- `ScalarSame` but for `d`, which is still to be recorded. -/
def ScalarSameBut (M : Meaning V T) (M' : Meaning V T') (reg₀ : ScalarRegs T)
    (reg₀' : ScalarRegs T') (d : Fin 4) (written : Finset (Fin 4)) (reg : ScalarRegs T)
    (reg' : ScalarRegs T') : Prop :=
  ∀ i, (i ≠ d → i ∈ written → M.scalar (reg i) = M'.scalar (reg' i)) ∧
    (i ∉ written → reg i = reg₀ i ∧ reg' i = reg₀' i)

section Lockstep

variable {M : Meaning V T} {M' : Meaning V T'} {r : List UInt8} {g g' : Unit}
  {reg₀ reg : ScalarRegs T} {reg₀' reg' : ScalarRegs T'}
  {written : Finset (Fin 4)} {d b : Fin 4}

theorem ScalarSame.but (h : ScalarSame M M' reg₀ reg₀' written reg reg') :
    ScalarSameBut M M' reg₀ reg₀' d written reg reg' :=
      fun i => ⟨fun _ => (h i).1, (h i).2⟩

/-- The record of `d` completes it. -/
theorem ScalarSameBut.recorded (h : ScalarSameBut M M' reg₀ reg₀' d written reg reg')
    (hd : M.scalar (reg d) = M'.scalar (reg' d)) :
    ScalarSame M M' reg₀ reg₀' written reg reg' := by
  intro i
  refine ⟨fun hi => ?_, (h i).2⟩
  by_cases hid : i = d
  · rw [hid]
    exact hd
  · exact (h i).1 hid hi

/-- `d` is written. -/
theorem ScalarSame.update (h : ScalarSame M M' reg₀ reg₀' written reg reg') (d : Fin 4)
    (v : T.Scalar) (v' : T'.Scalar) :
    ScalarSameBut M M' reg₀ reg₀' d (written ∪ {d}) (Function.update reg d v)
      (Function.update reg' d v') := by
  intro i
  constructor
  · intro hid hi
    have hi : i ∈ written := by simpa [hid] using hi
    rw [Function.update_of_ne hid, Function.update_of_ne hid]
    exact (h i).1 hi
  · intro hi
    have hi : i ∉ written ∧ i ≠ d := by simpa [and_comm] using hi
    rw [Function.update_of_ne hi.2, Function.update_of_ne hi.2]
    exact (h i).2 hi.1

/-- `d` is written, and then `b`, which is recorded at once. -/
theorem ScalarSame.split (h : ScalarSame M M' reg₀ reg₀' written reg reg') (d b : Fin 4)
    (v : T.Scalar) (v' : T'.Scalar) {v₂ : T.Scalar} {v₂' : T'.Scalar}
    (hval : M.scalar v₂ = M'.scalar v₂') :
    ScalarSameBut M M' reg₀ reg₀' d (written ∪ {d, b})
      (Function.update (Function.update reg d v) b v₂)
      (Function.update (Function.update reg' d v') b v₂') := by
  intro i
  by_cases hib : i = b
  · subst hib
    rw [Function.update_self, Function.update_self]
    exact ⟨fun _ _ => hval, fun hi => absurd hi (by simp)⟩
  · rw [Function.update_of_ne hib, Function.update_of_ne hib]
    have hmem : i ∈ written ∪ {d, b} ↔ i ∈ written ∪ {d} := by simp [hib]
    rw [hmem]
    exact h.update d v v' i

/-- Equal records are of the same scalar. -/
theorem lock_scalarRecord {v : T.Scalar} {v' : T'.Scalar} :
    Lockstep reader M.contract M'.contract SameLength (fun _ _ _ _ =>
      M.scalar v = M'.scalar v') (scalarRecord v) (scalarRecord v') r g g' := by
  apply Lockstep.invoke_bind trivial trivial
  intro b32 b32' hb hb'
  have hval : V.scalar b32 = M.scalar v := hb
  have hval' : V.scalar b32' = M'.scalar v' := hb'
  apply Lockstep.emit
  · show b32.toList.length = b32'.toList.length
    simp
  · intro heq
    rw [← hval, ← hval', Vector.toList_inj.mp heq]

theorem lock_scalarQuery {a b : T.Scalar} {a' b' : T'.Scalar} :
    Lockstep reader M.contract M'.contract SameLength (fun _ _ _ _ => True)
      (scalarQuery a b) (scalarQuery a' b') r g g' := by
  refine Lockstep.invoke_bind trivial trivial fun _ _ _ _ => lock_len_int fun _ => ?_
  refine Lockstep.invoke_bind trivial trivial fun _ _ _ _ => lock_len_int fun _ => ?_
  refine Lockstep.invoke_bind trivial trivial fun _ _ _ _ => lock_len_int fun _ => ?_
  refine Lockstep.invoke_bind trivial trivial fun _ _ _ _ => lock_len_int fun _ => ?_
  refine Lockstep.invoke_bind trivial trivial fun _ _ _ _ => lock_len_int fun _ => ?_
  refine lock_readerU8 fun c _ => lock_readerU16 fun o _ => ?_
  refine Lockstep.invoke_bind trivial trivial fun _ _ _ _ => lock_len_u32 fun _ => ?_
  refine lock_readerU8 fun c _ => lock_readerU8 fun l _ => lock_readerU8 fun o _ => ?_
  exact Lockstep.invoke_bind trivial trivial fun _ _ _ _ =>
    Lockstep.emit rfl fun _ => trivial

/-- The common end of an op: a call whose result goes to `d`. -/
theorem lock_scalarAssign (h : ScalarSame M M' reg₀ reg₀' written reg reg') (d : Fin 4)
    (q : ScalarCall T T.Scalar) (q' : ScalarCall T' T'.Scalar) :
    Lockstep reader M.contract M'.contract SameLength
      (fun reg reg' _ _ => ScalarSameBut M M' reg₀ reg₀' d (written ∪ {d}) reg reg')
      (do let v ← secpScalar q; pure (Function.update reg d v))
      (do let v ← secpScalar q'; pure (Function.update reg' d v)) r g g' := by
  apply Lockstep.invoke_bind trivial trivial
  intro v v' _ _
  exact Lockstep.pure (h.update d v v')

/-- Both splits: the half that goes to `b` is recorded. -/
theorem lock_scalarSplit (h : ScalarSame M M' reg₀ reg₀' written reg reg') (d b : Fin 4)
    (q : ScalarCall T (T.Scalar × T.Scalar))
    (q' : ScalarCall T' (T'.Scalar × T'.Scalar)) :
    Lockstep reader M.contract M'.contract SameLength
      (fun reg reg' _ _ => ScalarSameBut M M' reg₀ reg₀' d (written ∪ {d, b}) reg reg')
      (do
        let (res, res2) ← secpScalar q
        scalarRecord res2
        pure (Function.update (Function.update reg d res) b res2))
      (do
        let (res, res2) ← secpScalar q'
        scalarRecord res2
        pure (Function.update (Function.update reg' d res) b res2)) r g g' := by
  apply Lockstep.invoke_bind trivial trivial
  intro ⟨res, res2⟩ ⟨res', res2'⟩ _ _
  apply Lockstep.bind lock_scalarRecord
  intro _ _ _ _ _ hval
  exact Lockstep.pure (h.split d b res res' hval)

/-- An op reads the same, and what it changes besides `d` it records. -/
theorem lock_scalarSwitch (h : ScalarSame M M' reg₀ reg₀' written reg reg') (d b : Fin 4)
    {a y : T.Scalar} {a' y' : T'.Scalar} (op : ScalarOp) :
    Lockstep reader M.contract M'.contract SameLength
      (fun reg reg' _ _ =>
        ScalarSameBut M M' reg₀ reg₀' d (written ∪ op.writes d b) reg reg')
      (scalarSwitch reg d b a y op) (scalarSwitch reg' d b a' y' op) r g g' := by
  cases op with
  | setB32 | setB32Seckey =>
      refine lock_readerTake fun b32 _ =>
        Lockstep.invoke_bind trivial trivial fun _ _ _ _ => ?_
      exact lock_len_int fun _ => Lockstep.pure (h.update d _ _)
  | add =>
      refine Lockstep.invoke_bind trivial trivial fun _ _ _ _ => lock_len_int fun _ => ?_
      exact Lockstep.pure (h.update d _ _)
  | condNegate =>
      refine lock_readerU8 fun k _ =>
        Lockstep.invoke_bind trivial trivial fun _ _ _ _ => ?_
      exact lock_len_int fun _ => Lockstep.pure (h.update d _ _)
  | mul | negate | half | inverse | inverseVar => exact lock_scalarAssign h d _ _
  | cmov | mulShiftVar => exact lock_readerU8 fun k _ => lock_scalarAssign h d _ _
  | split128 | splitLambda => exact lock_scalarSplit h d b _ _
  | query =>
      refine Lockstep.bind lock_scalarQuery fun _ _ _ _ _ _ => Lockstep.pure ?_
      rw [ScalarOp.writes, Finset.union_empty]
      exact h.but

theorem lock_scalarStep (h : ScalarSame M M' reg₀ reg₀' written reg reg') :
    Lockstep reader M.contract M'.contract SameLength
      (fun reg reg' _ _ => ScalarSame M M' reg₀ reg₀' (written ∪ scalarWrites r) reg reg')
      (scalarStep reg) (scalarStep reg') r g g' := by
  refine lock_readerU8_at (lock_readerU8_at (lock_len_u8 ?_))
  apply Lockstep.bind (lock_scalarSwitch h _ _ _)
  intro reg reg' _ _ _ hbut
  apply Lockstep.bind lock_scalarRecord
  intro _ _ _ _ _ hval
  exact Lockstep.pure (hbut.recorded hval)

end Lockstep

/-- A run sets its registers, which reads and puts nothing, and loops. -/
theorem run_scalarOps (lib : Build T σ) (n : Nat) (inp : List UInt8) (s : σ) :
    let w := scalarInit.run reader lib inp s
    let w' := (Prog.loop readerMore scalarStep n w.val).run reader lib inp w.state
    (scalarOps n).run reader lib inp s = { w' with log := w.log ++ w'.log } := by
  simp [scalarOps, scalarInit]

theorem scalarOps_recorded {M : Meaning V T} {M' : Meaning V T'} {lib : Build T σ}
    {lib' : Build T' σ'} (hlib : lib.Meets M.contract) (hlib' : lib'.Meets M'.contract)
    (s : σ) (s' : σ') (inp : List UInt8) :
    Lockstep.Recorded
      (fun k => ScalarSame M M' ((scalarOps 0).run reader lib inp s).val
        ((scalarOps 0).run reader lib' inp s').val (scalarWritten lib inp s k))
      (fun k => (scalarOps k).run reader lib inp s) (fun k =>
        (scalarOps k).run reader lib' inp s') := by
  have hinit : ScalarSame M M' (scalarInit.run reader lib inp s).val
      (scalarInit.run reader lib' inp s').val
      (scalarWritten lib inp s 0) (scalarInit.run reader lib inp s).val
      (scalarInit.run reader lib' inp s').val :=
    fun i => ⟨fun hi => absurd hi (Finset.notMem_empty i), fun _ => ⟨rfl, rfl⟩⟩
  simp only [run_scalarOps]
  refine Lockstep.loop_recorded (readerMore_peeks lib) (readerMore_peeks lib')
    (fun _ _ h => h) hlib hlib' hinit inp (scalarInit.run reader lib inp s).state
    (scalarInit.run reader lib' inp s').state ?_ ?_
  · intro k reg reg' hmore h
    have hleft : (scalarRest lib inp s k).isEmpty = false := by
      rw [scalarRest, run_scalarOps]
      simpa using hmore
    rw [scalarWritten, hleft, if_neg Bool.false_ne_true, scalarRest, run_scalarOps]
    exact lock_scalarStep h
  · intro k reg reg' hstop h
    have hleft : (scalarRest lib inp s k).isEmpty = true := by
      rw [scalarRest, run_scalarOps]
      simpa using hstop
    rw [scalarWritten, hleft, if_pos rfl, Finset.union_empty]
    exact h

end Diffsecp.Recorded
