import Diffsecp.Field.Target
import Diffsecp.Group.Target
import Diffsecp.Keys.Target
import Diffsecp.Length.Basic
import Diffsecp.Scalar.Target

/-!
# Length — Machines

How much a round of each register machine puts: the op number, what the op
itself records, and the register it wrote.
-/

namespace Diffsecp

open Interact

variable {T : Types} {α : Type} {n : ℕ}

/-! ## Field -/

theorem writes_fieldRecord (v : T.Fe) : Writes (fieldRecord v) 32 := by
  apply puts_call
  intro m
  apply puts_call
  intro b32
  exact puts_array_end (n := 0)

theorem writes_fieldWeaken (reg : FieldRegs T) (x : Fin 4) :
    Writes (fieldWeaken reg x) 0 := by
  apply puts_call
  intro v
  exact writes_pure

theorem writes_fieldLimit (reg : FieldRegs T) (x : Fin 4) (max : Int) :
    Writes (fieldLimit reg x max) 0 :=
  Puts.ite (fun _ => writes_fieldWeaken reg x) fun _ => writes_pure

theorem writes_fieldQuery (a b : FieldReg T) : Writes (fieldQuery a b) 28 := by
  unfold fieldQuery
  repeat first
    | exact puts_int_end (n := 0)
    | apply puts_int
    | (apply puts_call; intro _)

/-- The longest record of an op is that of the predicates. -/
theorem writes_fieldSwitch (reg : FieldRegs T) (d a b : Fin 4) (op : FieldOp) :
    Writes (fieldSwitch reg d a b op) 28 := by
  cases op with
  | setB32Limit =>
      apply puts_readerTake
      intro b32
      apply puts_call
      intro ⟨ret, v⟩
      apply puts_int (n := 24)
      apply Puts.ite
      · intro _
        exact writes_pure
      · intro _
        apply puts_call
        intro v
        exact writes_pure
  | query =>
      apply writes_bind (n := 0) (writes_fieldQuery (reg a) (reg b))
      intro _
      exact writes_pure
  | sqrt =>
      apply writes_bind (n := 28) (writes_fieldLimit reg a 8)
      intro reg
      apply puts_call
      intro ⟨ret, tmp⟩
      apply puts_int (n := 24)
      exact writes_pure
  | _ =>
      -- the others record nothing but the register they write
      repeat first
        | exact writes_pure
        | exact writes_fieldWeaken _ _
        | (apply writes_bind (writes_fieldLimit _ _ _); intro _)
        | (apply writes_ite (m := 0) (fun _ => writes_fieldWeaken _ _) fun _ =>
              writes_pure; intro _)
        | (apply puts_readerTake; intro _)
        | (apply puts_call; intro _)

theorem writes_fieldStep (reg : FieldRegs T) : Writes (fieldStep reg) 61 := by
  apply puts_readerU8
  intro op
  apply puts_readerU8
  intro sel
  apply puts_u8 (n := 60)
  apply writes_bind (n := 32) (writes_fieldSwitch _ _ _ _ _)
  intro reg
  apply writes_bind (n := 0) (writes_fieldRecord _)
  intro _
  exact writes_pure

theorem writes_targetField :
    Writes (targetField : Harness T (FieldRegs T)) (1024 * 61) := by
  apply writes_bind (m := 0)
  · repeat first
      | exact writes_pure
      | (apply puts_call; intro _)
  · intro reg
    exact Puts.loop puts_readerMore (fun reg _ => writes_fieldStep reg)
      fieldMaxOps trivial

/-! ## Scalar -/

theorem writes_scalarRecord (s : T.Scalar) : Writes (scalarRecord s) 32 := by
  apply puts_call
  intro b32
  exact puts_array_end (n := 0)

theorem writes_scalarQuery (a b : T.Scalar) : Writes (scalarQuery a b) 28 := by
  unfold scalarQuery
  repeat first
    | exact puts_u32_end (n := 0)
    | apply puts_int
    | apply puts_u32
    | (apply puts_readerTake; intro _)
    | (apply puts_call; intro _)

/-- The longest record of an op is the second register of a split. -/
theorem writes_scalarSwitch (reg : ScalarRegs T) (d b : Fin 4) (a y : T.Scalar)
    (op : ScalarOp) :
    Writes (scalarSwitch reg d b a y op) 32 := by
  cases op with
  | query =>
      apply writes_bind (n := 4) (writes_scalarQuery a y)
      intro _
      exact writes_pure
  | _ =>
      repeat first
        | exact writes_pure
        | apply puts_int (n := 28)
        | (apply writes_bind (n := 0) (writes_scalarRecord _); intro _)
        | (apply puts_readerTake; intro _)
        | (apply puts_call; intro _)

theorem writes_scalarStep (reg : ScalarRegs T) : Writes (scalarStep reg) 65 := by
  apply puts_readerU8
  intro op
  apply puts_readerU8
  intro sel
  apply puts_u8 (n := 64)
  apply writes_bind (n := 32) (writes_scalarSwitch _ _ _ _ _ _)
  intro reg
  apply writes_bind (n := 0) (writes_scalarRecord _)
  intro _
  exact writes_pure

theorem writes_targetScalar :
    Writes (targetScalar : Harness T (ScalarRegs T)) (1024 * 65) := by
  apply writes_bind (m := 0)
  · repeat first
      | exact writes_pure
      | (apply puts_call; intro _)
  · intro reg
    exact Puts.loop puts_readerMore (fun reg _ => writes_scalarStep reg)
      scalarMaxOps trivial

/-! ## Group -/

theorem writes_groupTakeScalar : Writes (groupTakeScalar : Harness T T.Scalar) 0 := by
  apply puts_readerTake
  intro b32
  apply puts_call
  intro ⟨s, _⟩
  exact writes_pure

theorem writes_groupTakeFe : Writes (groupTakeFe : Harness T T.Fe) 0 := by
  apply puts_readerTake
  intro b32
  exact writes_call_end

theorem writes_groupTakeNonzeroFe : Writes (groupTakeNonzeroFe : Harness T T.Fe) 0 := by
  apply writes_bind (n := 0) writes_groupTakeFe
  intro x
  apply puts_call
  intro zero
  exact Puts.ite (fun _ => writes_call_end) fun _ => writes_pure

theorem writes_groupAffine (a : Gej T) : Writes (groupAffine a) 0 := by
  apply puts_call
  intro ⟨r, _⟩
  exact writes_pure

theorem writes_groupRecordFe (x : T.Fe) : Writes (groupRecordFe x) 32 := by
  apply puts_call
  intro m
  apply puts_call
  intro b32
  exact puts_array_end (n := 0)

/-- A point is a flag and two coordinates. -/
theorem writes_groupRecordGe (p : Ge T) : Writes (groupRecordGe p) 65 := by
  apply puts_u8 (n := 64)
  apply Puts.ite
  · intro _
    exact writes_bind (writes_groupRecordFe p.x) fun _ => writes_groupRecordFe p.y
  · intro _
    exact writes_pure

theorem writes_groupRecordGes (ps : List (Ge T)) :
    Writes (groupRecordGes ps) (65 * ps.length) := by
  induction ps with
  | nil => exact writes_pure
  | cons p ps ih => exact writes_bind (writes_groupRecordGe p) fun _ => ih

theorem writes_groupRecordRzr (r a : Gej T) (rzr : T.Fe) :
    Writes (groupRecordRzr r a rzr) 4 := by
  apply puts_call
  intro z
  apply Puts.ite
  · intro _
    exact puts_int_end (n := 0)
  · intro _
    apply puts_call
    intro eq
    exact puts_int_end (n := 0)

theorem writes_groupQuery (a b : Gej T) (ga gb : Ge T) :
    Writes (groupQuery a b ga gb) 32 := by
  apply writes_bind (n := 32) writes_groupTakeFe
  intro xn
  apply writes_bind (n := 32) writes_groupTakeNonzeroFe
  intro xd
  iterate 5
    apply puts_call
    intro _
    apply puts_int
  apply writes_ite (m := 4)
  · intro _
    apply puts_call
    intro _
    exact puts_int_end (n := 0)
  · intro _
    exact writes_pure
  · intro _
    apply puts_call
    intro _
    apply puts_int (n := 4)
    apply puts_call
    intro _
    exact puts_int_end (n := 0)

theorem writes_groupEcmultConstXonly (a : Ge T) :
    Writes (groupEcmultConstXonly a) 36 := by
  apply writes_bind (n := 36) writes_groupTakeScalar
  intro q
  apply puts_readerU8
  intro flags
  apply writes_bind (n := 36) writes_groupTakeFe
  intro m
  apply writes_bind (n := 36) writes_groupTakeNonzeroFe
  intro d
  apply puts_call
  intro zero
  apply writes_ite (n := 36) (m := 0) (fun _ => writes_call_end) fun _ => writes_pure
  intro q
  apply writes_bind (n := 36) (m := 0)
  · apply Puts.ite
    · intro _
      exact writes_call_end
    · intro _
      exact Puts.ite (fun _ => writes_pure) fun _ => writes_pure
  intro m
  apply puts_call
  intro ⟨ret, x⟩
  apply puts_int (n := 32)
  exact Puts.ite (fun _ => writes_groupRecordFe x) fun _ => writes_pure

theorem writes_groupMultiOperand (reg : Fin 4 → Gej T) (j : Fin 4) :
    Writes (groupMultiOperand reg j) 0 := by
  apply writes_bind (n := 0) writes_groupTakeScalar
  intro sc
  apply writes_bind (n := 0) (writes_groupAffine _)
  intro pt
  exact writes_pure

theorem writes_groupMultiSize (flags : Nat) (large : Bool) (step : T.Scalar) :
    Writes (groupMultiSize flags large step) 0 := by
  apply Puts.ite
  · intro _
    apply writes_ite (n := 0) (m := 0)
    · intro _
      apply puts_readerU16
      intro k
      exact writes_pure
    · intro _
      apply puts_readerU8
      intro k
      exact writes_pure
    intro ⟨count, scale, large⟩
    apply writes_bind (n := 0) writes_groupTakeScalar
    intro step
    apply puts_readerU16
    intro size
    apply puts_call
    intro scratch
    exact writes_pure
  · intro _
    exact writes_pure

theorem writes_groupEcmultMulti (reg : Fin 4 → Gej T) (large : Bool) :
    Writes (groupEcmultMulti reg large) 0 := by
  apply writes_bind (n := 0) writes_groupTakeScalar
  intro ng
  apply puts_readerU8
  intro flags
  iterate 4
    apply writes_bind (n := 0) (writes_groupMultiOperand reg _)
    intro ⟨sc, pt⟩
  apply puts_call
  intro step
  apply writes_bind (n := 0) (writes_groupMultiSize flags large step)
  intro ⟨count, step, scratch, large⟩
  apply writes_ite (n := 0) (m := 0)
  · intro _
    rw [← bind_pure readerU8]
    apply puts_readerU8
    intro k
    exact writes_pure
  · intro _
    exact writes_pure
  intro failAt
  apply puts_call
  intro ⟨ret, res⟩
  apply puts_call
  intro _
  apply writes_ite (n := 0) (m := 0) (fun _ => writes_call_end) fun _ => writes_pure
  intro res
  exact writes_pure

/-- Up to four points, by both batches. -/
theorem writes_groupBatchAffine (reg : Fin 4 → Gej T) (n : Nat) (hn : n ≤ 4) :
    Writes (groupBatchAffine reg n) 520 := by
  have hges : ∀ v : Vector (Ge T) n, Writes (groupRecordGes v.toList) 260 := by
    intro v
    apply (writes_groupRecordGes v.toList).weaken
    rw [Vector.length_toList]
    omega
  apply puts_call
  intro ge
  apply writes_bind (n := 260) (hges ge)
  intro _
  apply Puts.ite
  · intro _
    exact writes_pure
  · intro _
    apply puts_call
    intro ge
    exact hges ge

theorem shiftRight_four_le (k : ℕ) : 4 >>> k ≤ 4 := by
  rw [Nat.shiftRight_eq_div_pow]
  exact Nat.div_le_self 4 _

/-- The longest record of an op is that of the batches. -/
theorem writes_groupSwitch (st : GroupState T) (sel : Nat) (res a b : Gej T)
    (ga gb : Ge T) (op : GroupOp) :
    Writes (groupSwitch st sel res a b ga gb op) 520 := by
  cases op with
  | setXo =>
      apply writes_bind (n := 520) writes_groupTakeFe
      intro f1
      apply puts_readerU8
      intro k
      apply puts_call
      intro ⟨ret, ge⟩
      apply puts_int (n := 516)
      apply writes_ite (n := 516) (m := 0) (fun _ => writes_call_end) fun _ => writes_pure
      intro res
      exact writes_pure
  | addVar | addGeVar =>
      apply Puts.ite
      · intro _
        apply puts_call
        intro ⟨res, _⟩
        exact writes_pure
      · intro _
        apply puts_call
        intro ⟨res, rzr⟩
        apply writes_bind (n := 516) (writes_groupRecordRzr _ _ _)
        intro _
        exact writes_pure
  | addZinvVar =>
      apply writes_bind (n := 520) writes_groupTakeNonzeroFe
      intro f1
      apply writes_ite (n := 520) (m := 0)
      · intro _
        iterate 5
          apply puts_call
          intro _
        exact writes_pure
      · intro _
        exact writes_pure
      intro ⟨ge, f2⟩
      apply puts_call
      intro res
      exact writes_pure
  | doubleVar =>
      apply puts_call
      intro ⟨res, rzr⟩
      apply writes_ite (n := 516) (m := 4) (fun _ => writes_groupRecordRzr _ _ _) fun _ =>
        writes_pure
      intro _
      exact writes_pure
  | ecmultConstXonly =>
      apply writes_bind (n := 484) (writes_groupEcmultConstXonly ga)
      intro _
      exact writes_pure
  | ecmultMulti =>
      apply writes_bind (n := 520) (writes_groupEcmultMulti st.reg st.large)
      intro ⟨ret, res, large⟩
      apply puts_int (n := 516)
      exact writes_pure
  | batchAffine =>
      apply writes_bind (n := 0) (writes_groupBatchAffine st.reg _ (shiftRight_four_le _))
      intro _
      exact writes_pure
  | query =>
      apply writes_bind (n := 488) (writes_groupQuery a b ga gb)
      intro _
      exact writes_pure
  | _ =>
      -- the others record nothing but the register they write
      dsimp only [groupSwitch]
      with_reducible
        repeat first
          | exact writes_pure
          | (apply puts_call; intro _)
          | (apply puts_readerU8; intro _)
          | (apply writes_bind writes_groupTakeScalar; intro _)
          | (apply writes_bind writes_groupTakeNonzeroFe; intro _)
          | (apply writes_ite (m := 0) (fun _ => writes_call_end) fun _ =>
                writes_pure; intro _)

theorem writes_groupStep (st : GroupState T) : Writes (groupStep st) 586 := by
  apply puts_readerU8
  intro op
  apply puts_readerU8
  intro sel
  apply writes_bind (n := 586) (writes_groupAffine _)
  intro ga
  apply writes_bind (n := 586) (writes_groupAffine _)
  intro gb
  apply puts_u8 (n := 585)
  apply writes_bind (n := 65) (writes_groupSwitch _ _ _ _ _ _ _ _)
  intro ⟨res, large⟩
  apply writes_bind (n := 65) (writes_groupAffine _)
  intro ge
  apply writes_bind (n := 0) (writes_groupRecordGe ge)
  intro _
  exact writes_pure

theorem writes_targetGroup (inp : List UInt8) :
    Writes (targetGroup inp : Harness T (GroupState T)) (32 * 586) := by
  apply writes_bind (m := 0)
  · repeat first
      | exact writes_pure
      | (apply puts_call; intro _)
  · intro st
    exact Puts.loop puts_readerMore (fun st _ => writes_groupStep st) groupMaxOps trivial

/-! ## Keys -/

theorem writes_keysRecordPubkey (pk : T.Pubkey) : Writes (keysRecordPubkey pk) 33 :=
  writes_recordPubkey true pk

theorem writes_keysRecordPubkeys (pks : List T.Pubkey) :
    Writes (keysRecordPubkeys pks) (33 * pks.length) := by
  induction pks with
  | nil => exact writes_pure
  | cons pk pks ih => exact writes_bind (writes_keysRecordPubkey pk) fun _ => ih

theorem writes_keysRecordReg (reg : KeysReg T) : Writes (keysRecordReg reg) 69 := by
  apply puts_array (n := 37)
  apply puts_int (n := 33)
  exact Puts.ite (fun _ => writes_keysRecordPubkey reg.pk) fun _ => writes_pure

theorem writes_keysTakeTweak (sel : Nat) (b : KeysReg T) :
    Writes (keysTakeTweak sel b) 0 := by
  apply Puts.ite
  · intro _
    exact writes_pure
  · intro _
    rw [← bind_pure (readerTake 32)]
    apply puts_readerTake
    intro b
    exact writes_pure

theorem writes_keysSeckeyResult (sk : Bytes 32) (ret : Int32) :
    Writes (keysSeckeyResult sk ret : Harness T (Bytes 32)) 4 := by
  apply puts_int (n := 0)
  exact writes_pure

theorem writes_keysEcdh (a b : KeysReg T) (named : Bool) :
    Writes (keysEcdh a b named) 148 := by
  apply puts_call
  intro ⟨ret, hashed⟩
  apply puts_int (n := 144)
  apply writes_bind (n := 112) writes_where
  intro _
  apply puts_call
  intro ⟨ret, xy⟩
  apply puts_int (n := 108)
  apply writes_ite (n := 8) (m := 100)
  · intro _
    apply puts_array (n := 36)
    apply puts_call
    intro ⟨ret, hashed⟩
    apply puts_int (n := 32)
    exact puts_array_end (n := 0)
  · intro _
    exact writes_pure
  intro _
  apply puts_call
  intro ⟨ret, _⟩
  exact puts_int_end (n := 4)

theorem writes_keysKeypairTweak (d a : KeysReg T) (tweak : Bytes 32) :
    Writes (keysKeypairTweak d a tweak) 44 := by
  apply puts_call
  intro ⟨ret, keypair⟩
  apply puts_int (n := 40)
  apply Puts.ite
  · intro _
    exact writes_pure
  · intro _
    apply puts_call
    intro ⟨_, xonly, parity⟩
    apply puts_call
    intro ⟨_, ser⟩
    apply puts_int (n := 36)
    apply puts_array (n := 4)
    apply puts_call
    intro ⟨ret, keypair⟩
    apply puts_int (n := 0)
    apply Puts.ite
    · intro _
      apply puts_call
      intro ⟨_, sk⟩
      apply puts_call
      intro ⟨_, pk⟩
      exact writes_pure
    · intro _
      exact writes_pure

theorem writes_keysXonly (d a b : KeysReg T) (tweak : Bytes 32) :
    Writes (keysXonly d a b tweak) 44 := by
  apply Puts.ite
  · intro _
    exact writes_pure
  · intro _
    apply puts_call
    intro ⟨_, xa, parity⟩
    apply puts_call
    intro ⟨_, ser⟩
    apply puts_int (n := 40)
    apply puts_array (n := 8)
    apply writes_ite (n := 4) (m := 4)
    · intro _
      apply puts_call
      intro ⟨_, xb, _⟩
      apply puts_call
      intro c
      exact puts_int_end (n := 0)
    · intro _
      exact writes_pure
    intro _
    apply puts_call
    intro ⟨ret, tweaked⟩
    apply puts_int (n := 0)
    exact writes_pure

theorem keysPtrs_length_le (reg : KeysRegs T) (pick : Fin 4 → Bool) :
    (keysPtrs reg pick).length ≤ 4 := by
  rw [keysPtrs, List.length_map]
  exact (List.length_filter_le _ _).trans (by simp)

theorem writes_keysSort (reg : KeysRegs T) : Writes (keysSort reg) 136 := by
  apply Puts.ite
  · intro _
    exact writes_pure
  · intro _
    apply puts_call
    intro ⟨ret, ptrs⟩
    apply puts_int (n := 132)
    apply (writes_keysRecordPubkeys _).weaken
    have hlen := keysPtrs_length_le reg fun _ => true
    rw [List.length_ofFn]
    omega

/-- The longest record of an op is that of the ECDH. -/
theorem writes_keysSwitch (reg : KeysRegs T) (res a b : KeysReg T) (sel : Nat)
    (op : KeysOp) :
    Writes (keysSwitch reg res a b sel op) 148 := by
  cases op with
  | pubkeyCmp =>
      apply writes_ite (n := 144) (m := 4)
      · intro _
        apply puts_call
        intro c
        exact puts_int_end (n := 0)
      · intro _
        exact writes_pure
      intro _
      exact writes_pure
  | pubkeySort =>
      apply writes_bind (n := 12) (writes_keysSort reg)
      intro _
      exact writes_pure
  | keypairTweak =>
      apply puts_readerTake
      intro tweak
      exact (writes_keysKeypairTweak _ _ _).weaken (by decide)
  | xonly =>
      apply puts_readerTake
      intro tweak
      exact (writes_keysXonly _ _ _ _).weaken (by decide)
  | ecdh =>
      apply writes_ite (n := 0) (fun _ => writes_keysEcdh _ _ _) fun _ => writes_pure
      intro _
      exact writes_pure
  | _ =>
      dsimp only [keysSwitch]
      with_reducible
        repeat first
          | exact writes_pure
          | apply puts_int (n := 144)
          | (apply puts_call; intro _)
          | (apply puts_readerTake; intro _)
          | (apply puts_readerU8; intro _)
          | (apply writes_bind (n := 144) (writes_keysSeckeyResult _ _); intro _)
          | (apply writes_bind (writes_keysTakeTweak _ _); intro _)
          | (apply Puts.ite <;> intro _)

theorem writes_keysStep (reg : KeysRegs T) : Writes (keysStep reg) 218 := by
  apply puts_readerU8
  intro op
  apply puts_readerU8
  intro sel
  apply puts_u8 (n := 217)
  apply writes_bind (n := 69) (writes_keysSwitch _ _ _ _ _ _)
  intro res
  apply writes_bind (n := 0) (writes_keysRecordReg _)
  intro _
  exact writes_pure

theorem writes_targetKeys : Writes (targetKeys : Harness T (KeysRegs T)) (64 * 218) :=
  Puts.loop puts_readerMore (fun reg _ => writes_keysStep reg) keysMaxOps trivial

end Diffsecp
