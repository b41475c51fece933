import Diffsecp.Group.Target
import Diffsecp.Secp.Meaning

/-!
# Group — Recorded

Two runs of the group target over builds of which only the serialization is
trusted. The infinity flags of the registers, which decide what an op
records, are themselves recorded.
-/

namespace Diffsecp.Recorded

open Interact

variable {V : Decoding} {T T' : Types} {σ σ' : Type}

/-- The same affine point. -/
def SamePoint (M : Meaning V T) (M' : Meaning V T') (a : Gej T) (a' : Gej T') : Prop :=
  a.infinity = a'.infinity ∧ (a.infinity = false → M.point a = M'.point a')

/-- The same points in the registers, and a large run due in both or in
neither. -/
def GroupSame (M : Meaning V T) (M' : Meaning V T') (st : GroupState T)
    (st' : GroupState T') : Prop :=
  (∀ i, SamePoint M M' (st.reg i) (st'.reg i)) ∧ st.large = st'.large

section Lockstep

variable {M : Meaning V T} {M' : Meaning V T'} {r : List UInt8}
  {g g' : Unit} {α α' : Type} {Post : α → α' → Unit → Unit → Prop}

/-! ## Operands -/

/-- A call one run may make without the other. -/
theorem lock_callIf {c c' : Prop} [Decidable c] [Decidable c'] {δ δ' : Type}
    {q : LibCall T δ} {q' : LibCall T' δ'} {x : δ} {x' : δ'} {f : δ → Harness T α}
    {f' : δ' → Harness T' α'} (h : ∀ v v',
      Lockstep reader M.contract M'.contract SameLength Post (f v) (f' v') r () ()) :
    Lockstep reader M.contract M'.contract SameLength Post
      ((if c then Prog.invoke q else pure x) >>= f)
      ((if c' then Prog.invoke q' else pure x') >>= f') r g g' := by
  have hright : ∀ v, Lockstep reader M.contract M'.contract SameLength Post (f v)
      ((if c' then Prog.invoke q' else pure x') >>= f') r () () := by
    intro v
    by_cases hc' : c'
    · rw [if_pos hc']
      exact Lockstep.right trivial fun v' _ => h v v'
    · rw [if_neg hc', pure_bind]
      exact h v x'
  by_cases hc : c
  · rw [if_pos hc]
    exact Lockstep.left trivial fun v _ => hright v
  · rw [if_neg hc, pure_bind]
    exact hright x

theorem lock_groupTakeScalar {f : T.Scalar → Harness T α} {f' : T'.Scalar → Harness T' α'}
    (h : ∀ s s' r,
      Lockstep reader M.contract M'.contract SameLength Post (f s) (f' s') r () ()) :
    Lockstep reader M.contract M'.contract SameLength Post (groupTakeScalar >>= f)
      (groupTakeScalar >>= f') r g g' := by
  simp only [groupTakeScalar, bind_assoc, pure_bind]
  exact lock_readerTake fun b32 r =>
    Lockstep.invoke_bind trivial trivial fun _ _ _ _ => h _ _ r

theorem lock_groupTakeFe {f : T.Fe → Harness T α} {f' : T'.Fe → Harness T' α'}
    (h : ∀ x x' r,
      Lockstep reader M.contract M'.contract SameLength Post (f x) (f' x') r () ()) :
    Lockstep reader M.contract M'.contract SameLength Post (groupTakeFe >>= f)
      (groupTakeFe >>= f') r g g' := by
  simp only [groupTakeFe, bind_assoc]
  exact lock_readerTake fun b32 r =>
    Lockstep.invoke_bind trivial trivial fun _ _ _ _ => h _ _ r

theorem lock_groupTakeNonzeroFe {f : T.Fe → Harness T α} {f' : T'.Fe → Harness T' α'}
    (h : ∀ x x' r,
      Lockstep reader M.contract M'.contract SameLength Post (f x) (f' x') r () ()) :
    Lockstep reader M.contract M'.contract SameLength Post (groupTakeNonzeroFe >>= f)
      (groupTakeNonzeroFe >>= f') r g g' := by
  simp only [groupTakeNonzeroFe, bind_assoc]
  refine lock_groupTakeFe fun x x' r =>
    Lockstep.invoke_bind trivial trivial fun _ _ _ _ => ?_
  exact lock_callIf fun v v' => h v v' r

/-- The conversion keeps the flag and the point. -/
theorem lock_groupAffine {a : Gej T} {a' : Gej T'} {f : Ge T → Harness T α}
    {f' : Ge T' → Harness T' α'}
    (h : ∀ ga ga', ga.infinity = a.infinity → ga'.infinity = a'.infinity →
      M.point a = (if ga.infinity then none else some (M.fe ga.x, M.fe ga.y)) →
      M'.point a' = (if ga'.infinity then none else some (M'.fe ga'.x, M'.fe ga'.y)) →
      Lockstep reader M.contract M'.contract SameLength Post (f ga) (f' ga') r () ()) :
    Lockstep reader M.contract M'.contract SameLength Post (groupAffine a >>= f)
      (groupAffine a' >>= f') r g g' := by
  simp only [groupAffine, bind_assoc, pure_bind]
  apply Lockstep.invoke_bind trivial trivial
  intro ⟨ga, _⟩ ⟨ga', _⟩ hga hga'
  exact h ga ga' hga.1 hga'.1 hga.2 hga'.2

/-! ## Records -/

/-- Equal records are of the same field element. -/
theorem lock_groupRecordFe {x : T.Fe} {x' : T'.Fe} :
    Lockstep reader M.contract M'.contract SameLength (fun _ _ _ _ => M.fe x = M'.fe x')
      (groupRecordFe x) (groupRecordFe x') r g g' := by
  apply Lockstep.invoke_bind trivial trivial
  intro n n' hn hn'
  obtain ⟨hval, hnorm⟩ := hn
  obtain ⟨hval', hnorm'⟩ := hn'
  apply Lockstep.invoke_bind trivial trivial
  intro b32 b32' hb hb'
  have hb₁ : V.fe b32 = M.fe n := hb hnorm
  have hb₁' : V.fe b32' = M'.fe n' := hb' hnorm'
  rw [← bind_pure (transcriptBytes b32.toList), ← bind_pure (transcriptBytes b32'.toList)]
  apply lock_len_array
  intro heq
  apply Lockstep.pure
  rw [← hval, ← hval', ← hb₁, ← hb₁', heq]

/-- Equal records are of the same affine point. -/
theorem lock_groupRecordGe {p : Ge T} {p' : Ge T'} :
    Lockstep reader M.contract M'.contract SameLength
      (fun _ _ _ _ => p.infinity = p'.infinity ∧
        (p.infinity = false → M.fe p.x = M'.fe p'.x ∧ M.fe p.y = M'.fe p'.y))
      (groupRecordGe p) (groupRecordGe p') r g g' := by
  have hlen : SameLength [UInt8.ofNat (if p.infinity then 1 else 0)]
    [UInt8.ofNat (if p'.infinity then 1 else 0)] := rfl
  apply Lockstep.emit_bind hlen
  intro hflag
  have hinf : p.infinity = p'.infinity := by
    revert hflag
    cases p.infinity <;> cases p'.infinity <;> decide
  rw [← hinf]
  apply Lockstep.ite
  · intro _
    apply Lockstep.bind lock_groupRecordFe
    intro _ _ _ _ _ hx
    exact lock_groupRecordFe.mono fun _ _ _ _ hy => ⟨rfl, fun _ => ⟨hx, hy⟩⟩
  · intro h
    exact Lockstep.pure ⟨rfl, fun hfalse => absurd hfalse h⟩

theorem lock_groupRecordGes {ps : List (Ge T)} {ps' : List (Ge T')}
    (hlen : ps.length = ps'.length) :
    Lockstep reader M.contract M'.contract SameLength (fun _ _ _ _ => True)
      (groupRecordGes ps) (groupRecordGes ps') r g g' := by
  induction ps generalizing ps' r g g' with
  | nil =>
      cases ps' with
      | nil => exact Lockstep.pure trivial
      | cons p' ps' => cases hlen
  | cons p ps ih =>
      cases ps' with
      | nil => cases hlen
      | cons p' ps' =>
          apply Lockstep.bind lock_groupRecordGe
          intro _ _ _ _ _ _
          exact ih (Nat.succ.inj hlen)

/-- A ratio takes one code, whatever the result. -/
theorem lock_groupRecordRzr {res a : Gej T} {res' a' : Gej T'} {rzr : T.Fe}
    {rzr' : T'.Fe} :
    Lockstep reader M.contract M'.contract SameLength (fun _ _ _ _ => True)
      (groupRecordRzr res a rzr) (groupRecordRzr res' a' rzr') r g g' := by
  apply Lockstep.invoke_bind trivial trivial
  intro z z' _ _
  cases res.infinity with
  | true =>
      cases res'.infinity with
      | true => exact lock_len_int_end fun _ => trivial
      | false => exact Lockstep.right trivial fun _ _ => lock_len_int_end fun _ => trivial
  | false =>
      apply Lockstep.left trivial
      intro eq _
      cases res'.infinity with
      | true => exact lock_len_int_end fun _ => trivial
      | false => exact Lockstep.right trivial fun _ _ => lock_len_int_end fun _ => trivial

/-! ## Ops with a body of their own -/

theorem lock_groupQuery {a b : Gej T} {a' b' : Gej T'} {ga gb : Ge T} {ga' gb' : Ge T'}
    (ha : a.infinity = a'.infinity) (hb : gb.infinity = gb'.infinity) :
    Lockstep reader M.contract M'.contract SameLength (fun _ _ _ _ => True)
      (groupQuery a b ga gb) (groupQuery a' b' ga' gb') r g g' := by
  unfold groupQuery
  rw [ha, hb]
  refine lock_groupTakeFe fun xn xn' _ => lock_groupTakeNonzeroFe fun xd xd' _ => ?_
  refine Lockstep.invoke_bind trivial trivial fun _ _ _ _ => lock_len_int fun _ => ?_
  refine Lockstep.invoke_bind trivial trivial fun _ _ _ _ => lock_len_int fun _ => ?_
  refine Lockstep.invoke_bind trivial trivial fun _ _ _ _ => lock_len_int fun _ => ?_
  refine Lockstep.invoke_bind trivial trivial fun _ _ _ _ => lock_len_int fun _ => ?_
  refine Lockstep.invoke_bind trivial trivial fun _ _ _ _ => lock_len_int fun _ => ?_
  refine Lockstep.bind (P := fun _ _ _ _ => True) ?_ fun _ _ _ _ _ _ => ?_
  · apply Lockstep.ite
    · intro _
      exact Lockstep.invoke_bind trivial trivial fun _ _ _ _ =>
        lock_len_int_end fun _ => trivial
    · intro _
      exact Lockstep.pure trivial
  · refine Lockstep.invoke_bind trivial trivial fun _ _ _ _ => lock_len_int fun _ => ?_
    exact Lockstep.invoke_bind trivial trivial fun _ _ _ _ =>
      lock_len_int_end fun _ => trivial

theorem lock_groupEcmultConstXonly {a : Ge T} {a' : Ge T'}
    (ha : a.infinity = a'.infinity) :
    Lockstep reader M.contract M'.contract SameLength (fun _ _ _ _ => True)
      (groupEcmultConstXonly a) (groupEcmultConstXonly a') r g g' := by
  unfold groupEcmultConstXonly
  rw [ha]
  refine lock_groupTakeScalar fun q q' _ => lock_readerU8 fun flags _ => ?_
  refine lock_groupTakeFe fun n n' _ => lock_groupTakeNonzeroFe fun d d' _ => ?_
  refine Lockstep.invoke_bind trivial trivial fun _ _ _ _ => lock_callIf fun q q' => ?_
  refine Lockstep.bind (P := fun _ _ _ _ => True) ?_ fun n n' _ _ _ _ => ?_
  · apply Lockstep.ite
    · intro _
      exact Lockstep.left trivial fun _ _ => Lockstep.right trivial fun _ _ =>
        Lockstep.pure trivial
    · intro _
      apply Lockstep.ite
      · exact fun _ => Lockstep.pure trivial
      · exact fun _ => Lockstep.pure trivial
  · refine Lockstep.invoke_bind trivial trivial fun ⟨ret, x⟩ ⟨ret', x'⟩ _ _ => ?_
    refine lock_len_int fun hret => ?_
    subst hret
    apply Lockstep.ite
    · intro _
      exact lock_groupRecordFe.mono fun _ _ _ _ _ => trivial
    · intro _
      exact Lockstep.pure trivial

theorem lock_groupMultiSize (flags : ℕ) (large : Bool) {step : T.Scalar}
    {step' : T'.Scalar} :
    Lockstep reader M.contract M'.contract SameLength (fun c c' _ _ => c.2.2.2 = c'.2.2.2)
      (groupMultiSize flags large step) (groupMultiSize flags large step') r g g' := by
  unfold groupMultiSize
  apply Lockstep.ite
  · intro _
    apply Lockstep.bind (P := fun c c' _ _ => c.2.2 = c'.2.2)
    · apply Lockstep.ite
      · exact fun _ => lock_readerU16 fun _ _ => Lockstep.pure rfl
      · exact fun _ => lock_readerU8 fun _ _ => Lockstep.pure rfl
    · intro ⟨n, scale, large₁⟩ ⟨n', scale', large₁'⟩ _ _ _ hlarge
      refine lock_groupTakeScalar fun _ _ _ => lock_readerU16 fun _ _ => ?_
      exact Lockstep.invoke_bind trivial trivial fun _ _ _ _ => Lockstep.pure hlarge
  · intro _
    exact Lockstep.pure rfl

theorem lock_groupMultiOperand (reg : Fin 4 → Gej T) (reg' : Fin 4 → Gej T') (j : Fin 4)
    {f : T.Scalar × Ge T → Harness T α} {f' : T'.Scalar × Ge T' → Harness T' α'}
    (h : ∀ c c' r,
      Lockstep reader M.contract M'.contract SameLength Post (f c) (f' c') r () ()) :
    Lockstep reader M.contract M'.contract SameLength Post (groupMultiOperand reg j >>= f)
      (groupMultiOperand reg' j >>= f') r g g' := by
  simp only [groupMultiOperand, bind_assoc, pure_bind]
  exact lock_groupTakeScalar fun _ _ r => lock_groupAffine fun _ _ _ _ _ _ => h _ _ r

theorem lock_groupEcmultMulti (reg : Fin 4 → Gej T) (reg' : Fin 4 → Gej T')
    (large : Bool) :
    Lockstep reader M.contract M'.contract SameLength (fun c c' _ _ => c.2.2 = c'.2.2)
      (groupEcmultMulti reg large) (groupEcmultMulti reg' large) r g g' := by
  refine lock_groupTakeScalar fun _ _ _ => lock_readerU8 fun flags _ => ?_
  refine lock_groupMultiOperand reg reg' 0 fun _ _ _ => ?_
  refine lock_groupMultiOperand reg reg' 1 fun _ _ _ => ?_
  refine lock_groupMultiOperand reg reg' 2 fun _ _ _ => ?_
  refine lock_groupMultiOperand reg reg' 3 fun _ _ _ => ?_
  refine Lockstep.invoke_bind trivial trivial fun _ _ _ _ => ?_
  apply Lockstep.bind (lock_groupMultiSize flags large)
  intro ⟨n, step, scratch, large₁⟩ ⟨n', step', scratch', large₁'⟩ _ _ _ hlarge
  refine Lockstep.bind (P := fun _ _ _ _ => True) ?_ fun _ _ _ _ _ _ => ?_
  · apply Lockstep.ite
    · intro _
      rw [← bind_pure readerU8, ← bind_pure readerU8]
      exact lock_readerU8 fun _ _ => Lockstep.pure trivial
    · intro _
      exact Lockstep.pure trivial
  · refine Lockstep.invoke_bind trivial trivial fun _ _ _ _ => ?_
    refine Lockstep.invoke_bind trivial trivial fun _ _ _ _ => ?_
    exact lock_callIf fun _ _ => Lockstep.pure hlarge

theorem lock_groupBatchAffine {reg : Fin 4 → Gej T} {reg' : Fin 4 → Gej T'}
    (h : ∀ i, (reg i).infinity = (reg' i).infinity) (n : ℕ) :
    Lockstep reader M.contract M'.contract SameLength (fun _ _ _ _ => True)
      (groupBatchAffine reg n) (groupBatchAffine reg' n) r g g' := by
  have hany : (Vector.ofFn fun i : Fin n => reg (Fin.ofNat 4 i)).any (·.infinity)
      = (Vector.ofFn fun i : Fin n => reg' (Fin.ofNat 4 i)).any (·.infinity) := by
    rw [Bool.eq_iff_iff, Vector.any_eq_true, Vector.any_eq_true]
    simp only [Vector.getElem_ofFn, h]
  simp only [groupBatchAffine, hany]
  refine Lockstep.invoke_bind trivial trivial fun ge ge' _ _ => ?_
  refine Lockstep.bind (lock_groupRecordGes ?_) fun _ _ _ _ _ _ => ?_
  · rw [Vector.length_toList, Vector.length_toList]
  · apply Lockstep.ite
    · intro _
      exact Lockstep.pure trivial
    · intro _
      refine Lockstep.invoke_bind trivial trivial fun ge ge' _ _ => lock_groupRecordGes ?_
      rw [Vector.length_toList, Vector.length_toList]

/-- An addition asks for the ratio in both runs or in neither. -/
theorem lock_groupRatioOp {a : Gej T} {a' : Gej T'} (ha : a.infinity = a'.infinity)
    (q : Bool → GroupCall T (Gej T × T.Fe)) (q' : Bool → GroupCall T' (Gej T' × T'.Fe))
    (large : Bool) :
    Lockstep reader M.contract M'.contract SameLength (fun c c' _ _ => c.2 = c'.2)
      (if a.infinity then do
          let (res, _) ← secpGroup (q false)
          pure (res, large)
        else do
          let (res, rzr) ← secpGroup (q true)
          groupRecordRzr res a rzr
          pure (res, large))
      (if a'.infinity then do
          let (res, _) ← secpGroup (q' false)
          pure (res, large)
        else do
          let (res, rzr) ← secpGroup (q' true)
          groupRecordRzr res a' rzr
          pure (res, large)) r g g' := by
  rw [ha]
  apply Lockstep.ite
  · intro _
    exact Lockstep.invoke_bind trivial trivial fun _ _ _ _ => Lockstep.pure rfl
  · intro _
    refine Lockstep.invoke_bind trivial trivial fun _ _ _ _ => ?_
    exact Lockstep.bind lock_groupRecordRzr fun _ _ _ _ _ _ => Lockstep.pure rfl

/-- A call whose result is the op's. -/
theorem lock_groupResult (q : GroupCall T (Gej T)) (q' : GroupCall T' (Gej T'))
    (large : Bool) :
    Lockstep reader M.contract M'.contract SameLength (fun c c' _ _ => c.2 = c'.2)
      (do
        let res ← secpGroup q
        pure (res, large))
      (do
        let res ← secpGroup q'
        pure (res, large)) r g g' :=
  Lockstep.invoke_bind trivial trivial fun _ _ _ _ => Lockstep.pure rfl

/-! ## The loop -/

/-- An op reads the same and records blocks of the same lengths. -/
theorem lock_groupSwitch {st : GroupState T} {st' : GroupState T'}
    (h : GroupSame M M' st st') (sel : ℕ) {res a b : Gej T} {res' a' b' : Gej T'}
    {ga gb : Ge T} {ga' gb' : Ge T'} (ha : a.infinity = a'.infinity)
    (hga : ga.infinity = ga'.infinity) (hgb : gb.infinity = gb'.infinity) (op : GroupOp) :
    Lockstep reader M.contract M'.contract SameLength (fun c c' _ _ => c.2 = c'.2)
      (groupSwitch st sel res a b ga gb op)
      (groupSwitch st' sel res' a' b' ga' gb' op) r g g' := by
  obtain ⟨reg, large⟩ := st
  obtain ⟨reg', large'⟩ := st'
  obtain ⟨hreg, hlarge⟩ := h
  have hlarge' : large = large' := hlarge
  subst hlarge'
  cases op with
  | gen => exact lock_groupTakeScalar fun _ _ _ => lock_groupResult _ _ large
  | setXo =>
      refine lock_groupTakeFe fun _ _ _ => lock_readerU8 fun k _ => ?_
      refine Lockstep.invoke_bind trivial trivial fun _ _ _ _ => lock_len_int fun _ => ?_
      exact lock_callIf fun _ _ => Lockstep.pure rfl
  | setInfinity | double | neg => exact lock_groupResult _ _ large
  | addVar =>
      exact lock_groupRatioOp ha (fun rzr => .gejAddVar a b rzr)
        (fun rzr => .gejAddVar a' b' rzr) large
  | addGe => exact lock_callIf fun _ _ => Lockstep.pure rfl
  | addGeVar =>
      exact lock_groupRatioOp ha (fun rzr => .gejAddGeVar a gb rzr) (fun rzr =>
        .gejAddGeVar a' gb' rzr) large
  | addZinvVar =>
      refine lock_groupTakeNonzeroFe fun f1 f1' _ => ?_
      rw [hgb]
      refine Lockstep.bind (P := fun _ _ _ _ => True) ?_ fun _ _ _ _ _ _ =>
        lock_groupResult _ _ large
      apply Lockstep.ite
      · intro _
        refine Lockstep.invoke_bind trivial trivial fun _ _ _ _ => ?_
        refine Lockstep.invoke_bind trivial trivial fun _ _ _ _ => ?_
        refine Lockstep.invoke_bind trivial trivial fun _ _ _ _ => ?_
        refine Lockstep.invoke_bind trivial trivial fun _ _ _ _ => ?_
        exact Lockstep.invoke_bind trivial trivial fun _ _ _ _ => Lockstep.pure trivial
      · intro _
        exact Lockstep.pure trivial
  | doubleVar =>
      unfold groupSwitch
      rw [ha]
      refine Lockstep.invoke_bind trivial trivial fun _ _ _ _ => ?_
      refine Lockstep.bind (P := fun _ _ _ _ => True) ?_ fun _ _ _ _ _ _ =>
        Lockstep.pure rfl
      apply Lockstep.ite
      · exact fun _ => lock_groupRecordRzr
      · exact fun _ => Lockstep.pure trivial
  | rescale =>
      exact lock_groupTakeNonzeroFe fun _ _ _ => lock_callIf fun _ _ => Lockstep.pure rfl
  | mulLambda =>
      exact Lockstep.invoke_bind trivial trivial fun _ _ _ _ => lock_groupResult _ _ large
  | ecmult =>
      refine lock_groupTakeScalar fun _ _ _ => lock_groupTakeScalar fun _ _ _ => ?_
      exact lock_readerU8 fun _ _ => lock_groupResult _ _ large
  | ecmultConst => exact lock_groupTakeScalar fun _ _ _ => lock_groupResult _ _ large
  | ecmultConstXonly =>
      exact Lockstep.bind (lock_groupEcmultConstXonly hga) fun _ _ _ _ _ _ =>
        Lockstep.pure rfl
  | ecmultMulti =>
      apply Lockstep.bind (lock_groupEcmultMulti reg reg' large)
      intro ⟨ret, res, large₁⟩ ⟨ret', res', large₁'⟩ _ _ _ hlarge₁
      exact lock_len_int fun _ => Lockstep.pure hlarge₁
  | batchAffine =>
      refine Lockstep.bind (lock_groupBatchAffine (fun i => (hreg i).1) _)
        fun _ _ _ _ _ _ => ?_
      exact Lockstep.pure rfl
  | query =>
      exact Lockstep.bind (lock_groupQuery ha hgb) fun _ _ _ _ _ _ => Lockstep.pure rfl

theorem lock_groupStep {st : GroupState T} {st' : GroupState T'}
    (h : GroupSame M M' st st') :
    Lockstep reader M.contract M'.contract SameLength (fun st st' _ _ =>
      GroupSame M M' st st') (groupStep st) (groupStep st') r g g' := by
  have hreg := h.1
  refine lock_readerU8 fun op _ => lock_readerU8 fun sel _ => ?_
  refine lock_groupAffine fun ga ga' hga hga' _ _ =>
    lock_groupAffine fun gb gb' hgb hgb' _ _ => ?_
  refine lock_len_u8 ?_
  have ha := (hreg (selReg sel 1)).1
  have hb := (hreg (selReg sel 2)).1
  apply Lockstep.bind (lock_groupSwitch h sel ha (by rw [hga, hga', ha])
    (by rw [hgb, hgb', hb]) _)
  intro ⟨res, large⟩ ⟨res', large'⟩ _ _ _ hlarge
  simp only [Function.update_self]
  apply lock_groupAffine
  intro ge ge' hge hge' hpt hpt'
  apply Lockstep.bind lock_groupRecordGe
  intro _ _ _ _ _ hrec
  obtain ⟨hinf, hxy⟩ := hrec
  refine Lockstep.pure ⟨fun i => ?_, hlarge⟩
  by_cases hi : i = selReg sel 0
  · subst hi
    simp only [SamePoint, Function.update_self]
    refine ⟨by rw [← hge, ← hge', hinf], fun hfinite => ?_⟩
    obtain ⟨hx, hy⟩ := hxy (hge.trans hfinite)
    rw [hpt, hpt', ← hinf, hx, hy]
  · simp only [Function.update_of_ne hi]
    exact hreg i

end Lockstep

/-- A run sets its registers, which reads and puts nothing, and loops. -/
theorem run_groupOps (lib : Build T σ) (n : Nat) (inp : List UInt8) (s : σ) :
    let w := (groupInit inp).run reader lib inp s
    let w' := (Prog.loop readerMore groupStep n w.val).run reader lib inp w.state
    (groupOps inp n).run reader lib inp s = { w' with log := w.log ++ w'.log } := by
  simp [groupOps, groupInit]

theorem groupOps_recorded {M : Meaning V T} {M' : Meaning V T'} {lib : Build T σ}
    {lib' : Build T' σ'} (hlib : lib.Meets M.contract) (hlib' : lib'.Meets M'.contract)
    (s : σ) (s' : σ') (inp : List UInt8)
    (hinit : ∀ i, (((groupOps inp 0).run reader lib inp s).val.reg i).infinity = true)
    (hinit' : ∀ i,
      (((groupOps inp 0).run reader lib' inp s').val.reg i).infinity = true) :
    Lockstep.Recorded (fun _ => GroupSame M M') (fun k =>
      (groupOps inp k).run reader lib inp s)
      (fun k => (groupOps inp k).run reader lib' inp s') := by
  have hsame : GroupSame M M' ((groupInit inp).run reader lib inp s).val
      ((groupInit inp).run reader lib' inp s').val := by
    refine ⟨fun i => ?_, by simp [groupInit]⟩
    have hi := hinit i
    have hi' := hinit' i
    rw [run_groupOps] at hi hi'
    exact ⟨hi.trans hi'.symm, fun h => absurd (hi.symm.trans h) nofun⟩
  simp only [run_groupOps]
  exact Lockstep.loop_recorded (readerMore_peeks _) (readerMore_peeks _)
    (fun _ _ h => h) hlib hlib' hsame inp _ _ (fun _ _ _ _ h => lock_groupStep h)
    (fun _ _ _ _ h => h)

end Diffsecp.Recorded
