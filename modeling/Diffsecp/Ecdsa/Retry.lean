import Diffsecp.Ecdsa.Built
import Diffsecp.Ecdsa.Constructed

/-!
# Ecdsa — Retry

Signing with the nonces of `ecdsa_nonce`: the loop over its attempts, when it
ends, and why a message that `ecdsa_zero_s` picks makes it go on.
-/

namespace Diffsecp

open Interact

variable {T : Types} {σ : Type}

/-! ## The signing loop -/

/-- What one nonce comes to. -/
inductive Attempt where
  | failed
  | skipped
  | signed (r s : Zn)

/-- x(k*G) mod n. -/
def nonceR (k : Zn) : Zn := ((xOf (k • secpG)).val : Zn)

def nonceS (k msg d : Zn) : Zn := k⁻¹ * (msg + nonceR k * d)

/-- One turn, for what the nonce function answered. -/
def signAttempt (msg d : Zn) (answer : Int32 × Bytes 32) : Attempt :=
  if answer.1 = 0 then .failed
  else if secpKeyValid answer.2 = false then .skipped
  else
    let k := scalarOf answer.2
    if nonceR k = 0 ∨ nonceS k msg d = 0 then .skipped
      else .signed (nonceR k) (nonceS k msg d)

/-- `turns` turns from a counter on: `none` where the loop still runs after
them, and otherwise whether and at which counter it signed. -/
def signLoop (attempt : ℕ → Attempt) : ℕ → ℕ → Option (Option (ℕ × Zn × Zn))
  | 0, _ => none
  | turns + 1, counter =>
      match attempt counter with
      | .failed => some none
      | .skipped => signLoop attempt turns (counter + 1)
      | .signed r s => some (some (counter, r, s))

/-- Signing fails. -/
def SignFails (attempt : ℕ → Attempt) : Prop :=
  ∃ turns, signLoop attempt turns 0 = some none

/-- The attempt of that number is made. -/
def SignReaches (attempt : ℕ → Attempt) (counter : ℕ) : Prop :=
  signLoop attempt counter 0 = none

/-- Signing succeeds with that attempt. -/
def SignsAt (attempt : ℕ → Attempt) (counter : ℕ) : Prop :=
  ∃ turns r s, signLoop attempt turns 0 = some (some (counter, r, s))

section Loop

variable {attempt : ℕ → Attempt}

/-- One turn more. -/
theorem signLoop_succ {turns counter : ℕ} (h : signLoop attempt turns counter = none) :
    signLoop attempt (turns + 1) counter =
      match attempt (counter + turns) with
      | .failed => some none
      | .skipped => none
      | .signed r s => some (some (counter + turns, r, s)) := by
  induction turns generalizing counter with
  | zero => rw [signLoop, signLoop, Nat.add_zero]
  | succ turns ih =>
      rw [signLoop] at h
      rw [signLoop]
      cases hstep : attempt counter with
      | failed => rw [hstep] at h; nomatch h
      | signed r s => rw [hstep] at h; nomatch h
      | skipped =>
          rw [hstep] at h
          rw [ih h, Nat.succ_add_eq_add_succ]

/-- A loop that ended, ended with one of the attempts it made. -/
theorem signLoop_ended {turns counter : ℕ} {result : Option (ℕ × Zn × Zn)}
    (h : signLoop attempt turns counter = some result) :
    ∃ more, signLoop attempt more counter = none ∧
      match attempt (counter + more) with
      | .failed => result = none
      | .skipped => False
      | .signed r s => result = some (counter + more, r, s) := by
  induction turns generalizing counter with
  | zero => nomatch h
  | succ turns ih =>
      rw [signLoop] at h
      cases hstep : attempt counter with
      | failed =>
          rw [hstep] at h
          refine ⟨0, rfl, ?_⟩
          rw [Nat.add_zero, hstep]
          exact (Option.some.inj h).symm
      | signed r s =>
          rw [hstep] at h
          refine ⟨0, rfl, ?_⟩
          rw [Nat.add_zero, hstep]
          exact (Option.some.inj h).symm
      | skipped =>
          rw [hstep] at h
          obtain ⟨more, hmore, hend⟩ := ih h
          refine ⟨more + 1, ?_, ?_⟩
          · rw [signLoop, hstep]
            exact hmore
          · rwa [Nat.succ_add_eq_add_succ] at hend

theorem signsAt_signed {counter : ℕ} (h : SignsAt attempt counter) :
    ∃ r s, attempt counter = .signed r s := by
  obtain ⟨turns, r, s, hturns⟩ := h
  obtain ⟨more, -, hend⟩ := signLoop_ended hturns
  rw [Nat.zero_add] at hend
  cases hstep : attempt more with
  | failed => rw [hstep] at hend; nomatch hend
  | skipped => rw [hstep] at hend; exact hend.elim
  | signed r' s' =>
      rw [hstep] at hend
      cases hend
      exact ⟨r, s, hstep⟩

/-- Where one attempt fails and no other does, signing fails if and only if
that one is made. -/
theorem signFails_iff {failAt : ℕ}
    (h : ∀ counter, attempt counter = .failed ↔ counter = failAt) :
    SignFails attempt ↔ SignReaches attempt failAt := by
  constructor
  · rintro ⟨turns, hturns⟩
    obtain ⟨more, hmore, hend⟩ := signLoop_ended hturns
    rw [Nat.zero_add] at hend
    cases hstep : attempt more with
    | failed =>
        rw [← (h more).mp hstep]
        exact hmore
    | skipped => rw [hstep] at hend; exact hend.elim
    | signed r s => rw [hstep] at hend; nomatch hend
  · intro hreach
    refine ⟨failAt + 1, ?_⟩
    rw [signLoop_succ hreach, Nat.zero_add, (h failAt).mpr rfl]

end Loop

/-! ## The attempts of `ecdsa_nonce` -/

/-- The exported RFC6979 function. -/
abbrev Rfc6979 := Bytes 32 → Bytes 32 → Option (Bytes 16) → Option (Bytes 32) → ℕ →
  Int32 × Bytes 32

def rfc6979Handler (rfc6979 : Rfc6979) : Handler Rfc6979Call Unit where
  answer
    | .nonceFunctionRfc6979 msg32 key32 algo16 ndata counter, s =>
        (rfc6979 msg32 key32 algo16 ndata counter, s)

/-- What `ecdsa_nonce` answers. -/
def nonceAnswer (rfc6979 : Rfc6979) (n : EcdsaNonce) (msg32 key32 : Bytes 32)
    (counter : ℕ) : Int32 × Bytes 32 :=
  ((ecdsaNonce n msg32 key32 counter).run Handler.none (rfc6979Handler rfc6979) () ()).val

def nonceAttempt (rfc6979 : Rfc6979) (n : EcdsaNonce) (msg32 key32 : Bytes 32)
    (counter : ℕ) : Attempt :=
  signAttempt (scalarOf msg32) (scalarOf key32)
    (nonceAnswer rfc6979 n msg32 key32 counter)

theorem EcdsaNonce.lt_two {n : EcdsaNonce} {counter : ℕ} (h : counter < n.nFixed) :
    counter < 2 :=
  Nat.lt_of_lt_of_le h (Nat.le_of_lt_succ n.nFixed.isLt)

section Answers

variable (rfc6979 : Rfc6979) (n : EcdsaNonce) (msg32 key32 : Bytes 32)

theorem nonceAnswer_failAt : (nonceAnswer rfc6979 n msg32 key32 n.failAt).1 = 0 := by
  rw [nonceAnswer, ecdsaNonce, if_pos rfl]
  rfl

theorem nonceAnswer_fixed {counter : ℕ} (hfail : counter ≠ n.failAt)
    (h : counter < n.nFixed) :
    nonceAnswer rfc6979 n msg32 key32 counter =
      (1, n.fixed ⟨counter, EcdsaNonce.lt_two h⟩) := by
  rw [nonceAnswer, ecdsaNonce, if_neg hfail, dif_pos h]
  rfl

theorem nonceAnswer_rfc6979 {counter : ℕ} (hfail : counter ≠ n.failAt)
    (h : ¬ counter < n.nFixed) :
    nonceAnswer rfc6979 n msg32 key32 counter =
      rfc6979 msg32 key32 n.algo16 n.ndata counter := by
  rw [nonceAnswer, ecdsaNonce, if_neg hfail, dif_neg h]
  rfl

variable {rfc6979 n msg32 key32}

theorem signAttempt_failed {msg d : Zn} {answer : Int32 × Bytes 32} :
    signAttempt msg d answer = .failed ↔ answer.1 = 0 := by
  rw [signAttempt]
  split
  · simp_all
  · split
    · simp_all
    · dsimp only
      split <;> simp_all

/-- With a function that returns 1, the attempt configured to fail is the only
one that does. -/
theorem nonceAttempt_failed
    (hrfc : ∀ msg key algo ndata counter, (rfc6979 msg key algo ndata counter).1 = 1)
    (counter : ℕ) :
    nonceAttempt rfc6979 n msg32 key32 counter = .failed ↔ counter = n.failAt := by
  rw [nonceAttempt, signAttempt_failed]
  constructor
  · intro hzero
    by_contra hfail
    by_cases hfixed : counter < n.nFixed
    · rw [nonceAnswer_fixed rfc6979 n msg32 key32 hfail hfixed] at hzero
      nomatch hzero
    · rw [nonceAnswer_rfc6979 rfc6979 n msg32 key32 hfail hfixed, hrfc] at hzero
      nomatch hzero
  · rintro rfl
    exact nonceAnswer_failAt rfc6979 n msg32 key32

/-- A fixed nonce signs only where it is valid and gives an s. -/
theorem nonceAttempt_signed {counter : ℕ} (h : counter < n.nFixed) {r s : Zn}
    (hsigned : nonceAttempt rfc6979 n msg32 key32 counter = .signed r s) :
    secpKeyValid (n.fixed ⟨counter, EcdsaNonce.lt_two h⟩) = true ∧
      nonceS (scalarOf (n.fixed ⟨counter, EcdsaNonce.lt_two h⟩)) (scalarOf msg32)
        (scalarOf key32) ≠ 0 := by
  have hfail : counter ≠ n.failAt := by
    rintro rfl
    rw [nonceAttempt, signAttempt, if_pos (nonceAnswer_failAt rfc6979 n msg32 key32)]
      at hsigned
    nomatch hsigned
  rw [nonceAttempt, nonceAnswer_fixed rfc6979 n msg32 key32 hfail h, signAttempt,
    if_neg (show (1 : Int32) ≠ 0 by decide)] at hsigned
  dsimp only at hsigned
  split at hsigned
  · nomatch hsigned
  · rename_i hvalid
    split at hsigned
    · nomatch hsigned
    · rename_i hzero
      rw [not_or] at hzero
      exact ⟨Bool.eq_true_of_not_eq_false hvalid, hzero.2⟩

end Answers

/-! ## The message of `ecdsa_zero_s` -/

/-- The message that makes s zero. -/
def zeroSMessage (k d : Zn) : Bytes 32 := bytesOfNat 32 (-(nonceR k * d)).val

/-- For a nonce and its negation alike. -/
theorem nonceR_neg (k : Zn) : nonceR (-k) = nonceR k := by
  rw [nonceR, neg_smul, xOf_neg, nonceR]

theorem nonceS_zeroSMessage {k k' : Zn} (d : Zn) (h : k' = k ∨ k' = -k) :
    nonceS k' (scalarOf (zeroSMessage k d)) d = 0 := by
  have hr : nonceR k' = nonceR k := by
    rcases h with rfl | rfl
    · rfl
    · exact nonceR_neg k
  rw [nonceS, hr, zeroSMessage, scalarOf_bytes, neg_add_cancel, mul_zero]

namespace ConstructRep

variable (R : ConstructRep T)

/-- A valid key's point is made, and the calls of `ConstructRep.contract`. -/
def createSpec {β : Type} : KeyCall T β → β → Prop
  | .ecPubkeyCreate seckey, (ret, pk) =>
      ret = flag (secpKeyValid seckey) ∧ (ret ≠ 0 → R.pubkey pk (scalarOf seckey • secpG))
  | q, a => R.keySpec q a

def signContract : Contract (LibCall T) Unit :=
  .stateless (fun _ => True)
    (fun {β} (q : LibCall T β) (a : β) => match β, q, a with
      | _, .scalar q, a => R.scalarSpec q a
      | _, .key q, a => R.createSpec q a
      | _, _, _ => True)

theorem scalarOf_ne_zero {k32 : Bytes 32} (h : secpKeyValid k32 = true) :
    scalarOf k32 ≠ 0 := by
  obtain ⟨hpos, hlt⟩ := of_decide_eq_true h
  rw [scalarOf, Ne, ZMod.natCast_eq_zero_iff]
  exact Nat.not_dvd_of_pos_of_lt hpos hlt

/-- A compressed key holds the x coordinate after its tag. -/
theorem bytesAt_serializePoint {P : Point} (hP : P ≠ 0) :
    bytesAt (serializePoint true P) 1 32 = bytesOfNat 32 (xOf P).val := by
  cases P with
  | zero => exact absurd rfl hP
  | some x y hxy =>
      ext i hi
      rw [bytesAt, Vector.getElem_ofFn, serializePoint, if_pos rfl,
        List.getD_eq_getElem?_getD, Nat.add_comm,
        List.getElem?_cons_succ, ← List.getD_eq_getElem?_getD,
        List.getD_eq_getElem _ _ (by rwa [Vector.length_toList]), Vector.getElem_toList]
      rfl

section Sat

variable {R : ConstructRep T} {α β : Type} {r : List UInt8} {g : Unit}
  {Post : α → List UInt8 → Unit → List (List UInt8) → Prop}

theorem sat_create {q : KeyCall T β} {f : β → Harness T α}
    (h : ∀ x, R.createSpec q x → Sat reader R.signContract (f x) r g Post) :
    Sat reader R.signContract (secpKey q >>= f) r g Post := ⟨trivial, h⟩

theorem sat_signScalar {q : ScalarCall T β} {f : β → Harness T α}
    (h : ∀ x, R.scalarSpec q x → Sat reader R.signContract (f x) r g Post) :
    Sat reader R.signContract (secpScalar q >>= f) r g Post := ⟨trivial, h⟩

/-- The message is picked where the nonce is valid. -/
theorem sat_ecdsaZeroS (msg seckey k32 : Bytes 32) :
    Sat reader R.signContract (ecdsaZeroS msg seckey k32 : Harness T _) r g fun w _ _ _ =>
      w = if secpKeyValid k32 then (1, zeroSMessage (scalarOf k32) (scalarOf seckey))
        else (0, msg) := by
  rw [ecdsaZeroS]
  apply sat_create
  intro ⟨ret, kg⟩ ⟨hret, hkg⟩
  dsimp only at hret hkg ⊢
  by_cases hvalid : secpKeyValid k32 = true
  · have hne : ret ≠ 0 := by
      rw [hret, hvalid]
      decide
    have hpoint : scalarOf k32 • secpG ≠ 0 := smul_secpG_ne (scalarOf_ne_zero hvalid)
    rw [if_neg hne, if_pos hvalid]
    apply sat_create
    intro ⟨_, ser⟩ hser
    have hser : ser = serializePoint true (scalarOf k32 • secpG) :=
      hser _ (hkg hne) hpoint
    apply sat_signScalar
    intro ⟨x, _⟩ (hx : R.sc x _)
    apply sat_signScalar
    intro ⟨d, _⟩ (hd : R.sc d _)
    apply sat_signScalar
    intro product hproduct
    apply sat_signScalar
    intro negated hnegated
    apply sat_signScalar
    intro message hmessage
    have hmessage : message = _ := hmessage _ (hnegated _ (hproduct _ _ hx hd))
    rw [sat_pure, hmessage, hser, bytesAt_serializePoint hpoint]
    rw [scalarOf, natOfBytes_bytesOfNat ((xOf _).val_lt.trans (by decide))]
    rfl
  · have hzero : ret = 0 := by
      rw [hret, Bool.eq_false_of_not_eq_true hvalid]
      rfl
    rw [if_pos hzero, if_neg hvalid]
    rfl

end Sat

end ConstructRep

/-! ## What signing gets -/

/-- What `ecdsa_sign_nonce` reads. -/
structure NonceInput where
  flags : ℕ
  fixed0 : Bytes 32
  fixed1 : Bytes 32

def nonceInput (inp : List UInt8) : NonceInput where
  flags := (inp.getD 0 0).toNat
  fixed0 := (readerTakeBytes (inp.drop 1) 32).1
  fixed1 := (readerTakeBytes (inp.drop 33) 32).1

def NonceInput.nonce (i : NonceInput) (ndata : Option (Bytes 32)) : EcdsaNonce :=
  ecdsaNonceOf i.flags i.fixed0 i.fixed1 ndata

/-- The message that is signed, for the one `ecdsa_zero_s` leaves. -/
def NonceInput.message (i : NonceInput) (msg zeroMsg : Bytes 32) : Bytes 32 :=
  if i.flags &&& EcdsaNonceFlag.zeroS ≠ 0 then zeroMsg else msg

/-- The run of `ecdsa_zero_s`, after the flags and the nonces are read. -/
def zeroSRun (lib : Build T σ) (s : σ) (inp : List UInt8) (msg seckey : Bytes 32) :
    Outcome (LibCall T) UInt8 (Int32 × Bytes 32) (List UInt8) σ :=
  (ecdsaZeroS msg seckey (nonceInput inp).fixed0).run reader lib (inp.drop 65) s

/-- With `ECDSA_NONCE_DEFAULT` clear, the last call signs through
`ecdsa_nonce`. -/
theorem log_ecdsaSignNonce (lib : Build T σ) (s : σ) (inp : List UInt8)
    (msg seckey : Bytes 32) (ndata : Option (Bytes 32))
    (hdefault : (nonceInput inp).flags &&& EcdsaNonceFlag.default = 0) :
    let i := nonceInput inp
    let zero := zeroSRun lib s inp msg seckey
    ∃ answer, ((ecdsaSignNonce msg seckey ndata).run reader lib inp s).log =
      (if i.flags &&& EcdsaNonceFlag.zeroS ≠ 0 then zero.log else []) ++
        [⟨.ecdsa (.sign (i.message msg zero.val.2) seckey
          (.harness (ecdsaNonce (i.nonce ndata)))), answer⟩] := by
  intro i zero
  have hflags :
      (readerU8 : Harness T ℕ).run reader lib inp s = ⟨i.flags, inp.drop 1, s, [], []⟩ :=
    run_readerU8_drop inp 0 s
  rw [ecdsaSignNonce, Prog.run_bind, hflags]
  dsimp only
  rw [Prog.run_bind, run_readerTake_drop]
  dsimp only
  rw [Prog.run_bind, run_readerTake_drop]
  dsimp only
  rw [if_neg (not_not.mpr hdefault), List.nil_append, List.nil_append, List.nil_append,
    NonceInput.message]
  by_cases hzero : i.flags &&& EcdsaNonceFlag.zeroS ≠ 0
  · rw [if_pos hzero, if_pos hzero, if_pos hzero, Prog.run_bind]
    refine ⟨(lib.answer (.ecdsa (.sign zero.val.2 seckey
      (.harness (ecdsaNonce (i.nonce ndata))))) zero.state).1, ?_⟩
    conv_rhs => rw [← List.append_nil zero.log]
    dsimp only
    rw [Prog.run_bind]
    rfl
  · rw [if_neg hzero, if_neg hzero, if_neg hzero]
    exact ⟨_, rfl⟩

/-! ## Retrying -/

section Retry

variable {rfc6979 : Rfc6979} {i : NonceInput} {ndata : Option (Bytes 32)}
  {msg seckey : Bytes 32}

/-- An invalid first nonce is skipped. -/
theorem not_signsAt_invalid (hone : 1 ≤ (i.nonce ndata).nFixed.val)
    (h : secpKeyValid i.fixed0 = false) :
    ¬ SignsAt (nonceAttempt rfc6979 (i.nonce ndata) msg seckey) 0 := by
  intro hsigns
  obtain ⟨r, s, hsigned⟩ := signsAt_signed hsigns
  have hvalid : secpKeyValid i.fixed0 = true := (nonceAttempt_signed hone hsigned).1
  rw [h] at hvalid
  nomatch hvalid

/-- The picked message is signed by no fixed nonce that is the first or its
negation. -/
theorem not_signsAt_zeroSMessage {counter : ℕ} (h : counter < (i.nonce ndata).nFixed.val)
    (hfixed : scalarOf ((i.nonce ndata).fixed ⟨counter, by omega⟩) = scalarOf i.fixed0 ∨
      scalarOf ((i.nonce ndata).fixed ⟨counter, by omega⟩) = -scalarOf i.fixed0) :
    ¬ SignsAt (nonceAttempt rfc6979 (i.nonce ndata)
      (zeroSMessage (scalarOf i.fixed0) (scalarOf seckey)) seckey) counter := by
  intro hsigns
  obtain ⟨r, s, hsigned⟩ := signsAt_signed hsigns
  exact (nonceAttempt_signed h hsigned).2 (nonceS_zeroSMessage (scalarOf seckey) hfixed)

end Retry

/-- With `ECDSA_NONCE_DEFAULT` clear, signing gets the message and
`ecdsa_nonce`. Where `ecdsa_zero_s` returns 1, it does not sign with the first
nonce, nor with a second one that is equal or opposite; where it returns 0, the
first nonce is invalid and the message is unchanged. The table of fixed nonces
is indexed below 2, and signing fails if and only if it reaches the attempt
that is to fail. -/
theorem ecdsaSignNonce_retries (R : ConstructRep T) (lib : Build T σ)
    (hlib : lib.Meets R.signContract) (s : σ) (inp : List UInt8) (msg seckey : Bytes 32)
    (ndata : Option (Bytes 32)) (rfc6979 : Rfc6979)
    (hdefault : (nonceInput inp).flags &&& EcdsaNonceFlag.default = 0) :
    let i := nonceInput inp
    let n := i.nonce ndata
    let zero := (zeroSRun lib s inp msg seckey).val
    let msg' := i.message msg zero.2
    let attempt := nonceAttempt rfc6979 n msg' seckey
    (∃ answer, ((ecdsaSignNonce msg seckey ndata).run reader lib inp s).log =
      (if i.flags &&& EcdsaNonceFlag.zeroS ≠ 0
        then (zeroSRun lib s inp msg seckey).log else []) ++
        [⟨.ecdsa (.sign msg' seckey (.harness (ecdsaNonce n))), answer⟩]) ∧
    (i.flags &&& EcdsaNonceFlag.zeroS ≠ 0 → 1 ≤ n.nFixed.val →
      (zero.1 = 1 ∨ zero.1 = 0) ∧
      (zero.1 = 1 → ¬ SignsAt attempt 0 ∧
        (n.nFixed.val = 2 →
          scalarOf i.fixed1 = scalarOf i.fixed0 ∨ scalarOf i.fixed1 = -scalarOf i.fixed0 →
            ¬ SignsAt attempt 1)) ∧
      (zero.1 = 0 → secpKeyValid i.fixed0 = false ∧ msg' = msg ∧ ¬ SignsAt attempt 0)) ∧
    (n.nFixed.val = (i.flags &&& 3) % 3 ∧ ∀ counter < n.nFixed.val, counter < 2) ∧
    ((∀ msg key algo ndata counter, (rfc6979 msg key algo ndata counter).1 = 1) →
      (SignFails attempt ↔ SignReaches attempt n.failAt)) := by
  intro i n zero msg' attempt
  have hval : zero = if secpKeyValid i.fixed0 then (1,
    zeroSMessage (scalarOf i.fixed0) (scalarOf seckey))
      else (0, msg) :=
    (ConstructRep.sat_ecdsaZeroS (r := inp.drop 65) (g := ()) msg seckey i.fixed0).run
      hlib s |>.2
  refine ⟨log_ecdsaSignNonce lib s inp msg seckey ndata hdefault, fun hzeroS hone => ?_,
    ⟨rfl, fun counter hcounter => by omega⟩, fun hrfc =>
      signFails_iff (nonceAttempt_failed hrfc)⟩
  have hmsg : msg' = zero.2 := if_pos hzeroS
  by_cases hvalid : secpKeyValid i.fixed0 = true
  · rw [if_pos hvalid] at hval
    have hpicked : msg' = zeroSMessage (scalarOf i.fixed0) (scalarOf seckey) := by
      rw [hmsg, hval]
    have hret : zero.1 = 1 := by rw [hval]
    refine ⟨Or.inl hret, fun _ => ⟨?_, fun htwo hsecond => ?_⟩, fun h => ?_⟩
    · show ¬ SignsAt (nonceAttempt rfc6979 n msg' seckey) 0
      rw [hpicked]
      exact not_signsAt_zeroSMessage hone (Or.inl rfl)
    · show ¬ SignsAt (nonceAttempt rfc6979 n msg' seckey) 1
      have hlt : 1 < (i.nonce ndata).nFixed.val := Nat.lt_of_succ_le htwo.ge
      rw [hpicked]
      exact not_signsAt_zeroSMessage hlt hsecond
    · rw [hret] at h
      nomatch h
  · rw [if_neg hvalid] at hval
    have hinvalid : secpKeyValid i.fixed0 = false := Bool.eq_false_of_not_eq_true hvalid
    have hret : zero.1 = 0 := by rw [hval]
    refine ⟨Or.inr hret, fun h => ?_,
      fun _ => ⟨hinvalid, ?_, not_signsAt_invalid hone hinvalid⟩⟩
    · rw [hret] at h
      nomatch h
    · rw [hmsg, hval]

/-! ## An instance -/

def createKey {β : Type} : KeyCall keyTypes β → β
  | .ecPubkeyCreate seckey => (flag (secpKeyValid seckey), scalarOf seckey • secpG)
  | q => constructKey q

def createLib : Build keyTypes Unit where
  answer
    | .scalar q, s => (constructScalar q, s)
    | .key q, s => (createKey q, s)
    | q, s => (keyIdle q, s)

theorem createLib_meets : createLib.Meets (keyConstruct secpG).signContract := by
  intro g β q s _
  cases q with
  | scalar q => exact constructScalar_spec secpG q
  | key q =>
      cases q with
      | ecPubkeyCreate seckey => exact ⟨rfl, fun _ => rfl⟩
      | pubkeySave a => exact constructKey_spec secpG (.pubkeySave a)
      | ecPubkeySerialize P compressed =>
          exact constructKey_spec secpG (.ecPubkeySerialize P compressed)
      | _ => trivial
  | _ => trivial

/-- `ECDSA_NONCE_ZERO_S`, with the nonces 1 and n - 1. -/
def oppositeNonces : List UInt8 :=
  0x1e :: (bytesOfNat 32 1).toList ++ (bytesOfNat 32 (secpN - 1)).toList

/-- Neither of them signs with the key 1. -/
theorem createLib_oppositeNonces :
    let i := nonceInput oppositeNonces
    let key := bytesOfNat 32 1
    let msg := i.message key (zeroSRun createLib () oppositeNonces key key).val.2
    let attempt := nonceAttempt (fun _ _ _ _ _ => (1, key)) (i.nonce none) msg key
    ¬ SignsAt attempt 0 ∧ ¬ SignsAt attempt 1 := by
  obtain ⟨-, hretry, -⟩ := ecdsaSignNonce_retries (keyConstruct secpG) createLib
    createLib_meets () oppositeNonces
    (bytesOfNat 32 1) (bytesOfNat 32 1) none (fun _ _ _ _ _ => (1, bytesOfNat 32 1))
    (by decide +kernel)
  obtain ⟨hret, hone, hzero⟩ := hretry (by decide +kernel) (by decide +kernel)
  have hvalid : secpKeyValid (nonceInput oppositeNonces).fixed0 = true := by
    decide +kernel
  have hret := hret.resolve_right fun h => by
    rw [(hzero h).1] at hvalid
    nomatch hvalid
  obtain ⟨hfirst, hsecond⟩ := hone hret
  exact ⟨hfirst, hsecond (by decide +kernel) (by decide +kernel)⟩

end Diffsecp
