import Diffsecp.Schnorrsig.Specified

/-!
# Schnorrsig — Leftover

The transcripts of the schnorrsig target over two builds that agree on what is
specified: they are the same if and only if no signature fails that goes into
the transcript. The target records the signature buffer whatever the code of
the signature, or of the forging in place, was.
-/

namespace Diffsecp

open Interact

variable {T : Types} {σ σ' : Type}

/-! ## Verifications -/

/-- The arguments of a verification. -/
def verifyArgs (e : Event (LibCall T)) : Option (Bytes 64 × List UInt8 × T.XonlyPubkey) :=
  match e with
  | ⟨.schnorrsig (.verify sig64 msg pk), _⟩ => some (sig64, msg, pk)
  | _ => none

def verified (log : List (Event (LibCall T))) :
    List (Bytes 64 × List UInt8 × T.XonlyPubkey) :=
  log.filterMap verifyArgs

theorem verified_append (l l' : List (Event (LibCall T))) :
    verified (l ++ l') = verified l ++ verified l' :=
  List.filterMap_append

section Avoids

abbrev NoVerify {α : Type} (p : Harness T α) : Prop := Avoids verifyArgs p

instance {β : Type} (q : KeyCall T β) : NoVerify (secpKey q) := Avoids.invoke fun _ => rfl

instance (msg : Bytes 32) (keypair : T.Keypair) (aux : Option (Bytes 32)) :
    NoVerify (secpSchnorrsig (.sign32 msg keypair aux)) := Avoids.invoke fun _ => rfl

instance (n : ℕ) : NoVerify (readerTake n : Harness T (Bytes n)) := Avoids.ask _

instance : NoVerify (readerU8 : Harness T ℕ) := by
  unfold readerU8
  infer_instance

instance (p : List UInt8) : NoVerify (transcriptBytes p : Harness T Unit) := Avoids.emit _

instance (v : Int32) : NoVerify (transcriptInt v : Harness T Unit) := Avoids.emit _

instance (keypair : T.Keypair) (parity : Int32) :
    NoVerify (schnorrsigEvenKey keypair parity) := by
  unfold schnorrsigEvenKey
  infer_instance

instance (ed r32 msg32 : Bytes 32) (keypair : T.Keypair) (parity : Int32)
    (pk32 : Bytes 32) :
    NoVerify (schnorrsigChallengeKey ed r32 msg32 keypair parity pk32) := by
  unfold schnorrsigChallengeKey
  infer_instance

instance (sig64 : Bytes 64) (msg32 : Bytes 32) (keypair : T.Keypair) (parity : Int32)
    (pk32 : Bytes 32) :
    NoVerify (schnorrsigOddR sig64 msg32 keypair parity pk32) := by
  unfold schnorrsigOddR
  infer_instance

instance (sig64 : Bytes 64) (msg32 : Bytes 32) (keypair : T.Keypair) (parity : Int32)
    (pk32 : Bytes 32) :
    NoVerify (schnorrsigInfinityR sig64 msg32 keypair parity pk32) := by
  unfold schnorrsigInfinityR
  infer_instance

instance (mode : ℕ) (sig64 : Bytes 64) (msg : Bytes 32) (keypair : T.Keypair)
    (parity : Int32) (pk32 : Bytes 32) :
    NoVerify (schnorrsigForge mode sig64 msg keypair parity pk32) := by
  unfold schnorrsigForge
  infer_instance

instance (keypair : T.Keypair) (parity : Int32) :
    NoVerify (schnorrsigCancel keypair parity) := by
  unfold schnorrsigCancel
  infer_instance

instance (mode : ℕ) (msg aux : Bytes 32) (s : SchnorrsigSpec.Signer T) :
    NoVerify (schnorrsigSignWith mode msg aux s) := by
  unfold schnorrsigSignWith
  infer_instance

/-- Signing is making the key, then signing with it. -/
theorem schnorrsigSignInput_eq (mode : ℕ) (msg : Bytes 32) :
    (schnorrsigSignInput mode msg : Harness T _) = (do
    let seckey ← readerTake 32
    let aux ← readerTake 32
    let (ok, keypair) ← secpKey (.keypairCreate seckey)
    transcriptInt ok
    if ok = 0 then
      pure (⟨msg, zeroBytes 32, zeroBytes 64⟩, ⟨none, none⟩)
    else do
      let (_, signer, parity) ← secpKey (.keypairXonlyPub keypair)
      let (_, pk32) ← secpKey (.xonlyPubkeySerialize signer)
      transcriptInt parity
      transcriptBytes pk32.toList
      schnorrsigSignWith mode msg aux ⟨keypair, signer, parity, pk32⟩) := rfl

instance (mode : ℕ) (msg : Bytes 32) :
    NoVerify (schnorrsigSignInput mode msg : Harness T _) := by
  rw [schnorrsigSignInput_eq]
  infer_instance

instance : NoVerify (schnorrsigInput : Harness T _) := by
  unfold schnorrsigInput
  infer_instance

-- an instance is found along the whole of the body
set_option synthInstance.maxSize 1024 in
instance (internal : T.XonlyPubkey) (cancel : Option (Bytes 32)) :
    NoVerify (schnorrsigRecordTweak internal cancel) := by
  dsimp only [schnorrsigRecordTweak]
  infer_instance

end Avoids

/-! ## Two runs of the target -/

section Lock

variable {S : SchnorrsigSpec T} {Junk Junk' : List UInt8 → Prop} {r : List UInt8}
  {g g' : List (Event (LibCall T))} {α α' : Type}
  {Post : α → α' → List (Event (LibCall T)) → List (Event (LibCall T)) → Prop}

/-- What makes no verification keeps them the same. -/
theorem lock_unverified {p : Harness T α} {p' : Harness T α'} [NoVerify p] [NoVerify p']
    (answers : Build T σ × σ) (answers' : Build T σ' × σ')
    (hsame : verified g = verified g')
    (h : Lockstep reader (S.leaving Junk) (S.leaving Junk') Eq Post p p' r g g') :
    Lockstep reader (S.leaving Junk) (S.leaving Junk') Eq
      (fun a a' k k' => Post a a' k k' ∧ verified k = verified k') p p' r g g' := by
  have hnone : Lockstep reader (S.leaving Junk) (S.leaving Junk') Eq
      (fun a a' k k' => Post a a' k k' ∧ verified k = verified g ∧
        verified k' = verified g') p p' r g g' :=
    Lockstep.avoids answers answers' h
  refine hnone.mono ?_
  rintro a a' k k' ⟨hpost, hk, hk'⟩
  exact ⟨hpost, (hk.trans hsame).trans hk'.symm⟩

/-- Both runs verify the same. -/
theorem lock_verify {sig64 : Bytes 64} {msg : List UInt8} {pk : T.XonlyPubkey}
    {f : Unit → Harness T α} {f' : Unit → Harness T α'} (hpk : Owned g g' (.xonly pk))
    (hsame : verified g = verified g')
    (h : ∀ k k', OwnedLe g g' k k' → verified k = verified k' →
      Lockstep reader (S.leaving Junk) (S.leaving Junk') Eq Post (f ()) (f' ()) r k k') :
    Lockstep reader (S.leaving Junk) (S.leaving Junk') Eq Post
      (secpSchnorrsig (.verify sig64 msg pk) >>= fun ok => transcriptInt ok >>= f)
      (secpSchnorrsig (.verify sig64 msg pk) >>= fun ok => transcriptInt ok >>= f') r g
        g' := by
  refine lock_sig (fun _ => owned_one hpk) fun x x' hx hx' _ _ hle => ?_
  refine lock_eq_int (by rw [hx, hx']) (h _ _ hle ?_)
  rw [verified_append, verified_append, hsame]
  rfl

theorem lock_verify_last {sig64 : Bytes 64} {msg : List UInt8} {pk : T.XonlyPubkey}
    (hpk : Owned g g' (.xonly pk)) (hsame : verified g = verified g') :
    Lockstep reader (S.leaving Junk) (S.leaving Junk') Eq
      (fun _ _ k k' => OwnedLe g g' k k' ∧ verified k = verified k')
      (secpSchnorrsig (.verify sig64 msg pk) >>= transcriptInt : Harness T Unit)
      (secpSchnorrsig (.verify sig64 msg pk) >>= transcriptInt : Harness T Unit) r g g' :=
  lock_verify (f := pure) hpk hsame fun _ _ hle hsame => Lockstep.pure ⟨hle, hsame⟩

theorem lock_schnorrsigRecordCustom {mode : ℕ} {sig64 : Bytes 64}
    {pk : Option T.XonlyPubkey} {signed : Option (T.Keypair × T.XonlyPubkey)}
    (hpk : ∀ p, pk = some p → Owned g g' (.xonly p))
    (hsigned : ∀ keypair xonly, signed = some (keypair, xonly) →
      Owned g g' (.keypair keypair) ∧ Owned g g' (.xonly xonly))
    (hsame : verified g = verified g') :
    Lockstep reader (S.leaving Junk) (S.leaving Junk') Eq (fun _ _ k k' =>
      verified k = verified k')
      (schnorrsigRecordCustom mode sig64 pk signed)
      (schnorrsigRecordCustom mode sig64 pk signed) r g g' := by
  refine lock_readerU8 fun msglen r => lock_readerTake fun msg r =>
    lock_readerTake fun nonce r => ?_
  refine lock_readerU8 fun pos r => lock_readerU8 fun mask r => ?_
  refine Lockstep.bind
    (P := fun _ _ k k' => OwnedLe g g' k k' ∧ verified k = verified k') ?_ ?_
  · cases pk with
    | none => exact Lockstep.pure ⟨OwnedLe.refl g g', hsame⟩
    | some p =>
        exact lock_verify_last (hpk p rfl) hsame
  rintro _ _ r k k' ⟨hle, hsame⟩
  cases signed with
  | none => exact Lockstep.pure hsame
  | some s =>
      obtain ⟨keypair, signer⟩ := s
      obtain ⟨hkp, hxonly⟩ := hsigned keypair signer rfl
      refine lock_sig (fun _ => owned_one (hle _ hkp)) ?_
      rintro ⟨ok, sig⟩ ⟨ok', sig'⟩ ⟨hok, hsig⟩ ⟨hok', hsig'⟩ - - hle'
      have hsame' := congrArg (· ++ []) hsame
      obtain rfl : ok = ok' := hok.trans hok'.symm
      refine lock_eq_int rfl (Lockstep.ite (fun hret => ?_) fun _ => ?_)
      · have hcode : (S.signature (.signCustom msg.toList keypair
              (schnorrsigExtraparams mode nonce))).1 ≠ 0 := by
          rwa [← hok]
        obtain rfl : sig = sig' := (hsig hcode).trans (hsig' hcode).symm
        refine lock_eq_bytes rfl ?_
        refine (lock_verify_last (hle' _ (hle _ hxonly)) ?_).mono
          fun _ _ _ _ hpost => hpost.2
        rw [verified_append, verified_append]
        exact hsame'
      · refine Lockstep.pure ?_
        rw [verified_append, verified_append]
        exact hsame'

theorem lock_xonlyPubkeyParse (pk32 : Bytes 32) :
    Lockstep reader (S.leaving Junk) (S.leaving Junk') Eq
      (fun x x' k k' => x.1 = x'.1 ∧ (x.1 ≠ 0 → x.2 = x'.2 ∧ Owned k k' (.xonly x.2)) ∧
        OwnedLe g g' k k')
      (secpKey (.xonlyPubkeyParse pk32)) (secpKey (.xonlyPubkeyParse pk32)) r g g' := by
  refine lock_make (f := pure) (m := .xonly) (fun _ h => nomatch h) (fun _ h => h)
    (fun _ _ => rfl) ?_
  intro ret pk pk' k k' hpk hle
  exact Lockstep.pure ⟨rfl, hpk, hle⟩

/-- What is recorded of a parsed key. -/
theorem lock_schnorrsigRecord (answers : Build T σ × σ)
    (answers' : Build T σ' × σ') {mode : ℕ} {st : SchnorrsigBuffers}
    {signed : SchnorrsigSigned T} {ok : Int32} {pk pk' : T.XonlyPubkey}
    (hpk : ok ≠ 0 → pk = pk' ∧ Owned g g' (.xonly pk))
    (hsigned : ∀ keypair xonly, signed.signed = some (keypair, xonly) →
      Owned g g' (.keypair keypair) ∧ Owned g g' (.xonly xonly))
    (hsame : verified g = verified g') :
    Lockstep reader (S.leaving Junk) (S.leaving Junk') Eq (fun _ _ k k' =>
      verified k = verified k') (do
        (if ok ≠ 0 then do
            transcriptInt (← secpSchnorrsig (.verify st.sig64 st.msg.toList pk))
            schnorrsigRecordTweak pk signed.cancel
          else pure ())
        schnorrsigRecordCustom mode st.sig64 (if ok ≠ 0 then some pk else none)
          signed.signed)
      (do
        (if ok ≠ 0 then do
            transcriptInt (← secpSchnorrsig (.verify st.sig64 st.msg.toList pk'))
            schnorrsigRecordTweak pk' signed.cancel
          else pure ())
        schnorrsigRecordCustom mode st.sig64 (if ok ≠ 0 then some pk' else none)
          signed.signed) r g g' := by
  by_cases hok : ok = 0
  · have hzero : ¬ ok ≠ 0 := not_not.mpr hok
    simp only [if_neg hzero, pure_bind]
    exact lock_schnorrsigRecordCustom (fun _ h => nomatch h) hsigned hsame
  obtain ⟨rfl, hown⟩ := hpk hok
  simp only [if_pos hok, bind_assoc]
  refine lock_verify hown hsame fun k₁ k₁' hle₁ hsame₁ => ?_
  refine Lockstep.bind (lock_unverified answers answers' hsame₁
    (lock_schnorrsigRecordTweak (hle₁ _ hown) signed.cancel)) ?_
  rintro _ _ r k₂ k₂' ⟨hle₂, hsame₂⟩
  have hle := hle₁.trans hle₂
  apply lock_schnorrsigRecordCustom
  · intro p hp
    cases hp
    exact hle _ hown
  · exact fun keypair xonly h =>
      ⟨hle _ (hsigned keypair xonly h).1, hle _ (hsigned keypair xonly h).2⟩
  · exact hsame₂

theorem targetSchnorrsig_eq : (targetSchnorrsig : Harness T Unit) = (do
    let (mode, st, signed) ← schnorrsigInput
    let st ← mutateUpTo7 3 schnorrsigMutate st
    let (ok, pk) ← secpKey (.xonlyPubkeyParse st.pk32)
    transcriptInt ok
    (if ok ≠ 0 then do
        transcriptInt (← secpSchnorrsig (.verify st.sig64 st.msg.toList pk))
        schnorrsigRecordTweak pk signed.cancel
      else pure ())
    schnorrsigRecordCustom mode st.sig64 (if ok ≠ 0 then some pk else none)
      signed.signed) := by
  simp only [targetSchnorrsig, schnorrsigInput, bind_assoc, pure_bind]

/-- Both runs verify the same, and put the same. -/
theorem lock_targetSchnorrsig {inp : List UInt8} (answers : Build T σ × σ)
    (answers' : Build T σ' × σ') (h : ¬ S.Leaks inp) :
    Lockstep reader (S.leaving Junk) (S.leaving Junk') Eq (fun _ _ k k' =>
      verified k = verified k') targetSchnorrsig targetSchnorrsig inp [] [] := by
  rw [targetSchnorrsig_eq]
  refine Lockstep.bind (lock_unverified answers answers' rfl (lock_schnorrsigInput h)) ?_
  rintro ⟨mode, st, signed⟩ ⟨mode', st', signed'⟩ r g g' ⟨⟨hmode, hx⟩, hsame⟩
  obtain rfl : mode = mode' := hmode
  obtain ⟨rfl, rfl⟩ : st = st' ∧ signed = signed' := Prod.mk.inj hx.eq
  refine lock_mutateUpTo7 fun st r => ?_
  refine Lockstep.bind
    (lock_unverified answers answers' hsame (lock_xonlyPubkeyParse st.pk32)) ?_
  rintro ⟨ok, pk⟩ ⟨ok', pk'⟩ r k k' ⟨⟨hok, hpk, hle⟩, hsame⟩
  obtain rfl : ok = ok' := hok
  refine lock_eq_int rfl (lock_schnorrsigRecord answers answers' hpk ?_ hsame)
  exact fun keypair xonly h =>
    ⟨hle _ (hx.owned keypair xonly h).1, hle _ (hx.owned keypair xonly h).2⟩

end Lock

/-! ## Equal runs -/

/-- Two runs put the same into every transcript, and mutate and verify the
same signatures. -/
structure SameRuns (lib : Build T σ) (lib' : Build T σ') (s : σ) (s' : σ')
    (inp : List UInt8) : Prop where
  transcript : ∀ cap,
    transcriptFor targetSchnorrsig lib s cap inp =
      transcriptFor targetSchnorrsig lib' s' cap inp
  mutated : (schnorrsigInput.run reader lib inp s).val.2.1.sig64
    = (schnorrsigInput.run reader lib' inp s').val.2.1.sig64
  verified : verified (targetSchnorrsig.run reader lib inp s).log
    = verified (targetSchnorrsig.run reader lib' inp s').log

theorem sameRuns_of_not_leaks {S : SchnorrsigSpec T} {inp : List UInt8}
    (h : ¬ S.Leaks inp) {lib : Build T σ} {lib' : Build T σ'} {s : σ} {s' : σ'}
    (hlib : S.contract.Answered [] (targetSchnorrsig.run reader lib inp s).log)
    (hlib' : S.contract.Answered [] (targetSchnorrsig.run reader lib' inp s').log) :
    SameRuns lib lib' s s' inp := by
  have hinput : Lockstep reader S.contract S.contract Eq _ schnorrsigInput
      schnorrsigInput inp [] [] :=
    lock_schnorrsigInput h
  have htarget : Lockstep reader S.contract S.contract Eq _ targetSchnorrsig
      targetSchnorrsig inp [] [] :=
    lock_targetSchnorrsig (lib, s) (lib', s') h
  obtain ⟨hout, -, -, -, hverified⟩ :=
    htarget.run_eq_answered (fun _ _ h => h) s s' hlib hlib'
  rw [targetSchnorrsig_eq, Prog.run_bind] at hlib hlib'
  obtain ⟨-, -, -, -, -, hbuf⟩ :=
    hinput.run_eq_answered (fun _ _ h => h) s s' hlib.of_append hlib'.of_append
  constructor
  · exact fun cap => congrArg (transcriptOf cap) hout
  · exact congrArg (fun x => x.1.sig64) hbuf.eq
  · rw [SchnorrsigSpec.contract, SchnorrsigSpec.leaving, Contract.history_after,
      Contract.history_after] at hverified
    exact hverified

/-! ## Leftovers that tell runs apart -/

/-- A failed call leaves bytes `j`. -/
def leftBytes {n : ℕ} (j : UInt8) (a : Int32 × Bytes n) : Int32 × Bytes n :=
  (a.1, if a.1 = 0 then Vector.replicate n j else a.2)

def SchnorrsigCall.leave {β : Type} (j : UInt8) : SchnorrsigCall T β → β → β
  | .sign32 _ _ _, a => leftBytes j a
  | _, a => a

def KeyCall.leave {β : Type} (j : UInt8) : KeyCall T β → β → β
  | .ecSeckeyNegate _, a => leftBytes j a
  | .ecSeckeyTweakMul _ _, a => leftBytes j a
  | _, a => a

def LibCall.leave {β : Type} (j : UInt8) : LibCall T β → β → β
  | .key q, a => q.leave j a
  | .schnorrsig q, a => q.leave j a
  | _, a => a

/-- `lib`, but what fails leaves bytes `j` in signatures and secret keys. -/
def leavingBytes (lib : Build T σ) (j : UInt8) : Build T σ where
  answer q s := (q.leave j (lib.answer q s).1, (lib.answer q s).2)

/-- Only bytes `j`. -/
def AllBytes (j : UInt8) (l : List UInt8) : Prop := ∀ b ∈ l, b = j

theorem agrees_leftBytes {n : ℕ} {j : UInt8} {a r : Int32 × Bytes n}
    (h : KeySpec.agrees a r) :
    KeySpec.agrees (leftBytes j a) r := by
  refine ⟨h.1, fun hret => ?_⟩
  have hne : a.1 ≠ 0 := by rwa [h.1]
  show (if a.1 = 0 then Vector.replicate n j else a.2) = r.2
  rw [if_neg hne]
  exact h.2 hret

theorem leftBytes_left {n : ℕ} {j : UInt8} {a : Int32 × Bytes n}
    (h : (leftBytes j a).1 = 0) :
    AllBytes j (leftBytes j a).2.toList := by
  have hzero : a.1 = 0 := h
  rw [leftBytes, if_pos hzero, Vector.toList_replicate]
  exact fun b hb => List.eq_of_mem_replicate hb

theorem leavingBytes_meets {S : SchnorrsigSpec T} {lib : Build T σ}
    (hlib : lib.Meets S.contract) (j : UInt8) :
    (leavingBytes lib j).Meets (S.leaving (AllBytes j)) := by
  intro g β q s hreq
  have hans := hlib g β q s hreq
  cases q with
  | key q =>
      cases q with
      | ecSeckeyNegate sk => exact ⟨agrees_leftBytes hans.1, leftBytes_left⟩
      | ecSeckeyTweakMul sk tweak => exact ⟨agrees_leftBytes hans.1, leftBytes_left⟩
      | _ => exact ⟨hans.1, trivial⟩
  | schnorrsig q =>
      cases q with
      | sign32 msg keypair aux => exact ⟨agrees_leftBytes hans.1, leftBytes_left⟩
      | _ => exact ⟨hans.1, trivial⟩
  | _ => trivial

/-! A contract that allows any leftovers asks nothing of them. -/

theorem keyLeft_any {β : Type} (q : KeyCall T β) (a : β) :
    SchnorrsigSpec.keyLeft (fun _ => True) q a := by
  cases q with
  | ecSeckeyNegate | ecSeckeyTweakMul => exact fun _ => trivial
  | _ => trivial

theorem sigLeft_any {β : Type} (q : SchnorrsigCall T β) (a : β) :
    SchnorrsigSpec.sigLeft (fun _ => True) q a := by
  cases q with
  | sign32 => exact fun _ => trivial
  | _ => trivial

theorem leaving_contract {S : SchnorrsigSpec T} {lib : Build T σ}
    {Junk : List UInt8 → Prop} (hlib : lib.Meets (S.leaving Junk)) :
    lib.Meets S.contract := by
  intro g β q s hreq
  have hans := hlib g β q s hreq
  cases q with
  | key q => exact ⟨hans.1, keyLeft_any q _⟩
  | schnorrsig q => exact ⟨hans.1, sigLeft_any q _⟩
  | _ => trivial

/-- Leftovers of different builds differ. -/
theorem allBytes_ne {n : ℕ} {b b' : Bytes (n + 1)} (h : AllBytes 0 b.toList)
    (h' : AllBytes 1 b'.toList) :
    b.toList ≠ b'.toList := by
  intro heq
  have hmem : b[0] ∈ b.toList := by simp
  have hzero := h _ hmem
  rw [heq] at hmem
  have hone := h' _ hmem
  rw [hzero] at hone
  exact absurd hone (by decide)

section Differ

variable {S : SchnorrsigSpec T} {r : List UInt8} {g g' : List (Event (LibCall T))}

/-- Where signing fails, a block of leftovers is put. -/
theorem lock_schnorrsigSignWith_fails {s : SchnorrsigSpec.Signer T} {mode : ℕ}
    {msg aux : Bytes 32} (hkp : Owned g g' (.keypair s.keypair))
    (h : S.Fails mode msg aux s) :
    Lockstep reader (S.leaving (AllBytes 0)) (S.leaving (AllBytes 1)) SameLength
      (fun _ _ _ _ => False)
      (schnorrsigSignWith mode msg aux s) (schnorrsigSignWith mode msg aux s) r g g' := by
  refine lock_sig (fun _ => owned_one hkp) ?_
  rintro ⟨ok, sig64⟩ ⟨ok', sig64'⟩ ⟨hok, -⟩ ⟨hok', -⟩ hleft hleft' hle₁
  refine lock_len_int fun _ => lock_len_bytes (by simp) fun hsig => ?_
  rcases h with hzero | ⟨hodd, hinf, hnone⟩
  · have hjunk : AllBytes 0 sig64.toList := hleft (hok.trans hzero)
    exact absurd hsig (allBytes_ne hjunk (hleft' (hok'.trans hzero)))
  · rw [schnorrsigForge, schnorrsigForge, if_neg (not_not.mpr hodd),
      if_neg (not_not.mpr hodd), if_pos hinf, if_pos hinf]
    simp only [bind_assoc]
    refine Lockstep.bind (lock_schnorrsigInfinityR (hle₁ _ hkp) sig64 sig64' msg) ?_
    rintro _ _ r k k' ⟨ed, ed', rfl, rfl, hed, hed', -⟩
    refine lock_len_int fun _ => lock_len_bytes (by simp) fun hforged => ?_
    rw [Vector.toList_append, Vector.toList_append] at hforged
    exact absurd (List.append_cancel_left hforged)
      (allBytes_ne (hed.left hnone) (hed'.left hnone))

/-- Builds that leave different bytes never end with equal output. -/
theorem lock_targetSchnorrsig_leaks {inp : List UInt8} (h : S.Leaks inp) :
    Lockstep reader (S.leaving (AllBytes 0)) (S.leaving (AllBytes 1)) SameLength
      (fun _ _ _ _ => False) targetSchnorrsig targetSchnorrsig inp g g' := by
  obtain ⟨hsign, hkey, hfails⟩ := h
  apply lock_readerU8_at
  apply lock_readerTake_at
  rw [if_pos hsign]
  refine Lockstep.bind (P := fun _ _ _ _ => False) ?_ fun _ _ _ _ _ hfalse => hfalse.elim
  rw [List.drop_drop]
  refine lock_schnorrsigSignInput (fun _ => rfl) (fun _ _ hzero => absurd hzero hkey) ?_
  intro r' k k' _ hkp _
  refine lock_schnorrsigSignWith_fails hkp ?_
  rw [List.drop_drop]
  exact hfails

end Differ

/-- Where the input leaks, two builds with different leftovers put different
transcripts. -/
theorem transcripts_differ {S : SchnorrsigSpec T} {inp : List UInt8} (h : S.Leaks inp)
    {lib : Build T σ} {lib' : Build T σ'} (hlib : lib.Meets (S.leaving (AllBytes 0)))
    (hlib' : lib'.Meets (S.leaving (AllBytes 1))) (s : σ) (s' : σ') :
    ∃ cap, transcriptFor targetSchnorrsig lib s cap inp ≠
      transcriptFor targetSchnorrsig lib' s' cap inp := by
  have hlock :
      Lockstep reader (S.leaving (AllBytes 0)) (S.leaving (AllBytes 1)) SameLength _
      targetSchnorrsig targetSchnorrsig inp [] [] := lock_targetSchnorrsig_leaks h
  let out := (targetSchnorrsig.run reader lib inp s).out
  let out' := (targetSchnorrsig.run reader lib' inp s').out
  refine ⟨max out.flatten.length out'.flatten.length, fun heq => ?_⟩
  rw [transcriptFor, transcriptFor, transcriptOf_some (Nat.le_max_left _ _),
    transcriptOf_some (Nat.le_max_right _ _)] at heq
  have hflat := congrArg (· ++ []) (Option.some.inj heq)
  exact (hlock.run_flatten (fun _ _ h => h) hlib hlib' s s' hflat).2.2.2

/-- Then two builds that meet the specification differ. -/
theorem exists_differ {S : SchnorrsigSpec T} {inp : List UInt8} (h : S.Leaks inp)
    {lib₀ : Build T σ} (hlib₀ : lib₀.Meets S.contract) (s₀ : σ) :
    ∃ lib lib' : Build T σ, lib.Meets S.contract ∧ lib'.Meets S.contract ∧
      ¬ SameRuns lib lib' s₀ s₀ inp := by
  have hzero := leavingBytes_meets hlib₀ 0
  have hone := leavingBytes_meets hlib₀ 1
  obtain ⟨cap, hne⟩ := transcripts_differ h hzero hone s₀ s₀
  exact ⟨_, _, leaving_contract hzero, leaving_contract hone,
    fun hsame => hne (hsame.transcript cap)⟩

/-- Over every two builds that answer the calls of their runs as specified, the
target puts, mutates and verifies the same exactly where no failed signature
goes into the transcript: the input signs with no valid key, or the signature
succeeds, and so does forging the one of infinity where it is asked for. It is
the same over every two builds that answer all calls as specified. -/
theorem targetSchnorrsig_specified_iff (S : SchnorrsigSpec T) (lib₀ : Build T σ)
    (hlib₀ : lib₀.Meets S.contract) (s₀ : σ) (inp : List UInt8) :
    ((∀ {σ σ' : Type} (lib : Build T σ) (lib' : Build T σ') (s : σ) (s' : σ'),
        S.contract.Answered [] (targetSchnorrsig.run reader lib inp s).log →
        S.contract.Answered [] (targetSchnorrsig.run reader lib' inp s').log →
        SameRuns lib lib' s s' inp) ↔ ¬ S.Leaks inp) ∧
    ((∀ {σ σ' : Type} (lib : Build T σ) (lib' : Build T σ'),
        lib.Meets S.contract → lib'.Meets S.contract →
          ∀ s s', SameRuns lib lib' s s' inp) ↔
      ¬ S.Leaks inp) := by
  have hanswered {σ : Type} {lib : Build T σ} (hlib : lib.Meets S.contract) (s : σ) :
      S.contract.Answered [] (targetSchnorrsig.run reader lib inp s).log :=
    hlib.answered reader targetSchnorrsig inp [] s
  refine ⟨⟨fun hsame hleaks => ?_, ?_⟩, ⟨fun hsame hleaks => ?_, ?_⟩⟩
  · obtain ⟨lib, lib', hlib, hlib', hne⟩ := exists_differ hleaks hlib₀ s₀
    exact hne (hsame lib lib' s₀ s₀ (hanswered hlib s₀) (hanswered hlib' s₀))
  · intro h σ σ' lib lib' s s' hlib hlib'
    exact sameRuns_of_not_leaks h hlib hlib'
  · obtain ⟨lib, lib', hlib, hlib', hne⟩ := exists_differ hleaks hlib₀ s₀
    exact hne (hsame lib lib' hlib hlib' s₀ s₀)
  · intro h σ σ' lib lib' hlib hlib' s s'
    exact sameRuns_of_not_leaks h (hanswered hlib s) (hanswered hlib' s')

/-! ## A signature that succeeds, and one that fails -/

/-- Keys in range are valid, and signing answers the code `ret`. -/
def signSpec (ret : Int32) : SchnorrsigSpec refTypes where
  result {β} q := match β, q with
    | _, .keypairCreate sk =>
        (flag (0 < natOfBytes sk.toList ∧ natOfBytes sk.toList < secpN), ())
    | _, q => refKey q
  signature {β} q := match β, q with
    | _, .sign32 _ _ _ => (ret, zeroBytes 64)
    | _, q => idle (.schnorrsig q)

def signLib (ret : Int32) : Build refTypes Unit where
  answer {β} q s := match β, q with
    | _, .key q => ((signSpec ret).result q, s)
    | _, .schnorrsig q => ((signSpec ret).signature q, s)
    | _, q => (idle q, s)

theorem signLib_meets (ret : Int32) : (signLib ret).Meets (signSpec ret).contract := by
  intro g β q s _
  cases q with
  | key q =>
      refine ⟨?_, keyLeft_any q _⟩
      have hspec := refKey_spec q
      cases q with
      | keypairCreate sk => exact ⟨rfl, fun _ => rfl⟩
      | _ => exact hspec
  | schnorrsig q =>
      refine ⟨?_, sigLeft_any q _⟩
      cases q with
      | verify sig64 msg pk => rfl
      | _ => exact ⟨rfl, fun _ => rfl⟩
  | _ => trivial

/-- The signing mode, a zero message, the secret key 1 and a zero aux_rand. -/
def signInput : List UInt8 := 1 :: (List.replicate 63 0 ++ 1 :: List.replicate 32 0)

theorem signSpec_not_leaks : ¬ (signSpec 1).Leaks signInput := by
  rintro ⟨-, -, hzero | ⟨-, hinf, -⟩⟩
  · exact absurd hzero (by decide : (1 : Int32) ≠ 0)
  · exact hinf (by decide)

/-- Signing succeeds, and two builds that leave different bytes where calls
fail put the same. -/
theorem signLib_specified :
    SameRuns (leavingBytes (signLib 1) 0) (leavingBytes (signLib 1) 1) ()
      () signInput := by
  have hmeets := signLib_meets 1
  have hiff :=
    (targetSchnorrsig_specified_iff (signSpec 1) (signLib 1) hmeets () signInput).2
  exact hiff.mpr signSpec_not_leaks _ _ (leaving_contract (leavingBytes_meets hmeets 0))
    (leaving_contract (leavingBytes_meets hmeets 1)) () ()

set_option maxRecDepth 4000 in
theorem signSpec_leaks : (signSpec 0).Leaks signInput :=
  ⟨by decide, by decide, Or.inl rfl⟩

/-- Signing fails, and one build leaves zeros in the signature, the other
ones. -/
theorem failingLib_leftovers :
    (leavingBytes (signLib 0) 0).Meets (signSpec 0).contract ∧
      (leavingBytes (signLib 0) 1).Meets (signSpec 0).contract ∧
      ¬ SameRuns (leavingBytes (signLib 0) 0) (leavingBytes (signLib 0) 1) ()
        () signInput := by
  have hzero := leavingBytes_meets (signLib_meets 0) 0
  have hone := leavingBytes_meets (signLib_meets 0) 1
  refine ⟨leaving_contract hzero, leaving_contract hone, fun hsame => ?_⟩
  obtain ⟨cap, hne⟩ := transcripts_differ signSpec_leaks hzero hone () ()
  exact hne (hsame.transcript cap)

end Diffsecp
