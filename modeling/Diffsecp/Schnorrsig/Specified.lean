import Diffsecp.Keys.Specified
import Diffsecp.Schnorrsig.Target

/-!
# Schnorrsig — Specified

What the schnorrsig API and the key API specify of the calls of the target.
A failed signature or a failed op on a secret key leaves bytes the API says
nothing of, and the target records the signature buffer whether or not they
are in it.
-/

namespace Diffsecp

open Interact

variable {T : Types} {σ σ' : Type}

/-! ## Specified results -/

/-- The objects a call takes. -/
def SchnorrsigCall.uses {β : Type} : SchnorrsigCall T β → List (KeyObj T)
  | .sign32 _ keypair _ => [.keypair keypair]
  | .signCustom _ keypair _ => [.keypair keypair]
  | .verify _ _ pk => [.xonly pk]

/-- The output of a call that succeeds. -/
def onCode {α : Type} (a : Int32 × α) : Option α := if a.1 ≠ 0 then some a.2 else none

/-- The results both APIs fix. -/
structure SchnorrsigSpec (T : Types) extends KeySpec T where
  signature : {β : Type} → SchnorrsigCall T β → β

namespace SchnorrsigSpec

variable (S : SchnorrsigSpec T)

def sigSpec {β : Type} : SchnorrsigCall T β → β → Prop
  | .sign32 msg keypair aux, a => KeySpec.agrees a (S.signature (.sign32 msg keypair aux))
  | .signCustom msg keypair extra, a =>
      KeySpec.agrees a (S.signature (.signCustom msg keypair extra))
  | .verify sig64 msg pk, a => a = S.signature (.verify sig64 msg pk)

/-- What a failed call leaves in a signature. -/
def sigLeft (Junk : List UInt8 → Prop) {β : Type} : SchnorrsigCall T β → β → Prop
  | .sign32 _ _ _, (ret, sig64) => ret = 0 → Junk sig64.toList
  | _, _ => True

/-- What a failed call leaves in a secret key. -/
def keyLeft (Junk : List UInt8 → Prop) {β : Type} : KeyCall T β → β → Prop
  | .ecSeckeyNegate _, (ret, sk) => ret = 0 → Junk sk.toList
  | .ecSeckeyTweakMul _ _, (ret, sk) => ret = 0 → Junk sk.toList
  | _, _ => True

/-- Calls on valid objects, and what failed ones leave. -/
def leaving (Junk : List UInt8 → Prop) :
    Contract (LibCall T) (List (Event (LibCall T))) :=
  .history
    (fun log {β} (q : LibCall T β) => match q with
      | .key q => ∀ o ∈ q.uses, o ∈ objectsMade log
      | .schnorrsig q => ∀ o ∈ q.uses, o ∈ objectsMade log
      | _ => True)
    (fun _ {β} (q : LibCall T β) (a : β) => match β, q, a with
      | _, .key q, a => S.spec q a ∧ keyLeft Junk q a
      | _, .schnorrsig q, a => S.sigSpec q a ∧ sigLeft Junk q a
      | _, _, _ => True)

/-- Failed calls leave any bytes. -/
def contract : Contract (LibCall T) (List (Event (LibCall T))) := S.leaving fun _ => True

instance (Junk : List UInt8 → Prop) : KeyContract S.toKeySpec (S.leaving Junk) :=
  ⟨fun h => h, fun h => h.1, rfl⟩

/-! ## What the target computes of them -/

/-- A keypair with its x-only key. -/
structure Signer (T : Types) where
  keypair : T.Keypair
  xonly : T.XonlyPubkey
  parity : Int32
  pk32 : Bytes 32

def signer (seckey : Bytes 32) : Signer T :=
  let keypair := (S.result (.keypairCreate seckey)).2
  let (_, xonly, parity) := S.result (.keypairXonlyPub keypair)
  ⟨keypair, xonly, parity, (S.result (.xonlyPubkeySerialize xonly)).2⟩

/-- The key BIP340 signs with. -/
def evenKey (s : Signer T) : Option (Bytes 32) :=
  let d := (S.result (.keypairSec s.keypair)).2
  if s.parity = 0 then some d else onCode (S.result (.ecSeckeyNegate d))

/-- e*d for the challenge e of `r32`. -/
def challengeKey (s : Signer T) (r32 msg32 : Bytes 32) : Option (Bytes 32) :=
  let e := (S.result (.taggedSha256 schnorrsigChallengeTag
    (r32.toList ++ s.pk32.toList ++ msg32.toList))).2
  (S.evenKey s).bind fun d => onCode (S.result (.ecSeckeyTweakMul d e))

def sign32 (s : Signer T) (mode : ℕ) (msg aux : Bytes 32) : Int32 × Bytes 64 :=
  S.signature
    (.sign32 msg s.keypair (if mode &&& SchnorrsigMode.aux ≠ 0 then some aux else none))

/-- A signature that fails, or a forged one of infinity that does. -/
def Fails (mode : ℕ) (msg aux : Bytes 32) (s : Signer T) : Prop :=
  (S.sign32 s mode msg aux).1 = 0 ∨
    (mode &&& SchnorrsigMode.oddR = 0 ∧ mode &&& SchnorrsigMode.infinityR ≠ 0 ∧
      S.challengeKey s (zeroBytes 32) msg = none)

/-- The input makes a valid key sign, and that fails. -/
def Leaks (inp : List UInt8) : Prop :=
  let mode := (inp.getD 0 0).toNat
  let msg := (readerTakeBytes (inp.drop 1) 32).1
  let seckey := (readerTakeBytes (inp.drop 33) 32).1
  let aux := (readerTakeBytes (inp.drop 65) 32).1
  mode &&& SchnorrsigMode.sign ≠ 0 ∧ (S.result (.keypairCreate seckey)).1 ≠ 0 ∧
    S.Fails mode msg aux (S.signer seckey)

end SchnorrsigSpec

/-! ## Two runs -/

/-- What both runs get where the specified output is `o`. -/
structure Gets (Junk : List UInt8 → Prop) (o : Option (Bytes 32))
    (x : Bool × Bytes 32) : Prop where
  ret : x.1 = o.isSome
  value : ∀ d, o = some d → x.2 = d
  left : o = none → Junk x.2.toList

theorem ownedLe_append (g g' l l' : List (Event (LibCall T))) :
    OwnedLe g g' (g ++ l) (g' ++ l') :=
  ownedLe_of_grows (List.prefix_append g l) (List.prefix_append g' l')

section Lock

variable {S : SchnorrsigSpec T} {Junk Junk' : List UInt8 → Prop}
  {E : List UInt8 → List UInt8 → Prop}
  {r : List UInt8} {g g' : List (Event (LibCall T))} {α α' β : Type}
  {Post : α → α' → List (Event (LibCall T)) → List (Event (LibCall T)) → Prop}

/-- Both runs make a call of the schnorrsig API. -/
theorem lock_sig {q : SchnorrsigCall T β} {f : β → Harness T α} {f' : β → Harness T α'}
    (huse : ∀ o ∈ q.uses, Owned g g' o)
    (h : ∀ x x', S.sigSpec q x → S.sigSpec q x' → SchnorrsigSpec.sigLeft Junk q x →
      SchnorrsigSpec.sigLeft Junk' q x' →
      OwnedLe g g' (g ++ [⟨.schnorrsig q, x⟩]) (g' ++ [⟨.schnorrsig q, x'⟩]) →
      Lockstep reader (S.leaving Junk) (S.leaving Junk') E Post (f x) (f' x') r
        (g ++ [⟨.schnorrsig q, x⟩]) (g' ++ [⟨.schnorrsig q, x'⟩])) :
    Lockstep reader (S.leaving Junk) (S.leaving Junk') E Post (secpSchnorrsig q >>= f)
      (secpSchnorrsig q >>= f') r g g' :=
  Lockstep.invoke_bind (fun o ho => (huse o ho).1) (fun o ho => (huse o ho).2)
    fun x x' hx hx' =>
    h x x' hx.1 hx'.1 hx.2 hx'.2 (ownedLe_append _ _ _ _)

/-- Both runs make an op on a secret key. -/
theorem lock_seckeyOp {q : KeyCall T (Int32 × Bytes 32)}
    {f : Int32 × Bytes 32 → Harness T α} {f' : Int32 × Bytes 32 → Harness T α'}
    (huse : q.uses = []) (hspec : ∀ x, S.spec q x → KeySpec.agrees x (S.result q))
    (hleft : ∀ {Junk x}, SchnorrsigSpec.keyLeft Junk q x → x.1 = 0 → Junk x.2.toList)
    (h : ∀ x x' k k', Gets Junk (onCode (S.result q)) (x.1 ≠ 0, x.2) →
      Gets Junk' (onCode (S.result q)) (x'.1 ≠ 0, x'.2) → OwnedLe g g' k k' →
      Lockstep reader (S.leaving Junk) (S.leaving Junk') E Post (f x) (f' x') r k k') :
    Lockstep reader (S.leaving Junk) (S.leaving Junk') E Post (secpKey q >>= f)
      (secpKey q >>= f') r g g' := by
  have hgets : ∀ {Junk x}, S.spec q x → SchnorrsigSpec.keyLeft Junk q x →
      Gets Junk (onCode (S.result q)) (x.1 ≠ 0, x.2) := by
    intro Junk x hx hjunk
    obtain ⟨hcode, hval⟩ := hspec x hx
    rw [onCode]
    by_cases hret : (S.result q).1 = 0
    · rw [if_neg (not_not.mpr hret)]
      rw [hret] at hcode
      exact ⟨decide_eq_false (not_not.mpr hcode), nofun, fun _ => hleft hjunk hcode⟩
    · rw [if_pos hret]
      refine ⟨decide_eq_true (by rwa [hcode]), fun d hd => ?_, nofun⟩
      cases hd
      exact hval hret
  have hreq : ∀ {k}, ∀ o ∈ q.uses, o ∈ objectsMade (T := T) k := by
    intro k o ho
    rw [huse] at ho
    nomatch ho
  exact Lockstep.invoke_bind hreq hreq fun x x' hx hx' =>
    h x x' _ _ (hgets hx.1 hx.2) (hgets hx'.1 hx'.2) (ownedLe_append _ _ _ _)

theorem lock_schnorrsigEvenKey {s : SchnorrsigSpec.Signer T}
    (hkp : Owned g g' (.keypair s.keypair)) :
    Lockstep reader (S.leaving Junk) (S.leaving Junk') E
      (fun x x' k k' => Gets Junk (S.evenKey s) x ∧ Gets Junk' (S.evenKey s) x' ∧
        OwnedLe g g' k k')
      (schnorrsigEvenKey s.keypair s.parity)
      (schnorrsigEvenKey s.keypair s.parity) r g g' := by
  apply lock_key (fun _ => owned_one hkp) (fun _ => owned_one hkp)
  rintro ⟨ret, d⟩ ⟨ret', d'⟩ k k' ⟨hret, hd⟩ ⟨hret', hd'⟩ hle -
  obtain rfl : ret = 1 := hret
  obtain rfl : ret' = 1 := hret'
  obtain rfl : d = _ := hd
  obtain rfl : d' = _ := hd'
  rw [SchnorrsigSpec.evenKey]
  by_cases hparity : s.parity = 0
  · simp only [hparity]
    refine Lockstep.pure ⟨⟨rfl, fun d hd => ?_, nofun⟩, ⟨rfl, fun d hd => ?_, nofun⟩, hle⟩
    · exact Option.some.inj hd
    · exact Option.some.inj hd
  · simp only [hparity]
    apply lock_seckeyOp
    · rfl
    · exact fun _ h => h
    · exact fun h => h
    intro x x' l l' hx hx' hle'
    exact Lockstep.pure ⟨hx, hx', hle.trans hle'⟩

theorem lock_schnorrsigChallengeKey {s : SchnorrsigSpec.Signer T}
    (hkp : Owned g g' (.keypair s.keypair)) (ed ed' r32 msg32 : Bytes 32) :
    Lockstep reader (S.leaving Junk) (S.leaving Junk') E
      (fun x x' k k' => Gets Junk (S.challengeKey s r32 msg32) x ∧
        Gets Junk' (S.challengeKey s r32 msg32) x' ∧ OwnedLe g g' k k')
      (schnorrsigChallengeKey ed r32 msg32 s.keypair s.parity s.pk32)
      (schnorrsigChallengeKey ed' r32 msg32 s.keypair s.parity s.pk32) r g g' := by
  refine lock_key (fun _ h => nomatch h) (fun _ h => nomatch h) ?_
  rintro ⟨ret, e⟩ ⟨ret', e'⟩ k k' ⟨hret, he⟩ ⟨hret', he'⟩ hle -
  obtain rfl : ret = 1 := hret
  obtain rfl : ret' = 1 := hret'
  obtain rfl : e = _ := he
  obtain rfl : e' = _ := he'
  apply Lockstep.bind (lock_schnorrsigEvenKey (hle _ hkp))
  rintro ⟨ok, d⟩ ⟨ok', d'⟩ r l l' ⟨hd, hd', hle'⟩
  obtain rfl : ok = _ := hd.ret
  obtain rfl : ok' = _ := hd'.ret
  rw [SchnorrsigSpec.challengeKey]
  cases heven : S.evenKey s with
  | none =>
      exact Lockstep.pure ⟨⟨rfl, nofun, fun _ => hd.left heven⟩,
        ⟨rfl, nofun, fun _ => hd'.left heven⟩, hle.trans hle'⟩
  | some d₀ =>
      obtain rfl : d = d₀ := hd.value d₀ heven
      obtain rfl : d' = d := hd'.value _ heven
      apply lock_seckeyOp
      · rfl
      · exact fun _ h => h
      · exact fun h => h
      intro x x' m m' hx hx' hle''
      exact Lockstep.pure ⟨hx, hx', (hle.trans hle').trans hle''⟩

/-- The buffer is only written where every step succeeds. -/
theorem lock_schnorrsigOddR {s : SchnorrsigSpec.Signer T}
    (hkp : Owned g g' (.keypair s.keypair)) (sig64 : Bytes 64) (msg32 : Bytes 32) :
    Lockstep reader (S.leaving Junk) (S.leaving Junk') E (fun x x' k k' => x = x' ∧
      OwnedLe g g' k k') (schnorrsigOddR sig64 msg32 s.keypair s.parity s.pk32)
      (schnorrsigOddR sig64 msg32 s.keypair s.parity s.pk32) r g g' := by
  apply Lockstep.bind (lock_schnorrsigChallengeKey hkp _ _ _ _)
  rintro ⟨ok, ed⟩ ⟨ok', ed'⟩ r k₁ k₁' ⟨hed, hed', hle₁⟩
  obtain rfl : ok = _ := hed.ret
  obtain rfl : ok' = _ := hed'.ret
  cases hkey : S.challengeKey s (sig64.extract 0 32) msg32 with
  | none => exact Lockstep.pure ⟨rfl, hle₁⟩
  | some ed₀ =>
      obtain rfl : ed = ed₀ := hed.value ed₀ hkey
      obtain rfl : ed' = ed := hed'.value _ hkey
      refine lock_code (fun _ h => nomatch h)
        (fun _ h => h) fun ret d d' k₂ k₂' hd hle₂ => ?_
      apply Lockstep.ite
      · exact fun _ => Lockstep.pure ⟨rfl, hle₁.trans hle₂⟩
      intro hret
      obtain rfl := hd hret
      refine lock_code (fun _ h => nomatch h)
        (fun _ h => h) fun ret negS negS' k₃ k₃' hneg hle₃ => ?_
      apply Lockstep.ite
      · exact fun _ => Lockstep.pure ⟨rfl, (hle₁.trans hle₂).trans hle₃⟩
      intro hret
      obtain rfl := hneg hret
      refine lock_code (fun _ h => nomatch h)
        (fun _ h => h) fun ret sum sum' k₄ k₄' hsum hle₄ => ?_
      apply Lockstep.ite
      · exact fun _ => Lockstep.pure ⟨rfl, ((hle₁.trans hle₂).trans hle₃).trans hle₄⟩
      intro hret
      obtain rfl := hsum hret
      exact Lockstep.pure ⟨rfl, ((hle₁.trans hle₂).trans hle₃).trans hle₄⟩

/-- The buffer is written in place. -/
theorem lock_schnorrsigInfinityR {s : SchnorrsigSpec.Signer T}
    (hkp : Owned g g' (.keypair s.keypair)) (sig64 sig64' : Bytes 64) (msg32 : Bytes 32) :
    Lockstep reader (S.leaving Junk) (S.leaving Junk') E
      (fun x x' k k' => ∃ ed ed', x = (ed.1, zeroBytes 32 ++ ed.2) ∧
        x' = (ed'.1, zeroBytes 32 ++ ed'.2) ∧
        Gets Junk (S.challengeKey s (zeroBytes 32) msg32) ed ∧
        Gets Junk' (S.challengeKey s (zeroBytes 32) msg32) ed' ∧ OwnedLe g g' k k')
      (schnorrsigInfinityR sig64 msg32 s.keypair s.parity s.pk32)
      (schnorrsigInfinityR sig64' msg32 s.keypair s.parity s.pk32) r g g' := by
  apply Lockstep.bind (lock_schnorrsigChallengeKey hkp _ _ _ _)
  rintro ed ed' r k k' ⟨hed, hed', hle⟩
  exact Lockstep.pure ⟨ed, ed', rfl, rfl, hed, hed', hle⟩

/-- The negated key is used only where it was computed. -/
theorem lock_schnorrsigCancel {s : SchnorrsigSpec.Signer T}
    (hkp : Owned g g' (.keypair s.keypair)) :
    Lockstep reader (S.leaving Junk) (S.leaving Junk') E
      (fun x x' k k' => x.1 = x'.1 ∧ (x.1 = true → x.2 = x'.2) ∧ OwnedLe g g' k k')
      (schnorrsigCancel s.keypair s.parity)
      (schnorrsigCancel s.keypair s.parity) r g g' := by
  apply Lockstep.bind (lock_schnorrsigEvenKey hkp)
  rintro ⟨ok, d⟩ ⟨ok', d'⟩ r k k' ⟨hd, hd', hle⟩
  obtain rfl : ok = _ := hd.ret
  obtain rfl : ok' = _ := hd'.ret
  cases heven : S.evenKey s with
  | none => exact Lockstep.pure ⟨rfl, nofun, hle⟩
  | some d₀ =>
      obtain rfl : d = d₀ := hd.value d₀ heven
      obtain rfl : d' = d := hd'.value _ heven
      refine lock_code (fun _ h => nomatch h)
        (fun _ h => h) fun ret v v' l l' hv hle' => ?_
      exact Lockstep.pure ⟨rfl, fun hret => hv (of_decide_eq_true hret), hle.trans hle'⟩

/-- Where the forging of infinity succeeds, both runs forge the same. -/
theorem lock_schnorrsigForge {s : SchnorrsigSpec.Signer T}
    (hkp : Owned g g' (.keypair s.keypair)) {mode : ℕ} (sig64 : Bytes 64) {msg : Bytes 32}
    (hforge : mode &&& SchnorrsigMode.oddR = 0 → mode &&& SchnorrsigMode.infinityR ≠ 0 →
      S.challengeKey s (zeroBytes 32) msg ≠ none) :
    Lockstep reader (S.leaving Junk) (S.leaving Junk') Eq (fun x x' k k' => x = x' ∧
      OwnedLe g g' k k') (schnorrsigForge mode sig64 msg s.keypair s.parity s.pk32)
      (schnorrsigForge mode sig64 msg s.keypair s.parity s.pk32) r g g' := by
  rw [schnorrsigForge]
  by_cases hodd : mode &&& SchnorrsigMode.oddR ≠ 0
  · simp only [if_pos hodd]
    apply Lockstep.bind (lock_schnorrsigOddR hkp sig64 msg)
    rintro x _ r k k' ⟨rfl, hle⟩
    exact lock_eq_int rfl (lock_eq_bytes rfl (Lockstep.pure ⟨rfl, hle⟩))
  · simp only [if_neg hodd]
    by_cases hinf : mode &&& SchnorrsigMode.infinityR ≠ 0
    · simp only [if_pos hinf]
      apply Lockstep.bind (lock_schnorrsigInfinityR hkp sig64 sig64 msg)
      rintro x x' r k k' ⟨ed, ed', rfl, rfl, hed, hed', hle⟩
      have heq : ed = ed' := by
        cases hkey : S.challengeKey s (zeroBytes 32) msg with
        | none => exact absurd hkey (hforge (not_not.mp hodd) hinf)
        | some d =>
            exact Prod.ext (hed.ret.trans hed'.ret.symm)
              ((hed.value d hkey).trans (hed'.value d hkey).symm)
      subst heq
      exact lock_eq_int rfl (lock_eq_bytes rfl (Lockstep.pure ⟨rfl, hle⟩))
    · simp only [if_neg hinf]
      exact Lockstep.pure ⟨rfl, OwnedLe.refl g g'⟩

/-! ### Signing -/

/-- What is left of signing once the key is known. -/
def schnorrsigSignWith (mode : ℕ) (msg aux : Bytes 32) (s : SchnorrsigSpec.Signer T) :
    Harness T (SchnorrsigBuffers × SchnorrsigSigned T) := do
  let (ok, sig64) ← secpSchnorrsig
    (.sign32 msg s.keypair (if mode &&& SchnorrsigMode.aux ≠ 0 then some aux else none))
  transcriptInt ok
  transcriptBytes sig64.toList
  let sig64 ← schnorrsigForge mode sig64 msg s.keypair s.parity s.pk32
  let cancel ← (if mode &&& SchnorrsigMode.cancelTweak ≠ 0 then do
      let (ok, cancel) ← schnorrsigCancel s.keypair s.parity
      transcriptInt (cBool ok)
      pure (if ok then some cancel else none)
    else pure none)
  pure (⟨msg, s.pk32, sig64⟩, ⟨some (s.keypair, s.xonly), cancel⟩)

/-- Both runs sign with the same key, or with none. -/
theorem lock_schnorrsigSignInput {mode : ℕ} {msg : Bytes 32}
    {Post : SchnorrsigBuffers × SchnorrsigSigned T →
      SchnorrsigBuffers × SchnorrsigSigned T →
      List (Event (LibCall T)) → List (Event (LibCall T)) → Prop} (hE : ∀ o, E o o)
    (hnone : ∀ k k', (S.result (.keypairCreate (readerTakeBytes r 32).1)).1 = 0 →
      Post (⟨msg, zeroBytes 32, zeroBytes 64⟩, ⟨none, none⟩)
        (⟨msg, zeroBytes 32, zeroBytes 64⟩, ⟨none, none⟩) k k')
    (hsign : ∀ r' k k', (S.result (.keypairCreate (readerTakeBytes r 32).1)).1 ≠ 0 →
      Owned k k' (.keypair (S.signer (readerTakeBytes r 32).1).keypair) →
      Owned k k' (.xonly (S.signer (readerTakeBytes r 32).1).xonly) →
      Lockstep reader (S.leaving Junk) (S.leaving Junk') E Post
        (schnorrsigSignWith mode msg (readerTakeBytes (r.drop 32) 32).1
          (S.signer (readerTakeBytes r 32).1))
        (schnorrsigSignWith mode msg (readerTakeBytes (r.drop 32) 32).1
          (S.signer (readerTakeBytes r 32).1)) r' k k') :
    Lockstep reader (S.leaving Junk) (S.leaving Junk') E Post
      (schnorrsigSignInput mode msg) (schnorrsigSignInput mode msg) r g g' := by
  apply lock_readerTake_at
  apply lock_readerTake_at
  refine lock_key (fun _ h => nomatch h) (fun _ h => nomatch h) ?_
  rintro ⟨ret, kp⟩ ⟨ret', kp'⟩ k₁ k₁' ⟨hret, hkp⟩ ⟨hret', hkp'⟩ hle₁ hmade₁
  obtain rfl : ret = _ := hret
  obtain rfl : ret' = _ := hret'
  refine Lockstep.emit_bind (hE _) fun _ => Lockstep.ite (fun hzero => ?_) fun hne => ?_
  · exact Lockstep.pure (hnone k₁ k₁' hzero)
  obtain rfl : kp = _ := hkp hne
  obtain rfl : kp' = _ := hkp' hne
  have hown := hmade₁ _ (mem_onSuccess hne) (mem_onSuccess hne)
  refine lock_key (fun _ => owned_one hown) (fun _ => owned_one hown) ?_
  rintro ⟨ret, x⟩ ⟨ret', x'⟩ k₂ k₂' ⟨hret, hx⟩ ⟨hret', hx'⟩ hle₂ hmade₂
  obtain rfl : ret = 1 := hret
  obtain rfl : ret' = 1 := hret'
  obtain rfl : x = _ := hx
  obtain rfl : x' = _ := hx'
  have hxonly := hmade₂ _ (mem_onSuccess (by decide)) (mem_onSuccess (by decide))
  refine lock_key (fun _ => owned_one hxonly) (fun _ => owned_one hxonly) ?_
  rintro ⟨ret, ser⟩ ⟨ret', ser'⟩ k₃ k₃' ⟨hret, hser⟩ ⟨hret', hser'⟩ hle₃ -
  obtain rfl : ser = _ := hser
  obtain rfl : ser' = _ := hser'
  refine Lockstep.emit_bind (hE _) fun _ => Lockstep.emit_bind (hE _) fun _ => ?_
  exact hsign _ k₃ k₃' hne (hle₃ _ (hle₂ _ hown)) (hle₃ _ hxonly)

/-- Both runs end with equal buffers and keys that are owned. -/
structure SameSigned (g g' : List (Event (LibCall T)))
    (x x' : SchnorrsigBuffers × SchnorrsigSigned T) : Prop where
  eq : x = x'
  owned : ∀ keypair xonly, x.2.signed = some (keypair, xonly) →
    Owned g g' (.keypair keypair) ∧ Owned g g' (.xonly xonly)

theorem SameSigned.mono {g g' k k' : List (Event (LibCall T))}
    {x x' : SchnorrsigBuffers × SchnorrsigSigned T} (h : SameSigned g g' x x')
    (hle : OwnedLe g g' k k') : SameSigned k k' x x' :=
  ⟨h.eq, fun _ _ hsigned =>
    ⟨hle _ (h.owned _ _ hsigned).1, hle _ (h.owned _ _ hsigned).2⟩⟩

/-- Where signing does not fail, no leftovers are in the buffer. -/
theorem lock_schnorrsigSignWith {s : SchnorrsigSpec.Signer T} {mode : ℕ}
    {msg aux : Bytes 32} (hkp : Owned g g' (.keypair s.keypair))
    (hxonly : Owned g g' (.xonly s.xonly)) (h : ¬ S.Fails mode msg aux s) :
    Lockstep reader (S.leaving Junk) (S.leaving Junk') Eq (fun x x' k k' =>
      SameSigned k k' x x')
      (schnorrsigSignWith mode msg aux s) (schnorrsigSignWith mode msg aux s) r g g' := by
  rw [SchnorrsigSpec.Fails, not_or] at h
  obtain ⟨hsign, hforge⟩ := h
  refine lock_sig (fun _ => owned_one hkp) ?_
  rintro ⟨ok, sig64⟩ ⟨ok', sig64'⟩ ⟨hok, hsig⟩ ⟨hok', hsig'⟩ - - hle₁
  have heq : sig64 = sig64' := (hsig hsign).trans (hsig' hsign).symm
  subst heq
  refine lock_eq_int (hok.trans hok'.symm) (lock_eq_bytes rfl ?_)
  refine Lockstep.bind (lock_schnorrsigForge (hle₁ _ hkp) sig64 fun hodd hinf hnone =>
    hforge ⟨hodd, hinf, hnone⟩) ?_
  rintro forged _ r k₂ k₂' ⟨rfl, hle₂⟩
  have hle := hle₁.trans hle₂
  refine Lockstep.bind (P := fun c c' l l' => c = c' ∧ OwnedLe g g' l l')
    (Lockstep.ite (fun _ => ?_) fun _ => ?_) ?_
  · refine Lockstep.bind (lock_schnorrsigCancel (hle _ hkp)) ?_
    rintro ⟨ok, cancel⟩ ⟨ok', cancel'⟩ r k₃ k₃' ⟨hok, hcancel, hle₃⟩
    obtain rfl : ok = ok' := hok
    refine lock_eq_int rfl (Lockstep.pure ⟨?_, hle.trans hle₃⟩)
    cases ok with
    | false => rfl
    | true => rw [show cancel = cancel' from hcancel rfl]
  · exact Lockstep.pure ⟨rfl, hle⟩
  rintro cancel _ r k₄ k₄' ⟨rfl, hle₄⟩
  refine Lockstep.pure ⟨rfl, fun keypair xonly hsigned => ?_⟩
  cases hsigned
  exact ⟨hle₄ _ hkp, hle₄ _ hxonly⟩

/-! ### The target -/

/-- `target_schnorrsig` up to the mutations. -/
def schnorrsigInput : Harness T (ℕ × SchnorrsigBuffers × SchnorrsigSigned T) := do
  let mode ← readerU8
  let msg ← readerTake 32
  let x ← (if mode &&& SchnorrsigMode.sign ≠ 0 then
      schnorrsigSignInput mode msg
    else do
      let pk32 ← readerTake 32
      let sig64 ← readerTake 64
      pure (⟨msg, pk32, sig64⟩, ⟨none, none⟩))
  pure (mode, x)

theorem lock_schnorrsigInput {inp : List UInt8} (h : ¬ S.Leaks inp) :
    Lockstep reader (S.leaving Junk) (S.leaving Junk') Eq
      (fun x x' k k' => x.1 = x'.1 ∧ SameSigned k k' x.2 x'.2) schnorrsigInput
        schnorrsigInput inp g g' := by
  apply lock_readerU8_at
  apply lock_readerTake_at
  refine Lockstep.bind (P := fun x x' k k' => SameSigned k k' x x')
    (Lockstep.ite (fun hsign => ?_) fun _ => ?_) ?_
  · rw [List.drop_drop]
    refine lock_schnorrsigSignInput (fun _ => rfl)
      (fun k k' _ => ⟨rfl, fun _ _ h => nomatch h⟩) ?_
    intro r' k k' hkey hkp hxonly
    refine lock_schnorrsigSignWith hkp hxonly fun hfails => h ⟨hsign, hkey, ?_⟩
    rwa [List.drop_drop] at hfails
  · refine lock_readerTake fun pk32 r => lock_readerTake fun sig64 r => ?_
    exact Lockstep.pure ⟨rfl, fun _ _ h => nomatch h⟩
  intro x x' r k k' hx
  exact Lockstep.pure ⟨rfl, hx⟩

theorem lock_mutations {γ : Type} (kinds : ℕ) (mutate : ℕ → ℕ → ℕ → γ → γ)
    (count : ℕ) (a : γ) {f : γ → Harness T α} {f' : γ → Harness T α'}
    (h : ∀ a r,
      Lockstep reader (S.leaving Junk) (S.leaving Junk') E Post (f a) (f' a) r g g') :
    Lockstep reader (S.leaving Junk) (S.leaving Junk') E Post
      (mutations kinds mutate count a >>= f)
      (mutations kinds mutate count a >>= f') r g g' := by
  induction count generalizing a r with
  | zero => exact h a r
  | succ count ih =>
      simp only [mutations, bind_assoc]
      refine lock_readerU8 fun which r => lock_readerU8 fun pos r =>
        lock_readerU8 fun mask r => ?_
      exact ih _

theorem lock_mutateUpTo7 {γ : Type} {kinds : ℕ} {mutate : ℕ → ℕ → ℕ → γ → γ} {a : γ}
    {f : γ → Harness T α} {f' : γ → Harness T α'}
    (h : ∀ a r,
      Lockstep reader (S.leaving Junk) (S.leaving Junk') E Post (f a) (f' a) r g g') :
    Lockstep reader (S.leaving Junk) (S.leaving Junk') E Post
      (mutateUpTo7 kinds mutate a >>= f) (mutateUpTo7 kinds mutate a >>= f') r g g' := by
  simp only [mutateUpTo7, bind_assoc]
  exact lock_readerU8 fun nmut r => lock_mutations kinds mutate (nmut % 8) a h

theorem lock_schnorrsigRecordTweak {internal : T.XonlyPubkey}
    (hpk : Owned g g' (.xonly internal)) (cancel : Option (Bytes 32)) :
    Lockstep reader (S.leaving Junk) (S.leaving Junk') Eq (fun _ _ k k' =>
      OwnedLe g g' k k')
      (schnorrsigRecordTweak internal cancel)
      (schnorrsigRecordTweak internal cancel) r g g' := by
  have hcheck : ∀ {k k' r p parity tweak}, OwnedLe g g' k k' →
      Lockstep reader (S.leaving Junk) (S.leaving Junk') Eq (fun _ _ k k' =>
        OwnedLe g g' k k')
        (do transcriptInt (← secpKey (.xonlyPubkeyTweakAddCheck p parity internal tweak)))
        (do transcriptInt (← secpKey (.xonlyPubkeyTweakAddCheck p parity internal tweak)))
          r k k' := by
    intro k k' r p parity tweak hle
    refine lock_key (fun _ => owned_one (hle _ hpk)) (fun _ => owned_one (hle _ hpk)) ?_
    intro x x' l l' hx hx' hle' _
    exact Lockstep.emit (by rw [hx, hx']) fun _ => hle.trans hle'
  refine lock_readerTake fun tweak r => ?_
  refine lock_make (m := .pubkey) (fun _ => owned_one hpk) (fun _ h => h)
    (fun _ _ => rfl) ?_
  intro ret tweaked tweaked' k₁ k₁' htweaked hle₁
  refine lock_eq_int rfl (Lockstep.ite (fun _ => ?_) fun hret => ?_)
  · refine lock_always (fun _ => owned_one (hle₁ _ hpk))
      (fun _ h => h) fun ser k₂ k₂' hle₂ _ => ?_
    exact hcheck (hle₁.trans hle₂)
  obtain ⟨rfl, hown⟩ := htweaked hret
  refine lock_always (fun _ => owned_one hown)
    (fun _ h => h) fun ⟨xonly, parity⟩ k₂ k₂' hle₂ hmade => ?_
  have hxonly := hmade _ (mem_onSuccess (by decide))
  refine lock_eq_int rfl
    (Lockstep.ite (fun _ => Lockstep.pure (hle₁.trans hle₂)) fun _ => ?_)
  refine lock_always (fun _ => owned_one hxonly)
    (fun _ h => h) fun ser k₃ k₃' hle₃ _ => ?_
  refine lock_eq_int rfl (lock_eq_bytes rfl ?_)
  have hle := (hle₁.trans hle₂).trans hle₃
  refine lock_key (fun _ => owned_one (hle _ hpk)) (fun _ => owned_one (hle _ hpk)) ?_
  intro x x' k₄ k₄' hx hx' hle₄ _
  refine lock_eq_int (by rw [hx, hx']) ?_
  exact lock_readerU8 fun _ r => lock_readerU8 fun _ r => lock_readerU8 fun _ r =>
    hcheck (hle.trans hle₄)

end Lock

end Diffsecp
