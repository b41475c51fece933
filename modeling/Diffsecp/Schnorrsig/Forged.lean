import Mathlib.Tactic.Abel
import Diffsecp.Interact.History
import Diffsecp.Interact.Output
import Diffsecp.Schnorrsig.Target
import Diffsecp.Secp.KeyReference

/-!
# Schnorrsig — Forged

The forged signatures of the schnorrsig target reach the branches they are
made for. BIP340 verification computes `s * G - e * P` for the signer's
even-y point P and the challenge e of r, P and the message, and compares it
with R.
-/

namespace Diffsecp

open Interact

variable {T : Types} {σ : Type}

/-! ## Signers -/

/-- What a build's keys stand for: `secret` is the secret key of a keypair,
`point` the even-y point of an x-only key and `hash` the tagged hash. -/
structure SignerRep (T : Types) where
  gen : Point
  secret : T.Keypair → Zn
  point : T.XonlyPubkey → Point
  hash : List UInt8 → List UInt8 → Bytes 32

namespace SignerRep

variable (R : SignerRep T)

/-- The public key of a keypair. -/
def pubkey (keypair : T.Keypair) : Point := R.secret keypair • R.gen

/-- The BIP340 challenge of r, P and the message. -/
def challenge (r32 : Bytes 32) (P : Point) (msg32 : Bytes 32) : Zn :=
  scalarOf
    (R.hash schnorrsigChallengeTag (r32.toList ++ (xBytes P).toList ++ msg32.toList))

/-- What verification compares with R. -/
def recomputed (sig64 : Bytes 64) (P : Point) (msg32 : Bytes 32) : Point :=
  scalarOf (sig64.extract 32 64) • R.gen - R.challenge (sig64.extract 0 32) P msg32 • P

/-- The operations on secret keys give their result mod n where they
succeed, the x-only key of a keypair is its even point with the parity of the
public key, and a tweak that leads to infinity fails. -/
def spec {β : Type} : KeyCall T β → β → Prop
  | .keypairSec keypair, (ret, d) => Done ret (scalarOf d = R.secret keypair)
  | .ecSeckeyNegate a, (ret, d) => Done ret (scalarOf d = -scalarOf a)
  | .ecSeckeyTweakAdd a t, (ret, d) => Done ret (scalarOf d = scalarOf a + scalarOf t)
  | .ecSeckeyTweakMul a t, (ret, d) => Done ret (scalarOf d = scalarOf a * scalarOf t)
  | .taggedSha256 tag msg, (ret, h) => Done ret (h = R.hash tag msg)
  | .keypairXonlyPub keypair, (_, pk, parity) =>
      parity = flag (yOdd (R.pubkey keypair)) ∧ R.point pk = evenPoint (R.pubkey keypair)
  | .xonlyPubkeySerialize pk, (_, b32) => b32 = xBytes (R.point pk)
  | .xonlyPubkeyTweakAdd pk tweak, (ret, _) =>
      R.point pk + scalarOf tweak • R.gen = 0 → ret = 0
  | _, _ => True

def contract : Contract (LibCall T) (List (Event (LibCall T))) :=
  .history (fun _ {_} _ => True)
    (fun _ {β} (q : LibCall T β) (a : β) => match β, q, a with
      | _, .key q, a => R.spec q a
      | _, _, _ => True)

end SignerRep

section Sat

variable {R : SignerRep T} {α β : Type} {r : List UInt8} {g : List (Event (LibCall T))}
  {Post : α → List UInt8 → List (Event (LibCall T)) → List (List UInt8) → Prop}

theorem sat_key {q : KeyCall T β} {f : β → Harness T α}
    (h : ∀ x, R.spec q x → Sat reader R.contract (f x) r (g ++ [⟨.key q, x⟩]) Post) :
    Sat reader R.contract (secpKey q >>= f) r g Post :=
  ⟨trivial, h⟩

end Sat

/-! ## The even key -/

variable {R : SignerRep T} {r : List UInt8} {g : List (Event (LibCall T))}

/-- The secret key of the even point. -/
theorem sat_schnorrsigEvenKey (keypair : T.Keypair) :
    Sat reader R.contract (schnorrsigEvenKey keypair (flag (yOdd (R.pubkey keypair)))) r g
      fun w _ _ os => os = [] ∧
        (w.1 = true → scalarOf w.2 • R.gen = evenPoint (R.pubkey keypair)) := by
  rw [schnorrsigEvenKey]
  apply sat_key
  intro ⟨ret, d⟩ hsec
  dsimp only
  split
  · exact ⟨rfl, nofun⟩
  · have hd := hsec.of_ne ‹_›
    cases hodd : yOdd (R.pubkey keypair) with
    | false =>
        refine ⟨rfl, fun _ => ?_⟩
        rw [evenPoint, hodd, if_neg nofun, hd]
        rfl
    | true =>
        apply sat_key
        intro ⟨ret, d'⟩ hneg
        refine ⟨rfl, fun hret => ?_⟩
        have hd' := hneg.of_ne (of_decide_eq_true hret)
        rw [evenPoint, hodd, if_pos rfl, hd', hd, neg_smul]
        rfl

/-- e * d: times the generator it is the challenge times the even point. -/
theorem sat_schnorrsigChallengeKey (ed r32 msg32 : Bytes 32) (keypair : T.Keypair) :
    Sat reader R.contract
      (schnorrsigChallengeKey ed r32 msg32 keypair (flag (yOdd (R.pubkey keypair)))
        (xBytes (evenPoint (R.pubkey keypair)))) r g
      fun w _ _ os => os = [] ∧ (w.1 = true →
        scalarOf w.2 • R.gen =
          R.challenge r32 (evenPoint (R.pubkey keypair)) msg32 •
            evenPoint (R.pubkey keypair)) := by
  rw [schnorrsigChallengeKey]
  apply sat_key
  intro ⟨ret, e⟩ hhash
  dsimp only
  split
  · exact ⟨rfl, nofun⟩
  · have he := hhash.of_ne ‹_›
    rw [sat_bind]
    refine (sat_schnorrsigEvenKey keypair).mono ?_
    rintro ⟨ok, d⟩ r' g' _ ⟨rfl, hd⟩
    dsimp only
    split
    · apply sat_key
      intro ⟨ret, d'⟩ hmul
      refine ⟨rfl, fun hret => ?_⟩
      have hd' := hmul.of_ne (of_decide_eq_true hret)
      rw [hd', mul_comm, mul_smul, hd ‹_›, he]
      rfl
    · exact ⟨rfl, nofun⟩

/-! ## The forged signatures -/

/-- (r, 2ed - s): the recomputed point changes its sign, and so does
nothing else. -/
theorem sat_schnorrsigOddR (sig64 : Bytes 64) (msg32 : Bytes 32) (keypair : T.Keypair) :
    Sat reader R.contract
      (schnorrsigOddR sig64 msg32 keypair (flag (yOdd (R.pubkey keypair)))
        (xBytes (evenPoint (R.pubkey keypair)))) r g
      fun w _ _ os => os = [] ∧
        (w.1 = true → (w.2.extract 0 32 : Bytes 32) = sig64.extract 0 32 ∧
          R.recomputed w.2 (evenPoint (R.pubkey keypair)) msg32 =
            -R.recomputed sig64 (evenPoint (R.pubkey keypair)) msg32) ∧
        (w.1 = false → w.2 = sig64) := by
  rw [schnorrsigOddR, sat_bind]
  refine (sat_schnorrsigChallengeKey _ _ msg32 keypair).mono ?_
  rintro ⟨ok, ed⟩ r' g' _ ⟨rfl, hed⟩
  dsimp only
  split
  · exact ⟨rfl, nofun, fun _ => rfl⟩
  · have hed := hed (Bool.eq_true_of_not_eq_false ‹_›)
    apply sat_key
    intro ⟨ret, d⟩ hadd
    dsimp only
    split
    · exact ⟨rfl, nofun, fun _ => rfl⟩
    · have hd := hadd.of_ne ‹_›
      apply sat_key
      intro ⟨ret, negS⟩ hneg
      dsimp only
      split
      · exact ⟨rfl, nofun, fun _ => rfl⟩
      · have hnegS := hneg.of_ne ‹_›
        apply sat_key
        intro ⟨ret, s'⟩ hadd
        dsimp only
        split
        · exact ⟨rfl, nofun, fun _ => rfl⟩
        · have hs' := hadd.of_ne ‹_›
          refine ⟨rfl, fun _ => ?_, nofun⟩
          have hr := extract_append_left (sig64.extract 0 32) s'
          refine ⟨hr, ?_⟩
          rw [SignerRep.recomputed, SignerRep.recomputed, extract_append_right, hr, hs',
            hd, hnegS, add_smul, add_smul, neg_smul, hed]
          abel

/-- (0, ed): the recomputed point is infinity. -/
theorem sat_schnorrsigInfinityR (sig64 : Bytes 64) (msg32 : Bytes 32)
    (keypair : T.Keypair) :
    Sat reader R.contract
      (schnorrsigInfinityR sig64 msg32 keypair (flag (yOdd (R.pubkey keypair)))
        (xBytes (evenPoint (R.pubkey keypair)))) r g
      fun w _ _ os => os = [] ∧
        (w.1 = true → (w.2.extract 0 32 : Bytes 32) = zeroBytes 32 ∧
          R.recomputed w.2 (evenPoint (R.pubkey keypair)) msg32 = 0) := by
  rw [schnorrsigInfinityR, sat_bind]
  refine (sat_schnorrsigChallengeKey _ _ msg32 keypair).mono ?_
  rintro ⟨ok, ed⟩ r' g' _ ⟨rfl, hed⟩
  refine ⟨rfl, fun hok => ?_⟩
  have hr := extract_append_left (zeroBytes 32) ed
  refine ⟨hr, ?_⟩
  rw [SignerRep.recomputed, extract_append_right, hr, hed hok, sub_self]

/-! ## The cancelling tweak -/

theorem sat_schnorrsigCancel (keypair : T.Keypair) :
    Sat reader R.contract (schnorrsigCancel keypair (flag (yOdd (R.pubkey keypair)))) r g
      fun w _ _ os => os = [] ∧
        (w.1 = true → evenPoint (R.pubkey keypair) + scalarOf w.2 • R.gen = 0) := by
  rw [schnorrsigCancel, sat_bind]
  refine (sat_schnorrsigEvenKey keypair).mono ?_
  rintro ⟨ok, d⟩ r' g' _ ⟨rfl, hd⟩
  dsimp only
  split
  · apply sat_key
    intro ⟨ret, c⟩ hneg
    refine ⟨rfl, fun hret => ?_⟩
    have hc := hneg.of_ne (of_decide_eq_true hret)
    rw [hc, neg_smul, hd ‹_›, add_neg_cancel]
  · exact ⟨rfl, nofun⟩

/-! ## In the target -/

/-- What is recorded of forging: whether it worked, and the signature. -/
def forgeBlocks (mode : ℕ) (ok : Bool) (sig64 : Bytes 64) : List (List UInt8) :=
  if mode &&& SchnorrsigMode.oddR ≠ 0 then [be32 (cBool ok).toUInt32, sig64.toList]
  else if mode &&& SchnorrsigMode.infinityR ≠ 0
    then [be32 (cBool ok).toUInt32, sig64.toList]
  else []

/-- What is recorded of the cancelling tweak: whether there is one. -/
def cancelBlocks (mode : ℕ) (cancel : Option (Bytes 32)) : List (List UInt8) :=
  if mode &&& SchnorrsigMode.cancelTweak ≠ 0
    then [be32 (cBool cancel.isSome).toUInt32] else []

namespace SignerRep

/-- What the mode makes of a signature, and whether it does. -/
def Forged (R : SignerRep T) (mode : ℕ) (P : Point) (msg32 : Bytes 32)
    (sig64 sig64' : Bytes 64) (ok : Bool) : Prop :=
  if mode &&& SchnorrsigMode.oddR ≠ 0 then
    (ok = true → (sig64'.extract 0 32 : Bytes 32) = sig64.extract 0 32 ∧
      R.recomputed sig64' P msg32 = -R.recomputed sig64 P msg32) ∧
      (ok = false → sig64' = sig64)
  else if mode &&& SchnorrsigMode.infinityR ≠ 0 then
    ok = true → (sig64'.extract 0 32 : Bytes 32) = zeroBytes 32 ∧
    R.recomputed sig64' P msg32 = 0
  else sig64' = sig64

/-- What signing with `keypair` leaves: the x-only key, the signature that
`sign32` answered and what forging made of it, both as recorded, and a tweak
that cancels the key. -/
structure Signs (R : SignerRep T) (mode : ℕ) (msg32 : Bytes 32) (keypair : T.Keypair)
    (signer : T.XonlyPubkey) (sig64' : Bytes 64) (cancel : Option (Bytes 32))
    (log : List (Event (LibCall T))) (out : List (List UInt8)) : Prop where
  point : R.point signer = evenPoint (R.pubkey keypair)
  forged :
    ∃ (created ret : Int32) (aux : Option (Bytes 32)) (sig64 : Bytes 64) (ok : Bool),
    ⟨.schnorrsig (.sign32 msg32 keypair aux), (ret, sig64)⟩ ∈ log ∧
      out = [be32 created.toUInt32, be32 (flag (yOdd (R.pubkey keypair))).toUInt32,
        (xBytes (R.point signer)).toList, be32 ret.toUInt32, sig64.toList] ++
        (forgeBlocks mode ok sig64' ++ cancelBlocks mode cancel) ∧
      R.Forged mode (R.point signer) msg32 sig64 sig64' ok
  cancels : ∀ c, cancel = some c → R.point signer + scalarOf c • R.gen = 0

end SignerRep

/-- A signature of which forging succeeded. -/
theorem SignerRep.Signs.forges {mode : ℕ} {msg32 : Bytes 32} {keypair : T.Keypair}
    {signer : T.XonlyPubkey} {sig64 sig64' : Bytes 64} {cancel : Option (Bytes 32)}
    {log : List (Event (LibCall T))} {out : List (List UInt8)}
    (h : R.Signs mode msg32 keypair signer sig64' cancel log out)
    (hmode : mode &&& SchnorrsigMode.oddR ≠ 0 ∨ mode &&& SchnorrsigMode.infinityR ≠ 0)
    (hsig : out[4]? = some sig64.toList) (hok : out[5]? = some (be32 1)) :
    R.Forged mode (R.point signer) msg32 sig64 sig64' true := by
  obtain ⟨created, ret, aux, sig, ok, -, rfl, hforged⟩ := h.forged
  obtain rfl : sig = sig64 := Vector.toList_inj.mp (Option.some.inj hsig)
  have hblocks :
      forgeBlocks mode ok sig64' = [be32 (cBool ok).toUInt32, sig64'.toList] := by
    rw [forgeBlocks]
    split
    · rfl
    · exact if_pos (hmode.resolve_left ‹_›)
  rw [hblocks] at hok
  have hcode : be32 (cBool ok).toUInt32 = be32 1 := Option.some.inj hok
  cases ok with
  | true => exact hforged
  | false => exact absurd hcode (by decide)

theorem sat_schnorrsigForge (mode : ℕ) (sig64 : Bytes 64) (msg32 : Bytes 32)
    (keypair : T.Keypair) :
    Sat reader R.contract
      (schnorrsigForge mode sig64 msg32 keypair (flag (yOdd (R.pubkey keypair)))
        (xBytes (evenPoint (R.pubkey keypair)))) r g
      fun sig64' _ _ os => ∃ ok, os = forgeBlocks mode ok sig64' ∧
        R.Forged mode (evenPoint (R.pubkey keypair)) msg32 sig64 sig64' ok := by
  rw [schnorrsigForge]
  split
  · rw [sat_bind]
    refine (sat_schnorrsigOddR sig64 msg32 keypair).mono ?_
    rintro ⟨ok, sig64'⟩ r' g' _ ⟨rfl, hodd⟩
    refine ⟨ok, ?_, ?_⟩
    · rw [forgeBlocks, if_pos ‹_›]
      rfl
    · rw [SignerRep.Forged, if_pos ‹_›]
      exact hodd
  · split
    · rw [sat_bind]
      refine (sat_schnorrsigInfinityR sig64 msg32 keypair).mono ?_
      rintro ⟨ok, sig64'⟩ r' g' _ ⟨rfl, hinf⟩
      refine ⟨ok, ?_, ?_⟩
      · rw [forgeBlocks, if_neg ‹_›, if_pos ‹_›]
        rfl
      · rw [SignerRep.Forged, if_neg ‹_›, if_pos ‹_›]
        exact hinf
    · refine ⟨true, ?_, ?_⟩
      · rw [forgeBlocks, if_neg ‹_›, if_neg ‹_›]
      · rw [SignerRep.Forged, if_neg ‹_›, if_neg ‹_›]

/-- The target signs, forges and cancels with the parity and the key of its
own keypair. -/
theorem sat_schnorrsigSignInput (mode : ℕ) (msg : Bytes 32) :
    Sat reader R.contract (schnorrsigSignInput mode msg : Harness T _) r g
      fun w _ g' os => ∀ keypair signer, w.2.signed = some (keypair, signer) →
        R.Signs mode msg keypair signer w.1.sig64 w.2.cancel g' os := by
  rw [schnorrsigSignInput, readerTake, sat_bind, sat_ask, sat_bind, sat_ask]
  apply sat_key
  intro ⟨created, keypair⟩ _
  apply sat_int
  dsimp only
  split
  · exact nofun
  · apply sat_key
    intro ⟨_, signer, parity⟩ ⟨hparity, hsigner⟩
    apply sat_key
    intro ⟨_, pk32⟩ hser
    have hpk : pk32 = xBytes (evenPoint (R.pubkey keypair)) := by
      rw [← hsigner]
      exact hser
    dsimp only at hparity hsigner ⊢
    subst hparity hpk
    apply sat_int
    apply sat_bytes
    rw [sat_bind, sat_invoke]
    refine ⟨trivial, fun x _ => ?_⟩
    obtain ⟨ret, sig64⟩ := x
    apply sat_int
    apply sat_bytes
    rw [sat_bind]
    refine (sat_schnorrsigForge mode sig64 msg keypair).grows.mono ?_
    rintro sig64' r₁ g₁ _ ⟨hgrows₁, ok, rfl, hforged⟩
    have hsigned := hgrows₁.subset (List.mem_append_right _ (List.mem_singleton.mpr rfl))
    rw [sat_bind]
    split
    next hmode =>
      rw [sat_bind]
      refine (sat_schnorrsigCancel keypair).grows.mono ?_
      rintro ⟨found, c⟩ r₂ g₂ _ ⟨hgrows₂, rfl, hcancel⟩
      apply sat_int
      rw [sat_pure, sat_pure]
      rintro _ _ ⟨⟩
      refine ⟨hsigner, ⟨created, ret, _, sig64, ok, hgrows₂.subset hsigned, ?_, ?_⟩, ?_⟩
      · rw [cancelBlocks, if_pos hmode, hsigner]
        cases found <;> rfl
      · rwa [hsigner]
      · intro c' hc
        cases found with
        | false => cases hc
        | true =>
            cases hc
            rw [hsigner]
            exact hcancel rfl
    next hmode =>
      rw [sat_pure, sat_pure]
      rintro _ _ ⟨⟩
      refine ⟨hsigner, ⟨created, ret, _, sig64, ok, hsigned, ?_, ?_⟩, nofun⟩
      · rw [cancelBlocks, if_neg hmode, hsigner]
        rfl
      · rwa [hsigner]

/-- What follows the mode and the message in the input of the target. -/
theorem targetSchnorrsig_signs (lib : Build T σ) (s : σ) (inp : List UInt8) :
    let mode := (inp.getD 0 0).toNat
    let msg32 := (readerTakeBytes (inp.drop 1) 32).1
    let w := (schnorrsigSignInput mode msg32).run reader lib ((inp.drop 1).drop 32) s
    mode &&& SchnorrsigMode.sign ≠ 0 →
      w.log <+: (targetSchnorrsig.run reader lib inp s).log ∧
        w.out <+: (targetSchnorrsig.run reader lib inp s).out := by
  intro mode msg32 w hsign
  rw [targetSchnorrsig, run_readerU8_bind, run_readerTake_bind, if_pos hsign]
  exact Prog.run_bind_prefix reader lib _ _ _ s

/-- A cancelling tweak is recorded as a failure. -/
theorem sat_schnorrsigRecordTweak_cancel {internal : T.XonlyPubkey} {c : Bytes 32}
    (hc : R.point internal + scalarOf c • R.gen = 0) :
    Sat reader R.contract (schnorrsigRecordTweak internal (some c)) r g
      fun _ _ _ os => os.head? = some (be32 0) := by
  rw [schnorrsigRecordTweak, readerTake, sat_bind, sat_ask]
  apply sat_key
  intro ⟨ok, tweaked⟩ htweak
  have hok : ok = 0 := htweak hc
  subst hok
  apply sat_int
  exact (Sat.free (fun _ _ _ => trivial) _ _ _).mono fun _ _ _ _ _ => rfl

/-- For every keypair, message and signature with `s * G = R + e * P`: odd_r
leaves r and makes verification recompute `-R`, or leaves the signature;
infinity_r makes it recompute infinity from r = 0; and the cancelling tweak
sends the key to infinity. The target signs first, forges what it signed with
the parity and key of its own keypair, and records the tweak of such a key as
a failure. -/
theorem schnorrsig_forged (R : SignerRep T) (lib : Build T σ)
    (hlib : lib.Meets R.contract) (s : σ) (inp : List UInt8) :
    (∀ (keypair : T.Keypair) (msg32 : Bytes 32) (sig64 : Bytes 64) (Rp : Point),
      let P := evenPoint (R.pubkey keypair)
      let parity := flag (yOdd (R.pubkey keypair))
      let pk32 := xBytes P
      let odd :=
        ((schnorrsigOddR sig64 msg32 keypair parity pk32).run reader lib inp s).val
      let inf :=
        ((schnorrsigInfinityR sig64 msg32 keypair parity pk32).run reader lib inp s).val
      let cancel := ((schnorrsigCancel keypair parity).run reader lib inp s).val
      scalarOf (sig64.extract 32 64) • R.gen =
        Rp + R.challenge (sig64.extract 0 32) P msg32 • P →
      (odd.1 = true → (odd.2.extract 0 32 : Bytes 32) = sig64.extract 0 32 ∧
        scalarOf (odd.2.extract 32 64) • R.gen -
          R.challenge (odd.2.extract 0 32) P msg32 • P = -Rp) ∧
      (odd.1 = false → odd.2 = sig64) ∧
      (inf.1 = true → (inf.2.extract 0 32 : Bytes 32) = zeroBytes 32 ∧
        scalarOf (inf.2.extract 32 64) • R.gen -
          R.challenge (zeroBytes 32) P msg32 • P = 0) ∧
      (cancel.1 = true → P + scalarOf cancel.2 • R.gen = 0)) ∧
    (∀ (mode : ℕ) (msg32 : Bytes 32) (keypair : T.Keypair) (signer : T.XonlyPubkey),
      let w := (schnorrsigSignInput mode msg32 : Harness T _).run reader lib inp s
      w.val.2.signed = some (keypair, signer) →
        R.Signs mode msg32 keypair signer w.val.1.sig64 w.val.2.cancel w.log w.out) ∧
    (let mode := (inp.getD 0 0).toNat
      let msg32 := (readerTakeBytes (inp.drop 1) 32).1
      let w := (schnorrsigSignInput mode msg32).run reader lib ((inp.drop 1).drop 32) s
      mode &&& SchnorrsigMode.sign ≠ 0 →
        w.log <+: (targetSchnorrsig.run reader lib inp s).log ∧
          w.out <+: (targetSchnorrsig.run reader lib inp s).out) ∧
    ∀ (internal : T.XonlyPubkey) (c : Bytes 32),
      R.point internal + scalarOf c • R.gen = 0 →
      ((schnorrsigRecordTweak internal (some c)).run reader lib inp s).out.head? =
        some (be32 0) := by
  refine ⟨?_, ?_, targetSchnorrsig_signs lib s inp, ?_⟩
  · intro keypair msg32 sig64 Rp P parity pk32 odd inf cancel hsig
    have hRp : R.recomputed sig64 P msg32 = Rp := by
      rw [SignerRep.recomputed, hsig]
      exact add_sub_cancel_right Rp _
    obtain ⟨-, -, hodd, hkeep⟩ :=
      (sat_schnorrsigOddR (g := []) sig64 msg32 keypair).run hlib s
    obtain ⟨-, -, hinf⟩ :=
      (sat_schnorrsigInfinityR (g := []) sig64 msg32 keypair).run hlib s
    obtain ⟨-, -, hcancel⟩ :=
      (sat_schnorrsigCancel (r := inp) (g := []) keypair).run hlib s
    refine ⟨fun hok => ?_, hkeep, fun hok => ?_, hcancel⟩
    · obtain ⟨hr, hs⟩ := hodd hok
      exact ⟨hr, hs.trans (congrArg Neg.neg hRp)⟩
    · obtain ⟨hr, hs⟩ := hinf hok
      rw [SignerRep.recomputed, hr] at hs
      exact ⟨hr, hs⟩
  · intro mode msg32 keypair signer w hsigned
    obtain ⟨-, hsigns⟩ :=
      (sat_schnorrsigSignInput (r := inp) (g := []) mode msg32).run hlib s
    rw [SignerRep.contract, Contract.history_after, List.nil_append] at hsigns
    exact hsigns keypair signer hsigned
  · intro internal c hc
    exact ((sat_schnorrsigRecordTweak_cancel (g := []) hc).run hlib s).2

/-! ## A signer -/

/-- The challenge of r = 0, the generator and the message of zeros. -/
def zeroChallenge : Bytes 32 :=
  bytesOfNat 32 0xcacf7bce81d8a36992a1cec7955e755e1d1764aadef3a09e4ee3dda38e6a12e2

/-- The challenge of the generator twice and the message of zeros. -/
def generatorChallenge : Bytes 32 :=
  bytesOfNat 32 0x3d1c0a93ea772cdcd4989503c354eb8dcb9a1c6563aaab4ac6a069eefdd0db3c

/-- The tagged hash on these two. -/
def signerHash (msg : List UInt8) : Bytes 32 :=
  if msg.take 32 = (zeroBytes 32).toList then zeroChallenge else generatorChallenge

/-- A signer for these challenges. -/
def keySigner (G : Point) : SignerRep keyTypes where
  gen := G
  secret := id
  point := id
  hash _ msg := signerHash msg

/-- Keys that are their own secret, or point. -/
def signerKey (G : Point) {β : Type} : KeyCall keyTypes β → β
  | .keypairCreate seckey =>
      if secpKeyValid seckey then (1, scalarOf seckey) else (0, (0 : Zn))
  | .keypairSec (k : Zn) => (1, bytesOfNat 32 k.val)
  | .ecSeckeyNegate a => (1, bytesOfNat 32 (-scalarOf a).val)
  | .ecSeckeyTweakAdd a t => (1, bytesOfNat 32 (scalarOf a + scalarOf t).val)
  | .ecSeckeyTweakMul a t => (1, bytesOfNat 32 (scalarOf a * scalarOf t).val)
  | .taggedSha256 _ msg => (1, signerHash msg)
  | .keypairXonlyPub (k : Zn) => (1, evenPoint (k • G), flag (yOdd (k • G)))
  | .xonlyPubkeySerialize P => (1, xBytes P)
  | .xonlyPubkeyTweakAdd P t =>
      (if P + scalarOf t • G = 0 then 0 else 1, P + scalarOf t • G)
  | q => keyIdle (.key q)

/-- The signature with the nonce 1. -/
def signerSign (G : Point) (msg32 : Bytes 32) (k : Zn) : Bytes 64 :=
  let d := if yOdd (k • G) then -k else k
  let e := (keySigner G).challenge (xBytes G) (evenPoint (k • G)) msg32
  (xBytes G ++ bytesOfNat 32 (1 + e * d).val : Bytes (32 + 32))

def signerSig (G : Point) {β : Type} : SchnorrsigCall keyTypes β → β
  | .sign32 msg32 (k : Zn) _ => (1, signerSign G msg32 k)
  | q => keyIdle (.schnorrsig q)

def signerLib (G : Point) : Build keyTypes Unit where
  answer
    | .key q, s => (signerKey G q, s)
    | .schnorrsig q, s => (signerSig G q, s)
    | q, s => (keyIdle q, s)

theorem signerKey_spec (G : Point) {β : Type} (q : KeyCall keyTypes β) :
    (keySigner G).spec q (signerKey G q) := by
  cases q with
  | keypairSec k => exact ⟨.inr rfl, fun _ => scalarOf_bytes k⟩
  | ecSeckeyNegate a => exact ⟨.inr rfl, fun _ => scalarOf_bytes _⟩
  | ecSeckeyTweakAdd a t => exact ⟨.inr rfl, fun _ => scalarOf_bytes _⟩
  | ecSeckeyTweakMul a t => exact ⟨.inr rfl, fun _ => scalarOf_bytes _⟩
  | taggedSha256 tag msg => exact ⟨.inr rfl, fun _ => rfl⟩
  | keypairXonlyPub k => exact ⟨rfl, rfl⟩
  | xonlyPubkeySerialize P => exact rfl
  | xonlyPubkeyTweakAdd P t => exact fun h => if_pos h
  | _ => trivial

theorem signerLib_meets (G : Point) : (signerLib G).Meets (keySigner G).contract := by
  intro g β q s _
  cases q with
  | key q => exact signerKey_spec G q
  | _ => trivial

/-- Its signatures verify: the nonce was 1. -/
theorem signerSign_recomputed (G : Point) (msg32 : Bytes 32) (k : Zn) :
    (keySigner G).recomputed (signerSign G msg32 k) (evenPoint (k • G)) msg32 = G := by
  have hd : (if yOdd (k • G) then -k else k) • G = evenPoint (k • G) := by
    rw [evenPoint]
    split
    · exact neg_smul k G
    · rfl
  rw [SignerRep.recomputed, signerSign, extract_append_left, extract_append_right,
    scalarOf_bytes]
  show (1 + _ * (if yOdd (k • G) then -k else k)) • G - _ = G
  rw [add_smul, one_smul, mul_smul, hd, add_sub_cancel_right]

theorem readerTakeBytes_toList {n : ℕ} (b : Bytes n) :
    (readerTakeBytes b.toList n).1 = b := by
  ext i hi
  rw [readerTakeBytes_getElem]
  simp [hi]

theorem signerLib_create {G : Point} {seckey : Bytes 32}
    (h : secpKeyValid seckey = true) :
    (signerLib G).answer (.key (.keypairCreate seckey)) () =
    ((1, scalarOf seckey), ()) := by
  show ((if secpKeyValid seckey then ((1 : Int32), scalarOf seckey) else (0, (0 : Zn))),
    ()) = _
  rw [if_pos h]

theorem signerLib_xonly {G : Point} {k : Zn} {odd : Bool} (h : yOdd (k • G) = odd) :
    (signerLib G).answer (.key (.keypairXonlyPub k)) () =
      ((1, evenPoint (k • G), flag odd), ()) := by
  rw [← h]
  rfl

/-- A run that signs the message of zeros. -/
def signerRun (mode : ℕ) (seckey : Bytes 32) :=
  (schnorrsigSignInput mode (zeroBytes 32) : Harness keyTypes _).run reader
    (signerLib secpG) seckey.toList ()

/-- The modes that sign, cancel and forge in one of the two ways: nothing
fails in them. -/
theorem signerRun_forges {mode : ℕ} (hmode : mode = 41 ∨ mode = 49) {seckey : Bytes 32}
    (h : secpKeyValid seckey = true) :
    (signerRun mode seckey).val.2.signed =
        some (scalarOf seckey, evenPoint (scalarOf seckey • secpG)) ∧
      (signerRun mode seckey).out[4]? =
        some (signerSign secpG (zeroBytes 32) (scalarOf seckey)).toList ∧
      (signerRun mode seckey).out[5]? = some (be32 1) ∧
      (signerRun mode seckey).val.2.cancel.isSome = true := by
  rw [signerRun, schnorrsigSignInput, run_readerTake_bind, run_readerTake_bind,
    readerTakeBytes_toList, Prog.run_bind, Prog.run_invoke, signerLib_create h]
  dsimp only
  rw [Prog.run_bind]
  dsimp only
  rw [if_neg (by decide), Prog.run_bind, Prog.run_invoke, signerLib_xonly rfl]
  generalize yOdd (scalarOf seckey • secpG) = odd
  rcases hmode with rfl | rfl
  · cases odd
    · exact ⟨rfl, rfl, rfl, rfl⟩
    · exact ⟨rfl, rfl, rfl, rfl⟩
  · cases odd
    · exact ⟨rfl, rfl, rfl, rfl⟩
    · exact ⟨rfl, rfl, rfl, rfl⟩

/-- The secret keys 1 and -1: the public key of one has an even y, and that of
the other an odd one. -/
def evenSeckey : Bytes 32 := bytesOfNat 32 (1 : Zn).val

def oddSeckey : Bytes 32 := bytesOfNat 32 (-1 : Zn).val

theorem yOdd_secpG : yOdd secpG = false := by decide +kernel

theorem yOdd_neg_secpG : yOdd (-secpG) = true := by decide +kernel

theorem pubkey_evenSeckey : scalarOf evenSeckey • secpG = secpG := by
  rw [evenSeckey, scalarOf_bytes, one_smul]

theorem pubkey_oddSeckey : scalarOf oddSeckey • secpG = -secpG := by
  rw [oddSeckey, scalarOf_bytes, neg_smul, one_smul]

theorem evenPoint_evenSeckey : evenPoint (scalarOf evenSeckey • secpG) = secpG := by
  rw [pubkey_evenSeckey, evenPoint, yOdd_secpG, if_neg nofun]

theorem evenPoint_oddSeckey : evenPoint (scalarOf oddSeckey • secpG) = secpG := by
  rw [pubkey_oddSeckey, evenPoint, yOdd_neg_secpG, if_pos rfl, neg_neg]

/-- Both keys sign the message of zeros, and the runs turn their signatures
into ones that recompute the negated nonce point and infinity, with a tweak
that cancels the key; and so does odd_r alone for the key with the odd y. -/
theorem schnorrsig_forged_signers :
    let forges := fun (mode : ℕ) (seckey : Bytes 32) (Rp : Point) =>
      (signerRun mode seckey).out[5]? = some (be32 1) ∧
        (keySigner secpG).recomputed (signerRun mode seckey).val.1.sig64 secpG
          (zeroBytes 32) = Rp ∧
        ∃ c, (signerRun mode seckey).val.2.cancel = some c ∧
          secpG + scalarOf c • secpG = 0
    let sig64 := signerSign secpG (zeroBytes 32) (scalarOf oddSeckey)
    let odd :=
      ((schnorrsigOddR sig64 (zeroBytes 32) (scalarOf oddSeckey) 1 (xBytes secpG)).run
        reader (signerLib secpG) [] ()).val
    (forges 41 evenSeckey (-secpG) ∧ forges 49 evenSeckey 0) ∧
      (forges 41 oddSeckey (-secpG) ∧ forges 49 oddSeckey 0) ∧
      odd.1 = true ∧
      (keySigner secpG).recomputed odd.2 secpG (zeroBytes 32) = -secpG := by
  intro forges sig64 odd
  have hsigns {mode : ℕ} (hmode : mode = 41 ∨ mode = 49) {seckey : Bytes 32}
      (hkey : secpKeyValid seckey = true) :
      (keySigner secpG).Signs mode (zeroBytes 32) (scalarOf seckey)
        (evenPoint (scalarOf seckey • secpG)) (signerRun mode seckey).val.1.sig64
        (signerRun mode seckey).val.2.cancel (signerRun mode seckey).log
        (signerRun mode seckey).out := by
    have hsigned := (signerRun_forges hmode hkey).1
    have h :=
      (schnorrsig_forged (keySigner secpG) (signerLib secpG) (signerLib_meets secpG) ()
        seckey.toList).2.1 mode (zeroBytes 32) (scalarOf seckey)
      (evenPoint (scalarOf seckey • secpG))
    unfold signerRun at hsigned ⊢
    exact h hsigned
  have hforged {seckey : Bytes 32} (hkey : secpKeyValid seckey = true)
      (hP : evenPoint (scalarOf seckey • secpG) = secpG) :
      forges 41 seckey (-secpG) ∧ forges 49 seckey 0 := by
    have hrecomputed := signerSign_recomputed secpG (zeroBytes 32) (scalarOf seckey)
    rw [hP] at hrecomputed
    refine ⟨?_, ?_⟩
    · obtain ⟨-, hsig, hok, hcancel⟩ := signerRun_forges (.inl rfl) hkey
      have h := hsigns (.inl rfl) hkey
      rw [hP] at h
      have hforged := h.forges (.inl (by decide)) hsig hok
      rw [SignerRep.Forged, if_pos (by decide)] at hforged
      obtain ⟨c, hc⟩ := Option.isSome_iff_exists.mp hcancel
      exact ⟨hok, (hforged.1 rfl).2.trans (congrArg Neg.neg hrecomputed), c, hc,
        h.cancels c hc⟩
    · obtain ⟨-, hsig, hok, hcancel⟩ := signerRun_forges (.inr rfl) hkey
      have h := hsigns (.inr rfl) hkey
      rw [hP] at h
      have hforged := h.forges (.inr (by decide)) hsig hok
      rw [SignerRep.Forged, if_neg (by decide), if_pos (by decide)] at hforged
      obtain ⟨c, hc⟩ := Option.isSome_iff_exists.mp hcancel
      exact ⟨hok, (hforged rfl).2, c, hc, h.cancels c hc⟩
  have hhelper :=
    (schnorrsig_forged (keySigner secpG) (signerLib secpG) (signerLib_meets secpG) ()
      []).1 (scalarOf oddSeckey) (zeroBytes 32) sig64 secpG
  have hpubkey : (keySigner secpG).pubkey (scalarOf oddSeckey) = -secpG :=
    pubkey_oddSeckey
  have heven : evenPoint (-secpG) = secpG := hpubkey ▸ evenPoint_oddSeckey
  simp only [hpubkey, heven, yOdd_neg_secpG] at hhelper
  have hsig : scalarOf (sig64.extract 32 64) • secpG =
      secpG + (keySigner secpG).challenge (sig64.extract 0 32) secpG (zeroBytes 32) •
        secpG := by
    have h := signerSign_recomputed secpG (zeroBytes 32) (scalarOf oddSeckey)
    rw [evenPoint_oddSeckey] at h
    exact sub_eq_iff_eq_add.mp h
  exact ⟨hforged (by decide +kernel) evenPoint_evenSeckey,
    hforged (by decide +kernel) evenPoint_oddSeckey, rfl, ((hhelper hsig).1 rfl).2⟩

end Diffsecp
