import Diffsecp.Musig.Signing
import Diffsecp.Secp.LogReference

/-!
# Musig — Disciplined

Whatever the input and the outcomes of the calls, a run of `target_musig`
hands to libsecp what its calls need.
-/

namespace Diffsecp

open Interact

variable {T : Types}

section Protocol

variable {g : List (Event (LibCall T))}

/-! ## The protocol -/

theorem keeps_musigSign (mi : MusigInput) {keys : List (MusigKeys T)} {st : MusigAgg T}
    (hgo : MusigGoing g) (hkeys : KeysMade g keys) (hst : AggMade g st)
    (hslots : (keys.map (·.slot)).Nodup) (hunsigned : g.filterMap musigSignOf = []) :
    MusigKeeps (musigSign mi keys st) g fun _ _ => True := by
  apply Keeps.bind (keeps_musigNonces mi hgo hkeys (current_made hst.current))
  intro nonces g₁ hgrows₁ h
  cases nonces with
  | none => exact Keeps.pure trivial
  | some nonces =>
      obtain ⟨hnonces, hslots₁, hquiet₁⟩ := h nonces rfl
      have hgo₁ := hquiet₁.going hgo
      apply Keeps.bind (keeps_musigPubnonces mi hgo₁ hnonces)
      rintro pubnonces g₂ hgrows₂ ⟨hpubnonces, hquiet₂⟩
      have hgo₂ := hquiet₂.going hgo₁
      have hst₂ := hst.mono (hgrows₁.trans hgrows₂) (hquiet₁.trans hquiet₂)
      apply Keeps.bind (keeps_musigSession mi hgo₂ (current_made hst₂.current) hpubnonces)
      intro session g₃ hgrows₃ h
      cases session with
      | none => exact Keeps.pure trivial
      | some session =>
          obtain ⟨hsession, hquiet₃⟩ := h session rfl
          have hgo₃ := hquiet₃.going hgo₂
          have hst₃ := hst₂.mono hgrows₃ hquiet₃
          have hsigns : g₃.filterMap musigSignOf = [] := by
            rw [((hquiet₁.trans hquiet₂).trans hquiet₃).signs, hunsigned]
          apply Keeps.bind (keeps_musigPartialSigns hgo₃ hst₃.current hsession.made ?_
            (fun nonce hn => (hnonces nonce hn).mono (hgrows₂.trans hgrows₃)) ?_ ?_)
          · intro sigs g₄ hgrows₄ h
            cases sigs with
            | none => exact Keeps.pure trivial
            | some sigs =>
                obtain ⟨hsigs, hsigning⟩ := h sigs rfl
                have hcurrent₄ := hsigning.current.trans hst₃.current
                have hmade₄ := mem_made_grows hgrows₄ hsession.made
                apply Keeps.bind (keeps_musigPartialVerifies hsigning.going
                  (current_made hcurrent₄) hmade₄ hsigs)
                intro _ g₅ hgrows₅ hquiet₅
                have hsigning₅ := hsigning.quiet hquiet₅
                have hcurrent₅ := hsigning₅.current.trans hst₃.current
                apply Keeps.bind
                  (keeps_musigPartialSigs mi hsigning₅.going (current_made hcurrent₅)
                    (mem_made_grows hgrows₅ hmade₄) fun s hs => (hsigs s hs).mono hgrows₅)
                rintro psigs g₆ hgrows₆ ⟨hpsigs, hquiet₆⟩
                have hsigning₆ := hsigning₅.quiet hquiet₆
                have hgrows : g₃ <+: g₆ := (hgrows₄.trans hgrows₅).trans hgrows₆
                obtain ⟨ret, hret, hmem⟩ := hst₃.got
                apply keeps_musigFinish mi hsigning₆.going
                  ⟨hsigning₆.current.trans hst₃.current, ret, hret, hgrows.subset hmem⟩
                  (hsession.mono hgrows)
                  hsigning₆.signed hpsigs
          · rw [SignedFor, hsigns]
            exact List.forall_mem_nil _
          · rwa [hslots₁]
          · intro nonce _ hused
            rw [SlotUsed, hsigns] at hused
            cases hused

theorem keeps_targetMusig : MusigKeeps (targetMusig (T := T)) [] fun _ _ => True := by
  apply Keeps.bind keeps_musigRead
  rintro mi _ - ⟨rfl, hslots⟩
  apply Keeps.bind (keeps_musigKeys MusigGoing.nil)
  intro keys g₁ _ h
  cases keys with
  | none => exact Keeps.pure trivial
  | some keys =>
      obtain ⟨hkeys, hslots₁, hquiet₁⟩ := h keys rfl
      have hgo₁ := hquiet₁.going MusigGoing.nil
      apply Keeps.bind (keeps_musigAggregate mi.flags hgo₁ hkeys)
      intro st g₂ hgrows₂ h
      cases st with
      | none => exact Keeps.pure trivial
      | some st =>
          obtain ⟨hst, hunsigned₂⟩ := h st rfl
          apply Keeps.bind
            (keeps_musigTweaks mi hunsigned₂.going (hkeys.mono hgrows₂) hst)
          intro st g₃ hgrows₃ h
          cases st with
          | none => exact Keeps.pure trivial
          | some st =>
              obtain ⟨hst₃, hunsigned₃⟩ := h st rfl
              apply keeps_musigSign mi hunsigned₃.going
                (hkeys.mono (hgrows₂.trans hgrows₃)) hst₃
              · rwa [hslots₁]
              · rw [(hunsigned₂.trans hunsigned₃).signs, hquiet₁.signs,
                  List.filterMap_nil]

/-- Every call of a run has what it needs of the calls before it. -/
theorem targetMusig_disciplined {σ : Type} (lib : Build T σ) (inp : List UInt8) (s : σ)
    (hdoc : ∀ l e l', (targetMusig.run reader lib inp s).log = l ++ e :: l' →
      (∀ x ∈ e.op.handed, x ∈ made libGiven l) → MusigDocumented e.op e.ans) :
    ∀ l e l', (targetMusig.run reader lib inp s).log = l ++ e :: l' →
      MusigNeeds l e.op := by
  have hrun : AtEach (fun l e => MusigNeeds l e.op → MusigDocumented e.op e.ans) []
      (targetMusig.run reader lib inp s).log := atEach_iff.mpr fun l e l' hl hneeds =>
        hdoc l e l' hl hneeds.1
  exact atEach_iff.mp (keeps_targetMusig.run inp s hrun).1

end Protocol

/-! ## A run -/

/-- The coefficient of the second distinct key is 1; the hash of the others is
a constant. -/
def logCoef (secondPk P : Zn) : Zn := if P = secondPk then 1 else 3

/-- A sign by the oddness of the key that is signed for. -/
def LogCache.sign (c : LogCache) : Zn := signed (logOdd c.key.pk) 1

/-- What a key adds to a partial signature, for its secret or its point. -/
def LogCache.share (c : LogCache) (session : LogSession) (d : Zn) : Zn :=
  session.challenge * logCoef c.secondPk d * c.sign * signed c.key.parityAcc d

/-- The tweaked cache, and its key; a key at infinity fails. -/
def logTweaked (c : LogCache) (key : TweakedKey Zn Zn) : Int32 × Zn × LogCache :=
  (if key.pk = 0 then 0 else 1, key.pk, { c with key := key })

/-- BIP327 with discrete logarithms, and a constant for every hash. -/
def logMusig {β : Type} : MusigCall logTypes β → β
  | .pubkeyAgg _ (pks : List Zn) =>
      let secondPk := (pks.find? (· ≠ pks.headD 0)).getD 0
      let sum := (pks.map fun P => logCoef secondPk P * P).sum
      (1, logEven sum, ⟨.fresh sum, secondPk⟩)
  | .pubkeyGet (c : LogCache) => (1, c.key.pk)
  | .pubkeyEcTweakAdd _ (c : LogCache) tweak32 =>
      logTweaked c (c.key.plain 1 (scalarOf tweak32))
  | .pubkeyXonlyTweakAdd _ (c : LogCache) tweak32 =>
      logTweaked c (c.key.xonly logOdd 1 (scalarOf tweak32))
  | .nonceGen _ secrand32 _ _ _ _ _ =>
      (if scalarOf secrand32 = 0 then 0 else 1, scalarOf secrand32, scalarOf secrand32)
  | .pubnonceSerialize (nonce : Zn) => (1, bytesOfNat 66 nonce.val)
  | .nonceAgg (nonces : List Zn) => (1, nonces.sum)
  | .aggnonceSerialize (nonce : Zn) => (1, bytesOfNat 66 nonce.val)
  | .nonceProcess (nonce : Zn) _ (c : LogCache) =>
      (1, ⟨nonce, 7, 7 * c.sign * c.key.tweak⟩)
  | .partialSign _ (secnonce : Zn) (kp : Zn) (c : LogCache) (session : LogSession) =>
      (1, signed (logOdd session.nonce) secnonce + c.share session kp, (0 : Zn))
  | .partialSigSerialize (sig : Zn) => (1, bytesOfNat 32 sig.val)
  | .partialSigVerify (sig : Zn) (nonce : Zn) (P : Zn) (c : LogCache)
      (session : LogSession) =>
      flag (sig = signed (logOdd session.nonce) nonce + c.share session P)
  | .partialSigAgg (session : LogSession) (sigs : List Zn) =>
      (1, (bytesOfNat 32 (logEven session.nonce).val ++
        bytesOfNat 32 (sigs.sum + session.tweak).val : Bytes (32 + 32)))
  | q => logIdle (.musig q)

def logSchnorrsig {β : Type} : SchnorrsigCall logTypes β → β
  | .verify sig64 _ (P : Zn) =>
      flag (scalarOf (sig64.extract 32 64) = scalarOf (sig64.extract 0 32) + 7 * P)
  | q => logIdle (.schnorrsig q)

def signingLib : Build logTypes Unit where
  answer
    | .key q, s => (logKey q, s)
    | .musig q, s => (logMusig q, s)
    | .schnorrsig q, s => (logSchnorrsig q, s)
    | q, s => (logIdle q, s)

theorem signingLib_documented {β : Type} (q : LibCall logTypes β) (s : Unit) :
    MusigDocumented q (signingLib.answer q s).1 := by
  cases q with
  | key q =>
      cases q with
      | keypairPub kp => rfl
      | xonlyPubkeyFromPubkey pk => rfl
      | ecPubkeySort pks => exact List.Perm.refl _
      | pubkeyLoad pk => rfl
      | _ => trivial
  | musig q =>
      cases q with
      | pubkeyGet cache => rfl
      | keyaggCacheLoad cache => rfl
      | _ => trivial
  | _ => trivial

/-- The answers of the checks of a log. -/
def musigVerdicts (log : List (Event (LibCall logTypes))) : List Int32 :=
  log.filterMap fun e => match e with
    | ⟨.musig (.partialSigVerify _ _ _ _ _), ret⟩ => some ret
    | ⟨.schnorrsig (.verify _ _ _), ret⟩ => some ret
    | _ => none

/-- The sorted keys 1 and 2 with the nonces 3 and 4, the plain tweak 5 and the
x-only tweak 6. -/
def signingInput : List UInt8 :=
  [0x07, 0x01, 0x00] ++ List.replicate 64 0 ++ (List.replicate 31 0 ++ [5]) ++
    (List.replicate 31 0 ++ [6]) ++ (List.replicate 31 0 ++ [1]) ++
      (List.replicate 31 0 ++ [3]) ++
    (List.replicate 31 0 ++ [2]) ++ (List.replicate 31 0 ++ [4])

/-- Both signers sign, and their signatures and the final one verify. -/
theorem signingLib_disciplined :
    (∀ e ∈ (targetMusig.run reader signingLib signingInput ()).log,
      MusigDocumented e.op e.ans) ∧
      (∀ l e l', (targetMusig.run reader signingLib signingInput ()).log = l ++ e :: l' →
        MusigNeeds l e.op) ∧
      ((targetMusig.run reader signingLib signingInput ()).log.filterMap
        musigSignOf).length = 2 ∧
      musigVerdicts (targetMusig.run reader signingLib signingInput ()).log =
        [1, 1, 1] := by
  have hdoc : ∀ e ∈ (targetMusig.run reader signingLib signingInput ()).log,
      MusigDocumented e.op e.ans := by
    intro e he
    obtain ⟨s, hans⟩ := Prog.log_answered he
    exact hans ▸ signingLib_documented e.op s
  refine ⟨hdoc, targetMusig_disciplined signingLib signingInput () fun l e l' hlog _ =>
    hdoc e ?_, by decide +kernel, by decide +kernel⟩
  rw [hlog]
  exact List.mem_append_right l (List.mem_cons_self ..)

end Diffsecp
