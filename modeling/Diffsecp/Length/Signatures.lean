import Diffsecp.Ecdsa.Target
import Diffsecp.Ellswift.Target
import Diffsecp.Length.Basic
import Diffsecp.Recovery.Target
import Diffsecp.Schnorrsig.Target

/-!
# Length — Signatures

How much the targets that sign, mutate and check put, and that each puts
something on every input.
-/

namespace Diffsecp

open Interact

variable {T : Types}

/-! ## Ecdsa -/

theorem writes_ecdsaDerInteger (flags i : Nat) :
    Writes (ecdsaDerInteger flags i : Harness T _) 0 := by
  apply puts_readerU8
  intro len
  apply puts_readerTake
  intro bytes
  exact writes_pure

theorem writes_ecdsaDerBuild : Writes (ecdsaDerBuild : Harness T (List UInt8)) 0 := by
  apply puts_readerU8
  intro flags
  apply writes_bind (n := 0) (writes_ecdsaDerInteger flags 0)
  intro int0
  apply writes_bind (n := 0) (writes_ecdsaDerInteger flags 1)
  intro int1
  apply writes_ite (n := 0) (m := 0)
  · intro _
    apply puts_readerTake
    intro inside
    exact writes_pure
  · intro _
    exact writes_pure
  intro ⟨body, shortBy⟩
  exact writes_pure

/-- The DER encoding of at most 72 bytes is recorded where there is one. -/
theorem writes_ecdsaRecordSig (sig : T.EcdsaSig) : Writes (ecdsaRecordSig sig) 148 := by
  apply Puts.invoke_bind (documentedSizes_free T)
  intro _ ⟨ret, der, len⟩ hder
  apply puts_int (n := 144)
  apply writes_ite (n := 64) (m := 80)
  · intro hret
    apply puts_bytes (n := 8) (hder hret)
    apply puts_call
    intro ⟨ret, _, len⟩
    apply puts_int (n := 4)
    exact puts_u32_end (n := 0)
  · intro _
    exact writes_pure
  intro _
  apply puts_call
  intro ⟨_, compact⟩
  exact puts_array_end (n := 0)

theorem writes_ecdsaRecordChecks (sig : T.EcdsaSig) (msg : Bytes 32)
    (pk : Option T.Pubkey) :
    Writes (ecdsaRecordChecks sig msg pk) 312 := by
  apply writes_bind (n := 164) (writes_ecdsaRecordSig sig)
  intro _
  apply puts_call
  intro ⟨ret, low⟩
  apply puts_int (n := 160)
  apply puts_call
  intro ⟨ret, _⟩
  apply puts_int (n := 156)
  apply writes_bind (n := 8) (writes_ecdsaRecordSig low)
  intro _
  cases pk with
  | none => exact writes_pure
  | some pk =>
      apply puts_call
      intro ret
      apply puts_int (n := 4)
      apply puts_call
      intro ret
      exact puts_int_end (n := 0)

theorem writes_ecdsaRx (kind : EcdsaR) (x32 : Bytes 32) :
    Writes (ecdsaRx kind x32 : Harness T _) 0 := by
  apply Puts.ite
  · intro _
    iterate 4
      apply puts_call
      intro _
    exact writes_pure
  · intro _
    apply puts_call
    intro ⟨ret, x⟩
    exact writes_pure

theorem writes_ecdsaRPoint (kind : EcdsaR) (odd : Int32) (x32 : Bytes 32) (r : T.Scalar) :
    Writes (ecdsaRPoint kind odd x32 r) 0 := by
  apply Puts.ite
  · intro _
    apply puts_call
    intro rj
    exact writes_pure
  · intro _
    apply writes_bind (n := 0) (writes_ecdsaRx kind x32)
    intro x
    cases x with
    | none => exact writes_pure
    | some x =>
        apply puts_call
        intro ⟨ret, ge⟩
        apply Puts.ite
        · intro _
          exact writes_pure
        · intro _
          iterate 3
            apply puts_call
            intro _
          exact writes_pure

theorem writes_ecdsaConstruct (pkser : List UInt8) (pklen : Nat) (sig64 : Bytes 64)
    (msg : Bytes 32) (kind : EcdsaR) (odd : Int32) (x32 : Bytes 32) :
    Writes (ecdsaConstruct pkser pklen sig64 msg kind odd x32 : Harness T _) 0 := by
  apply puts_call
  intro ⟨r, _⟩
  apply puts_call
  intro ⟨s, _⟩
  apply puts_call
  intro ⟨z, _⟩
  apply writes_bind (n := 0) (writes_ecdsaRPoint kind odd x32 r)
  intro point
  cases point with
  | none => exact writes_pure
  | some point =>
      iterate 6
        apply puts_call
        intro _
      apply Puts.ite
      · intro _
        exact writes_pure
      · intro _
        iterate 5
          apply puts_call
          intro _
        exact writes_pure

theorem writes_ecdsaZeroS (msg seckey k32 : Bytes 32) :
    Writes (ecdsaZeroS msg seckey k32 : Harness T _) 0 := by
  apply puts_call
  intro ⟨ret, kg⟩
  apply Puts.ite
  · intro _
    exact writes_pure
  · intro _
    iterate 6
      apply puts_call
      intro _
    exact writes_pure

theorem writes_ecdsaSignNonce (msg seckey : Bytes 32) (ndata : Option (Bytes 32)) :
    Writes (ecdsaSignNonce msg seckey ndata : Harness T _) 4 := by
  apply puts_readerU8
  intro flags
  apply puts_readerTake
  intro fixed0
  apply puts_readerTake
  intro fixed1
  apply Puts.ite
  · intro _
    apply puts_call
    intro ⟨ok, sig⟩
    exact writes_pure
  · intro _
    apply writes_ite (n := 0) (m := 4)
    · intro _
      apply writes_bind (n := 4) (writes_ecdsaZeroS msg seckey fixed0)
      intro ⟨ret, msg⟩
      apply puts_int (n := 0)
      exact writes_pure
    · intro _
      exact writes_pure
    intro msg
    apply puts_call
    intro ⟨ok, sig⟩
    exact writes_pure

theorem writes_ecdsaSignInput (mode : Nat) (st : EcdsaBuffers) :
    Writes (ecdsaSignInput mode st : Harness T _) 76 := by
  apply puts_readerTake
  intro seckey
  apply puts_call
  intro ⟨ok, pk⟩
  apply puts_int (n := 72)
  apply Puts.ite
  · intro _
    exact writes_pure
  · intro _
    apply puts_call
    intro ⟨_, pkser⟩
    apply writes_bind (n := 72) writes_readerTake?
    intro ndata
    apply writes_ite (n := 68) (m := 4)
    · intro _
      exact writes_ecdsaSignNonce st.msg seckey ndata
    · intro _
      apply puts_call
      intro ⟨ok, sig⟩
      exact writes_pure
    intro ⟨ok, sig, msg⟩
    apply puts_int (n := 64)
    apply Puts.ite
    · intro _
      exact writes_pure
    · intro _
      apply puts_call
      intro ⟨_, sig64⟩
      apply puts_array (n := 0)
      exact writes_pure

theorem writes_ecdsaInput (mode : Nat) : Writes (ecdsaInput mode : Harness T _) 76 := by
  apply puts_readerTake
  intro msg
  apply Puts.ite
  · intro _
    exact writes_ecdsaSignInput mode _
  · intro _
    apply Puts.ite
    · intro _
      apply puts_readerU8
      intro kind
      apply puts_readerTake
      intro x32
      apply puts_readerTake
      intro sig64
      apply writes_bind (n := 76) (writes_ecdsaConstruct _ _ _ _ _ _ _)
      intro ⟨ret, pkser, sig64⟩
      apply puts_int (n := 72)
      exact writes_pure
    · intro _
      apply puts_readerTake
      intro pkser
      apply puts_readerTake
      intro sig64
      exact writes_pure

theorem writes_ecdsaEncode (mode : Nat) (st : EcdsaBuffers) :
    Writes (ecdsaEncode mode st : Harness T _) 4 := by
  apply Puts.ite
  · intro _
    apply writes_bind (n := 4) writes_ecdsaDerBuild
    intro der
    exact writes_pure
  · intro _
    apply Puts.ite
    · intro _
      apply puts_call
      intro ⟨ret, sig⟩
      apply Puts.ite
      · intro _
        apply puts_call
        intro ⟨ret, der, _⟩
        apply puts_int (n := 0)
        exact writes_pure
      · intro _
        exact writes_pure
    · intro _
      exact writes_pure

theorem writes_ecdsaTail (st : EcdsaBuffers) : Writes (ecdsaTail st : Harness T _) 0 := by
  apply puts_readerLeft
  intro tail
  apply puts_readerTake
  intro rest
  exact writes_pure

theorem writes_ecdsaRecordParsed (q : EcdsaCall T (Int32 × T.EcdsaSig)) (msg : Bytes 32)
    (pk : Option T.Pubkey) : Writes (ecdsaRecordParsed q msg pk) 316 := by
  apply puts_call
  intro ⟨ok, sig⟩
  apply puts_int (n := 312)
  exact Puts.ite (fun _ => writes_ecdsaRecordChecks sig msg pk) fun _ => writes_pure

theorem writes_ecdsaRecord (st : EcdsaBuffers) :
    Writes (ecdsaRecord st : Harness T Unit) 1050 := by
  apply puts_call
  intro ⟨pkOk, pk⟩
  apply puts_int (n := 1046)
  apply writes_ite (n := 948) (fun _ => writes_recordPubkeyBoth pk) fun _ => writes_pure
  intro _
  apply writes_bind (n := 632) (writes_ecdsaRecordParsed _ _ _)
  intro _
  apply writes_bind (n := 316) (writes_ecdsaRecordParsed _ _ _)
  intro _
  exact writes_ecdsaRecordParsed _ _ _

theorem writes_targetEcdsa : Writes (targetEcdsa : Harness T Unit) 1130 := by
  apply puts_readerU8
  intro mode
  apply writes_bind (n := 1054) (writes_ecdsaInput mode)
  intro st
  apply writes_bind (n := 1050) (writes_ecdsaEncode mode st)
  intro st
  apply writes_bind (n := 1050) (writes_mutateUpTo7 5 ecdsaMutate st)
  intro st
  apply writes_bind (n := 1050) (writes_ecdsaTail st)
  intro st
  exact writes_ecdsaRecord st

/-- Whether the key parses is always recorded. -/
theorem wrote_targetEcdsa : Wrote reader (documentedSizes T) targetEcdsa := by
  have hfree := documentedSizes_free T
  apply Wrote.ask_bind
  intro mode
  apply Wrote.bind_right (writes_ecdsaInput _)
  intro st _
  apply Wrote.bind_right (writes_ecdsaEncode _ st)
  intro st _
  apply Wrote.bind_right (writes_mutateUpTo7 5 ecdsaMutate st)
  intro st _
  apply Wrote.bind_right (writes_ecdsaTail st)
  intro st _
  apply Wrote.invoke_bind hfree
  intro ⟨pkOk, pk⟩
  exact wrote_int hfree

/-! ## Schnorrsig -/

theorem writes_schnorrsigEvenKey (keypair : T.Keypair) (parity : Int32) :
    Writes (schnorrsigEvenKey keypair parity) 0 := by
  apply puts_call
  intro ⟨ret, d⟩
  apply Puts.ite
  · intro _
    exact writes_pure
  · intro _
    apply Puts.ite
    · intro _
      exact writes_pure
    · intro _
      apply puts_call
      intro ⟨ret, d⟩
      exact writes_pure

theorem writes_schnorrsigChallengeKey (ed r32 msg32 : Bytes 32) (keypair : T.Keypair)
    (parity : Int32) (pk32 : Bytes 32) :
    Writes (schnorrsigChallengeKey ed r32 msg32 keypair parity pk32) 0 := by
  apply puts_call
  intro ⟨ret, e⟩
  apply Puts.ite
  · intro _
    exact writes_pure
  · intro _
    apply writes_bind (n := 0) (writes_schnorrsigEvenKey keypair parity)
    intro ⟨ok, ed⟩
    apply Puts.ite
    · intro _
      apply puts_call
      intro ⟨ret, ed⟩
      exact writes_pure
    · intro _
      exact writes_pure

/-- Each step of the three may fail. -/
theorem writes_schnorrsigOddR (sig64 : Bytes 64) (msg32 : Bytes 32) (keypair : T.Keypair)
    (parity : Int32) (pk32 : Bytes 32) :
    Writes (schnorrsigOddR sig64 msg32 keypair parity pk32) 0 := by
  apply writes_bind (n := 0) (writes_schnorrsigChallengeKey _ _ _ _ _ _)
  intro ⟨ok, ed⟩
  apply Puts.ite
  · intro _
    exact writes_pure
  · intro _
    iterate 3
      apply puts_call
      intro _
      apply Puts.ite
      · intro _
        exact writes_pure
      intro _
    exact writes_pure

theorem writes_schnorrsigInfinityR (sig64 : Bytes 64) (msg32 : Bytes 32)
    (keypair : T.Keypair) (parity : Int32) (pk32 : Bytes 32) :
    Writes (schnorrsigInfinityR sig64 msg32 keypair parity pk32) 0 := by
  apply writes_bind (n := 0) (writes_schnorrsigChallengeKey _ _ _ _ _ _)
  intro ⟨ok, ed⟩
  exact writes_pure

theorem writes_schnorrsigCancel (keypair : T.Keypair) (parity : Int32) :
    Writes (schnorrsigCancel keypair parity) 0 := by
  apply writes_bind (n := 0) (writes_schnorrsigEvenKey keypair parity)
  intro ⟨ok, cancel⟩
  apply Puts.ite
  · intro _
    apply puts_call
    intro ⟨ret, cancel⟩
    exact writes_pure
  · intro _
    exact writes_pure

theorem writes_schnorrsigForge (mode : Nat) (sig64 : Bytes 64) (msg : Bytes 32)
    (keypair : T.Keypair) (parity : Int32) (pk32 : Bytes 32) :
    Writes (schnorrsigForge mode sig64 msg keypair parity pk32) 68 := by
  apply Puts.ite
  · intro _
    apply writes_bind (n := 68) (writes_schnorrsigOddR _ _ _ _ _)
    intro ⟨ret, sig64⟩
    apply puts_int (n := 64)
    apply puts_array (n := 0)
    exact writes_pure
  · intro _
    apply Puts.ite
    · intro _
      apply writes_bind (n := 68) (writes_schnorrsigInfinityR _ _ _ _ _)
      intro ⟨ret, sig64⟩
      apply puts_int (n := 64)
      apply puts_array (n := 0)
      exact writes_pure
    · intro _
      exact writes_pure

theorem writes_schnorrsigRecordTweak (internal : T.XonlyPubkey)
    (cancel : Option (Bytes 32)) :
    Writes (schnorrsigRecordTweak internal cancel) 52 := by
  apply puts_readerTake
  intro tweak
  apply puts_call
  intro ⟨ok, tweaked⟩
  apply puts_int (n := 48)
  apply Puts.ite
  · intro _
    apply puts_call
    intro ⟨_, tweaked32⟩
    apply puts_call
    intro ret
    exact puts_int_end (n := 44)
  · intro _
    apply puts_call
    intro ⟨ok, tweakedXonly, parity⟩
    apply puts_int (n := 44)
    apply Puts.ite
    · intro _
      exact writes_pure
    · intro _
      apply puts_call
      intro ⟨_, tweaked32⟩
      apply puts_int (n := 40)
      apply puts_array (n := 8)
      apply puts_call
      intro ret
      apply puts_int (n := 4)
      apply puts_readerU8
      intro flip
      apply puts_readerU8
      intro pos
      apply puts_readerU8
      intro mask
      apply puts_call
      intro ret
      exact puts_int_end (n := 0)

theorem writes_schnorrsigRecordCustom (mode : Nat) (sig64 : Bytes 64)
    (pk : Option T.XonlyPubkey) (signed : Option (T.Keypair × T.XonlyPubkey)) :
    Writes (schnorrsigRecordCustom mode sig64 pk signed) 76 := by
  apply puts_readerU8
  intro msglen
  apply puts_readerTake
  intro msg
  apply puts_readerTake
  intro nonce
  apply puts_readerU8
  intro pos
  apply puts_readerU8
  intro mask
  apply writes_bind (n := 72) (m := 4)
  · cases pk with
    | none => exact writes_pure
    | some pk =>
        apply puts_call
        intro ret
        exact puts_int_end (n := 0)
  intro _
  cases signed with
  | none => exact writes_pure
  | some signed =>
      apply puts_call
      intro ⟨ok, sig⟩
      apply puts_int (n := 68)
      apply Puts.ite
      · intro _
        apply puts_array (n := 4)
        apply puts_call
        intro ret
        exact puts_int_end (n := 0)
      · intro _
        exact writes_pure

theorem writes_schnorrsigSignInput (mode : Nat) (msg : Bytes 32) :
    Writes (schnorrsigSignInput mode msg : Harness T _) 180 := by
  apply puts_readerTake
  intro seckey
  apply puts_readerTake
  intro aux
  apply puts_call
  intro ⟨ok, keypair⟩
  apply puts_int (n := 176)
  apply Puts.ite
  · intro _
    exact writes_pure
  · intro _
    apply puts_call
    intro ⟨_, signer, parity⟩
    apply puts_call
    intro ⟨_, pk32⟩
    apply puts_int (n := 172)
    apply puts_array (n := 140)
    apply puts_call
    intro ⟨ok, sig64⟩
    apply puts_int (n := 136)
    apply puts_array (n := 72)
    apply writes_bind (n := 4) (writes_schnorrsigForge mode sig64 msg keypair parity pk32)
    intro sig64
    apply writes_ite (n := 0) (m := 4)
    · intro _
      apply writes_bind (n := 4) (writes_schnorrsigCancel keypair parity)
      intro ⟨ok, cancel⟩
      apply puts_int (n := 0)
      exact writes_pure
    · intro _
      exact writes_pure
    intro cancel
    exact writes_pure

/-- A signature made, or key and signature read. -/
theorem writes_schnorrsigInput (mode : Nat) (msg : Bytes 32) :
    Writes (if mode &&& SchnorrsigMode.sign ≠ 0 then
        schnorrsigSignInput mode msg
      else do
        let pk32 ← readerTake 32
        let sig64 ← readerTake 64
        pure (⟨msg, pk32, sig64⟩, ⟨none, none⟩) :
          Harness T (SchnorrsigBuffers × SchnorrsigSigned T)) 180 := by
  apply Puts.ite
  · intro _
    exact writes_schnorrsigSignInput mode msg
  · intro _
    apply puts_readerTake
    intro pk32
    apply puts_readerTake
    intro sig64
    exact writes_pure

theorem writes_targetSchnorrsig : Writes (targetSchnorrsig : Harness T Unit) 316 := by
  apply puts_readerU8
  intro mode
  apply puts_readerTake
  intro msg
  apply writes_bind (n := 136) (writes_schnorrsigInput mode msg)
  intro ⟨st, signed⟩
  apply writes_bind (n := 136) (writes_mutateUpTo7 3 schnorrsigMutate st)
  intro st
  apply puts_call
  intro ⟨ok, pk⟩
  apply puts_int (n := 132)
  apply writes_ite (n := 76) (m := 56)
  · intro _
    apply puts_call
    intro ret
    apply puts_int (n := 52)
    exact writes_schnorrsigRecordTweak pk signed.cancel
  · intro _
    exact writes_pure
  intro _
  exact writes_schnorrsigRecordCustom _ _ _ _

/-- Whether the key parses is always recorded. -/
theorem wrote_targetSchnorrsig : Wrote reader (documentedSizes T) targetSchnorrsig := by
  have hfree := documentedSizes_free T
  apply Wrote.ask_bind
  intro mode
  apply Wrote.ask_bind
  intro msg
  apply Wrote.bind_right (writes_schnorrsigInput _ msg)
  intro ⟨st, signed⟩ _
  apply Wrote.bind_right (writes_mutateUpTo7 3 schnorrsigMutate st)
  intro st _
  apply Wrote.invoke_bind hfree
  intro ⟨ok, pk⟩
  exact wrote_int hfree

/-! ## Recovery -/

theorem writes_recoveryRecordChecks (rsig : T.RecoverableSig) (msg : Bytes 32) :
    Writes (recoveryRecordChecks rsig msg) 246 := by
  apply puts_call
  intro ⟨_, sig64, recid⟩
  apply puts_array (n := 182)
  apply puts_int (n := 178)
  apply puts_call
  intro ⟨_, sig⟩
  apply puts_call
  intro ⟨_, sig64⟩
  apply puts_array (n := 114)
  apply puts_call
  intro ⟨ok, pk⟩
  apply puts_int (n := 110)
  apply Puts.ite
  · intro _
    apply writes_bind (n := 12) (writes_recordPubkeyBoth pk)
    intro _
    apply puts_call
    intro ret
    apply puts_int (n := 8)
    apply puts_call
    intro ⟨ret, low⟩
    apply puts_int (n := 4)
    apply puts_call
    intro ret
    exact puts_int_end (n := 0)
  · intro _
    exact writes_pure

theorem writes_recoveryInput (mode : Nat) :
    Writes (recoveryInput mode : Harness T _) 72 := by
  apply puts_readerTake
  intro msg
  apply Puts.ite
  · intro _
    apply puts_readerTake
    intro seckey
    apply writes_bind (n := 72) writes_readerTake?
    intro ndata
    apply puts_call
    intro ⟨ok, rsig⟩
    apply puts_int (n := 68)
    apply Puts.ite
    · intro _
      apply puts_call
      intro ⟨_, sig64, recid⟩
      apply puts_array (n := 4)
      apply puts_int (n := 0)
      exact writes_pure
    · intro _
      exact writes_pure
  · intro _
    apply puts_readerTake
    intro sig64
    apply puts_readerU8
    intro recid
    exact writes_pure

theorem writes_targetRecovery : Writes (targetRecovery : Harness T Unit) 322 := by
  apply puts_readerU8
  intro mode
  apply writes_bind (n := 250) (writes_recoveryInput mode)
  intro st
  apply writes_bind (n := 250) (writes_mutateUpTo7 3 recoveryMutate st)
  intro st
  apply puts_call
  intro ⟨ok, rsig⟩
  apply puts_int (n := 246)
  exact Puts.ite (fun _ => writes_recoveryRecordChecks rsig st.msg) fun _ => writes_pure

/-- Whether the signature parses is always recorded. -/
theorem wrote_targetRecovery : Wrote reader (documentedSizes T) targetRecovery := by
  have hfree := documentedSizes_free T
  apply Wrote.ask_bind
  intro mode
  apply Wrote.bind_right (writes_recoveryInput _)
  intro st _
  apply Wrote.bind_right (writes_mutateUpTo7 3 recoveryMutate st)
  intro st _
  apply Wrote.invoke_bind hfree
  intro ⟨ok, rsig⟩
  exact wrote_int hfree

/-! ## Ellswift -/

theorem writes_ellswiftRawX (ellA64 ellB64 : Bytes 64) (seckey : Bytes 32)
    (hashfp : EllswiftXdhHashFn) (data : Bytes 64) :
    Writes (ellswiftRawX ellA64 ellB64 seckey hashfp data : Harness T Unit) 72 := by
  apply puts_call
  intro ⟨ret, x⟩
  apply puts_int (n := 68)
  apply Puts.ite
  · intro _
    apply puts_array (n := 36)
    apply puts_call
    intro ⟨ret, shared⟩
    apply puts_int (n := 32)
    exact puts_array_end (n := 0)
  · intro _
    exact writes_pure

theorem writes_ellswiftXRZero (u : T.Fe) : Writes (ellswiftXRZero u) 0 := by
  unfold ellswiftXRZero
  iterate 9
    apply puts_call
    intro _
  exact writes_call_end

theorem writes_ellswiftInv (mode : Nat) (u32 : Bytes 32) (pk : T.Pubkey) :
    Writes (ellswiftInv mode u32 pk) 40 := by
  apply puts_call
  intro u
  apply puts_call
  intro zero
  apply writes_ite (n := 40) (m := 0) (fun _ => writes_call_end) fun _ => writes_pure
  intro u
  apply puts_call
  intro ⟨_, p⟩
  apply writes_bind (n := 40) (m := 0)
  · cases EllswiftInvKind.cast ((mode >>> 3) % ellswiftInvKinds) with
    | uIsX => exact writes_pure
    | rZero =>
        apply writes_bind (n := 0) (writes_ellswiftXRZero u)
        intro x
        exact writes_pure
    | fuzzed => exact writes_pure
  intro ⟨x, u⟩
  apply puts_call
  intro ret
  apply puts_int (n := 36)
  apply Puts.ite
  · intro _
    exact writes_pure
  · intro _
    apply puts_call
    intro ⟨ret, res⟩
    apply puts_int (n := 32)
    apply Puts.ite
    · intro _
      apply puts_call
      intro res
      apply puts_call
      intro b32
      exact puts_array_end (n := 0)
    · intro _
      exact writes_pure

theorem writes_ellswiftOwnEncoding (seckey : Bytes 32) (aux : Option (Bytes 32))
    (fallback : Bytes 64) :
    Writes (ellswiftOwnEncoding seckey aux fallback : Harness T _) 68 := by
  apply puts_call
  intro ⟨ret, ell64⟩
  apply puts_int (n := 64)
  apply Puts.ite
  · intro _
    apply puts_array (n := 0)
    exact writes_pure
  · intro _
    exact writes_pure

theorem writes_ellswiftSecret (ellA64 ellB64 : Bytes 64) (seckey : Bytes 32)
    (party : Int32) (hashfp : EllswiftXdhHashFn) (data : Bytes 64) :
    Writes
      (ellswiftSecret ellA64 ellB64 seckey party hashfp data : Harness T Unit) 36 := by
  apply puts_call
  intro ⟨ret, shared⟩
  apply puts_int (n := 32)
  exact writes_where

theorem writes_targetEllswift : Writes (targetEllswift : Harness T Unit) 462 := by
  unfold targetEllswift
  apply puts_readerU8
  intro flags
  iterate 7
    apply puts_readerTake
    intro _
  apply puts_readerU8
  intro invMode
  apply puts_readerTake
  intro invU
  apply puts_call
  intro ⟨ret, pk⟩
  apply puts_int (n := 458)
  apply writes_bind (n := 425) (writes_recordPubkey true pk)
  intro _
  apply writes_ite (n := 385) (fun _ => writes_ellswiftInv _ _ _) fun _ => writes_pure
  intro _
  apply writes_ite (n := 280) (m := 105)
  · intro _
    apply puts_call
    intro ⟨ret, ours0⟩
    apply puts_int (n := 101)
    apply puts_array (n := 37)
    apply puts_call
    intro ⟨ret, pk⟩
    apply puts_int (n := 33)
    exact writes_recordPubkey true pk
  · intro _
    exact writes_pure
  intro _
  apply writes_bind (n := 212) (writes_ellswiftOwnEncoding _ _ _)
  intro ours0
  apply writes_ite (n := 144) (fun _ => writes_pure) fun _ =>
    writes_ellswiftOwnEncoding _ _ _
  intro ours1
  apply writes_bind (n := 108) (writes_ellswiftSecret _ _ _ _ _ _)
  intro _
  apply writes_bind (n := 72) (writes_ellswiftSecret _ _ _ _ _ _)
  intro _
  exact Puts.ite (fun _ => writes_ellswiftRawX _ _ _ _ _) fun _ => writes_pure

/-- The code of the first decoding is always recorded. -/
theorem wrote_targetEllswift : Wrote reader (documentedSizes T) targetEllswift := by
  have hfree := documentedSizes_free T
  unfold targetEllswift
  iterate 10
    apply Wrote.ask_bind
    intro _
  apply Wrote.invoke_bind hfree
  intro ⟨ret, pk⟩
  exact wrote_int hfree

end Diffsecp
