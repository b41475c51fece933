import Diffsecp.Keys.Target
import Diffsecp.Secp.Meaning

/-!
# Keys — Recorded

Two runs of the keys target over builds of which only the serialization is
trusted. What is recorded of an op has a length that the registers' flags and
the return codes recorded before determine, and ends with all of `d`.
-/

namespace Diffsecp.Recorded

open Interact

variable {V : Decoding} {T T' : Types} {σ σ' : Type}

/-- The same secret bytes, validity flag and public key; without a valid one
the pubkey object is zero. -/
structure KeysSame (M : Meaning V T) (M' : Meaning V T') (a : KeysReg T)
    (a' : KeysReg T') : Prop where
  sk : a.sk = a'.sk
  pkOk : a.pkOk = a'.pkOk
  pk : a.pkOk ≠ 0 → M.pubkey a.pk = M'.pubkey a'.pk
  zero : a.pkOk = 0 → a.pk = T.zeroPubkey ∧ a'.pk = T'.zeroPubkey

section Lockstep

variable {M : Meaning V T} {M' : Meaning V T'} {r : List UInt8} {g g' : Unit}
  {reg : KeysRegs T} {reg' : KeysRegs T'} {a b d : KeysReg T} {a' b' d' : KeysReg T'}

/-- Equal records are of the same pubkey. -/
theorem lock_keysRecordPubkey {pk : T.Pubkey} {pk' : T'.Pubkey} :
    Lockstep reader M.contract M'.contract SameLength (fun _ _ _ _ =>
      M.pubkey pk = M'.pubkey pk')
      (keysRecordPubkey pk) (keysRecordPubkey pk') r g g' := by
  apply Lockstep.invoke_bind trivial trivial
  intro ⟨_, ser⟩ ⟨_, ser'⟩ hser hser'
  obtain ⟨hlen, hval⟩ := hser
  obtain ⟨hlen', hval'⟩ := hser'
  apply Lockstep.emit
  · exact hlen.trans hlen'.symm
  · intro heq
    have heq' : ser = ser' := heq
    rw [← hval, ← hval', heq']

theorem lock_keysRecordPubkeys {pks : List T.Pubkey} {pks' : List T'.Pubkey}
    (hlen : pks.length = pks'.length) :
    Lockstep reader M.contract M'.contract SameLength (fun _ _ _ _ => True)
      (keysRecordPubkeys pks) (keysRecordPubkeys pks') r g g' := by
  induction pks generalizing pks' r g g' with
  | nil =>
      cases pks' with
      | nil => exact Lockstep.pure trivial
      | cons pk' pks' => cases hlen
  | cons pk pks ih =>
      cases pks' with
      | nil => cases hlen
      | cons pk' pks' =>
          apply Lockstep.bind lock_keysRecordPubkey
          intro _ _ _ _ _ _
          exact ih (Nat.succ.inj hlen)

/-- Equal records are of the same register, up to the object of an invalid
key. -/
theorem lock_keysRecordReg :
    Lockstep reader M.contract M'.contract SameLength
      (fun _ _ _ _ => a.sk = a'.sk ∧ a.pkOk = a'.pkOk ∧
        (a.pkOk ≠ 0 → M.pubkey a.pk = M'.pubkey a'.pk))
      (keysRecordReg a) (keysRecordReg a') r g g' := by
  apply lock_len_array
  intro hsk
  apply lock_len_int
  intro hok
  by_cases hpk : a.pkOk = 0
  · have hpk' : a'.pkOk = 0 := hok ▸ hpk
    rw [if_neg (by simp [hpk]), if_neg (by simp [hpk'])]
    exact Lockstep.pure ⟨hsk, hok, fun h => absurd hpk h⟩
  · have hpk' : a'.pkOk ≠ 0 := hok ▸ hpk
    rw [if_pos hpk, if_pos hpk']
    exact lock_keysRecordPubkey.mono fun _ _ _ _ hval => ⟨hsk, hok, fun _ => hval⟩

theorem lock_keysTakeTweak (sel : Nat) (hb : KeysSame M M' b b') {α α' : Type}
    {Post : α → α' → Unit → Unit → Prop} {f : Bytes 32 → Harness T α}
    {f' : Bytes 32 → Harness T' α'}
    (h : ∀ tweak r, Lockstep reader M.contract M'.contract SameLength Post (f tweak)
      (f' tweak) r g g') :
    Lockstep reader M.contract M'.contract SameLength Post (keysTakeTweak sel b >>= f)
      (keysTakeTweak sel b' >>= f') r g g' := by
  unfold keysTakeTweak
  by_cases hsel : sel &&& 64 ≠ 0
  · rw [if_pos hsel, if_pos hsel, pure_bind, pure_bind, hb.sk]
    exact h b'.sk r
  · rw [if_neg hsel, if_neg hsel]
    exact lock_readerTake h

/-- A call on secret bytes whose code is recorded. -/
theorem lock_keysSeckey (q : KeyCall T (Int32 × Bytes 32))
    (q' : KeyCall T' (Int32 × Bytes 32)) :
    Lockstep reader M.contract M'.contract SameLength (fun _ _ _ _ => True)
      (do
        let (ret, sk) ← secpKey q
        let sk ← keysSeckeyResult sk ret
        pure { d with sk := sk })
      (do
        let (ret, sk) ← secpKey q'
        let sk ← keysSeckeyResult sk ret
        pure { d' with sk := sk }) r g g' := by
  refine Lockstep.invoke_bind trivial trivial fun _ _ _ _ => ?_
  simp only [keysSeckeyResult, bind_assoc, pure_bind]
  exact lock_len_int fun _ => Lockstep.pure trivial

/-- A call on the pubkey of `a`, where it has one. -/
theorem lock_keysPubkey (hok : a.pkOk = a'.pkOk) (q : KeyCall T (Int32 × T.Pubkey))
    (q' : KeyCall T' (Int32 × T'.Pubkey)) :
    Lockstep reader M.contract M'.contract SameLength (fun _ _ _ _ => True)
      (if a.pkOk ≠ 0 then do
          let (ret, pk) ← secpKey q
          pure { d with pk := pk, pkOk := ret }
        else pure d)
      (if a'.pkOk ≠ 0 then do
          let (ret, pk) ← secpKey q'
          pure { d' with pk := pk, pkOk := ret }
        else pure d') r g g' := by
  rw [hok]
  apply Lockstep.ite
  · intro _
    exact Lockstep.invoke_bind trivial trivial fun _ _ _ _ => Lockstep.pure trivial
  · intro _
    exact Lockstep.pure trivial

/-- Bytes are recorded where the code was not zero. -/
theorem lock_keysWhere {ret : Int32} {n : Nat} {out out' : Bytes n} :
    Lockstep reader M.contract M'.contract SameLength (fun _ _ _ _ => True)
      (if ret ≠ 0 then transcriptBytes out.toList else pure ())
      (if ret ≠ 0 then transcriptBytes out'.toList else pure ()) r g g' := by
  apply Lockstep.ite
  · intro _
    rw [← bind_pure (transcriptBytes out.toList),
      ← bind_pure (transcriptBytes out'.toList)]
    exact lock_len_array fun _ => Lockstep.pure trivial
  · intro _
    exact Lockstep.pure trivial

theorem lock_keysEcdh (named : Bool) :
    Lockstep reader M.contract M'.contract SameLength (fun _ _ _ _ => True)
      (keysEcdh a b named) (keysEcdh a' b' named) r g g' := by
  refine Lockstep.invoke_bind trivial trivial fun ⟨ret, hashed⟩ ⟨ret', hashed'⟩ _ _ => ?_
  refine lock_len_int fun hret => ?_
  subst hret
  refine Lockstep.bind lock_keysWhere fun _ _ _ _ _ _ => ?_
  refine Lockstep.invoke_bind trivial trivial fun ⟨ret, xy⟩ ⟨ret', xy'⟩ _ _ => ?_
  refine lock_len_int fun hret => ?_
  subst hret
  refine Lockstep.bind (P := fun _ _ _ _ => True) ?_ fun _ _ _ _ _ _ => ?_
  · apply Lockstep.ite
    · intro _
      refine lock_len_array fun _ => ?_
      refine Lockstep.invoke_bind trivial trivial fun ⟨_, hashed⟩ ⟨_, hashed'⟩ _ _ => ?_
      refine lock_len_int fun _ => ?_
      rw [← bind_pure (transcriptBytes hashed.toList),
        ← bind_pure (transcriptBytes hashed'.toList)]
      exact lock_len_array fun _ => Lockstep.pure trivial
    · intro _
      exact Lockstep.pure trivial
  · exact Lockstep.invoke_bind trivial trivial fun _ _ _ _ =>
      lock_len_int_end fun _ => trivial

theorem lock_keysKeypairTweak (tweak : Bytes 32) :
    Lockstep reader M.contract M'.contract SameLength (fun _ _ _ _ => True)
      (keysKeypairTweak d a tweak) (keysKeypairTweak d' a' tweak) r g g' := by
  refine Lockstep.invoke_bind trivial trivial fun ⟨ret, _⟩ ⟨ret', _⟩ _ _ => ?_
  refine lock_len_int fun hret => ?_
  subst hret
  apply Lockstep.ite
  · intro _
    exact Lockstep.pure trivial
  · intro _
    refine Lockstep.invoke_bind trivial trivial fun _ _ _ _ => ?_
    refine Lockstep.invoke_bind trivial trivial fun _ _ _ _ => lock_len_int fun _ => ?_
    refine lock_len_array fun _ => ?_
    refine Lockstep.invoke_bind trivial trivial fun ⟨ret, _⟩ ⟨ret', _⟩ _ _ => ?_
    refine lock_len_int fun hret => ?_
    subst hret
    apply Lockstep.ite
    · intro _
      refine Lockstep.invoke_bind trivial trivial fun _ _ _ _ => ?_
      exact Lockstep.invoke_bind trivial trivial fun _ _ _ _ => Lockstep.pure trivial
    · intro _
      exact Lockstep.pure trivial

theorem lock_keysXonly (ha : a.pkOk = a'.pkOk) (hb : b.pkOk = b'.pkOk)
    (tweak : Bytes 32) :
    Lockstep reader M.contract M'.contract SameLength (fun _ _ _ _ => True)
      (keysXonly d a b tweak) (keysXonly d' a' b' tweak) r g g' := by
  unfold keysXonly
  rw [ha, hb]
  apply Lockstep.ite
  · intro _
    exact Lockstep.pure trivial
  · intro _
    refine Lockstep.invoke_bind trivial trivial fun _ _ _ _ => ?_
    refine Lockstep.invoke_bind trivial trivial fun _ _ _ _ => lock_len_int fun _ => ?_
    refine lock_len_array fun _ => ?_
    refine Lockstep.bind (P := fun _ _ _ _ => True) ?_ fun _ _ _ _ _ _ => ?_
    · apply Lockstep.ite
      · intro _
        refine Lockstep.invoke_bind trivial trivial fun _ _ _ _ => ?_
        exact Lockstep.invoke_bind trivial trivial fun _ _ _ _ =>
          lock_len_int_end fun _ => trivial
      · intro _
        exact Lockstep.pure trivial
    · refine Lockstep.invoke_bind trivial trivial fun _ _ _ _ => ?_
      exact lock_len_int fun _ => Lockstep.pure trivial

/-- The two runs pick the same registers. -/
theorem keysPtrs_length (h : ∀ i, KeysSame M M' (reg i) (reg' i)) (pick : Fin 4 → Bool) :
    (keysPtrs reg pick).length = (keysPtrs reg' pick).length := by
  have hok : ∀ j, (reg j).pkOk = (reg' j).pkOk := fun j => (h j).pkOk
  simp only [keysPtrs, List.length_map, hok]

theorem lock_keysSort (h : ∀ i, KeysSame M M' (reg i) (reg' i)) :
    Lockstep reader M.contract M'.contract SameLength (fun _ _ _ _ => True)
      (keysSort reg) (keysSort reg') r g g' := by
  have hlen := keysPtrs_length h fun _ => true
  unfold keysSort
  dsimp only
  by_cases hnone : (keysPtrs reg fun _ => true).length = 0
  · rw [if_pos hnone, if_pos (hlen.symm.trans hnone)]
    exact Lockstep.pure trivial
  · rw [if_neg hnone, if_neg fun h0 => hnone (hlen.trans h0)]
    refine Lockstep.invoke_bind trivial trivial fun _ _ _ _ => lock_len_int fun _ => ?_
    apply lock_keysRecordPubkeys
    rw [List.length_ofFn, List.length_ofFn]
    exact hlen

/-- An op reads the same and records blocks of the same lengths. -/
theorem lock_keysSwitch (h : ∀ i, KeysSame M M' (reg i) (reg' i))
    (ha : KeysSame M M' a a') (hb : KeysSame M M' b b') (sel : Nat) (op : KeysOp) :
    Lockstep reader M.contract M'.contract SameLength (fun _ _ _ _ => True)
      (keysSwitch reg d a b sel op) (keysSwitch reg' d' a' b' sel op) r g g' := by
  cases op with
  | seckeyLoad =>
      refine lock_readerTake fun sk _ =>
        Lockstep.invoke_bind trivial trivial fun _ _ _ _ => ?_
      exact lock_len_int fun _ => Lockstep.pure trivial
  | seckeyNegate => exact lock_keysSeckey _ _
  | seckeyTweakAdd => exact lock_keysTakeTweak sel hb fun tweak _ => lock_keysSeckey _ _
  | seckeyTweakMul => exact lock_readerTake fun tweak _ => lock_keysSeckey _ _
  | pubkeyCreate =>
      exact Lockstep.invoke_bind trivial trivial fun _ _ _ _ => Lockstep.pure trivial
  | pubkeyParse =>
      refine lock_readerU8 fun flags _ => lock_readerTake fun ser _ => ?_
      exact Lockstep.invoke_bind trivial trivial fun _ _ _ _ => Lockstep.pure trivial
  | pubkeyNegate => exact lock_keysPubkey ha.pkOk _ _
  | pubkeyTweakAdd =>
      exact lock_keysTakeTweak sel hb fun tweak _ => lock_keysPubkey ha.pkOk _ _
  | pubkeyTweakMul => exact lock_readerTake fun tweak _ => lock_keysPubkey ha.pkOk _ _
  | pubkeyCombine =>
      refine lock_readerU8 fun flags _ => ?_
      simp only [keysPtrs_length h fun j => (flags >>> j.val) &&& 1 ≠ 0]
      apply Lockstep.ite
      · intro _
        exact Lockstep.invoke_bind trivial trivial fun _ _ _ _ => Lockstep.pure trivial
      · intro _
        exact Lockstep.pure trivial
  | pubkeyCmp =>
      unfold keysSwitch
      rw [ha.pkOk, hb.pkOk]
      refine Lockstep.bind (P := fun _ _ _ _ => True) ?_ fun _ _ _ _ _ _ =>
        Lockstep.pure trivial
      apply Lockstep.ite
      · intro _
        exact Lockstep.invoke_bind trivial trivial fun _ _ _ _ =>
          lock_len_int_end fun _ => trivial
      · intro _
        exact Lockstep.pure trivial
  | pubkeySort =>
      exact Lockstep.bind (lock_keysSort h) fun _ _ _ _ _ _ => Lockstep.pure trivial
  | keypairTweak => exact lock_readerTake fun tweak _ => lock_keysKeypairTweak tweak
  | xonly => exact lock_readerTake fun tweak _ => lock_keysXonly ha.pkOk hb.pkOk tweak
  | ecdh =>
      unfold keysSwitch
      rw [ha.pkOk]
      refine Lockstep.bind (P := fun _ _ _ _ => True) ?_ fun _ _ _ _ _ _ =>
        Lockstep.pure trivial
      apply Lockstep.ite
      · intro _
        exact lock_keysEcdh _
      · intro _
        exact Lockstep.pure trivial

theorem keysClear_zero (res : KeysReg T) (h : (keysClear res).pkOk = 0) :
    (keysClear res).pk = T.zeroPubkey := by
  unfold keysClear at h ⊢
  split at h
  · rename_i hres
    rw [if_pos hres]
  · contradiction

theorem lock_keysStep (h : ∀ i, KeysSame M M' (reg i) (reg' i)) :
    Lockstep reader M.contract M'.contract SameLength
      (fun reg reg' _ _ => ∀ i, KeysSame M M' (reg i) (reg' i)) (keysStep reg)
      (keysStep reg') r g g' := by
  refine lock_readerU8 fun op _ => lock_readerU8 fun sel _ => lock_len_u8 ?_
  apply Lockstep.bind (lock_keysSwitch h (h _) (h _) sel _)
  intro res res' _ _ _ _
  simp only [Function.update_self]
  apply Lockstep.bind lock_keysRecordReg
  intro _ _ _ _ _ hsame
  obtain ⟨hsk, hok, hpk⟩ := hsame
  apply Lockstep.pure
  intro i
  by_cases hi : i = selReg sel 0
  · subst hi
    simp only [Function.update_self]
    exact ⟨hsk, hok, hpk,
      fun hz => ⟨keysClear_zero res hz, keysClear_zero res' (hok ▸ hz)⟩⟩
  · simp only [Function.update_of_ne hi]
    exact h i

end Lockstep

theorem keysOps_recorded {M : Meaning V T} {M' : Meaning V T'} {lib : Build T σ}
    {lib' : Build T' σ'} (hlib : lib.Meets M.contract) (hlib' : lib'.Meets M'.contract)
    (s : σ) (s' : σ') (inp : List UInt8) :
    Lockstep.Recorded (fun _ reg reg' => ∀ i, KeysSame M M' (reg i) (reg' i))
      (fun k => (keysOps k).run reader lib inp s) (fun k =>
        (keysOps k).run reader lib' inp s') :=
  Lockstep.loop_recorded (readerMore_peeks _) (readerMore_peeks _)
    (fun _ _ h => h) hlib hlib'
    (fun _ => ⟨rfl, rfl, fun h => absurd rfl h, fun _ => ⟨rfl, rfl⟩⟩) inp s s'
    (fun _ _ _ _ h => lock_keysStep h) (fun _ _ _ _ h => h)

end Diffsecp.Recorded
