import Diffsecp.Ecdsa.Exact
import Diffsecp.Secp.Reference

/-!
# Ecdsa — Parsed

Both DER parsers get the initial encoding with every mutation applied, and
the rest of the input after it.
-/

namespace Diffsecp

open Interact

variable {T : Types} {σ : Type} {lib : Build T σ} {r : List UInt8} {s : σ}

/-- `target_ecdsa` up to the encoding the mutations start from. -/
def ecdsaEncoded : Harness T EcdsaBuffers := do
  let mode ← readerU8
  let st ← ecdsaInput mode
  ecdsaEncode mode st

/-! ## The calls of the parsers -/

/-- The bytes a call of the strict DER parser gets, or with `lax` one of the
lax parser. -/
def parsedDer (lax : Bool) (e : Event (LibCall T)) : Option (List UInt8) :=
  match e with
  | ⟨.ecdsa (.signatureParseDer input), _⟩ => if lax then none else some input
  | ⟨.ecdsa (.signatureParseDerLax input), _⟩ => if lax then some input else none
  | _ => none

section Avoids

variable {lax : Bool}

-- an instance is found along the whole of a program's body
set_option synthInstance.maxSize 4096
set_option synthInstance.maxHeartbeats 200000

abbrev NoParse {α : Type} (lax : Bool) (p : Harness T α) : Prop :=
  Avoids (parsedDer lax) p

instance {β : Type} (q : FeCall T β) : NoParse lax (secpFe q) :=
  Avoids.invoke fun _ => rfl
instance {β : Type} (q : ScalarCall T β) : NoParse lax (secpScalar q) :=
  Avoids.invoke fun _ => rfl
instance {β : Type} (q : GroupCall T β) : NoParse lax (secpGroup q) :=
  Avoids.invoke fun _ => rfl
instance {β : Type} (q : KeyCall T β) : NoParse lax (secpKey q) :=
  Avoids.invoke fun _ => rfl

instance (b : Bytes 64) :
    NoParse lax (secpEcdsa (.signatureParseCompact b) : Harness T _) :=
  Avoids.invoke fun _ => rfl
instance (n : ℕ) (sig : T.EcdsaSig) :
    NoParse lax (secpEcdsa (.signatureSerializeDer n sig)) :=
  Avoids.invoke fun _ => rfl
instance (sig : T.EcdsaSig) : NoParse lax (secpEcdsa (.signatureSerializeCompact sig)) :=
  Avoids.invoke fun _ => rfl
instance (out : Bool) (sig : T.EcdsaSig) :
    NoParse lax (secpEcdsa (.signatureNormalize out sig)) :=
  Avoids.invoke fun _ => rfl
instance (msg seckey : Bytes 32) (fn : EcdsaNonceFn) :
    NoParse lax (secpEcdsa (.sign msg seckey fn) : Harness T _) :=
  Avoids.invoke fun _ => rfl
instance (sig : T.EcdsaSig) (msg : Bytes 32) (pk : T.Pubkey) :
    NoParse lax (secpEcdsa (.verify sig msg pk)) :=
  Avoids.invoke fun _ => rfl
instance : NoParse lax (secpEcdsa .constOrderAsFe : Harness T _) :=
  Avoids.invoke fun _ => rfl

instance (n : ℕ) : NoParse lax (readerTake n : Harness T (Bytes n)) := Avoids.ask _

instance : NoParse lax (readerU8 : Harness T ℕ) := by
  unfold readerU8
  infer_instance

instance (p : List UInt8) : NoParse lax (transcriptBytes p : Harness T Unit) :=
  Avoids.emit _

instance (v : UInt32) : NoParse lax (transcriptU32 v : Harness T Unit) := by
  unfold transcriptU32
  infer_instance

instance (v : Int32) : NoParse lax (transcriptInt v : Harness T Unit) := by
  unfold transcriptInt
  infer_instance

instance (compressed : Bool) (pk : T.Pubkey) :
    NoParse lax (recordPubkey compressed pk) := by
  unfold recordPubkey
  infer_instance

instance (pk : T.Pubkey) : NoParse lax (ecdsaRecordPubkey pk) := by
  unfold ecdsaRecordPubkey recordPubkeyBoth
  infer_instance

instance (sig : T.EcdsaSig) : NoParse lax (ecdsaRecordSig sig) := by
  unfold ecdsaRecordSig
  infer_instance

instance (sig : T.EcdsaSig) (msg : Bytes 32) (pk : Option T.Pubkey) :
    NoParse lax (ecdsaRecordChecks sig msg pk) := by
  unfold ecdsaRecordChecks
  cases pk <;> infer_instance

instance (kind : EcdsaR) (x32 : Bytes 32) :
    NoParse lax (ecdsaRx kind x32 : Harness T _) := by
  unfold ecdsaRx
  infer_instance

instance (kind : EcdsaR) (odd : Int32) (x32 : Bytes 32) (r : T.Scalar) :
    NoParse lax (ecdsaRPoint kind odd x32 r) := by
  unfold ecdsaRPoint
  infer_instance

instance (pkser : List UInt8) (pklen : ℕ) (sig64 : Bytes 64) (msg : Bytes 32)
    (kind : EcdsaR) (odd : Int32) (x32 : Bytes 32) :
    NoParse lax (ecdsaConstruct pkser pklen sig64 msg kind odd x32 : Harness T _) := by
  unfold ecdsaConstruct
  infer_instance

instance (msg seckey k32 : Bytes 32) :
    NoParse lax (ecdsaZeroS msg seckey k32 : Harness T _) := by
  unfold ecdsaZeroS
  infer_instance

instance (msg seckey : Bytes 32) (ndata : Option (Bytes 32)) :
    NoParse lax (ecdsaSignNonce msg seckey ndata : Harness T _) := by
  unfold ecdsaSignNonce
  infer_instance

instance (mode : ℕ) (st : EcdsaBuffers) :
    NoParse lax (ecdsaSignInput mode st : Harness T _) := by
  unfold ecdsaSignInput
  infer_instance

instance (mode : ℕ) : NoParse lax (ecdsaInput mode : Harness T _) := by
  unfold ecdsaInput
  infer_instance

instance (flags i : ℕ) : NoParse lax (ecdsaDerInteger flags i : Harness T _) := by
  unfold ecdsaDerInteger
  infer_instance

instance : NoParse lax (ecdsaDerBuild : Harness T _) := by
  unfold ecdsaDerBuild
  infer_instance

instance (mode : ℕ) (st : EcdsaBuffers) :
    NoParse lax (ecdsaEncode mode st : Harness T _) := by
  unfold ecdsaEncode
  infer_instance

instance (b : Bytes 64) (msg : Bytes 32) (pk : Option T.Pubkey) :
    NoParse lax (ecdsaRecordParsed (.signatureParseCompact b) msg pk) := by
  unfold ecdsaRecordParsed
  infer_instance

instance : NoParse lax (ecdsaEncoded : Harness T EcdsaBuffers) := by
  unfold ecdsaEncoded
  infer_instance

end Avoids

theorem filterMap_ecdsaRecordParsed {lax : Bool} {q : EcdsaCall T (Int32 × T.EcdsaSig)}
    {o : Option (List UInt8)} (hq : ∀ x, parsedDer lax ⟨.ecdsa q, x⟩ = o) (msg : Bytes 32)
    (pk : Option T.Pubkey) :
    ((ecdsaRecordParsed q msg pk).run reader lib r s).log.filterMap (parsedDer lax) =
      o.toList := by
  rw [ecdsaRecordParsed, ← List.append_nil o.toList]
  apply Avoids.filterMap_bind
  · rw [Prog.run_invoke]
    cases o with
    | none => rw [List.filterMap_cons_none (hq _)]; rfl
    | some d => rw [List.filterMap_cons_some (hq _)]; rfl
  · intro x r s
    exact Avoids.none _ _ _ _

/-- Each parser is called once, with `der`. -/
theorem filterMap_ecdsaRecord (lax : Bool) (st : EcdsaBuffers) :
    ((ecdsaRecord st : Harness T Unit).run reader lib r s).log.filterMap (parsedDer lax) =
      [st.der] := by
  apply Avoids.skip
  rintro ⟨pkOk, pk⟩ r s
  apply Avoids.skip
  intro _ r s
  apply Avoids.skip
  intro _ r s
  apply Avoids.skip
  intro _ r s
  rw [show [st.der] = (if lax then none else some st.der).toList ++
    (if lax then some st.der else none).toList by
    cases lax <;> rfl]
  apply Avoids.filterMap_bind
  · exact filterMap_ecdsaRecordParsed (fun _ => rfl) _ _
  · intro _ r s
    exact filterMap_ecdsaRecordParsed (fun _ => rfl) _ _

/-! ## The mutations -/

/-- The kind, the position and the mask of each of the next `count`
mutations. -/
def readMutations (kinds : ℕ) : ℕ → List UInt8 → List (ℕ × ℕ × ℕ)
  | 0, _ => []
  | count + 1, r =>
      ((r.getD 0 0).toNat % kinds, (r.getD 1 0).toNat, (r.getD 2 0).toNat) ::
        readMutations kinds count (r.drop 3)

theorem run_readerU8 (r : List UInt8) (s : σ) :
    (readerU8 : Harness T ℕ).run reader lib r s =
      ⟨(r.getD 0 0).toNat, r.drop 1, s, [], []⟩ := by
  show (⟨(readerTakeBytes r 1).1[0].toNat, (readerTakeBytes r 1).2, s, [],
    []⟩ : Outcome _ _ _ _ _) = _
  rw [readerTakeBytes_getElem, readerTakeBytes_rest]

theorem run_mutations {α : Type} (kinds count : ℕ) (mutate : ℕ → ℕ → ℕ → α → α) (a : α)
    (r : List UInt8) (s : σ) :
    (mutations kinds mutate count a : Harness T α).run reader lib r s =
      ⟨(readMutations kinds count r).foldl (fun a m => mutate m.1 m.2.1 m.2.2 a) a,
        r.drop (3 * count), s, [], []⟩ := by
  induction count generalizing a r s with
  | zero => rfl
  | succ count ih =>
      have hgetD (k : ℕ) : (r.drop k).getD 0 0 = r.getD k 0 := by
        rw [List.getD_eq_getElem?_getD, List.getElem?_drop,
          List.getD_eq_getElem?_getD, Nat.add_zero]
      simp only [mutations, Prog.run_bind, run_readerU8, ih, List.drop_drop, hgetD,
        readMutations, List.foldl_cons, List.append_nil]
      rw [show 1 + 1 + 1 + 3 * count = 3 * (count + 1) by omega]

/-- A mutation of the encoding: kind 3 XORs a byte there is, kind 4 inserts
one at a position up to the length, and the others leave it alone. -/
def mutateDer (der : List UInt8) : ℕ × ℕ × ℕ → List UInt8
  | (3, pos, mask) => if der.length > 0
      then der.modify (pos % der.length) (· ^^^ UInt8.ofNat mask) else der
  | (4, pos, mask) => der.insertIdx (pos % (der.length + 1)) (UInt8.ofNat mask)
  | _ => der

theorem ecdsaMutate_der {which : ℕ} (h : which < 5) (pos mask : ℕ) (st : EcdsaBuffers) :
    (ecdsaMutate which pos mask st).der = mutateDer st.der (which, pos, mask) := by
  rcases which with _ | _ | _ | _ | _ | which
  · rfl
  · rfl
  · rfl
  · simp only [ecdsaMutate, mutateDer]
    split <;> rfl
  · rfl
  · omega

theorem foldl_ecdsaMutate_der (count : ℕ) (r : List UInt8) (st : EcdsaBuffers) :
    ((readMutations 5 count r).foldl
      (fun st m => ecdsaMutate m.1 m.2.1 m.2.2 st) st).der =
      (readMutations 5 count r).foldl mutateDer st.der := by
  induction count generalizing r st with
  | zero => rfl
  | succ count ih =>
      rw [readMutations, List.foldl_cons, List.foldl_cons, ih,
        ecdsaMutate_der (Nat.mod_lt _ (by decide))]

/-! ## The tail -/

theorem readerTakeBytes_all (r : List UInt8) :
    (readerTakeBytes r r.length).1.toList = r := by
  apply List.ext_getElem
  · exact Vector.length_toList
  · intro i hi hr
    rw [Vector.getElem_toList, readerTakeBytes_getElem, List.getD_eq_getElem _ _ hr]

theorem run_ecdsaTail (st : EcdsaBuffers) (r : List UInt8) (s : σ) :
    (ecdsaTail st : Harness T EcdsaBuffers).run reader lib r s =
      ⟨{ st with der := st.der ++ r }, [], s, [], []⟩ := by
  show (⟨{ st with der := st.der ++ (readerTakeBytes r r.length).1.toList },
    (readerTakeBytes r r.length).2, s, [], []⟩ : Outcome _ _ _ _ _) = _
  rw [readerTakeBytes_all, readerTakeBytes_rest, List.drop_length]

/-! ## The target -/

theorem targetEcdsa_eq : (targetEcdsa : Harness T Unit) = (do
    let st ← ecdsaEncoded
    let st ← mutateUpTo7 5 ecdsaMutate st
    let st ← ecdsaTail st
    ecdsaRecord st) := by
  simp only [targetEcdsa, ecdsaEncoded, bind_assoc]

/-- The encoding both parsers get, where the mutations start from `der` and
`r` is left of the input then. -/
def finalDer (der r : List UInt8) : List UInt8 :=
  let count := (r.getD 0 0).toNat % 8
  (readMutations 5 count (r.drop 1)).foldl mutateDer der ++ r.drop (1 + 3 * count)

theorem filterMap_targetEcdsa (lax : Bool) (inp : List UInt8) :
    ((targetEcdsa : Harness T Unit).run reader lib inp s).log.filterMap (parsedDer lax) =
      [finalDer (ecdsaEncoded.run reader lib inp s).val.der
        (ecdsaEncoded.run reader lib inp s).rest] := by
  rw [targetEcdsa_eq, Prog.run_bind, List.filterMap_append, Avoids.none, List.nil_append]
  generalize (ecdsaEncoded : Harness T EcdsaBuffers).run reader lib inp s = v
  simp only [mutateUpTo7, Prog.run_bind, run_readerU8, run_mutations, run_ecdsaTail,
    List.nil_append]
  rw [filterMap_ecdsaRecord, foldl_ecdsaMutate_der, List.drop_drop, finalDer]

/-- The encoding the mutations of a run start from: one built from the input
left after the key and the signature, `sig64`'s where it parses, or none. -/
def EcdsaInitial (lib : Build T σ) (s : σ) (inp der : List UInt8) : Prop :=
  let mode := (inp.getD 0 0).toNat
  let u := (ecdsaInput mode).run reader lib (inp.drop 1) s
  let v := ecdsaEncoded.run reader lib inp s
  if mode &&& EcdsaMode.derBuild ≠ 0 then
    der = (ecdsaDerBuild.run reader lib u.rest u.state).val
  else if mode &&& EcdsaMode.der ≠ 0 then
    ∃ ret sig, ⟨.ecdsa (.signatureParseCompact u.val.sig64), (ret, sig)⟩ ∈ v.log ∧
      if ret = 0 then der = []
      else ∃ ret' len,
        ⟨.ecdsa (.signatureSerializeDer ecdsaDerMax sig), (ret', der, len)⟩ ∈ v.log
  else der = []

/-- A call is in the log with its answer. -/
theorem mem_log_invoke {β : Type} (lib : Build T σ) (q : LibCall T β)
    (r : List UInt8) (s : σ) :
    ⟨q, ((Prog.invoke q : Harness T β).run reader lib r s).val⟩ ∈
      ((Prog.invoke q : Harness T β).run reader lib r s).log := List.mem_cons_self

theorem ecdsaEncoded_initial (lib : Build T σ) (s : σ) (inp : List UInt8) :
    EcdsaInitial lib s inp (ecdsaEncoded.run reader lib inp s).val.der := by
  have hder :=
    (gives_ecdsaInput (T := T) (inp.getD 0 0).toNat).val reader lib (inp.drop 1) s
  simp only [EcdsaInitial, ecdsaEncoded, Prog.run_bind, run_readerU8]
  generalize (ecdsaInput (inp.getD 0 0).toNat).run reader lib (inp.drop 1) s = u at hder ⊢
  generalize (inp.getD 0 0).toNat = mode
  simp only [ecdsaEncode]
  split
  · simp only [Prog.run_bind, Prog.run_pure]
  · split
    · simp only [Prog.run_bind]
      have hparse :=
        mem_log_invoke lib (.ecdsa (.signatureParseCompact u.val.sig64)) u.rest u.state
      generalize (secpEcdsa (.signatureParseCompact u.val.sig64)).run reader lib u.rest
        u.state = x at hparse ⊢
      refine ⟨x.val.1, x.val.2, by simp [hparse], ?_⟩
      by_cases hret : x.val.1 = 0
      · rw [if_pos hret, if_neg (not_not.mpr hret)]
        exact hder
      · rw [if_neg hret, if_pos hret]
        simp only [Prog.run_bind]
        have hser := mem_log_invoke lib
          (.ecdsa (.signatureSerializeDer ecdsaDerMax x.val.2)) x.rest x.state
        generalize (secpEcdsa (.signatureSerializeDer ecdsaDerMax x.val.2)).run reader lib
          x.rest x.state = y at hser ⊢
        exact ⟨y.val.1, y.val.2.2, by simp [hser]⟩
    · exact hder

/-- On every input of at most `inputMax` bytes, no check stops the checked
program: every index written in `body` and `der` lies inside its array, no
size wraps around, and every byte loaded was stored before. It does what
`targetEcdsa` does, and both parsers get exactly the initial encoding with
the mutations of the input applied in order, and then all that is left of the
input. -/
theorem targetEcdsaChecked_exact (lib : Build T σ)
    (hlib : lib.Meets (serializedSizes T)) (s : σ) (inp : List UInt8)
    (hinp : inp.length ≤ inputMax) :
    let w := targetEcdsaChecked.run.run reader lib inp s
    let v := ecdsaEncoded.run reader lib inp s
    w.val = some () ∧ w.log = (targetEcdsa.run reader lib inp s).log ∧
      w.out = (targetEcdsa.run reader lib inp s).out ∧ EcdsaInitial lib s inp v.val.der ∧
      w.log.filterMap (parsedDer false) = [finalDer v.val.der v.rest] ∧
      w.log.filterMap (parsedDer true) = [finalDer v.val.der v.rest] := by
  obtain ⟨_, hrun, -⟩ := tracks_targetEcdsa (s := s) hlib hinp
  dsimp only
  rw [hrun]
  exact ⟨rfl, rfl, rfl, ecdsaEncoded_initial lib s inp, filterMap_targetEcdsa false inp,
    filterMap_targetEcdsa true inp⟩

/-! ## An instance -/

/-- The DER encoding of the signature with r = s = 0, the only one of
`refTypes`. -/
def zeroSigDer : List UInt8 := [0x30, 0x06, 0x02, 0x01, 0x00, 0x02, 0x01, 0x00]

def derEcdsa : {β : Type} → EcdsaCall refTypes β → β
  | _, .signatureSerializeDer outputlen _ =>
      if outputlen < zeroSigDer.length then (0, [], zeroSigDer.length)
      else (1, zeroSigDer, zeroSigDer.length)
  | _, q => idle (.ecdsa q)

/-- The reference build, which serializes its signatures. -/
def derLib : Build refTypes Unit where
  answer q s :=
    (match q with
      | .ecdsa q => derEcdsa q
      | q => idle q, s)

theorem derLib_sizes : derLib.Meets (serializedSizes refTypes) := by
  intro g β q s _
  cases q with
  | ecdsa q =>
      cases q with
      | signatureSerializeDer outputlen sig =>
          intro hlen
          have hge : ¬ outputlen < zeroSigDer.length :=
            Nat.not_lt.mpr (Nat.le_trans (by decide) hlen)
          show let a := derEcdsa (.signatureSerializeDer outputlen sig); a.1 = 1 ∧
            a.2.1.length = a.2.2 ∧ a.2.2 ≤ 72
          rw [show derEcdsa (.signatureSerializeDer outputlen sig) =
            (1, zeroSigDer, zeroSigDer.length) from if_neg hge]
          decide
      | _ => trivial
  | _ => trivial

/-- A raw key and signature that do not parse, an encoding built of two empty
integers, a byte inserted before it and one byte of tail. -/
def insertedInput : List UInt8 :=
  0x20 :: List.replicate 97 0 ++ List.replicate 64 0xff ++ [0, 0, 0, 1, 4, 0, 0, 0xab]

theorem derLib_inserted :
    ((targetEcdsaChecked.run.run reader derLib insertedInput ()).log.filterMap
      (parsedDer false)) = [[0x00, 0x30, 0x04, 0x02, 0x00, 0x02, 0x00, 0xab]] := by
  obtain ⟨-, -, -, -, hstrict, -⟩ :=
    targetEcdsaChecked_exact derLib derLib_sizes () insertedInput (by decide +kernel)
  rw [hstrict]
  decide +kernel

end Diffsecp
