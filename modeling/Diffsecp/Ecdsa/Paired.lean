import Diffsecp.Ecdsa.Target
import Diffsecp.Secp.Pairing

/-!
# Ecdsa — Paired

Two builds under the ECDSA target make calls pair by pair: the buffers hold
the same at every step, a signature is used where its code says there is one,
and the key a signature is constructed for is saved only where it is a point.
-/

namespace Diffsecp

open Interact

variable {T T' : Types} {R : Pairing T T'} {r : List UInt8}

/-! ## Recording -/

theorem twin_ecdsaRecordSig {sig : T.EcdsaSig} {sig' : T'.EcdsaSig}
    (hsig : R.sig sig sig') :
    Twins R Eq (ecdsaRecordSig sig) (ecdsaRecordSig sig') r := by
  refine twin_ecdsa (.signatureSerializeDer 72 hsig) ?_
  rintro ⟨ret, der, len⟩ ⟨ret', der', len'⟩ ⟨⟨hret, hder⟩, -, hlen⟩
  dsimp only at hret hder hlen
  subst hret hlen
  refine twin_int rfl (Twin.bind (P := Eq)
    (Twin.ite (fun hne => ?_) fun _ => Twin.pure rfl) fun _ _ _ _ => ?_)
  · obtain rfl := hder hne
    refine twin_bytes rfl (twin_ecdsa (.signatureSerializeDer (len - 1) hsig) ?_)
    rintro ⟨ret, der, len⟩ ⟨ret', der', len'⟩ ⟨⟨hret, -⟩, -, hlen⟩
    dsimp only at hret hlen
    subst hret hlen
    exact twin_int rfl (Twin.emit rfl rfl)
  · refine twin_ecdsa (.signatureSerializeCompact hsig) fun _ _ h => h.cases ?_
    rintro _ compact _ rfl
    exact twin_bytes_end rfl

theorem twin_ecdsaRecordChecks {sig : T.EcdsaSig} {sig' : T'.EcdsaSig}
    (hsig : R.sig sig sig') (msg : Bytes 32) {pk : Option T.Pubkey}
    {pk' : Option T'.Pubkey} (hpk : Option.Rel R.pubkey pk pk') :
    Twins R Eq (ecdsaRecordChecks sig msg pk) (ecdsaRecordChecks sig' msg pk') r := by
  refine Twin.bind (twin_ecdsaRecordSig hsig) fun _ _ _ _ => ?_
  refine twin_ecdsa (.signatureNormalize true hsig) fun _ _ h => h.cases ?_
  intro ret low low' hlow
  refine twin_int rfl (twin_ecdsa (.signatureNormalize false hsig) fun _ _ h =>
    h.cases ?_)
  intro ret _ _ _
  refine twin_int rfl (Twin.bind (twin_ecdsaRecordSig (hlow rfl)) fun _ _ _ _ => ?_)
  cases hpk with
  | none => exact Twin.pure rfl
  | some hpk =>
      refine twin_ecdsa (.verify msg hsig hpk) ?_
      rintro ret _ rfl
      refine twin_int rfl (twin_ecdsa (.verify msg (hlow rfl) hpk) ?_)
      rintro ret _ rfl
      exact twin_int_end rfl

theorem twin_ecdsaRecordParsed {q : EcdsaCall T (Int32 × T.EcdsaSig)}
    {q' : EcdsaCall T' (Int32 × T'.EcdsaSig)} (hq : R.EcdsaRule q q' (Gives R.sig))
    (msg : Bytes 32) {pk : Option T.Pubkey} {pk' : Option T'.Pubkey}
    (hpk : Option.Rel R.pubkey pk pk') :
    Twins R Eq (ecdsaRecordParsed q msg pk) (ecdsaRecordParsed q' msg pk') r := by
  refine twin_ecdsa hq fun _ _ h => h.cases ?_
  intro ok sig sig' hsig
  exact twin_int rfl (Twin.ite (fun hok => twin_ecdsaRecordChecks (hsig hok) msg hpk)
    fun _ => Twin.pure rfl)

theorem twin_ecdsaRecord (st : EcdsaBuffers) :
    Twins R Eq (ecdsaRecord st) (ecdsaRecord st) r := by
  refine twin_key (.ecPubkeyParse st.pkser) fun _ _ h => h.cases ?_
  intro pkOk pk pk' hpk
  refine twin_int rfl (Twin.bind (P := Eq) ?_ fun _ _ _ _ => ?_)
  · exact Twin.ite (fun hok => twin_recordPubkeyBoth (hpk hok)) fun _ => Twin.pure rfl
  have hrel : Option.Rel R.pubkey (if pkOk ≠ 0 then some pk else none)
      (if pkOk ≠ 0 then some pk' else none) := by
    by_cases hok : pkOk ≠ 0
    · rw [if_pos hok, if_pos hok]
      exact .some (hpk hok)
    · rw [if_neg hok, if_neg hok]
      exact .none
  refine Twin.bind (twin_ecdsaRecordParsed (.signatureParseCompact st.sig64) st.msg hrel)
    fun _ _ _ _ => ?_
  refine Twin.bind (twin_ecdsaRecordParsed (.signatureParseDer st.der) st.msg hrel)
    fun _ _ _ _ => ?_
  exact twin_ecdsaRecordParsed (.signatureParseDerLax st.der) st.msg hrel

/-! ## Constructing the key from R -/

theorem twin_ecdsaRx (kind : EcdsaR) (x32 : Bytes 32) :
    Twins R (Option.Rel fun x x' => ∃ xv, R.fe x x' xv 1 ∧ R.normalized x x')
      (ecdsaRx kind x32) (ecdsaRx kind x32) r := by
  refine Twin.ite (fun _ => ?_) fun _ => ?_
  · refine twin_fe (.setB32Mod _) fun x x' hx => ?_
    refine twin_ecdsa .constOrderAsFe fun order order' horder => ?_
    refine twin_fe (.add hx horder (by decide)) fun x x' hx => ?_
    refine twin_fe (.normalizeVar hx) fun x x' hx => ?_
    exact Twin.pure (.some ⟨_, hx⟩)
  · refine twin_fe (.setB32Limit x32) fun _ _ h => h.cases ?_
    intro ret x x' hx
    refine Twin.pure ?_
    by_cases hret : ret ≠ 0
    · rw [if_pos hret, if_pos hret]
      exact .some ⟨_, hx hret⟩
    · rw [if_neg hret, if_neg hret]
      exact .none

/-- R and r on both sides. -/
structure RTwins (R : Pairing T T') (a : Gej T × T.Scalar)
    (a' : Gej T' × T'.Scalar) : Prop where
  point : ∃ P, R.gej a.1 a'.1 P
  r : ∃ k, R.scalar a.2 a'.2 k

theorem twin_ecdsaRPoint (kind : EcdsaR) (odd : Int32) (hodd : odd = 0 ∨ odd = 1)
    (x32 : Bytes 32) {k : T.Scalar} {k' : T'.Scalar} {kv : Zn} (hk : R.scalar k k' kv) :
    Twins R (Option.Rel (RTwins R)) (ecdsaRPoint kind odd x32 k)
      (ecdsaRPoint kind odd x32 k') r := by
  refine Twin.ite (fun _ => ?_) fun _ => ?_
  · refine twin_group .gejSetInfinity fun rj rj' hrj => ?_
    exact Twin.pure (.some ⟨⟨0, hrj⟩, ⟨kv, hk⟩⟩)
  · refine Twin.bind (twin_ecdsaRx kind x32) fun x x' _ hx => ?_
    cases hx with
    | none => exact Twin.pure .none
    | some hx =>
        obtain ⟨xv, hx, hnorm⟩ := hx
        refine twin_group (.geSetXoVar odd hx (by decide) hodd) fun _ _ h => h.cases ?_
        intro ret ge ge' hge
        refine Twin.ite (fun _ => Twin.pure .none) fun hret => ?_
        obtain ⟨P, -, hge⟩ := hge hret
        refine twin_group (.gejSetGe hge) fun rj rj' hrj => ?_
        refine twin_fe (.getB32 hx hnorm) ?_
        rintro b32 _ rfl
        refine twin_scalar (.setB32 b32) fun a a' ha => ?_
        exact Twin.pure (.some ⟨⟨P, hrj⟩, ⟨_, ha.1⟩⟩)

theorem twin_ecdsaConstruct (pkser : List UInt8) (pklen : ℕ) (sig64 : Bytes 64)
    (msg : Bytes 32) (kind : EcdsaR) (odd : Int32) (hodd : odd = 0 ∨ odd = 1)
    (x32 : Bytes 32) :
    Twins R Eq (ecdsaConstruct pkser pklen sig64 msg kind odd x32)
      (ecdsaConstruct pkser pklen sig64 msg kind odd x32) r := by
  refine twin_scalar (.setB32 _) fun k k' hk => ?_
  refine twin_scalar (.setB32 _) fun s s' hs => ?_
  refine twin_scalar (.setB32 msg) fun z z' hz => ?_
  refine Twin.bind (twin_ecdsaRPoint kind odd hodd x32 hk.1) fun p p' _ hp => ?_
  cases hp with
  | none => exact Twin.pure rfl
  | @some a a' ha =>
      obtain ⟨rj, k⟩ := a
      obtain ⟨rj', k'⟩ := a'
      obtain ⟨⟨P, hrj⟩, ⟨kv, hk⟩⟩ := ha
      refine twin_scalar (.inverseVar hk) fun rinv rinv' hrinv => ?_
      refine twin_scalar (.mul hs.1 hrinv) fun na na' hna => ?_
      refine twin_scalar (.mul hz.1 hrinv) fun zr zr' hzr => ?_
      refine twin_scalar (.negate hzr) fun ng ng' hng => ?_
      refine twin_group (.ecmult hrj hna hng) fun pj pj' hpj => ?_
      refine twin_group (.gejIsInfinity hpj) fun inf inf' hinf => ?_
      obtain rfl : inf = inf' := hinf.1.trans hinf.2.symm
      refine Twin.ite (fun _ => Twin.pure rfl) fun hzero => ?_
      refine twin_group (.geSetGej hpj) fun ge ge' hge => ?_
      refine twin_key (.pubkeySave hge ?_) fun pk pk' hpk => ?_
      · intro hinfinity
        exact hzero (hinf.1 ▸ (flag_ne_zero _).mpr (decide_eq_true hinfinity))
      refine twin_key (.ecPubkeySerialize _ hpk) fun _ _ h => h.cases ?_
      rintro _ pkser _ rfl
      refine twin_scalar (.getB32 hk) ?_
      rintro r32 _ rfl
      refine twin_scalar (.getB32 hs.1) ?_
      rintro s32 _ rfl
      exact Twin.pure rfl

/-! ## Signing -/

theorem twin_ecdsaZeroS (msg seckey k32 : Bytes 32) :
    Twins R Eq (ecdsaZeroS msg seckey k32) (ecdsaZeroS msg seckey k32) r := by
  refine twin_key (.ecPubkeyCreate k32) fun _ _ h => h.cases ?_
  intro ret kg kg' hkg
  refine Twin.ite (fun _ => Twin.pure rfl) fun hret => ?_
  refine twin_key (.ecPubkeySerialize true (hkg hret)) fun _ _ h => h.cases ?_
  rintro _ ser _ rfl
  refine twin_scalar (.setB32 _) fun k k' hk => ?_
  refine twin_scalar (.setB32 seckey) fun d d' hd => ?_
  refine twin_scalar (.mul hk.1 hd.1) fun k k' hk => ?_
  refine twin_scalar (.negate hk) fun k k' hk => ?_
  refine twin_scalar (.getB32 hk) ?_
  rintro msg _ rfl
  exact Twin.pure rfl

/-- A code, the signature it reports and the message that was signed. -/
structure SignTwins (R : Pairing T T') (a : Int32 × T.EcdsaSig × Bytes 32)
    (a' : Int32 × T'.EcdsaSig × Bytes 32) :
    Prop where
  ok : a.1 = a'.1
  sig : a.1 ≠ 0 → R.sig a.2.1 a'.2.1
  msg : a.2.2 = a'.2.2

theorem twin_ecdsaSign (msg seckey : Bytes 32) (noncefp : EcdsaNonceFn) :
    Twins R (SignTwins R)
      (do
        let (ok, sig) ← secpEcdsa (.sign msg seckey noncefp)
        pure (ok, sig, msg))
      (do
        let (ok, sig) ← secpEcdsa (.sign msg seckey noncefp)
        pure (ok, sig, msg)) r := by
  refine twin_ecdsa (.sign msg seckey noncefp) fun _ _ h => h.cases ?_
  intro ok sig sig' hsig
  exact Twin.pure ⟨rfl, hsig, rfl⟩

theorem twin_ecdsaSignNonce (msg seckey : Bytes 32) (ndata : Option (Bytes 32)) :
    Twins R (SignTwins R) (ecdsaSignNonce msg seckey ndata)
      (ecdsaSignNonce msg seckey ndata) r := by
  refine twin_readerU8 fun flags _ => twin_readerTake fun fixed0 _ =>
    twin_readerTake fun fixed1 _ => ?_
  refine Twin.ite (fun _ => twin_ecdsaSign msg seckey _) fun _ => ?_
  refine Twin.bind (P := Eq) (Twin.ite (fun _ => ?_) fun _ => Twin.pure rfl) ?_
  · refine Twin.bind (twin_ecdsaZeroS msg seckey fixed0) ?_
    rintro ⟨ret, msg⟩ _ _ rfl
    exact twin_int rfl (Twin.pure rfl)
  · rintro msg _ _ rfl
    exact twin_ecdsaSign msg seckey _

/-! ## The target -/

theorem twin_ecdsaSignInput (mode : ℕ) (st : EcdsaBuffers) :
    Twins R Eq (ecdsaSignInput mode st) (ecdsaSignInput mode st) r := by
  refine twin_readerTake fun seckey _ =>
    twin_key (.ecPubkeyCreate seckey) fun _ _ h => h.cases ?_
  intro ok pk pk' hpk
  refine twin_int rfl (Twin.ite (fun _ => Twin.pure rfl) fun hok => ?_)
  refine twin_key (.ecPubkeySerialize _ (hpk hok)) fun _ _ h => h.cases ?_
  rintro _ pkser _ rfl
  refine Twin.bind (P := Eq) ?_ ?_
  · exact Twin.ite (fun _ => twin_readerTake fun ndata _ => Twin.pure rfl) fun _ =>
      Twin.pure rfl
  rintro ndata _ _ rfl
  refine Twin.bind (P := SignTwins R) ?_ ?_
  · exact Twin.ite (fun _ => twin_ecdsaSignNonce st.msg seckey ndata) fun _ =>
      twin_ecdsaSign st.msg seckey _
  rintro ⟨ok, sig, msg⟩ ⟨ok', sig', msg'⟩ _ ⟨hok, hsig, hmsg⟩
  dsimp only at hok hsig hmsg
  subst hok hmsg
  refine twin_int rfl (Twin.ite (fun _ => Twin.pure rfl) fun hok => ?_)
  refine twin_ecdsa (.signatureSerializeCompact (hsig hok)) fun _ _ h => h.cases ?_
  rintro _ sig64 _ rfl
  exact twin_bytes rfl (Twin.pure rfl)

theorem twin_ecdsaInput (mode : ℕ) :
    Twins R Eq (ecdsaInput mode) (ecdsaInput mode) r := by
  refine twin_readerTake fun msg _ => ?_
  refine Twin.ite (fun _ => twin_ecdsaSignInput mode _) fun _ =>
    Twin.ite (fun _ => ?_) fun _ => ?_
  · refine twin_readerU8 fun kind _ => twin_readerTake fun x32 _ =>
      twin_readerTake fun sig64 _ => ?_
    have hodd : Int32.ofNat (kind &&& 1) = 0 ∨ Int32.ofNat (kind &&& 1) = 1 := by
      rw [ofNat_and_one]
      exact flag_zero_or_one _
    refine Twin.bind (twin_ecdsaConstruct _ _ sig64 msg _ _ hodd x32) ?_
    rintro ⟨ret, pkser, sig64⟩ _ _ rfl
    exact twin_int rfl (Twin.pure rfl)
  · exact twin_readerTake fun pkser _ => twin_readerTake fun sig64 _ => Twin.pure rfl

theorem twin_ecdsaDerInteger (flags i : ℕ) :
    Twins R Eq (ecdsaDerInteger flags i : Harness T _)
      (ecdsaDerInteger flags i : Harness T' _) r :=
  twin_readerU8 fun _ _ => twin_readerTake fun _ _ => Twin.pure rfl

theorem twin_ecdsaDerBuild :
    Twins R Eq (ecdsaDerBuild : Harness T _) (ecdsaDerBuild : Harness T' _) r := by
  refine twin_readerU8 fun flags _ => Twin.bind (twin_ecdsaDerInteger flags 0) ?_
  rintro int0 _ _ rfl
  refine Twin.bind (twin_ecdsaDerInteger flags 1) ?_
  rintro int1 _ _ rfl
  refine Twin.bind (P := Eq) ?_ ?_
  · exact Twin.ite (fun _ => twin_readerTake fun inside _ => Twin.pure rfl) fun _ =>
      Twin.pure rfl
  · rintro ⟨body, shortBy⟩ _ _ rfl
    exact Twin.pure rfl

theorem twin_ecdsaEncode (mode : ℕ) (st : EcdsaBuffers) :
    Twins R Eq (ecdsaEncode mode st) (ecdsaEncode mode st) r := by
  refine Twin.ite (fun _ => ?_) fun _ => Twin.ite (fun _ => ?_) fun _ => Twin.pure rfl
  · refine Twin.bind twin_ecdsaDerBuild ?_
    rintro der _ _ rfl
    exact Twin.pure rfl
  · refine twin_ecdsa (.signatureParseCompact st.sig64) fun _ _ h => h.cases ?_
    intro ret sig sig' hsig
    refine Twin.ite (fun hret => ?_) fun _ => Twin.pure rfl
    refine twin_ecdsa (.signatureSerializeDer ecdsaDerMax (hsig hret)) ?_
    -- the encoding is used whatever the code, and always fits
    rintro ⟨ret, der, len⟩ ⟨ret', der', len'⟩ ⟨⟨hret, hder⟩, hfits, -⟩
    dsimp only at hret hder hfits
    subst hret
    obtain rfl := hder (hfits (by decide))
    exact twin_int rfl (Twin.pure rfl)

theorem twin_targetEcdsa : Twins R Eq targetEcdsa targetEcdsa r := by
  refine twin_readerU8 fun mode _ => Twin.bind (twin_ecdsaInput mode) ?_
  rintro st _ _ rfl
  refine Twin.bind (twin_ecdsaEncode mode st) ?_
  rintro st _ _ rfl
  refine Twin.bind (P := Eq) (twin_mutateUpTo7 ?_ rfl) ?_
  · rintro which pos mask st _ rfl
    rfl
  rintro st _ _ rfl
  refine twin_readerLeft fun tail _ => twin_readerTake fun rest _ => ?_
  exact twin_ecdsaRecord _

/-- No signature or key is used where a call reports none, the constructed key
is saved only where it is a point, and the transcript tells nothing of how a
build represents them. -/
theorem targetEcdsa_accounts (R : Pairing T T') (inp : List UInt8) :
    R.Accounts targetEcdsa targetEcdsa inp :=
  Pairing.accounts_of_twins twin_targetEcdsa

end Diffsecp
