import Diffsecp.Ecdsa.Buffer

/-!
# Ecdsa — Exact

The checked program of `target_ecdsa` is never stopped: `body` and `der` have
room for all that is written, and what is loaded was stored before. It does
what `targetEcdsa` does on lists.
-/

namespace Diffsecp

open Interact

variable {T : Types} {σ : Type} {lib : Build T σ} {r : List UInt8} {s : σ} {α β : Type}

/-! ## The reader -/

/-- What is left of the input only shrinks. -/
theorem run_rest_length_le (p : Harness T α) (r : List UInt8) (s : σ) :
    (p.run reader lib r s).rest.length ≤ r.length := by
  induction p generalizing r s with
  | ret a => exact Nat.le_refl _
  | read e k ih =>
      refine Nat.le_trans (ih _ _ s) ?_
      cases e with
      | take n =>
          show (readerTakeBytes r n).2.length ≤ r.length
          rw [readerTakeBytes_rest, List.length_drop]
          omega
      | left => exact Nat.le_refl _
  | put o k ih => exact ih r s
  | call q k ih => exact ih _ r _

section Rules

variable {R : α → β → List UInt8 → Prop}

theorem tracks_readerTake {n : ℕ} {f : Bytes n → CheckedHarness T α}
    {g : Bytes n → Harness T β}
    (h : ∀ bytes s', Tracks reader lib (f bytes) (g bytes) (r.drop n) s' R) :
    Tracks reader lib (Checked.step (readerTake n) >>= f) (readerTake n >>= g) r s R := by
  apply Tracks.step_bind
  intro s'
  show Tracks reader lib _ _ (readerTakeBytes r n).2 s' R
  rw [readerTakeBytes_rest]
  exact h _ s'

theorem tracks_readerU8 {f : ℕ → CheckedHarness T α} {g : ℕ → Harness T β}
    (h : ∀ k s', k < 256 → Tracks reader lib (f k) (g k) (r.drop 1) s' R) :
    Tracks reader lib (Checked.step readerU8 >>= f) (readerU8 >>= g) r s R := by
  apply Tracks.step_bind
  intro s'
  show Tracks reader lib _ _ (readerTakeBytes r 1).2 s' R
  rw [readerTakeBytes_rest]
  exact h _ s' (UInt8.toNat_lt _)

/-- What is left afterwards is no more than there was. -/
theorem tracks_shrinks {p : CheckedHarness T α} {q : Harness T β}
    (h : Tracks reader lib p q r s R) :
    Tracks reader lib p q r s fun a b r' => R a b r' ∧ r'.length ≤ r.length := by
  obtain ⟨a, hrun, hR⟩ := h
  exact ⟨a, hrun, hR, run_rest_length_le q r s⟩

/-- Bytes read into an array that has room for them. -/
theorem tracks_readerTakeInto {m n i : ℕ} {b : Buf UInt8 m} {l : List UInt8}
    (hb : b.Holds l) (hi : i = l.length) (hfits : l.length + n ≤ m)
    {f : Buf UInt8 m → CheckedHarness T α} {g : Bytes n → Harness T β}
    (h : ∀ b' bytes s', b'.Holds (l ++ bytes.toList) →
      Tracks reader lib (f b') (g bytes) (r.drop n) s' R) :
    Tracks reader lib (readerTakeInto b i n >>= f) (readerTake n >>= g) r s R := by
  subst hi
  rw [readerTakeInto, bind_assoc]
  apply tracks_readerTake
  intro bytes s'
  obtain ⟨b', hb', hholds⟩ :=
    hb.append (m := bytes.toList) (by rw [Vector.length_toList]; exact hfits)
  exact Tracks.check_bind hb' (h b' bytes s' hholds)

end Rules

/-! ## Building a DER encoding -/

theorem ecdsaDerLen_length_le (len : ℕ) (longForm : Bool) :
    (ecdsaDerLen len longForm).length ≤ 3 := by
  rw [ecdsaDerLen]
  split
  · exact Nat.le_add_left 1 2
  · split
    · exact Nat.le_add_left 2 1
    · exact Nat.le_refl 3

theorem ecdsaDerLen_length_pos (len : ℕ) (longForm : Bool) :
    1 ≤ (ecdsaDerLen len longForm).length := by
  rw [ecdsaDerLen]
  split
  · exact Nat.le_refl 1
  · split <;> exact Nat.le_add_left 1 _

theorem ecdsaDerLen_length_lt {len : ℕ} (h : len < 256) (longForm : Bool) :
    (ecdsaDerLen len longForm).length ≤ 2 := by
  rw [ecdsaDerLen]
  split
  · exact Nat.le_add_left 1 1
  · exact Nat.le_refl 2

/-- The octets are those of the list, stored one after the other. -/
theorem ecdsaDerLenInto_eq {m : ℕ} (b : Buf UInt8 m) (out len : ℕ) (longForm : Bool) :
    ecdsaDerLenInto b out len longForm =
      (b.storeList? out (ecdsaDerLen len longForm)).map fun b =>
        (b, (ecdsaDerLen len longForm).length) := by
  rw [ecdsaDerLenInto, ecdsaDerLen]
  split
  · simp only [Buf.storeList?, Option.map_bind, Function.comp_def]
    rfl
  · split
    · simp only [Buf.storeList?, Option.map_bind, Function.comp_def]
      rfl
    · simp only [Buf.storeList?, Option.map_bind, Function.comp_def]
      rfl

theorem ecdsaDerLenInto_holds {m out : ℕ} {b : Buf UInt8 m} {l : List UInt8}
    (hb : b.Holds l) (hout : out = l.length) (len : ℕ) (longForm : Bool)
    (hfits : l.length + (ecdsaDerLen len longForm).length ≤ m) :
    ∃ b',
      ecdsaDerLenInto b out len longForm = some (b', (ecdsaDerLen len longForm).length) ∧
      b'.Holds (l ++ ecdsaDerLen len longForm) := by
  obtain ⟨b', hb', hholds⟩ := hb.append hfits
  exact ⟨b', by rw [ecdsaDerLenInto_eq, hout, hb', Option.map_some], hholds⟩

/-- What an integer of `ecdsa_der_build` leaves in `body`, after `l`. -/
structure DerIntegerHeld {m : ℕ} (l : List UInt8) (p : Buf UInt8 m × ℕ)
    (x : List UInt8) : Prop where
  length : p.2 = (l ++ x).length
  holds : p.1.Holds (l ++ x)
  two_le : 2 ≤ x.length
  le : x.length ≤ 3 + 255

theorem tracks_ecdsaDerInteger (flags i : ℕ) {m n : ℕ} {body : Buf UInt8 m}
    {l : List UInt8} (hb : body.Holds l) (hn : n = l.length)
    (hfits : l.length + (3 + 255) ≤ m) :
    Tracks reader lib (ecdsaDerIntegerInto flags i body n) (ecdsaDerInteger flags i) r s
      fun p x _ => DerIntegerHeld l p x := by
  subst hn
  apply tracks_readerU8
  intro len s' hlen
  have hoctets := ecdsaDerLen_length_lt hlen (decide ((flags >>> (1 + i)) &&& 1 ≠ 0))
  obtain ⟨b₁, hb₁, hholds₁⟩ := hb.push (x := 0x02) (by omega)
  obtain ⟨b₂, hb₂, hholds₂⟩ := ecdsaDerLenInto_holds hholds₁ List.length_append.symm len
    ((flags >>> (1 + i)) &&& 1 ≠ 0)
    (by rw [List.length_append, List.length_singleton]; omega)
  apply Tracks.check_bind hb₁
  apply Tracks.check_bind hb₂
  apply tracks_readerTakeInto hholds₂
  · simp only [List.length_append, List.length_singleton]
  · simp only [List.length_append, List.length_singleton]
    omega
  · intro b₃ bytes s'' hholds₃
    apply Tracks.pure
    have hlist :
        l ++ [0x02] ++ ecdsaDerLen len ((flags >>> (1 + i)) &&& 1 ≠ 0) ++ bytes.toList =
        l ++
          (0x02 :: ecdsaDerLen len ((flags >>> (1 + i)) &&& 1 ≠ 0) ++ bytes.toList) := by
      simp only [List.append_assoc, List.cons_append, List.nil_append]
    rw [hlist] at hholds₃
    refine ⟨?_, hholds₃, ?_, ?_⟩
    · simp only [List.length_append, List.length_cons, Vector.length_toList]
      omega
    · have hpos := ecdsaDerLen_length_pos len (decide ((flags >>> (1 + i)) &&& 1 ≠ 0))
      simp only [List.length_append, List.length_cons]
      omega
    · simp only [List.length_append, List.length_cons, Vector.length_toList]
      omega

/-- `der` starts with the first `derlen` bytes, which are `l`. -/
structure DerHeld (der : Buf UInt8 ecdsaDerMax) (derlen : ℕ) (l : List UInt8) : Prop where
  length : derlen = l.length
  holds : der.Holds l

/-- The longest encoding `ecdsa_der_build` makes. -/
def ecdsaBuiltMax : ℕ := 4 + ecdsaBodySize

/-- `body` with both integers and the bytes after them, and how much its
length is understated: never by more than there is. -/
structure BodyHeld (p : Buf UInt8 ecdsaBodySize × ℕ × ℕ) (q : List UInt8 × ℕ) : Prop where
  length : p.2.1 = q.1.length
  holds : p.1.Holds q.1
  shortBy : p.2.2 = q.2
  shortBy_le : q.2 ≤ q.1.length
  le : q.1.length ≤ ecdsaBodySize

theorem tracks_ecdsaDerSequence (flags : ℕ) (der : Buf UInt8 ecdsaDerMax)
    {p : Buf UInt8 ecdsaBodySize × ℕ × ℕ} {q : List UInt8 × ℕ} (hbody : BodyHeld p q) :
    Tracks reader lib (ecdsaDerSequenceInto flags der p.1 p.2.1 p.2.2)
      (pure (0x30 :: ecdsaDerLen (q.1.length - q.2) (flags &&& 1 ≠ 0) ++ q.1)) r s
      fun p l _ => DerHeld p.1 p.2 l ∧ l.length ≤ ecdsaBuiltMax := by
  obtain ⟨body, n, shortBy⟩ := p
  obtain ⟨l, short⟩ := q
  obtain ⟨hn, hholds, hsame, hshort, hmax⟩ := hbody
  dsimp only at hn hholds hsame hshort hmax ⊢
  subst hn hsame
  have hoctets := ecdsaDerLen_length_le (l.length - shortBy) (decide (flags &&& 1 ≠ 0))
  have hsizes : ecdsaBuiltMax = 4 + ecdsaBodySize ∧
      ecdsaBuiltMax ≤ ecdsaDerMax := by decide
  obtain ⟨der₁, hder₁, hholds₁⟩ :=
    (Buf.holds_nil der).push (x := 0x30) (by decide : 0 < ecdsaDerMax)
  obtain ⟨der₂, hder₂, hholds₂⟩ :=
    ecdsaDerLenInto_holds hholds₁ rfl (l.length - shortBy) (flags &&& 1 ≠ 0)
    (by rw [List.nil_append, List.length_singleton]; omega)
  obtain ⟨der₃, hder₃, hholds₃⟩ := hholds₂.append (m := l)
    (by simp only [List.nil_append, List.length_append, List.length_singleton]; omega)
  apply Tracks.check_bind hder₁
  apply Tracks.check_bind (by rw [sizeSub?, if_pos hshort])
  apply Tracks.check_bind hder₂
  apply Tracks.check_bind (hholds.loadList? (by omega))
  rw [List.drop_zero, List.take_length]
  simp only [List.nil_append, List.length_append, List.length_singleton] at hder₃
  apply Tracks.check_bind hder₃
  apply Tracks.pure
  refine ⟨⟨?_, ?_⟩, ?_⟩
  · simp only [List.length_append, List.length_cons]
    omega
  · simpa only [List.nil_append, List.append_assoc, List.cons_append] using hholds₃
  · simp only [List.length_append, List.length_cons]
    omega

theorem tracks_ecdsaDerBuild (der : Buf UInt8 ecdsaDerMax) :
    Tracks reader lib (ecdsaDerBuildInto der) ecdsaDerBuild r s
      fun p l _ => DerHeld p.1 p.2 l ∧ l.length ≤ ecdsaBuiltMax := by
  apply tracks_readerU8
  intro flags s' _
  apply Tracks.bind (tracks_ecdsaDerInteger flags 0
    (Buf.holds_nil (Buf.uninit ecdsaBodySize)) rfl (by decide))
  rintro ⟨body₀, n₀⟩ int0 r₀ s₀ ⟨hn₀, hbody₀, hmin₀, hmax₀⟩
  rw [List.nil_append] at hbody₀ hn₀
  have hsize : ecdsaBodySize = 2 * (3 + 255) + 3 := rfl
  apply Tracks.bind (tracks_ecdsaDerInteger flags 1 hbody₀ hn₀ (by omega))
  rintro ⟨body₁, n₁⟩ int1 r₁ s₁ ⟨hn₁, hbody₁, hmin₁, hmax₁⟩
  have hshort : (flags >>> 3) &&& 3 ≤ 3 := Nat.and_le_right
  have hlen : (int0 ++ int1).length = int0.length + int1.length := List.length_append
  apply Tracks.bind (R := fun p q _ => BodyHeld p q)
  · apply Tracks.ite
    · intro _
      apply tracks_readerTakeInto hbody₁ hn₁ (by omega)
      intro body₂ inside s₂ hbody₂
      apply Tracks.pure
      refine ⟨?_, hbody₂, rfl, Nat.zero_le _, ?_⟩
      · simp only [List.length_append, Vector.length_toList] at hn₁ ⊢
        omega
      · simp only [List.length_append, Vector.length_toList]
        omega
    · intro _
      exact Tracks.pure ⟨hn₁, hbody₁, rfl, by simp only [List.length_append]; omega,
        by simp only [List.length_append]; omega⟩
  · intro p q r₂ s₂ hbody
    exact tracks_ecdsaDerSequence flags der hbody

/-! ## The arrays of the target -/

/-- `secp256k1_ecdsa_signature_serialize_der` succeeds where it is given 72
bytes, and writes the number of bytes it reports, at most 72. -/
def serializedSizes (T : Types) : Contract (LibCall T) Unit :=
  .stateless (fun _ => True)
    (fun {β} (q : LibCall T β) (a : β) => match β, q, a with
      | _, .ecdsa (.signatureSerializeDer outputlen _), (ret, der, len) =>
          72 ≤ outputlen → ret = 1 ∧ der.length = len ∧ len ≤ 72
      | _, _, _ => True)

/-- The arrays hold what the lists are. -/
structure EcdsaMemory.Shows (m : EcdsaMemory) (st : EcdsaBuffers) : Prop where
  msg : m.msg = st.msg
  pkser : m.pkser = st.pkser
  sig64 : m.sig64 = st.sig64
  der : DerHeld m.der m.derlen st.der

/-- Reading the key and the signature leaves `der` as it was. -/
theorem gives_ecdsaSignInput (mode : ℕ) (st : EcdsaBuffers) :
    Gives (fun st' => st'.der = st.der)
      (ecdsaSignInput mode st : Harness T EcdsaBuffers) := by
  apply Gives.bind
  intro seckey
  apply Gives.bind
  rintro ⟨ok, pk⟩
  apply Gives.bind
  intro _
  refine Gives.ite (Gives.pure rfl) ?_
  apply Gives.bind
  rintro ⟨_, pkser⟩
  apply Gives.bind
  intro ndata
  apply Gives.bind
  rintro ⟨ok, sig, msg⟩
  apply Gives.bind
  intro _
  refine Gives.ite (Gives.pure rfl) ?_
  apply Gives.bind
  rintro ⟨_, sig64⟩
  apply Gives.bind
  intro _
  exact Gives.pure rfl

theorem gives_ecdsaInput (mode : ℕ) :
    Gives (fun st => st.der = []) (ecdsaInput mode : Harness T EcdsaBuffers) := by
  apply Gives.bind
  intro msg
  refine Gives.ite (gives_ecdsaSignInput mode ⟨msg, _, _, []⟩) ?_
  apply Gives.ite
  · apply Gives.bind
    intro kind
    apply Gives.bind
    intro x32
    apply Gives.bind
    intro sig64
    apply Gives.bind
    rintro ⟨ret, pkser, sig64⟩
    apply Gives.bind
    intro _
    exact Gives.pure rfl
  · apply Gives.bind
    intro pkser
    apply Gives.bind
    intro sig64
    exact Gives.pure rfl

theorem tracks_ecdsaInput (mode : ℕ) :
    Tracks reader lib (ecdsaInputInto mode) (ecdsaInput mode) r s
      fun m st _ => m.Shows st ∧ st.der = [] := by
  have hder := (gives_ecdsaInput (T := T) mode).val reader lib r s
  rw [← bind_pure (ecdsaInput mode)]
  apply Tracks.step_bind
  intro s'
  apply Tracks.pure
  refine ⟨⟨rfl, rfl, rfl, ?_⟩, hder⟩
  rw [hder]
  exact ⟨rfl, Buf.holds_nil _⟩

theorem tracks_ecdsaEncode (hlib : lib.Meets (serializedSizes T)) (mode : ℕ)
    {m : EcdsaMemory} {st : EcdsaBuffers} (hm : m.Shows st) (hnil : st.der = []) :
    Tracks reader lib (ecdsaEncodeInto mode m) (ecdsaEncode mode st) r s
      fun m st _ => m.Shows st ∧ st.der.length ≤ ecdsaBuiltMax := by
  obtain ⟨msg, pkser, sig64, der, derlen⟩ := m
  obtain ⟨msg', pkser', sig64', der'⟩ := st
  obtain ⟨hmsg, hpkser, hsig64, hder⟩ := hm
  dsimp only at hmsg hpkser hsig64 hnil
  subst hmsg hpkser hsig64 hnil
  apply Tracks.ite
  · intro _
    apply Tracks.bind (tracks_ecdsaDerBuild der)
    rintro ⟨der₁, derlen₁⟩ l r₁ s₁ ⟨hheld, hle⟩
    exact Tracks.pure ⟨⟨rfl, rfl, rfl, hheld⟩, hle⟩
  · intro _
    apply Tracks.ite
    · intro _
      apply Tracks.invoke_bind hlib () trivial
      rintro ⟨ret, sig⟩ s₁ -
      apply Tracks.ite
      · intro _
        apply Tracks.invoke_bind hlib () trivial
        rintro ⟨ret, bytes, len⟩ s₂ hsizes
        obtain ⟨-, hlen, hle⟩ := hsizes (by decide)
        have hmax : 72 ≤ ecdsaBuiltMax ∧ ecdsaBuiltMax ≤ ecdsaDerMax := by decide
        obtain ⟨der₁, hder₁, hholds⟩ :=
          Buf.holds_store der (by omega : bytes.length ≤ ecdsaDerMax)
        apply Tracks.check_bind hder₁
        apply Tracks.step_bind
        intro s₃
        exact Tracks.pure ⟨⟨rfl, rfl, rfl, hlen.symm, hholds⟩, by dsimp only; omega⟩
      · intro _
        exact Tracks.pure ⟨⟨rfl, rfl, rfl, hder⟩, Nat.zero_le _⟩
    · intro _
      exact Tracks.pure ⟨⟨rfl, rfl, rfl, hder⟩, Nat.zero_le _⟩

theorem length_ecdsaMutate_le (which pos mask : ℕ) (st : EcdsaBuffers) :
    (ecdsaMutate which pos mask st).der.length ≤ st.der.length + 1 := by
  unfold ecdsaMutate
  split
  · exact Nat.le_succ _
  · exact Nat.le_succ _
  · exact Nat.le_succ _
  · split
    · rw [List.length_modify]
      exact Nat.le_succ _
    · exact Nat.le_succ _
  · exact List.length_insertIdx_le_succ

/-- A mutation finds room for the byte it may insert, and loads only bytes
that were stored. -/
theorem ecdsaMutateInto_shows (which pos mask : ℕ) {m : EcdsaMemory} {st : EcdsaBuffers}
    (hm : m.Shows st) (hroom : st.der.length < ecdsaDerMax) :
    ∃ m', ecdsaMutateInto which pos mask m = some m' ∧
      m'.Shows (ecdsaMutate which pos mask st) := by
  obtain ⟨msg, pkser, sig64, der, derlen⟩ := m
  obtain ⟨msg', pkser', sig64', l⟩ := st
  obtain ⟨hmsg, hpkser, hsig64, hlen, hholds⟩ := hm
  dsimp only at hmsg hpkser hsig64 hlen hholds hroom
  subst hmsg hpkser hsig64 hlen
  rcases which with _ | _ | _ | _ | which
  · exact ⟨_, rfl, rfl, rfl, rfl, rfl, hholds⟩
  · exact ⟨_, rfl, rfl, rfl, rfl, rfl, hholds⟩
  · exact ⟨_, rfl, rfl, rfl, rfl, rfl, hholds⟩
  · simp only [ecdsaMutateInto, ecdsaMutate]
    by_cases hpos : l.length > 0
    · rw [if_pos hpos, if_pos hpos]
      have hlt := Nat.mod_lt pos hpos
      obtain ⟨der', hstore, hholds'⟩ := hholds.modify hlt (· ^^^ UInt8.ofNat mask)
      refine ⟨⟨msg, pkser, sig64, der', l.length⟩, ?_, rfl, rfl, rfl,
        (List.length_modify _ _ _).symm, hholds'⟩
      rw [hholds.load? hlt, Option.bind_eq_bind, Option.bind_some, hstore]
      rfl
    · rw [if_neg hpos, if_neg hpos]
      exact ⟨_, rfl, rfl, rfl, rfl, rfl, hholds⟩
  · have hle : pos % (l.length + 1) ≤ l.length :=
      Nat.lt_succ_iff.mp (Nat.mod_lt _ (Nat.succ_pos _))
    obtain ⟨der₁, der₂, hmove, hstore, hholds'⟩ :=
      hholds.insert hle hroom (UInt8.ofNat mask)
    refine ⟨⟨msg, pkser, sig64, der₂, l.length + 1⟩, ?_, rfl, rfl, rfl,
      (List.length_insertIdx_of_le_length hle _).symm, hholds'⟩
    simp only [ecdsaMutateInto, sizeSub?, if_pos hle, Option.bind_eq_bind,
      Option.bind_some, hmove, hstore]
    rfl

theorem tracks_ecdsaMutations (count : ℕ) {m : EcdsaMemory} {st : EcdsaBuffers}
    (hm : m.Shows st) (hroom : st.der.length + count ≤ ecdsaDerMax) :
    Tracks reader lib (ecdsaMutationsInto count m) (mutations 5 ecdsaMutate count st) r s
      fun m st' _ => m.Shows st' ∧ st'.der.length ≤ st.der.length + count := by
  induction count generalizing m st r s with
  | zero => exact Tracks.pure ⟨hm, Nat.le_refl _⟩
  | succ count ih =>
      apply tracks_readerU8
      intro which _ _
      apply tracks_readerU8
      intro pos _ _
      apply tracks_readerU8
      intro mask s₃ _
      obtain ⟨m', hmutate, hm'⟩ :=
        ecdsaMutateInto_shows (which % 5) pos mask hm (by omega)
      have hlen := length_ecdsaMutate_le (which % 5) pos mask st
      apply Tracks.check_bind hmutate
      refine (ih hm' (by omega)).mono fun m'' st' _ hpost =>
        ⟨hpost.1, Nat.le_trans hpost.2 ?_⟩
      omega

theorem tracks_ecdsaTail {m : EcdsaMemory} {st : EcdsaBuffers} (hm : m.Shows st)
    (hroom : st.der.length + r.length ≤ ecdsaDerMax) :
    Tracks reader lib (ecdsaTailInto m) (ecdsaTail st) r s fun m st _ => m.Shows st := by
  apply Tracks.step_bind
  intro s'
  apply tracks_readerTakeInto hm.der.holds hm.der.length hroom
  intro der rest s'' hholds
  apply Tracks.pure
  refine ⟨hm.msg, hm.pkser, hm.sig64, ?_, hholds⟩
  have hrest : (rest : Bytes r.length).toList.length = r.length := Vector.length_toList
  show m.derlen + r.length = (st.der ++ rest.toList).length
  rw [List.length_append, hrest, hm.der.length]

theorem tracks_ecdsaRecord {m : EcdsaMemory} {st : EcdsaBuffers} (hm : m.Shows st) :
    Tracks reader lib (ecdsaRecordFrom m) (ecdsaRecord st) r s fun _ _ _ => True := by
  obtain ⟨msg, pkser, sig64, der, derlen⟩ := m
  obtain ⟨msg', pkser', sig64', l⟩ := st
  obtain ⟨hmsg, hpkser, hsig64, hlen, hholds⟩ := hm
  dsimp only at hmsg hpkser hsig64 hlen hholds
  subst hmsg hpkser hsig64 hlen
  apply Tracks.check_bind (hholds.loadList? (Nat.le_of_eq (Nat.zero_add l.length)))
  rw [List.drop_zero, List.take_length]
  exact Tracks.step trivial

/-- The checked program is never stopped. -/
theorem tracks_targetEcdsa (hlib : lib.Meets (serializedSizes T)) {inp : List UInt8}
    (hinp : inp.length ≤ inputMax) :
    Tracks reader lib targetEcdsaChecked targetEcdsa inp s fun _ _ _ => True := by
  have hmax : ecdsaDerMax = ecdsaBuiltMax + 8 + inputMax := rfl
  apply tracks_readerU8
  intro mode s₀ _
  apply Tracks.bind (tracks_shrinks (tracks_ecdsaInput mode))
  rintro m₁ st₁ r₁ s₁ ⟨⟨hm₁, hnil⟩, hr₁⟩
  apply Tracks.bind (tracks_shrinks (tracks_ecdsaEncode hlib mode hm₁ hnil))
  rintro m₂ st₂ r₂ s₂ ⟨⟨hm₂, hlen₂⟩, hr₂⟩
  rw [mutateUpTo7, bind_assoc]
  apply tracks_readerU8
  intro nmut s₃ _
  have hnmut := Nat.mod_lt nmut (by decide : 8 > 0)
  apply Tracks.bind (tracks_shrinks (tracks_ecdsaMutations (nmut % 8) hm₂ (by omega)))
  rintro m₃ st₃ r₃ s₄ ⟨⟨hm₃, hlen₃⟩, hr₃⟩
  simp only [List.length_drop] at hr₁ hr₃
  apply Tracks.bind (tracks_ecdsaTail hm₃ (by omega))
  intro m₄ st₄ r₄ s₅ hm₄
  exact tracks_ecdsaRecord hm₄

end Diffsecp
