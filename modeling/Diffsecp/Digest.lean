import Mathlib.Tactic.Ring
import Mathlib.Data.Nat.Bitwise
import Mathlib.Data.Int.ModEq
import Diffsecp.Length

/-!
# Digest

`src/digest.h`: FNV-1a tells two transcripts apart whenever they differ only
inside four bytes, the width of one recorded integer.

One round xors a byte into the low end of the state and multiplies by the
prime 2^40 + 435. As a number the xor moves the state by less than 256 either
way, so two runs over four bytes end a polynomial of degree four in the prime
apart, with coefficients below 511. Such a polynomial is 0 mod 2^64 only when
every coefficient is.
-/

namespace Diffsecp

/-! ## Polynomials in the prime -/

/-- The prime of FNV-1a. -/
def fnvPrime : ℤ := 2 ^ 40 + 435

/-- `fs` folded as a round folds the state: add, then multiply. -/
def horner (d : ℤ) (fs : List ℤ) : ℤ := fs.foldl (fun d f => (d + f) * fnvPrime) d

theorem horner_cons (d f : ℤ) (fs : List ℤ) :
    horner d (f :: fs) = horner ((d + f) * fnvPrime) fs := rfl

/-- An odd factor does not bring a number closer to 0 mod 2^64. -/
theorem dvd_of_dvd_mul_fnvPrime {d : ℤ} (h : 2 ^ 64 ∣ d * fnvPrime) : 2 ^ 64 ∣ d := by
  have hcop : IsCoprime (2 ^ 64 : ℤ) fnvPrime := by
    apply IsCoprime.pow_left
    exact ⟨-(2 ^ 39 + 217), 1, by rw [fnvPrime]; norm_num⟩
  exact hcop.dvd_of_dvd_mul_right h

/-- The base 435 digits of the low 40 bits leave only carries of one, and
the next 24 bits rule these out. -/
theorem coefficients_zero {a b c d : ℤ} (ha : |a| ≤ 510) (hb : |b| ≤ 510) (hc : |c| ≤ 510)
    (hd : |d| ≤ 510) (h : 2 ^ 64 ∣ ((a * fnvPrime + b) * fnvPrime + c) * fnvPrime + d) :
    a = 0 ∧ b = 0 ∧ c = 0 ∧ d = 0 := by
  rw [abs_le] at ha hb hc hd
  obtain ⟨q, hq⟩ := h
  have hsplit : ((a * fnvPrime + b) * fnvPrime + c) * fnvPrime + d =
      (435 ^ 3 * a + 435 ^ 2 * b + 435 * c + d) + 2 ^ 40 * (3 * 435 ^ 2 * a + 870 * b + c)
        + 2 ^ 64 * (2 ^ 16 * ((2 ^ 40 + 3 * 435) * a + b)) := by
    rw [fnvPrime]
    ring
  rw [hsplit] at hq
  have hlow : 435 ^ 3 * a + 435 ^ 2 * b + 435 * c + d = 0 := by omega
  have hhigh : 3 * 435 ^ 2 * a + 870 * b + c =
      2 ^ 24 * (q - 2 ^ 16 * ((2 ^ 40 + 3 * 435) * a + b)) := by omega
  -- the carries from one digit to the next
  obtain ⟨g, hg⟩ : ∃ g, d = -435 * g := ⟨435 ^ 2 * a + 435 * b + c, by omega⟩
  obtain ⟨k, hk⟩ : ∃ k, c = g - 435 * k := ⟨435 * a + b, by omega⟩
  have hm : b = k - 435 * a := by omega
  subst hg hk hm
  have : 435 ^ 2 * a + 435 * k + g = 0 := by omega
  omega

theorem horner_zeros (k : ℕ) (fs : List ℤ) :
    horner 0 (List.replicate k 0 ++ fs) = horner 0 fs := by
  induction k with
  | zero => rfl
  | succ k ih => rw [List.replicate_succ, List.cons_append, horner_cons, Int.add_zero,
        Int.zero_mul, ih]

/-- Up to four coefficients: fewer are four with zeros in front. -/
theorem horner_coefficients_zero {fs : List ℤ} (hlen : fs.length ≤ 4)
    (hsmall : ∀ f ∈ fs, |f| ≤ 510) (h : 2 ^ 64 ∣ horner 0 fs) : ∀ f ∈ fs, f = 0 := by
  have hfour : ∀ gs : List ℤ, gs.length = 4 → (∀ f ∈ gs, |f| ≤ 510) →
      2 ^ 64 ∣ horner 0 gs → ∀ f ∈ gs, f = 0 := by
    intro gs hgs hsmall h
    match gs, hgs with
    | [a, b, c, d], _ =>
        simp only [List.forall_mem_cons, List.not_mem_nil, false_implies, implies_true,
          and_true] at hsmall ⊢
        obtain ⟨ha, hb, hc, hd⟩ := hsmall
        simp only [horner, List.foldl_cons, List.foldl_nil, zero_add] at h
        exact coefficients_zero ha hb hc hd (dvd_of_dvd_mul_fnvPrime h)
  intro f hf
  refine hfour (List.replicate (4 - fs.length) 0 ++ fs) ?_ ?_ ?_ f
    (List.mem_append_right _ hf)
  · rw [List.length_append, List.length_replicate]
    omega
  · intro g hg
    rcases List.mem_append.mp hg with hzero | hmem
    · rw [(List.mem_replicate.mp hzero).2]
      decide
    · exact hsmall g hmem
  · rw [horner_zeros]
    exact h

/-! ## One round -/

/-- One round of `diffsecp_digest`. -/
def digestStep (h : UInt64) (b : UInt8) : UInt64 := (h ^^^ b.toUInt64) * 0x100000001b3

theorem diffsecpDigest_eq (p : List UInt8) :
    diffsecpDigest p = p.foldl digestStep 0xcbf29ce484222325 := rfl

theorem mul_prime_injective {x y : UInt64}
    (h : x * 0x100000001b3 = y * 0x100000001b3) : x = y := by
  -- the inverse of the prime mod 2^64
  have hinv : (0x100000001b3 : UInt64) * 0xce965057aff6957b = 1 := by decide
  calc x = x * 0x100000001b3 * 0xce965057aff6957b := by
        rw [UInt64.mul_assoc, hinv, UInt64.mul_one]
    _ = y * 0x100000001b3 * 0xce965057aff6957b := by rw [h]
    _ = y := by rw [UInt64.mul_assoc, hinv, UInt64.mul_one]

theorem xor_byte_injective {x y : UInt64} {b : UInt8}
    (h : x ^^^ b.toUInt64 = y ^^^ b.toUInt64) : x = y := by
  have hcancel := congrArg (· ^^^ b.toUInt64) h
  simpa [UInt64.xor_assoc] using hcancel

theorem digestStep_injective {x y : UInt64} {b : UInt8}
    (h : digestStep x b = digestStep y b) : x = y :=
  xor_byte_injective (mul_prime_injective h)

/-- A common suffix keeps states apart. -/
theorem foldl_digestStep_injective (suf : List UInt8) {x y : UInt64}
    (h : suf.foldl digestStep x = suf.foldl digestStep y) : x = y := by
  induction suf generalizing x y with
  | nil => exact h
  | cons b suf ih => exact digestStep_injective (ih h)

/-- How far the xor of a round moves the state. -/
def xorGap (h : UInt64) (b : UInt8) : ℤ := (h ^^^ b.toUInt64).toNat - h.toNat

/-- The bits above the byte stay. -/
theorem xorGap_small (h : UInt64) (b : UInt8) : |xorGap h b| ≤ 255 := by
  have hb : b.toUInt64.toNat / 2 ^ 8 = 0 := Nat.div_eq_of_lt (by simpa using b.toNat_lt)
  have hhigh : (h ^^^ b.toUInt64).toNat / 2 ^ 8 = h.toNat / 2 ^ 8 := by
    rw [UInt64.toNat_xor, Nat.xor_div_two_pow, hb, Nat.xor_zero]
  rw [xorGap, abs_le]
  omega

theorem digestStep_toNat (h : UInt64) (b : UInt8) :
    ((digestStep h b).toNat : ℤ) ≡ (h.toNat + xorGap h b) * fnvPrime [ZMOD 2 ^ 64] := by
  have hmul :
      (digestStep h b).toNat = (h ^^^ b.toUInt64).toNat * 0x100000001b3 % 2 ^ 64 := by
    rw [digestStep, UInt64.toNat_mul]
    rfl
  rw [hmul, xorGap, add_sub_cancel, Int.natCast_mod, Nat.cast_mul]
  exact Int.mod_modEq _ _

/-! ## The window -/

/-- What sets two runs over windows of one length apart, round by round. -/
def digestGaps : UInt64 → UInt64 → List UInt8 → List UInt8 → List ℤ
  | h, h', b :: w, b' :: w' =>
      (xorGap h' b' - xorGap h b) :: digestGaps (digestStep h b) (digestStep h' b') w w'
  | _, _, _, _ => []

theorem digestGaps_length (h h' : UInt64) (w w' : List UInt8) :
    (digestGaps h h' w w').length ≤ w.length := by
  induction w generalizing h h' w' with
  | nil => cases w' <;> exact Nat.le_refl 0
  | cons b w ih =>
      cases w' with
      | nil => exact Nat.zero_le _
      | cons b' w' => exact Nat.succ_le_succ (ih _ _ w')

theorem digestGaps_small (h h' : UInt64) (w w' : List UInt8) :
    ∀ f ∈ digestGaps h h' w w', |f| ≤ 510 := by
  induction w generalizing h h' w' with
  | nil => cases w' <;> exact nofun
  | cons b w ih =>
      cases w' with
      | nil => exact nofun
      | cons b' w' =>
          intro f hf
          rcases List.mem_cons.mp hf with rfl | hf
          · have hleft := xorGap_small h' b'
            have hright := xorGap_small h b
            rw [abs_le] at hleft hright ⊢
            omega
          · exact ih _ _ w' f hf

/-- The distance of two runs is the polynomial of their gaps. -/
theorem digest_distance (h h' : UInt64) (d : ℤ) (w w' : List UInt8)
    (hlen : w.length = w'.length) (hd : (h'.toNat - h.toNat : ℤ) ≡ d [ZMOD 2 ^ 64]) :
    ((w'.foldl digestStep h').toNat - (w.foldl digestStep h).toNat : ℤ)
      ≡ horner d (digestGaps h h' w w') [ZMOD 2 ^ 64] := by
  induction w generalizing h h' d w' with
  | nil =>
      cases w' with
      | nil => exact hd
      | cons b' w' => cases hlen
  | cons b w ih =>
      cases w' with
      | nil => cases hlen
      | cons b' w' =>
          refine ih _ _ _ w' (Nat.succ.inj hlen) ?_
          have hstep := (digestStep_toNat h' b').sub (digestStep_toNat h b)
          have hsum :
              (h'.toNat + xorGap h' b') * fnvPrime - (h.toNat + xorGap h b) * fnvPrime
              = ((h'.toNat - h.toNat : ℤ) + (xorGap h' b' - xorGap h b)) *
                fnvPrime := by ring
          rw [hsum] at hstep
          exact hstep.trans ((hd.add_right _).mul_right _)

theorem xorGap_injective {h : UInt64} {b b' : UInt8}
    (heq : xorGap h b' - xorGap h b = 0) : b = b' := by
  have hnat : (h ^^^ b.toUInt64).toNat = (h ^^^ b'.toUInt64).toNat := by
    simp only [xorGap] at heq
    omega
  have hxor := congrArg (h ^^^ ·) (UInt64.toNat_inj.mp hnat)
  simp only [← UInt64.xor_assoc, UInt64.xor_self, UInt64.zero_xor] at hxor
  exact UInt8.toNat_inj.mp (by simpa using congrArg UInt64.toNat hxor)

/-- No gap, no difference. -/
theorem eq_of_digestGaps_zero (h : UInt64) (w w' : List UInt8)
    (hlen : w.length = w'.length)
    (hzero : ∀ f ∈ digestGaps h h w w', f = 0) : w = w' := by
  induction w generalizing h w' with
  | nil =>
      cases w' with
      | nil => rfl
      | cons b' w' => cases hlen
  | cons b w ih =>
      cases w' with
      | nil => cases hlen
      | cons b' w' =>
          obtain ⟨hhead, htail⟩ := List.forall_mem_cons.mp hzero
          cases xorGap_injective hhead
          rw [ih _ w' (Nat.succ.inj hlen) htail]

/-- Windows of up to four bytes after a common prefix and before a common
suffix. -/
theorem diffsecpDigest_window {pre w w' suf : List UInt8} (hlen : w.length = w'.length)
    (hfour : w.length ≤ 4) (hne : w ≠ w') :
    diffsecpDigest (pre ++ w ++ suf) ≠ diffsecpDigest (pre ++ w' ++ suf) := by
  intro heq
  simp only [diffsecpDigest_eq, List.foldl_append] at heq
  have hend := foldl_digestStep_injective suf heq
  have hdist := digest_distance (pre.foldl digestStep 0xcbf29ce484222325)
    (pre.foldl digestStep 0xcbf29ce484222325) 0 w w' hlen (by rw [sub_self])
  rw [hend, sub_self] at hdist
  have hzero := horner_coefficients_zero ((digestGaps_length _ _ w w').trans hfour)
    (digestGaps_small _ _ w w') (Int.modEq_zero_iff_dvd.mp hdist.symm)
  exact hne (eq_of_digestGaps_zero _ w w' hlen hzero)

/-! ## Positions -/

theorem split_window (t : List UInt8) (i : ℕ) :
    t = t.take i ++ (t.drop i).take 4 ++ t.drop (i + 4) := by
  rw [List.append_assoc, ← List.drop_drop, List.take_append_drop, List.take_append_drop]

theorem take_eq_of_window {t t' : List UInt8} {i : ℕ} (h : ∀ j < i, t[j]? = t'[j]?) :
    t.take i = t'.take i := by
  apply List.ext_getElem?
  intro j
  rw [List.getElem?_take, List.getElem?_take]
  split
  · exact h j ‹_›
  · rfl

theorem drop_eq_of_window {t t' : List UInt8} {i : ℕ} (h : ∀ j, i ≤ j → t[j]? = t'[j]?) :
    t.drop i = t'.drop i := by
  apply List.ext_getElem?
  intro j
  rw [List.getElem?_drop, List.getElem?_drop]
  exact h (i + j) (Nat.le_add_right i j)

/-- Two transcripts that differ only at positions `i` to `i + 3`. -/
theorem diffsecpDigest_positions {t t' : List UInt8} (i : ℕ) (hlen : t.length = t'.length)
    (hne : t ≠ t') (hwindow : ∀ j, t[j]? ≠ t'[j]? → i ≤ j ∧ j < i + 4) :
    diffsecpDigest t ≠ diffsecpDigest t' := by
  have hpre : t.take i = t'.take i := by
    apply take_eq_of_window
    intro j hj
    by_contra hdiff
    have := hwindow j hdiff
    omega
  have hsuf : t.drop (i + 4) = t'.drop (i + 4) := by
    apply drop_eq_of_window
    intro j hj
    by_contra hdiff
    have := hwindow j hdiff
    omega
  rw [split_window t i, split_window t' i, ← hpre, ← hsuf] at hne ⊢
  apply diffsecpDigest_window
  · simp only [List.length_take, List.length_drop, hlen]
  · exact List.length_take_le 4 _
  · intro heq
    exact hne (by rw [heq])

/-- The digest tells transcripts of one length apart whose differing positions
lie among four consecutive ones: so every change of one byte, the flip of the
selftest, and every change of one recorded word or integer. -/
theorem diffsecpDigest_detects :
    (∀ (t t' : List UInt8) (i : ℕ), t.length = t'.length → t ≠ t' →
      (∀ j, t[j]? ≠ t'[j]? → i ≤ j ∧ j < i + 4) → diffsecpDigest t ≠ diffsecpDigest t') ∧
    (∀ (t : List UInt8) (i : Fin t.length) (b : UInt8), t[i] ≠ b →
      diffsecpDigest (t.set i b) ≠ diffsecpDigest t) ∧
    (∀ t : List UInt8, t ≠ [] → diffsecpDigest (selftestWrap t) ≠ diffsecpDigest t) ∧
    (∀ (pre suf : List UInt8) (v w : UInt32), v ≠ w →
      diffsecpDigest (pre ++ be32 v ++ suf) ≠ diffsecpDigest (pre ++ be32 w ++ suf)) ∧
    ∀ (pre suf : List UInt8) (v w : Int32), v ≠ w →
      diffsecpDigest (pre ++ be32 v.toUInt32 ++ suf) ≠
        diffsecpDigest (pre ++ be32 w.toUInt32 ++ suf) := by
  refine ⟨fun t t' i => diffsecpDigest_positions i, ?_, ?_, ?_, ?_⟩
  · intro t i b hb
    apply diffsecpDigest_positions i.val List.length_set
    · intro heq
      have hget := congrArg (·[i.val]?) heq
      simp only [List.getElem?_set_self i.isLt, List.getElem?_eq_getElem i.isLt,
        Option.some.injEq] at hget
      exact hb hget.symm
    · intro j hj
      by_cases hij : i.val = j
      · omega
      · exact absurd (List.getElem?_set_ne hij) hj
  · intro t ht
    apply diffsecpDigest_positions (t.length - 1)
    · rw [selftestWrap]
      split
      · exact List.length_modify ..
      · rfl
    · exact selftestWrap_ne ht
    · intro j hj
      rw [selftestWrap] at hj
      split at hj
      · rw [List.getElem?_modify] at hj
        split at hj
        · omega
        · simp at hj
      · exact absurd rfl hj
  · intro pre suf v w hne
    exact diffsecpDigest_window rfl (Nat.le_refl 4) fun heq => hne (be32_inj heq)
  · intro pre suf v w hne
    exact diffsecpDigest_window rfl (Nat.le_refl 4) fun heq => hne (be32_int_inj heq)

/-- A flipped bit in the middle of a transcript, the selftest's flip of its
end, and the two answers of a call. -/
theorem diffsecpDigest_detects_sample :
    diffsecpDigest [1, 2, 3, 4, 5, 6] ≠ diffsecpDigest [1, 2, 3, 4, 5, 7] ∧
      diffsecpDigest (selftestWrap [1, 2, 3]) ≠ diffsecpDigest [1, 2, 3] ∧
      diffsecpDigest ([9] ++ be32 (0 : Int32).toUInt32 ++ [7]) ≠
        diffsecpDigest ([9] ++ be32 (1 : Int32).toUInt32 ++ [7]) :=
  ⟨diffsecpDigest_detects.1 [1, 2, 3, 4, 5, 6] [1, 2, 3, 4, 5, 7] 2 rfl (by decide) (by
      intro j hj
      match j, hj with
      | 0, hj | 1, hj | 2, hj | 3, hj | 4, hj => exact absurd rfl hj
      | 5, _ => exact ⟨by decide, by decide⟩
      | j + 6, hj => exact absurd rfl hj),
    diffsecpDigest_detects.2.2.1 [1, 2, 3] (by decide),
    diffsecpDigest_detects.2.2.2.2 [9] [7] 0 1 (by decide)⟩

end Diffsecp
