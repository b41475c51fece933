import Mathlib.Tactic.IntervalCases
import Diffsecp.Buffer
import Diffsecp.Sha256.Standard

/-!
# Sha256 — Compress

`sha256_compress` of `src/sha256.h` on its arrays, which is the standard's
compression of one block after the other.
-/

namespace Diffsecp

open Fips180

/-! ## The function -/

def sha256K : List UInt32 :=
  [0x428a2f98, 0x71374491, 0xb5c0fbcf, 0xe9b5dba5, 0x3956c25b, 0x59f111f1,
    0x923f82a4, 0xab1c5ed5,
    0xd807aa98, 0x12835b01, 0x243185be, 0x550c7dc3, 0x72be5d74, 0x80deb1fe,
    0x9bdc06a7, 0xc19bf174,
    0xe49b69c1, 0xefbe4786, 0x0fc19dc6, 0x240ca1cc, 0x2de92c6f, 0x4a7484aa,
    0x5cb0a9dc, 0x76f988da,
    0x983e5152, 0xa831c66d, 0xb00327c8, 0xbf597fc7, 0xc6e00bf3, 0xd5a79147,
    0x06ca6351, 0x14292967,
    0x27b70a85, 0x2e1b2138, 0x4d2c6dfc, 0x53380d13, 0x650a7354, 0x766a0abb,
    0x81c2c92e, 0x92722c85,
    0xa2bfe8a1, 0xa81a664b, 0xc24b8b70, 0xc76c51a3, 0xd192e819, 0xd6990624,
    0xf40e3585, 0x106aa070,
    0x19a4c116, 0x1e376c08, 0x2748774c, 0x34b0bcb5, 0x391c0cb3, 0x4ed8aa4a,
    0x5b9cca4f, 0x682e6ff3,
    0x748f82ee, 0x78a5636f, 0x84c87814, 0x8cc70208, 0x90befffa, 0xa4506ceb,
    0xbef9a3f7, 0xc67178f2]

def sha256Rotr (x n : UInt32) : UInt32 := (x >>> n) ||| (x <<< (32 - n))

/-- `w[i]` and on, from the bytes of the block. -/
def sha256Load (blocks64 : List UInt8) : ℕ → ℕ → Buf UInt32 64 → Option (Buf UInt32 64)
  | 0, _, w => some w
  | left + 1, i, w => do
      let b₀ ← blocks64[4 * i]?
      let b₁ ← blocks64[4 * i + 1]?
      let b₂ ← blocks64[4 * i + 2]?
      let b₃ ← blocks64[4 * i + 3]?
      let w ← w.store? i
        (b₀.toUInt32 <<< 24 ||| b₁.toUInt32 <<< 16 ||| b₂.toUInt32 <<< 8 ||| b₃.toUInt32)
      sha256Load blocks64 left (i + 1) w

/-- `w[i]` and on, from earlier ones. -/
def sha256Extend : ℕ → ℕ → Buf UInt32 64 → Option (Buf UInt32 64)
  | 0, _, w => some w
  | left + 1, i, w => do
      let w16 ← w.load? (i - 16)
      let w7 ← w.load? (i - 7)
      let w15 ← w.load? (i - 15)
      let w2 ← w.load? (i - 2)
      let w ← w.store? i
        (w16 + w7 + (sha256Rotr w15 7 ^^^ sha256Rotr w15 18 ^^^ (w15 >>> 3)) +
          (sha256Rotr w2 17 ^^^ sha256Rotr w2 19 ^^^ (w2 >>> 10)))
      sha256Extend left (i + 1) w

/-- One round: `v` is moved up by one and two of its elements are replaced. -/
def sha256Round (w : Buf UInt32 64) (i : ℕ) (v : Buf UInt32 8) :
    Option (Buf UInt32 8) := do
  let v0 ← v.load? 0
  let v1 ← v.load? 1
  let v2 ← v.load? 2
  let v4 ← v.load? 4
  let v5 ← v.load? 5
  let v6 ← v.load? 6
  let v7 ← v.load? 7
  let k ← sha256K[i]?
  let x ← w.load? i
  let t1 := v7 + (sha256Rotr v4 6 ^^^ sha256Rotr v4 11 ^^^ sha256Rotr v4 25) +
    ((v4 &&& v5) ^^^ (~~~v4 &&& v6)) + k + x
  let t2 := (sha256Rotr v0 2 ^^^ sha256Rotr v0 13 ^^^ sha256Rotr v0 22) +
    ((v0 &&& v1) ^^^ (v0 &&& v2) ^^^ (v1 &&& v2))
  let v ← v.moveList? 1 0 7
  let d ← v.load? 4
  let v ← v.store? 4 (d + t1)
  v.store? 0 (t1 + t2)

def sha256Rounds (w : Buf UInt32 64) : ℕ → ℕ → Buf UInt32 8 → Option (Buf UInt32 8)
  | 0, _, v => some v
  | left + 1, i, v => do
      let v ← sha256Round w i v
      sha256Rounds w left (i + 1) v

def sha256AddBack (v : Buf UInt32 8) : ℕ → ℕ → Buf UInt32 8 → Option (Buf UInt32 8)
  | 0, _, state => some state
  | left + 1, i, state => do
      let s ← state.load? i
      let x ← v.load? i
      let state ← state.store? i (s + x)
      sha256AddBack v left (i + 1) state

/-- The loop over the blocks, which share `w` and `v`. -/
def sha256Blocks :
    ℕ → List UInt8 → Buf UInt32 64 → Buf UInt32 8 → Buf UInt32 8 → Option (Buf UInt32 8)
  | 0, _, _, _, state => some state
  | n_blocks + 1, blocks64, w, v, state => do
      let w ← sha256Load blocks64 16 0 w
      let w ← sha256Extend 48 16 w
      let words ← state.loadList? 0 8
      let v ← v.storeList? 0 words
      let v ← sha256Rounds w 64 0 v
      let state ← sha256AddBack v 8 0 state
      sha256Blocks n_blocks (blocks64.drop 64) w v state

def sha256Compress (state : Buf UInt32 8) (blocks64 : List UInt8) (n_blocks : ℕ) :
    Option (Buf UInt32 8) :=
  sha256Blocks n_blocks blocks64 (Buf.uninit 64) (Buf.uninit 8) state

/-! ## Its words -/

theorem sha256Rotr_eq (x : UInt32) {n : UInt32} (hpos : 0 < n.toNat) (hn : n.toNat < 32) :
    (sha256Rotr x n).toBitVec = x.toBitVec.rotateRight n.toNat := by
  have hle : n ≤ 32 := UInt32.le_iff_toNat_le.mpr (Nat.le_of_lt hn)
  have hsub : (32 - n).toNat = 32 - n.toNat := UInt32.toNat_sub_of_le _ _ hle
  have hright : x.toBitVec >>> (n.toBitVec % 32) = x.toBitVec >>> n.toNat := by
    rw [BitVec.ushiftRight_eq', BitVec.toNat_umod]
    congr 1
    exact Nat.mod_eq_of_lt hn
  have hleft :
      x.toBitVec <<< ((32 - n).toBitVec % 32) = x.toBitVec <<< (32 - n.toNat) := by
    rw [BitVec.shiftLeft_eq', BitVec.toNat_umod, UInt32.toNat_toBitVec, hsub]
    congr 1
    exact Nat.mod_eq_of_lt (Nat.sub_lt (by decide) hpos)
  rw [sha256Rotr, UInt32.toBitVec_or, UInt32.toBitVec_shiftRight,
    UInt32.toBitVec_shiftLeft, hright, hleft, BitVec.rotateRight_def, Nat.mod_eq_of_lt hn]

/-- What the code xors, and the standard's functions. -/
theorem sigma_eq (x : UInt32) :
    (sha256Rotr x 2 ^^^ sha256Rotr x 13 ^^^ sha256Rotr x 22).toBitVec =
      bigSigma0 x.toBitVec ∧
      (sha256Rotr x 6 ^^^ sha256Rotr x 11 ^^^ sha256Rotr x 25).toBitVec =
        bigSigma1 x.toBitVec ∧
      (sha256Rotr x 7 ^^^ sha256Rotr x 18 ^^^ (x >>> 3)).toBitVec =
        smallSigma0 x.toBitVec ∧
      (sha256Rotr x 17 ^^^ sha256Rotr x 19 ^^^ (x >>> 10)).toBitVec =
        smallSigma1 x.toBitVec := by
  refine ⟨?_, ?_, ?_, ?_⟩
  all_goals
    rw [UInt32.toBitVec_xor, UInt32.toBitVec_xor, sha256Rotr_eq x (by decide) (by decide),
      sha256Rotr_eq x (by decide) (by decide)]
  · rw [sha256Rotr_eq x (by decide) (by decide)]
    rfl
  · rw [sha256Rotr_eq x (by decide) (by decide)]
    rfl
  · rfl
  · rfl

/-- A later word of the schedule. -/
theorem extend_word (x16 x7 x15 x2 : UInt32) :
    x16 + x7 + (sha256Rotr x15 7 ^^^ sha256Rotr x15 18 ^^^ (x15 >>> 3)) +
        (sha256Rotr x2 17 ^^^ sha256Rotr x2 19 ^^^ (x2 >>> 10)) =
      ⟨smallSigma1 x2.toBitVec + x7.toBitVec + smallSigma0 x15.toBitVec +
        x16.toBitVec⟩ := by
  obtain ⟨-, -, hsigma0, -⟩ := sigma_eq x15
  obtain ⟨-, -, -, hsigma1⟩ := sigma_eq x2
  apply UInt32.toBitVec_inj.mp
  rw [UInt32.toBitVec_add, UInt32.toBitVec_add, UInt32.toBitVec_add, hsigma0, hsigma1]
  ac_rfl

theorem byte_shift (b : UInt8) {n : UInt32} (hn : n.toNat ≤ 24) :
    (b.toUInt32 <<< n).toNat = 2 ^ n.toNat * b.toNat := by
  have hb := b.toNat_lt
  have hlt : 2 ^ n.toNat * b.toNat < 2 ^ 32 :=
    calc
      2 ^ n.toNat * b.toNat < 2 ^ n.toNat * 2 ^ 8 :=
        Nat.mul_lt_mul_of_pos_left hb (Nat.two_pow_pos _)
      _ ≤ 2 ^ 24 * 2 ^ 8 := Nat.mul_le_mul_right _ (Nat.pow_le_pow_right (by decide) hn)
  rw [UInt32.toNat_shiftLeft, UInt8.toNat_toUInt32,
    Nat.mod_eq_of_lt (Nat.lt_of_le_of_lt hn (by decide)),
    Nat.shiftLeft_eq, Nat.mul_comm, Nat.mod_eq_of_lt hlt]

/-- The big-endian word of four bytes. -/
theorem bytes_word (b₀ b₁ b₂ b₃ : UInt8) :
    b₀.toUInt32 <<< 24 ||| b₁.toUInt32 <<< 16 ||| b₂.toUInt32 <<< 8 ||| b₃.toUInt32 =
      ⟨BitVec.ofNat 32
        (b₀.toNat * 2 ^ 24 + b₁.toNat * 2 ^ 16 + b₂.toNat * 2 ^ 8 + b₃.toNat)⟩ := by
  have h₀ := b₀.toNat_lt
  have h₁ := b₁.toNat_lt
  have h₂ := b₂.toNat_lt
  have h₃ := b₃.toNat_lt
  have h24 : (b₀.toUInt32 <<< 24).toNat = 2 ^ 24 * b₀.toNat :=
    byte_shift b₀ (n := 24) (by decide)
  have h16 : (b₁.toUInt32 <<< 16).toNat = 2 ^ 16 * b₁.toNat :=
    byte_shift b₁ (n := 16) (by decide)
  have h8 : (b₂.toUInt32 <<< 8).toNat = 2 ^ 8 * b₂.toNat :=
    byte_shift b₂ (n := 8) (by decide)
  -- each byte lands below the ones before it, so `|||` adds
  have hfirst : 2 ^ 24 * b₀.toNat ||| 2 ^ 16 * b₁.toNat =
      2 ^ 16 * (2 ^ 8 * b₀.toNat + b₁.toNat) := by
    rw [← Nat.two_pow_add_eq_or_of_lt (by omega)]
    ring
  have hsecond : 2 ^ 16 * (2 ^ 8 * b₀.toNat + b₁.toNat) ||| 2 ^ 8 * b₂.toNat =
      2 ^ 8 * (2 ^ 16 * b₀.toNat + 2 ^ 8 * b₁.toNat + b₂.toNat) := by
    rw [← Nat.two_pow_add_eq_or_of_lt (by omega)]
    ring
  apply UInt32.toNat_inj.mp
  rw [UInt32.toNat_or, UInt32.toNat_or, UInt32.toNat_or, h24, h16, h8,
    UInt8.toNat_toUInt32, hfirst, hsecond, ← Nat.two_pow_add_eq_or_of_lt h₃]
  show _ = (BitVec.ofNat 32 _).toNat
  rw [BitVec.toNat_ofNat, Nat.mod_eq_of_lt (by omega)]
  ring

/-- An array of eight words. -/
def wordsBuf (s : Variables) : Buf UInt32 8 :=
  #v[some ⟨s.a⟩, some ⟨s.b⟩, some ⟨s.c⟩, some ⟨s.d⟩, some ⟨s.e⟩, some ⟨s.f⟩,
    some ⟨s.g⟩, some ⟨s.h⟩]

theorem sha256Round_eq {w : Buf UInt32 64} {i : ℕ} {K W : Word}
    (hk : sha256K[i]? = some ⟨K⟩) (hw : w.load? i = some ⟨W⟩) (s : Variables) :
    sha256Round w i (wordsBuf s) = some (wordsBuf (round K W s)) := by
  have h0 : (wordsBuf s).load? 0 = some ⟨s.a⟩ := rfl
  have h1 : (wordsBuf s).load? 1 = some ⟨s.b⟩ := rfl
  have h2 : (wordsBuf s).load? 2 = some ⟨s.c⟩ := rfl
  have h4 : (wordsBuf s).load? 4 = some ⟨s.e⟩ := rfl
  have h5 : (wordsBuf s).load? 5 = some ⟨s.f⟩ := rfl
  have h6 : (wordsBuf s).load? 6 = some ⟨s.g⟩ := rfl
  have h7 : (wordsBuf s).load? 7 = some ⟨s.h⟩ := rfl
  have hmove : (wordsBuf s).moveList? 1 0 7 =
      some (wordsBuf ⟨s.a, s.a, s.b, s.c, s.d, s.e, s.f, s.g⟩) := rfl
  have hstore (d : Word) (t : UInt32) :
      (wordsBuf ⟨s.a, s.a, s.b, s.c, d, s.e, s.f, s.g⟩).store? 4 t =
      some (wordsBuf ⟨s.a, s.a, s.b, s.c, t.toBitVec, s.e, s.f, s.g⟩) := rfl
  have hlast (e : Word) (t : UInt32) :
      (wordsBuf ⟨s.a, s.a, s.b, s.c, e, s.e, s.f, s.g⟩).store? 0 t =
      some (wordsBuf ⟨t.toBitVec, s.a, s.b, s.c, e, s.e, s.f, s.g⟩) := rfl
  have hd : (wordsBuf ⟨s.a, s.a, s.b, s.c, s.d, s.e, s.f, s.g⟩).load? 4 =
      some ⟨s.d⟩ := rfl
  rw [sha256Round]
  simp only [h0, h1, h2, h4, h5, h6, h7, hk, hw, hmove, hd, hstore, hlast,
    Option.bind_eq_bind, Option.bind_some,
    UInt32.toBitVec_add, (sigma_eq _).1, (sigma_eq _).2.1]
  rfl

/-! ## Its constants -/

theorem sha256K_eq {t : ℕ} (ht : t < 64) : sha256K[t]? = some ⟨roundConstant t⟩ := by
  -- the integer part of the root is below 7, and the constant ends its first 32 bits
  have hall : ∀ t < 64, ∃ m < 7,
      (m * 2 ^ 32 + (sha256K.getD t 0).toNat) ^ 3 ≤ firstPrimes.getD t 0 * 2 ^ 96 ∧
      firstPrimes.getD t 0 * 2 ^ 96 <
        (m * 2 ^ 32 + (sha256K.getD t 0).toNat + 1) ^ 3 := by decide +kernel
  have hprime : t < firstPrimes.length := ht
  have hconstant : t < sha256K.length := ht
  obtain ⟨m, -, hlow, hhigh⟩ := hall t ht
  rw [List.getD_eq_getElem _ _ hprime, List.getD_eq_getElem _ _ hconstant] at hlow hhigh
  have hbits := fractionBits_cbrt (sha256K[t].toNat_lt) hlow hhigh
  rw [roundConstant, nth_prime (List.getElem?_eq_getElem hprime), hbits,
    List.getElem?_eq_getElem hconstant]
  exact congrArg some UInt32.ofNat_toNat.symm

/-! ## Its loops -/

/-- The schedule's first words. -/
def scheduleWords (M : ℕ → Word) (t : ℕ) : List UInt32 :=
  (List.range t).map fun t => ⟨schedule M t⟩

@[simp] theorem scheduleWords_length (M : ℕ → Word) (t : ℕ) :
    (scheduleWords M t).length = t := by
  rw [scheduleWords, List.length_map, List.length_range]

theorem scheduleWords_succ (M : ℕ → Word) (t : ℕ) :
    scheduleWords M (t + 1) = scheduleWords M t ++ [⟨schedule M t⟩] := by
  rw [scheduleWords, List.range_succ, List.map_append, List.map_singleton]
  rfl

theorem load_scheduleWords {w : Buf UInt32 64} {M : ℕ → Word} {i t : ℕ}
    (hw : w.Holds (scheduleWords M i)) (ht : t < i) :
    w.load? t = some ⟨schedule M t⟩ := by
  have hlen : t < (scheduleWords M i).length := by rwa [scheduleWords_length]
  rw [hw.load? hlen]
  simp [scheduleWords]

/-- One more word of the schedule. -/
theorem store_scheduleWords {w : Buf UInt32 64} {M : ℕ → Word} {i : ℕ}
    (hw : w.Holds (scheduleWords M i)) (hi : i < 64) {x : UInt32}
    (hx : x = ⟨schedule M i⟩) :
    ∃ w', w.store? i x = some w' ∧ w'.Holds (scheduleWords M (i + 1)) := by
  have hpush := hw.push (x := x) (by rwa [scheduleWords_length])
  rwa [scheduleWords_length, hx, ← scheduleWords_succ, ← hx] at hpush

theorem Block.getElem? (block : Block) (rest : List UInt8) {i : ℕ} (hi : i < 64) :
    (block.toList ++ rest)[i]? = some (block.toList.getD i 0) := by
  have hlen : i < block.toList.length := by rwa [Vector.length_toList]
  rw [List.getElem?_append_left hlen, List.getElem?_eq_getElem hlen,
    List.getD_eq_getElem _ _ hlen]

theorem sha256Load_holds (block : Block) (rest : List UInt8) {left i : ℕ}
    {w : Buf UInt32 64} (hi : i + left = 16) (hw : w.Holds (scheduleWords block.word i)) :
    ∃ w', sha256Load (block.toList ++ rest) left i w = some w' ∧
      w'.Holds (scheduleWords block.word 16) := by
  induction left generalizing i w with
  | zero =>
      rw [Nat.add_zero] at hi
      subst hi
      exact ⟨w, rfl, hw⟩
  | succ left ih =>
      have hword : schedule block.word i = block.word i := by
        rw [schedule, if_pos (by omega)]
      obtain ⟨w₁, hstore, hw₁⟩ := store_scheduleWords hw (by omega)
        ((bytes_word _ _ _ _).trans (congrArg _ hword.symm))
      obtain ⟨w₂, hload, hw₂⟩ := ih (by omega) hw₁
      refine ⟨w₂, ?_, hw₂⟩
      rw [sha256Load, Block.getElem? block rest (by omega),
        Block.getElem? block rest (by omega),
        Block.getElem? block rest (by omega), Block.getElem? block rest (by omega)]
      simp only [Option.bind_eq_bind, Option.bind_some]
      rw [← hload, ← Option.bind_some (f := sha256Load _ left (i + 1)), ← hstore]
      rfl

theorem sha256Extend_holds {M : ℕ → Word} {left i : ℕ} {w : Buf UInt32 64}
    (hfirst : 16 ≤ i) (hi : i + left = 64) (hw : w.Holds (scheduleWords M i)) :
    ∃ w', sha256Extend left i w = some w' ∧ w'.Holds (scheduleWords M 64) := by
  induction left generalizing i w with
  | zero =>
      rw [Nat.add_zero] at hi
      subst hi
      exact ⟨w, rfl, hw⟩
  | succ left ih =>
      have hword : schedule M i = smallSigma1 (schedule M (i - 2)) + schedule M (i - 7) +
          smallSigma0 (schedule M (i - 15)) + schedule M (i - 16) := by
        rw [schedule, if_neg (by omega)]
      rw [sha256Extend, load_scheduleWords hw (by omega),
        load_scheduleWords hw (by omega),
        load_scheduleWords hw (by omega), load_scheduleWords hw (by omega)]
      simp only [Option.bind_eq_bind, Option.bind_some]
      have hnext :=
        (extend_word ⟨schedule M (i - 16)⟩ ⟨schedule M (i - 7)⟩ ⟨schedule M (i - 15)⟩
          ⟨schedule M (i - 2)⟩).trans (congrArg _ hword.symm)
      obtain ⟨w₁, hstore, hw₁⟩ := store_scheduleWords hw (by omega) hnext
      obtain ⟨w₂, hextend, hw₂⟩ := ih (by omega) (by omega) hw₁
      refine ⟨w₂, ?_, hw₂⟩
      rw [hstore, Option.bind_some, hextend]

theorem sha256Rounds_eq {w : Buf UInt32 64} {M : ℕ → Word}
    (hw : w.Holds (scheduleWords M 64)) (s : Variables) {left i : ℕ}
    (hi : i + left = 64) :
    sha256Rounds w left i (wordsBuf (rounds roundConstant (schedule M) s i)) =
      some (wordsBuf (rounds roundConstant (schedule M) s 64)) := by
  induction left generalizing i with
  | zero =>
      rw [Nat.add_zero] at hi
      subst hi
      rfl
  | succ left ih =>
      rw [sha256Rounds,
        sha256Round_eq (sha256K_eq (by omega)) (load_scheduleWords hw (by omega)),
        Option.bind_eq_bind, Option.bind_some]
      exact ih (by omega)

theorem sha256AddBack_eq (s v : Variables) :
    sha256AddBack (wordsBuf v) 8 0 (wordsBuf s) = some (wordsBuf (s.add v)) :=
  rfl

/-- The state is copied over whatever the last block left. -/
theorem storeList?_words (v : Buf UInt32 8) (s : Variables) :
    ∃ words, (wordsBuf s).loadList? 0 8 = some words ∧
      v.storeList? 0 words = some (wordsBuf s) := by
  obtain ⟨v', hstore, hv'⟩ :=
    Buf.holds_store (l := [⟨s.a⟩, ⟨s.b⟩, ⟨s.c⟩, ⟨s.d⟩, ⟨s.e⟩, ⟨s.f⟩, ⟨s.g⟩, ⟨s.h⟩]) v
    (Nat.le_refl 8)
  have hwords :
      (wordsBuf s).Holds [⟨s.a⟩, ⟨s.b⟩, ⟨s.c⟩, ⟨s.d⟩, ⟨s.e⟩, ⟨s.f⟩, ⟨s.g⟩, ⟨s.h⟩] := by
    intro j hj
    change j < 8 at hj
    interval_cases j <;> rfl
  refine ⟨_, rfl, ?_⟩
  rw [hstore, hv'.eq hwords (Nat.le_refl 8)]

/-! ## The function and the standard's -/

/-- Bytes of blocks. -/
def blockBytes (blocks : List Block) : List UInt8 := blocks.flatMap Vector.toList

theorem sha256Blocks_eq (blocks : List Block) (rest : List UInt8) (w : Buf UInt32 64)
    (v : Buf UInt32 8) (H : Variables) :
    sha256Blocks blocks.length (blockBytes blocks ++ rest) w v (wordsBuf H) =
      some (wordsBuf (hashBlocks H blocks)) := by
  induction blocks generalizing w v H with
  | nil => rfl
  | cons block blocks ih =>
      obtain ⟨w₁, hload, hw₁⟩ :=
        sha256Load_holds block (blockBytes blocks ++ rest) (by decide : 0 + 16 = 16)
        (Buf.holds_nil w)
      obtain ⟨w₂, hextend, hw₂⟩ :=
        sha256Extend_holds (Nat.le_refl 16) (by decide : 16 + 48 = 64) hw₁
      obtain ⟨words, hwords, hcopy⟩ := storeList?_words v H
      have hrounds := sha256Rounds_eq hw₂ H (by decide : 0 + 64 = 64)
      have hbytes : blockBytes (block :: blocks) ++ rest =
          block.toList ++ (blockBytes blocks ++ rest) := by
        rw [blockBytes, List.flatMap_cons, List.append_assoc]
        rfl
      have hdrop : (block.toList ++ (blockBytes blocks ++ rest)).drop 64 =
          blockBytes blocks ++ rest :=
        List.drop_left' Vector.length_toList
      rw [rounds] at hrounds
      rw [List.length_cons, sha256Blocks, hbytes, hload]
      simp only [Option.bind_eq_bind, Option.bind_some, hextend, hwords, hcopy, hrounds,
        sha256AddBack_eq, hdrop]
      exact ih w₂ _ _

/-- For every state and every number of blocks, nothing is accessed outside its
array or before it is set, the state becomes the standard's fold over the
blocks, and blocks can be compressed in two calls. -/
theorem sha256Compress_eq :
    (∀ H blocks, sha256Compress (wordsBuf H) (blockBytes blocks) blocks.length =
      some (wordsBuf (hashBlocks H blocks))) ∧
    ∀ H blocks blocks', sha256Compress (wordsBuf H) (blockBytes (blocks ++ blocks'))
      (blocks.length + blocks'.length) =
      (sha256Compress (wordsBuf H) (blockBytes blocks) blocks.length).bind fun state =>
        sha256Compress state (blockBytes blocks') blocks'.length := by
  have hcompress (H : Variables) (blocks : List Block) :
      sha256Compress (wordsBuf H) (blockBytes blocks) blocks.length =
      some (wordsBuf (hashBlocks H blocks)) := by
    rw [sha256Compress]
    have h := sha256Blocks_eq blocks [] (Buf.uninit 64) (Buf.uninit 8) H
    rwa [List.append_nil] at h
  refine ⟨hcompress, fun H blocks blocks' => ?_⟩
  rw [← List.length_append, hcompress, hcompress, Option.bind_some, hcompress, hashBlocks,
    List.foldl_append]
  rfl

-- the one block of the message "abc"
example : sha256Compress
    #v[some 0x6a09e667, some 0xbb67ae85, some 0x3c6ef372, some 0xa54ff53a,
      some 0x510e527f, some 0x9b05688c, some 0x1f83d9ab, some 0x5be0cd19]
    ([97, 98, 99, 128] ++ List.replicate 59 0 ++ [24]) 1 =
    some #v[some 0xba7816bf, some 0x8f01cfea, some 0x414140de, some 0x5dae2223,
      some 0xb00361a3, some 0x96177a9c, some 0xb410ff61, some 0xf20015ad] := by
  decide +kernel

end Diffsecp
