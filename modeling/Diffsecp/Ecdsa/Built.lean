import Diffsecp.Ber.Length
import Diffsecp.Ecdsa.Parsed

/-!
# Ecdsa — Built

What `ecdsa_der_build` writes, decoded: the sequence and the two integers with
their lengths, for every input.
-/

namespace Diffsecp

open Interact Ber

variable {T : Types} {σ : Type} {lib : Build T σ}

/-! ## Length octets -/

/-- `octets` encode `len`, in the fewest octets unless the long form was asked
for where the short one is enough. -/
structure LengthOctets (octets : List UInt8) (len : ℕ) (longForm : Bool) : Prop where
  decodes : ∀ rest, decodeLength (octets ++ rest) = some (len, rest)
  minimal : Minimal octets len ↔ longForm = false ∨ 128 ≤ len

theorem decodeLength_ecdsaDerLen {len : ℕ} (h : len < 65536) (longForm : Bool)
    (rest : List UInt8) :
    decodeLength (ecdsaDerLen len longForm ++ rest) = some (len, rest) := by
  rw [ecdsaDerLen]
  split
  · rename_i hshort
    exact decodeLength_short hshort.1 rest
  · split
    · rename_i hone
      exact decodeLength_one hone rest
    · rw [Nat.shiftRight_eq_div_pow]
      exact decodeLength_two h rest

theorem ecdsaDerLen_length (len : ℕ) (longForm : Bool) :
    (ecdsaDerLen len longForm).length =
    if len < 128 ∧ longForm = false then 1 else if len < 256 then 2 else 3 := by
  rw [ecdsaDerLen]
  split
  · rfl
  · split <;> rfl

/-- There are no shorter octets, but for the long form below 128. -/
theorem ecdsaDerLen_minimal {len : ℕ} (h : len < 65536) (longForm : Bool) :
    Minimal (ecdsaDerLen len longForm) len ↔ longForm = false ∨ 128 ≤ len := by
  constructor
  · rintro ⟨-, hfewest⟩
    by_contra hlong
    rw [not_or, Bool.not_eq_false, Nat.not_le] at hlong
    obtain ⟨hlong, hshort⟩ := hlong
    have hone := hfewest [UInt8.ofNat len] (decodeLength_short hshort [])
    rw [ecdsaDerLen_length, hlong, if_neg (by simp), if_pos (by omega),
      List.length_singleton] at hone
    omega
  · intro hform
    refine ⟨?_, fun other hother => ?_⟩
    · rw [← List.append_nil (ecdsaDerLen len longForm), decodeLength_ecdsaDerLen h]
    · rw [ecdsaDerLen_length]
      rcases decodeLength_bound hother with ⟨hone, hlt⟩ | ⟨htwo, hlt⟩
      · have hshort : longForm = false := hform.resolve_right (by omega)
        rw [if_pos ⟨hlt, hshort⟩, hone]
      · split
        · omega
        · split
          · exact htwo
          · -- two octets hold no length from 256 on
            by_contra hfew
            have heq : other.length = 2 := by omega
            rw [heq] at hlt
            omega

theorem ecdsaDerLen_octets {len : ℕ} (h : len < 65536) (longForm : Bool) :
    LengthOctets (ecdsaDerLen len longForm) len longForm :=
  ⟨decodeLength_ecdsaDerLen h longForm, ecdsaDerLen_minimal h longForm⟩

/-! ## What is read -/

/-- `n` bytes of the input from `start` on, zeros past its end. -/
def inputBytes (inp : List UInt8) (start n : ℕ) : List UInt8 :=
  (List.range n).map fun i => inp.getD (start + i) 0

@[simp] theorem inputBytes_length (inp : List UInt8) (start n : ℕ) :
    (inputBytes inp start n).length = n := by
  rw [inputBytes, List.length_map, List.length_range]

theorem readerTakeBytes_drop (inp : List UInt8) (start n : ℕ) :
    (readerTakeBytes (inp.drop start) n).1.toList = inputBytes inp start n := by
  apply List.ext_getElem
  · rw [Vector.length_toList, inputBytes_length]
  · intro i hi hn
    rw [inputBytes_length] at hn
    rw [Vector.getElem_toList, readerTakeBytes_getElem _ _ _ hn]
    simp [inputBytes, List.getD_eq_getElem?_getD, List.getElem?_drop]

/-- What `ecdsa_der_build` reads, in order. -/
structure DerFields where
  flags : ℕ
  int0 : List UInt8
  int1 : List UInt8
  inside : List UInt8

def DerFields.shortBy (f : DerFields) : ℕ := (f.flags >>> 3) &&& 3

def derFields (inp : List UInt8) : DerFields :=
  let flags := (inp.getD 0 0).toNat
  let len0 := (inp.getD 1 0).toNat
  let len1 := (inp.getD (2 + len0) 0).toNat
  { flags := flags
    int0 := inputBytes inp 2 len0
    int1 := inputBytes inp (3 + len0) len1
    inside := inputBytes inp (3 + len0 + len1) ((flags >>> 3) &&& 3) }

/-- Bit `i` asks for a long form. -/
def DerFields.long (f : DerFields) (i : ℕ) : Bool := decide ((f.flags >>> i) &&& 1 ≠ 0)

/-- An element of the sequence. -/
def DerFields.element (f : DerFields) (i : ℕ) (value : List UInt8) : List UInt8 :=
  0x02 :: (ecdsaDerLen value.length (f.long i) ++ value)

theorem run_readerTake_drop (inp : List UInt8) (start n : ℕ) (s : σ) :
    (readerTake n : Harness T (Bytes n)).run reader lib (inp.drop start) s =
      ⟨(readerTakeBytes (inp.drop start) n).1, inp.drop (start + n), s, [], []⟩ := by
  show (⟨(readerTakeBytes (inp.drop start) n).1,
    (readerTakeBytes (inp.drop start) n).2, s, [], []⟩ : Outcome _ _ _ _ _) = _
  rw [readerTakeBytes_rest, List.drop_drop]

theorem run_readerU8_drop (inp : List UInt8) (start : ℕ) (s : σ) :
    (readerU8 : Harness T ℕ).run reader lib (inp.drop start) s =
      ⟨(inp.getD start 0).toNat, inp.drop (start + 1), s, [], []⟩ := by
  rw [run_readerU8, List.drop_drop, List.getD_eq_getElem?_getD,
    List.getElem?_drop, Nat.add_zero, List.getD_eq_getElem?_getD]

theorem run_ecdsaDerInteger (flags i : ℕ) (inp : List UInt8) (start : ℕ) (s : σ) :
    (ecdsaDerInteger flags i : Harness T (List UInt8)).run reader lib (inp.drop start) s =
      let len := (inp.getD start 0).toNat
      ⟨0x02 :: (ecdsaDerLen len (decide ((flags >>> (1 + i)) &&& 1 ≠ 0)) ++
        inputBytes inp (start + 1) len), inp.drop (start + 1 + len), s, [], []⟩ := by
  simp only [ecdsaDerInteger, Prog.run_bind, run_readerU8_drop, run_readerTake_drop,
    Prog.run_pure, readerTakeBytes_drop, List.append_nil, List.cons_append]

/-- What is written. -/
def derBuilt (f : DerFields) : List UInt8 :=
  let body := f.element 1 f.int0 ++ f.element 2 f.int1
  if f.flags &&& 32 ≠ 0 then
    0x30 :: (ecdsaDerLen (body ++ f.inside).length (f.long 0) ++ (body ++ f.inside))
  else
    0x30 :: (ecdsaDerLen (body.length - f.shortBy) (f.long 0) ++ body)

theorem run_ecdsaDerBuild (inp : List UInt8) (s : σ) :
    ((ecdsaDerBuild : Harness T (List UInt8)).run reader lib inp s).val =
      derBuilt (derFields inp) := by
  have hflags : (readerU8 : Harness T ℕ).run reader lib inp s =
      ⟨(inp.getD 0 0).toNat, inp.drop 1, s, [], []⟩ :=
    run_readerU8_drop inp 0 s
  rw [ecdsaDerBuild, Prog.run_bind, hflags]
  dsimp only
  rw [Prog.run_bind, run_ecdsaDerInteger]
  dsimp only
  rw [Prog.run_bind, run_ecdsaDerInteger]
  dsimp only
  have hsecond : 1 + 1 + (inp.getD 1 0).toNat = 2 + (inp.getD 1 0).toNat := by omega
  have hvalue : 2 + (inp.getD 1 0).toNat + 1 = 3 + (inp.getD 1 0).toNat := by omega
  rw [hsecond, hvalue, derBuilt]
  by_cases hinside : (inp.getD 0 0).toNat &&& 32 ≠ 0
  · have hset : (derFields inp).flags &&& 32 ≠ 0 := hinside
    rw [if_pos hinside, if_pos hset]
    simp only [Prog.run_bind, run_readerTake_drop, Prog.run_pure, readerTakeBytes_drop,
      DerFields.element, derFields, DerFields.long, inputBytes_length]
    rfl
  · have hclear : ¬ (derFields inp).flags &&& 32 ≠ 0 := hinside
    rw [if_neg hinside, if_neg hclear]
    simp only [Prog.run_bind, Prog.run_pure, DerFields.element, derFields, DerFields.long,
      inputBytes_length, DerFields.shortBy]
    rfl

/-! ## What it decodes to -/

/-- The integers are of one octet's length, and what is inside of two bits'. -/
structure DerFields.Bounded (f : DerFields) : Prop where
  int0 : f.int0.length < 256
  int1 : f.int1.length < 256
  inside : f.inside.length = f.shortBy
  shortBy : f.shortBy ≤ 3

theorem derFields_bounded (inp : List UInt8) : (derFields inp).Bounded where
  int0 := by
    rw [derFields, inputBytes_length]
    exact UInt8.toNat_lt _
  int1 := by
    rw [derFields, inputBytes_length]
    exact UInt8.toNat_lt _
  inside := by
    rw [derFields, inputBytes_length]
    rfl
  shortBy := Nat.and_le_right

/-- A text is a sequence of the two integers, with the length octets asked
for: nothing follows them and the length is short, or what follows is
inside. -/
structure DerFields.DecodesTo (f : DerFields)
    (out octets octets₀ octets₁ : List UInt8) (len : ℕ)
    (content tail after : List UInt8) : Prop where
  out_eq : out = 0x30 :: (octets ++ content)
  content_eq : content = 0x02 :: (octets₀ ++ (f.int0 ++ tail))
  tail_eq : tail = 0x02 :: (octets₁ ++ (f.int1 ++ after))
  sequence : decodeHeader out = some (0x30, len, content)
  first : decodeElement content = some (0x02, f.int0, tail)
  second : decodeElement tail = some (0x02, f.int1, after)
  clear : f.flags &&& 32 = 0 → after = [] ∧ f.shortBy ≤ content.length ∧
    len = content.length - f.shortBy
  set : f.flags &&& 32 ≠ 0 → after = f.inside ∧ len = content.length
  octets_len : LengthOctets octets len (f.long 0)
  octets₀_len : LengthOctets octets₀ f.int0.length (f.long 1)
  octets₁_len : LengthOctets octets₁ f.int1.length (f.long 2)

/-- The two integers and what follows them. -/
def DerFields.body (f : DerFields) (after : List UInt8) : List UInt8 :=
  f.element 1 f.int0 ++ f.element 2 f.int1 ++ after

theorem DerFields.Bounded.body_length {f : DerFields} (hf : f.Bounded)
    {after : List UInt8} (h : after.length ≤ 3) :
    4 ≤ (f.body after).length ∧ (f.body after).length < 65536 := by
  have hint0 := hf.int0
  have hint1 := hf.int1
  have hpos0 := ecdsaDerLen_length_pos f.int0.length (f.long 1)
  have hpos1 := ecdsaDerLen_length_pos f.int1.length (f.long 2)
  have hle0 := ecdsaDerLen_length_le f.int0.length (f.long 1)
  have hle1 := ecdsaDerLen_length_le f.int1.length (f.long 2)
  simp only [DerFields.body, DerFields.element, List.length_append, List.length_cons]
  omega

theorem DerFields.Bounded.decodes {f : DerFields} (hf : f.Bounded) {len : ℕ}
    {after : List UInt8} (hlen : len < 65536) (hclear : f.flags &&& 32 = 0 →
      after = [] ∧ f.shortBy ≤ (f.body after).length ∧
      len = (f.body after).length - f.shortBy)
    (hset : f.flags &&& 32 ≠ 0 → after = f.inside ∧ len = (f.body after).length) :
    f.DecodesTo (0x30 :: (ecdsaDerLen len (f.long 0) ++ f.body after))
      (ecdsaDerLen len (f.long 0))
      (ecdsaDerLen f.int0.length (f.long 1)) (ecdsaDerLen f.int1.length (f.long 2)) len
      (f.body after)
      (f.element 2 f.int1 ++ after) after := by
  have h := ecdsaDerLen_octets hlen (f.long 0)
  have h0 : LengthOctets _ f.int0.length (f.long 1) :=
    ecdsaDerLen_octets (Nat.lt_trans hf.int0 (by decide)) (f.long 1)
  have h1 : LengthOctets _ f.int1.length (f.long 2) :=
    ecdsaDerLen_octets (Nat.lt_trans hf.int1 (by decide)) (f.long 2)
  have htail : f.element 2 f.int1 ++ after =
      0x02 :: (ecdsaDerLen f.int1.length (f.long 2) ++ (f.int1 ++ after)) := by
    simp only [DerFields.element, List.append_assoc, List.cons_append]
  have hcontent : f.body after =
      0x02 :: (ecdsaDerLen f.int0.length (f.long 1) ++
        (f.int0 ++ (f.element 2 f.int1 ++ after))) := by
    simp only [DerFields.body, DerFields.element, List.append_assoc, List.cons_append]
  refine ⟨rfl, hcontent, htail, decodeHeader_append (h.decodes _), ?_, ?_, hclear,
    hset, h, h0, h1⟩
  · rw [hcontent]
    exact decodeElement_append (h0.decodes _)
  · rw [htail]
    exact decodeElement_append (h1.decodes _)

theorem derBuilt_decodes {f : DerFields} (hf : f.Bounded) :
    ∃ octets octets₀ octets₁ len content tail after,
      f.DecodesTo (derBuilt f) octets octets₀ octets₁ len content tail after := by
  by_cases hset : f.flags &&& 32 ≠ 0
  · obtain ⟨-, hlt⟩ := hf.body_length (hf.inside ▸ hf.shortBy : f.inside.length ≤ 3)
    rw [derBuilt, if_pos hset]
    exact ⟨_, _, _, _, _, _, _,
      hf.decodes hlt (fun h => absurd h hset) fun _ => ⟨rfl, rfl⟩⟩
  · have hempty : ([] : List UInt8).length ≤ 3 := Nat.zero_le 3
    obtain ⟨hge, hlt⟩ := hf.body_length hempty
    have hshort := hf.shortBy
    have hbody : f.body [] = f.element 1 f.int0 ++ f.element 2 f.int1 := List.append_nil _
    rw [derBuilt, if_neg hset, ← hbody]
    exact ⟨_, _, _, _, _, _, _, hf.decodes (Nat.lt_of_le_of_lt (Nat.sub_le _ _) hlt)
      (fun _ => ⟨rfl, Nat.le_trans hshort (Nat.le_trans (by decide) hge), rfl⟩) fun h =>
        absurd h hset⟩

/-- For every input, what is built decodes to the integers that were read. -/
theorem ecdsaDerBuild_decodes (lib : Build T σ) (s : σ) (inp : List UInt8) :
    (derFields inp).int0.length < 256 ∧ (derFields inp).int1.length < 256 ∧
    ∃ octets octets₀ octets₁ len content tail after,
      (derFields inp).DecodesTo
        ((ecdsaDerBuild : Harness T (List UInt8)).run reader lib inp s).val octets octets₀
        octets₁ len content tail after := by
  have hf := derFields_bounded inp
  refine ⟨hf.int0, hf.int1, ?_⟩
  rw [run_ecdsaDerBuild]
  exact derBuilt_decodes hf

end Diffsecp
