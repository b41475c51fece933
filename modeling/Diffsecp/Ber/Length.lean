import Mathlib.Data.List.Basic
import Mathlib.Tactic.Ring

/-!
# Ber — Length

The definite-length part of the Basic Encoding Rules: length octets and
elements of a tag, a length and a value, decoded from the start of a text.
-/

namespace Ber

/-- Big-endian. -/
def ofOctets (l : List UInt8) : ℕ := l.foldl (fun n b => n * 256 + b.toNat) 0

/-- A length and what follows it: the short form below 128, or a count of
octets. 0x80 is the indefinite form and 0xff is reserved. -/
def decodeLength : List UInt8 → Option (ℕ × List UInt8)
  | [] => none
  | b :: rest =>
      if b.toNat < 128 then some (b.toNat, rest)
      else if b.toNat = 128 ∨ b.toNat = 255 ∨ rest.length < b.toNat - 128 then none
      else some (ofOctets (rest.take (b.toNat - 128)), rest.drop (b.toNat - 128))

/-- A tag, a length and what follows them. -/
def decodeHeader : List UInt8 → Option (UInt8 × ℕ × List UInt8)
  | [] => none
  | tag :: rest => (decodeLength rest).map fun p => (tag, p.1, p.2)

/-- A tag, a value and what follows them. -/
def decodeElement (text : List UInt8) : Option (UInt8 × List UInt8 × List UInt8) :=
  (decodeHeader text).bind fun h =>
    if h.2.2.length < h.2.1 then none else some (h.1, h.2.2.take h.2.1, h.2.2.drop h.2.1)

/-- The Distinguished Encoding Rules ask for the fewest octets. -/
def Minimal (octets : List UInt8) (len : ℕ) : Prop :=
  decodeLength octets = some (len, []) ∧ ∀ other, decodeLength other = some (len, []) →
    octets.length ≤ other.length

/-! ## Lengths -/

theorem ofOctets_foldl_lt (l : List UInt8) (n : ℕ) :
    l.foldl (fun n b => n * 256 + b.toNat) n < (n + 1) * 256 ^ l.length := by
  induction l generalizing n with
  | nil => simp
  | cons b l ih =>
      have hb : b.toNat < 256 := b.toNat_lt
      calc
        (b :: l).foldl (fun n b => n * 256 + b.toNat) n <
        (n * 256 + b.toNat + 1) * 256 ^ l.length := ih _
        _ ≤ ((n + 1) * 256) * 256 ^ l.length := Nat.mul_le_mul_right _ (by omega)
        _ = (n + 1) * 256 ^ (b :: l).length := by
          rw [List.length_cons, Nat.pow_succ]; ring

theorem ofOctets_lt (l : List UInt8) : ofOctets l < 256 ^ l.length := by
  have h := ofOctets_foldl_lt l 0
  rwa [Nat.zero_add, Nat.one_mul] at h

/-- Octets that are a length and no more. -/
theorem decodeLength_bound {octets : List UInt8} {len : ℕ}
    (h : decodeLength octets = some (len, [])) : (octets.length = 1 ∧ len < 128) ∨
    (2 ≤ octets.length ∧ len < 256 ^ (octets.length - 1)) := by
  cases octets with
  | nil => nomatch h
  | cons b rest =>
      rw [decodeLength] at h
      split at h
      · cases h
        left
        exact ⟨rfl, by assumption⟩
      · split at h
        · nomatch h
        · rename_i hlong hform
          rw [not_or, not_or, Nat.not_lt] at hform
          obtain ⟨hindefinite, -, hroom⟩ := hform
          rw [Option.some_inj, Prod.mk.injEq, List.drop_eq_nil_iff] at h
          obtain ⟨hlen, hend⟩ := h
          have hall : rest.take (b.toNat - 128) = rest := List.take_of_length_le hend
          rw [hall] at hlen
          right
          rw [List.length_cons, ← hlen]
          exact ⟨by omega, ofOctets_lt rest⟩

/-- The short form, -/
theorem decodeLength_short {len : ℕ} (h : len < 128) (rest : List UInt8) :
    decodeLength (UInt8.ofNat len :: rest) = some (len, rest) := by
  have hlen : (UInt8.ofNat len).toNat = len := by
    rw [UInt8.toNat_ofNat', Nat.mod_eq_of_lt (by omega)]
  rw [decodeLength, hlen, if_pos h]

/-- and the long form of one octet, -/
theorem decodeLength_one {len : ℕ} (h : len < 256) (rest : List UInt8) :
    decodeLength (0x81 :: UInt8.ofNat len :: rest) = some (len, rest) := by
  have hlen : (UInt8.ofNat len).toNat = len := by
    rw [UInt8.toNat_ofNat', Nat.mod_eq_of_lt h]
  have hroom : ¬ ((0x81 : UInt8).toNat = 128 ∨ (0x81 : UInt8).toNat = 255 ∨
      (UInt8.ofNat len :: rest).length < (0x81 : UInt8).toNat - 128) := by
    rw [List.length_cons]
    show ¬ (129 = 128 ∨ 129 = 255 ∨ rest.length + 1 < 129 - 128)
    omega
  rw [decodeLength, if_neg (by decide), if_neg hroom]
  show some (0 * 256 + (UInt8.ofNat len).toNat, rest) = _
  rw [hlen, Nat.zero_mul, Nat.zero_add]

/-- and of two. -/
theorem decodeLength_two {len : ℕ} (h : len < 65536) (rest : List UInt8) :
    decodeLength (0x82 :: UInt8.ofNat (len / 256) :: UInt8.ofNat len :: rest) =
      some (len, rest) := by
  have hhigh : (UInt8.ofNat (len / 256)).toNat = len / 256 := by
    rw [UInt8.toNat_ofNat', Nat.mod_eq_of_lt (by omega)]
  have hlow : (UInt8.ofNat len).toNat = len % 256 := UInt8.toNat_ofNat'
  have hroom : ¬ ((0x82 : UInt8).toNat = 128 ∨ (0x82 : UInt8).toNat = 255 ∨
      (UInt8.ofNat (len / 256) :: UInt8.ofNat len :: rest).length <
        (0x82 : UInt8).toNat - 128) := by
    rw [List.length_cons, List.length_cons]
    show ¬ (130 = 128 ∨ 130 = 255 ∨ rest.length + 1 + 1 < 130 - 128)
    omega
  rw [decodeLength, if_neg (by decide), if_neg hroom]
  show some ((0 * 256 + (UInt8.ofNat (len / 256)).toNat) * 256 + (UInt8.ofNat len).toNat,
    rest) = _
  rw [hhigh, hlow, Nat.zero_mul, Nat.zero_add, Nat.div_add_mod']

/-! ## Elements -/

theorem decodeHeader_append {octets : List UInt8} {len : ℕ} {tag : UInt8}
    {content : List UInt8} (h : decodeLength (octets ++ content) = some (len, content)) :
    decodeHeader (tag :: (octets ++ content)) = some (tag, len, content) := by
  rw [decodeHeader, h, Option.map_some]

theorem decodeElement_append {octets : List UInt8} {tag : UInt8}
    {value after : List UInt8} (h : decodeLength (octets ++ (value ++ after)) =
      some (value.length, value ++ after)) :
    decodeElement (tag :: (octets ++ (value ++ after))) = some (tag, value, after) := by
  have hroom : ¬ (value ++ after).length < value.length := by
    rw [List.length_append]
    omega
  rw [decodeElement, decodeHeader_append h, Option.bind_some, if_neg hroom,
    List.take_left, List.drop_left]

end Ber
