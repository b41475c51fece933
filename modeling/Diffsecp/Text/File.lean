import Mathlib.Data.List.Basic

/-!
# Text — File

Files as a program that reads and writes text sees them: bytes that spell
characters in UTF-8, and line ends that reading in text mode makes `\n`.
-/

namespace Diffsecp.Text

/-- The characters that bytes spell, `none` where they are not UTF-8. -/
def decodeUtf8 (b : List UInt8) : Option (List Char) :=
  (String.fromUTF8? ⟨b.toArray⟩).map String.toList

def encodeUtf8 (cs : List Char) : List UInt8 := (String.ofList cs).toUTF8.data.toList

theorem decodeUtf8_encodeUtf8 (cs : List Char) :
    decodeUtf8 (encodeUtf8 cs) = some cs := by
  have hvalid : ByteArray.IsValidUTF8 ⟨(encodeUtf8 cs).toArray⟩ := by
    rw [encodeUtf8, Array.toArray_toList]
    exact (String.ofList cs).isValidUTF8
  have hstring : String.fromUTF8 ⟨(encodeUtf8 cs).toArray⟩ hvalid = String.ofList cs := by
    rw [← String.toByteArray_inj]
    show ByteArray.mk (encodeUtf8 cs).toArray = _
    rw [encodeUtf8, Array.toArray_toList]
    rfl
  rw [decodeUtf8, String.fromUTF8?, dif_pos hvalid, Option.map_some, hstring,
    String.toList_ofList]

/-- Only one list of bytes spells given characters. -/
theorem encodeUtf8_of_decode {b : List UInt8} {cs : List Char}
    (h : decodeUtf8 b = some cs) : encodeUtf8 cs = b := by
  rw [decodeUtf8, String.fromUTF8?] at h
  split at h
  next hvalid =>
    obtain rfl := Option.some.inj h
    rw [encodeUtf8, String.ofList_toList]
    rfl
  next => nomatch h

theorem encodeUtf8_injective {cs cs' : List Char} (h : encodeUtf8 cs = encodeUtf8 cs') :
    cs = cs' := by
  have hdecode := decodeUtf8_encodeUtf8 cs
  rw [h, decodeUtf8_encodeUtf8] at hdecode
  exact (Option.some.inj hdecode).symm

/-- Every kind of line end becomes `\n`. -/
def universalNewlines : List Char → List Char
  | '\r' :: '\n' :: cs => '\n' :: universalNewlines cs
  | '\r' :: cs => '\n' :: universalNewlines cs
  | c :: cs => c :: universalNewlines cs
  | [] => []

/-- What reading a file in text mode gives. -/
def readText (b : List UInt8) : Option (List Char) := (decodeUtf8 b).map universalNewlines

theorem universalNewlines_eq_self {cs : List Char} (h : '\r' ∉ cs) :
    universalNewlines cs = cs := by
  induction cs with
  | nil => rfl
  | cons c cs ih =>
      rw [List.mem_cons, not_or] at h
      rw [universalNewlines, ih h.2]
      · rintro cs' rfl -
        exact h.1 rfl
      · rintro rfl
        exact h.1 rfl

theorem not_mem_universalNewlines (cs : List Char) : '\r' ∉ universalNewlines cs := by
  fun_induction universalNewlines cs with
  | case1 cs ih => simp [ih]
  | case2 cs hcs ih => simp [ih]
  | case3 c cs hpair hcr ih =>
      have hne : '\r' ≠ c := fun h => hcr h.symm
      simp [hne, ih]
  | case4 => simp

/-- A character that ends no line. -/
def inLine (c : Char) : Bool := c ≠ '\r' ∧ c ≠ '\n'

/-- Reading changes line ends only. -/
theorem filter_universalNewlines (cs : List Char) :
    (universalNewlines cs).filter inLine = cs.filter inLine := by
  fun_induction universalNewlines cs with
  | case1 cs ih => simpa [inLine] using ih
  | case2 cs hcs ih => simpa [inLine] using ih
  | case3 c cs hpair hcr ih => simp only [List.filter_cons, ih]
  | case4 => rfl

/-- A file without `\r` is read as it is. -/
theorem encodeUtf8_readText {b : List UInt8} {text : List Char}
    (h : readText b = some text) (hcr : ∀ cs, decodeUtf8 b = some cs → '\r' ∉ cs) :
    encodeUtf8 text = b := by
  obtain ⟨cs, hdecode, rfl⟩ := Option.map_eq_some_iff.mp h
  rw [universalNewlines_eq_self (hcr cs hdecode), encodeUtf8_of_decode hdecode]

end Diffsecp.Text
