import Mathlib.Data.List.TakeWhile
import Mathlib.Data.Nat.Digits.Defs
import Diffsecp.Transcript

/-!
# Oracle — Line

The lines that go through an oracle's pipes: the request, what `src/replay.c`
prints for it and how `oracle_check` reads the digest from that.
-/

namespace Diffsecp

/-! ## Text -/

def ascii (s : String) : List UInt8 := s.toList.map fun c => UInt8.ofNat c.toNat

def newline : UInt8 := 10

def space : UInt8 := 32

/-- A buffer as a C string. -/
def cString (buf : List UInt8) : List UInt8 := buf.takeWhile (· ≠ 0)

def hexChar (d : ℕ) : UInt8 :=
  if d < 10 then UInt8.ofNat (48 + d) else UInt8.ofNat (87 + d)

/-- `printf` with `%0<w>lx`. -/
def printHex (w v : ℕ) : List UInt8 :=
  let digits := (Nat.digits 16 v).reverse.map hexChar
  List.replicate (w - digits.length) 48 ++ digits

/-- The last `w` hexadecimal digits. -/
def hexDigits : ℕ → ℕ → List UInt8
  | 0, _ => []
  | w + 1, v => hexDigits w (v / 16) ++ [hexChar (v % 16)]

theorem hexChar_inj {d e : ℕ} (hd : d < 16) (he : e < 16)
    (h : hexChar d = hexChar e) : d = e := by
  have hall : ∀ d < 16, ∀ e < 16, hexChar d = hexChar e → d = e := by decide
  exact hall d hd e he h

theorem hexChar_text {d : ℕ} (hd : d < 16) :
    hexChar d ∉ [0, newline, 13, space, 110] := by
  have hall : ∀ d < 16, hexChar d ∉ [0, newline, 13, space, 110] := by decide
  exact hall d hd

@[simp] theorem hexDigits_length (w v : ℕ) : (hexDigits w v).length = w := by
  induction w generalizing v with
  | zero => rfl
  | succ w ih => simp [hexDigits, ih]

/-- No digit is a blank, ends a line or a string, or is an `n`. -/
theorem hexDigits_text {w v : ℕ} {c : UInt8} (h : c ∈ hexDigits w v) :
    c ∉ [0, newline, 13, space, 110] := by
  induction w generalizing v with
  | zero => cases h
  | succ w ih =>
      rcases List.mem_append.mp h with h | h
      · exact ih h
      · rw [List.mem_singleton.mp h]
        exact hexChar_text (Nat.mod_lt _ (by decide))

theorem hexDigits_inj {w u v : ℕ} (hu : u < 16 ^ w) (hv : v < 16 ^ w)
    (h : hexDigits w u = hexDigits w v) :
    u = v := by
  induction w generalizing u v with
  | zero =>
      rw [Nat.pow_zero] at hu hv
      omega
  | succ w ih =>
      rw [Nat.pow_succ] at hu hv
      obtain ⟨hhigh, hlow⟩ := List.append_inj' h rfl
      have hlow : u % 16 = v % 16 :=
        hexChar_inj (Nat.mod_lt _ (by decide)) (Nat.mod_lt _ (by decide))
          (List.singleton_inj.mp hlow)
      have hhigh :=
        ih (Nat.div_lt_of_lt_mul (by omega)) (Nat.div_lt_of_lt_mul (by omega)) hhigh
      omega

theorem hexDigits_add (a b v : ℕ) :
    hexDigits (a + b) v = hexDigits a (v / 16 ^ b) ++ hexDigits b (v % 16 ^ b) := by
  induction b generalizing v with
  | zero => simp [hexDigits]
  | succ b ih =>
      have hdiv : v / 16 / 16 ^ b = v / 16 ^ (b + 1) := by
        rw [Nat.div_div_eq_div_mul, Nat.pow_succ, Nat.mul_comm]
      have hmod : v % 16 ^ (b + 1) / 16 = v / 16 % 16 ^ b := by
        rw [Nat.pow_succ, Nat.mul_comm, Nat.mod_mul_right_div_self]
      have hlow : v % 16 ^ (b + 1) % 16 = v % 16 := by
        rw [Nat.pow_succ, Nat.mod_mul_left_mod]
      rw [← Nat.add_assoc]
      simp only [hexDigits]
      rw [ih, hdiv, hmod, hlow, List.append_assoc]

/-- A number that fits is printed in as many digits as asked for. -/
theorem printHex_eq {w v : ℕ} (h : v < 16 ^ w) : printHex w v = hexDigits w v := by
  induction w generalizing v with
  | zero =>
      have hv : v = 0 := by
        rw [Nat.pow_zero] at h
        omega
      subst hv
      rfl
  | succ w ih =>
      rw [Nat.pow_succ] at h
      have hdiv := ih (v := v / 16) (Nat.div_lt_of_lt_mul (by omega))
      rw [hexDigits, ← hdiv]
      by_cases hv : v = 0
      · subst hv
        simp [printHex, hexChar, List.replicate_succ']
      · simp only [printHex]
        rw [Nat.digits_def' (by decide) (Nat.pos_of_ne_zero hv)]
        simp

/-! ## The lines -/

/-- `DIFFSECP_TARGETS`. -/
inductive TargetName where
  | ecdsa | schnorrsig | field | scalar | group | keys | ellswift | recovery | musig
  | silentpayments
  deriving DecidableEq, Repr

def TargetName.text : TargetName → List UInt8
  | .ecdsa => ascii "ecdsa"
  | .schnorrsig => ascii "schnorrsig"
  | .field => ascii "field"
  | .scalar => ascii "scalar"
  | .group => ascii "group"
  | .keys => ascii "keys"
  | .ellswift => ascii "ellswift"
  | .recovery => ascii "recovery"
  | .musig => ascii "musig"
  | .silentpayments => ascii "silentpayments"

theorem TargetName.text_plain (t : TargetName) {c : UInt8} (h : c ∈ t.text) :
    c ∉ [0, newline, 13, space] := by
  have hall : (t.text.all fun c => c ∉ [0, newline, 13, space]) = true := by
    cases t <;> decide
  simpa using List.all_eq_true.mp hall c h

theorem TargetName.text_length (t : TargetName) : t.text.length ≤ 14 := by
  cases t <;> decide

/-- `oracle_input`: a path that fits its array of 512 and is one line. -/
structure OraclePath where
  text : List UInt8
  nonempty : text ≠ []
  fits : text.length < 512
  oneLine : ∀ c ∈ text, c ∉ [0, newline, 13]

def OraclePath.request (p : OraclePath) : List UInt8 := p.text ++ [newline]

/-- `diffsecp_digest`. -/
def diffsecpDigest (p : List UInt8) : UInt64 :=
  p.foldl (fun h b => (h ^^^ b.toUInt64) * 0x100000001b3) 0xcbf29ce484222325

/-- What `replay_paths` prints for a digest, less its newline. -/
def answerLine (t : TargetName) (h : UInt64) (path : List UInt8) : List UInt8 :=
  t.text ++ [space] ++ printHex 8 (h >>> 32).toNat ++
    printHex 8 (h &&& 0xffffffff).toNat ++ [space] ++ path

/-- What it prints for an input over the limit. -/
def skipLine (t : TargetName) (path : List UInt8) : List UInt8 :=
  t.text ++ [space] ++ ascii "-" ++ [space] ++ path

/-- The line of `replay_paths` for an input of the bytes read. -/
def replayLine (t : TargetName) (fn : List UInt8 → List UInt8)
    (path bytes : List UInt8) : List UInt8 :=
  if inputMax < bytes.length then skipLine t path
    else answerLine t (diffsecpDigest (fn bytes)) path

/-- How an oracle's process ended, with the system's own words. -/
inductive Ending where
  | unreaped (error : List UInt8)
  | signalled (signal : ℕ) (name : List UInt8)
  | exited (status : ℕ)

/-- `oracle_no_answer` with a buffer of `cap`. -/
def noAnswerLine (cap : ℕ) : Ending → List UInt8
  | .unreaped error =>
      (ascii "no answer: cannot wait for the process: " ++ error).take (cap - 1)
  | .signalled signal name =>
      (ascii "no answer: the process was killed by signal " ++ ascii (toString signal) ++
        ascii " (" ++ name ++ ascii ")").take (cap - 1)
  | .exited status =>
      (ascii "no answer: the process exited with status " ++ ascii (toString status)).take
        (cap - 1)

/-- The size of `line` in `oracle_check`. -/
def lineMax : ℕ := 1024

/-- `oracle_read_line` puts one more byte. -/
def putByte (cap : ℕ) (line : List UInt8) (c : UInt8) : List UInt8 :=
  if line.length + 1 < cap then line ++ [c] else line

/-- The comparison of `oracle_check`. -/
def accepts (line : List UInt8) (reference : UInt64) : Bool :=
  match (cString line).dropWhile (· ≠ space) with
  | [] => false
  | _ :: digest => digest.take 16 = printHex 16 reference.toNat ∧ digest[16]? = some space

/-! ## What the comparison says -/

theorem printHex_halves (h : UInt64) :
    printHex 8 (h >>> 32).toNat ++ printHex 8 (h &&& 0xffffffff).toNat =
      hexDigits 16 h.toNat := by
  have hlt : h.toNat < 2 ^ 64 := h.toNat_lt
  have hhigh : (h >>> 32).toNat = h.toNat / 16 ^ 8 := by
    rw [UInt64.toNat_shiftRight, Nat.shiftRight_eq_div_pow]
    rfl
  have hlow : (h &&& 0xffffffff).toNat = h.toNat % 16 ^ 8 := by
    rw [UInt64.toNat_and]
    exact Nat.and_two_pow_sub_one_eq_mod h.toNat 32
  rw [hhigh, hlow, printHex_eq (Nat.div_lt_of_lt_mul (by omega)),
    printHex_eq (Nat.mod_lt _ (by decide))]
  exact (hexDigits_add 8 8 h.toNat).symm

theorem printHex_reference (r : UInt64) : printHex 16 r.toNat = hexDigits 16 r.toNat :=
  printHex_eq (lt_of_lt_of_le r.toNat_lt (by decide))

theorem cString_eq_self {s : List UInt8} (h : ∀ c ∈ s, c ≠ 0) : cString s = s := by
  rw [cString, List.takeWhile_eq_self_iff]
  simpa using h

/-- The comparison of a line whose first word is the target's. -/
theorem accepts_word (t : TargetName) (word : List UInt8) (hword : ∀ c ∈ word, c ≠ 0)
    (r : UInt64) :
    accepts (t.text ++ [space] ++ word) r =
      decide (word.take 16 = hexDigits 16 r.toNat ∧ word[16]? = some space) := by
  have hplain : ∀ c ∈ t.text ++ [space] ++ word, c ≠ 0 := by
    intro c hc h0
    subst h0
    simp only [List.mem_append, List.mem_singleton] at hc
    rcases hc with (hc | hc) | hc
    · exact t.text_plain hc (by decide)
    · exact absurd hc (by decide)
    · exact hword 0 hc rfl
  have hdrop : (t.text ++ [space] ++ word).dropWhile (· ≠ space) = space :: word := by
    rw [List.append_assoc, List.dropWhile_append_of_pos]
    · rfl
    · intro c hc
      have hne : c ≠ space := by
        intro heq
        exact t.text_plain hc (by simp [heq])
      simpa using hne
  unfold accepts
  rw [cString_eq_self hplain, hdrop, printHex_reference]

theorem OraclePath.ne_zero (p : OraclePath) {c : UInt8} (h : c ∈ p.text) : c ≠ 0 := by
  intro h0
  subst h0
  exact p.oneLine 0 h (by decide)

/-- A digest is accepted for itself only, -/
theorem accepts_digest (t : TargetName) (h r : UInt64) {path : List UInt8}
    (hpath : 0 ∉ path) :
    accepts (t.text ++ [space] ++ (hexDigits 16 h.toNat ++ [space] ++ path)) r =
      decide (h = r) := by
  have hword : ∀ c ∈ hexDigits 16 h.toNat ++ [space] ++ path, c ≠ 0 := by
    intro c hc h0
    subst h0
    simp only [List.mem_append, List.mem_singleton] at hc
    rcases hc with (hc | hc) | hc
    · exact hexDigits_text hc (by decide)
    · exact absurd hc (by decide)
    · exact hpath hc
  have htake :
      (hexDigits 16 h.toNat ++ [space] ++ path).take 16 = hexDigits 16 h.toNat := by
    rw [List.append_assoc, List.take_left' (hexDigits_length _ _)]
  have hget : (hexDigits 16 h.toNat ++ [space] ++ path)[16]? = some space := by
    rw [List.append_assoc, List.getElem?_append_right (by rw [hexDigits_length]),
      hexDigits_length]
    rfl
  rw [accepts_word t _ hword, htake, hget, decide_eq_decide]
  constructor
  · rintro ⟨heq, -⟩
    have hpow : (2 : ℕ) ^ 64 ≤ 16 ^ 16 := by decide
    exact UInt64.toNat_inj.mp (hexDigits_inj (lt_of_lt_of_le h.toNat_lt hpow)
      (lt_of_lt_of_le r.toNat_lt hpow) heq)
  · rintro rfl
    exact ⟨rfl, rfl⟩

/-- and a dash for no reference. -/
theorem accepts_dash (t : TargetName) (r : UInt64) {path : List UInt8}
    (hpath : 0 ∉ path) :
    accepts (t.text ++ [space] ++ (ascii "-" ++ [space] ++ path)) r = false := by
  have hword : ∀ c ∈ ascii "-" ++ [space] ++ path, c ≠ 0 := by
    intro c hc h0
    subst h0
    simp only [List.mem_append] at hc
    rcases hc with (hc | hc) | hc
    · exact absurd hc (by decide)
    · exact absurd hc (by decide)
    · exact hpath hc
  rw [accepts_word t _ hword, decide_eq_false_iff_not]
  rintro ⟨heq, -⟩
  -- the second character would be a blank among digits
  have hmem : space ∈ (ascii "-" ++ [space] ++ path).take 16 := by
    have hlist : ascii "-" ++ [space] ++ path = 45 :: space :: path := rfl
    rw [hlist]
    simp
  rw [heq] at hmem
  exact hexDigits_text hmem (by decide)

/-- A digest's line is accepted for that digest only. -/
theorem accepts_answerLine (t : TargetName) (h r : UInt64) (p : OraclePath) :
    accepts (answerLine t h p.text) r = decide (h = r) := by
  have hline : answerLine t h p.text =
      t.text ++ [space] ++ (hexDigits 16 h.toNat ++ [space] ++ p.text) := by
    rw [← printHex_halves]
    simp [answerLine, List.append_assoc]
  rw [hline, accepts_digest t h r fun hmem => p.ne_zero hmem rfl]

/-- The line of a skipped input is accepted for no reference. -/
theorem accepts_skipLine (t : TargetName) (r : UInt64) (p : OraclePath) :
    accepts (skipLine t p.text) r = false := by
  have hline :
      skipLine t p.text = t.text ++ [space] ++ (ascii "-" ++ [space] ++ p.text) := by
    simp [skipLine, List.append_assoc]
  rw [hline, accepts_dash t r fun hmem => p.ne_zero hmem rfl]

/-- A process that ended never answers with a digest. -/
theorem accepts_noAnswerLine (e : Ending) (r : UInt64) :
    accepts (noAnswerLine lineMax e) r = false := by
  -- every text starts alike, and its second word is none
  have hstart :
      ∃ rest, noAnswerLine lineMax e = 110 :: 111 :: space :: 97 :: 110 :: rest := by
    cases e with
    | unreaped error => exact ⟨_, rfl⟩
    | signalled signal name => exact ⟨_, rfl⟩
    | exited status => exact ⟨_, rfl⟩
  obtain ⟨rest, hrest⟩ := hstart
  have hcstring : ∃ rest', cString (noAnswerLine lineMax e) =
      110 :: 111 :: space :: 97 :: 110 :: rest' := by
    rw [hrest]
    exact ⟨cString rest, by simp [cString, space]⟩
  obtain ⟨rest', hrest'⟩ := hcstring
  unfold accepts
  rw [hrest']
  have hdrop : (110 :: 111 :: space :: 97 :: 110 :: rest').dropWhile (· ≠ space) =
      space :: 97 :: 110 :: rest' := by
    simp [space]
  rw [hdrop, printHex_reference]
  simp only [decide_eq_false_iff_not]
  rintro ⟨heq, -⟩
  have hmem : (110 : UInt8) ∈ (97 :: 110 :: rest').take 16 := by simp
  rw [heq] at hmem
  exact hexDigits_text hmem (by decide)

/-- A replay's line accepted for `r` is that of an input whose digest is
`r`. -/
theorem accepts_replayLine (t : TargetName) (fn : List UInt8 → List UInt8)
    (p : OraclePath) (bytes : List UInt8) (r : UInt64) :
    accepts (replayLine t fn p.text bytes) r
      = decide (bytes.length ≤ inputMax ∧ diffsecpDigest (fn bytes) = r) := by
  unfold replayLine
  split
  · rename_i hlen
    rw [accepts_skipLine]
    simp [not_le.mpr hlen]
  · rename_i hlen
    rw [accepts_answerLine]
    simp [not_lt.mp hlen]

theorem answerLine_length (t : TargetName) (h : UInt64) (path : List UInt8) :
    (answerLine t h path).length = t.text.length + 18 + path.length := by
  have hhex :
      (printHex 8 (h >>> 32).toNat ++ printHex 8 (h &&& 0xffffffff).toNat).length =
      16 := by
    rw [printHex_halves, hexDigits_length]
  rw [List.length_append] at hhex
  simp only [answerLine, List.length_append, List.length_singleton]
  omega

/-- The buffer of `oracle_check` holds any line. -/
theorem replayLine_fits (t : TargetName) (fn : List UInt8 → List UInt8) (p : OraclePath)
    (bytes : List UInt8) : (replayLine t fn p.text bytes).length + 1 < lineMax := by
  have ht := t.text_length
  have hp := p.fits
  unfold replayLine lineMax
  split
  · have hdash : (ascii "-").length = 1 := by decide
    simp only [skipLine, List.length_append, List.length_singleton, hdash]
    omega
  · rw [answerLine_length]
    omega

/-- A replay prints one line, -/
theorem replayLine_newline (t : TargetName) (fn : List UInt8 → List UInt8)
    {path : List UInt8} (hpath : newline ∉ path) (bytes : List UInt8) :
    newline ∉ replayLine t fn path bytes := by
  have htext : newline ∉ t.text := fun h => t.text_plain h (by decide)
  have hspace : newline ≠ space := by decide
  unfold replayLine
  split
  · have hdash : newline ∉ ascii "-" := by decide
    simp [skipLine, htext, hpath, hspace, hdash]
  · have hhex : newline ∉ printHex 8 (diffsecpDigest (fn bytes) >>> 32).toNat ++
        printHex 8 (diffsecpDigest (fn bytes) &&& 0xffffffff).toNat := by
      rw [printHex_halves]
      exact fun h => hexDigits_text h (by decide)
    rw [List.mem_append, not_or] at hhex
    obtain ⟨hhigh, hlow⟩ := hhex
    simp only [answerLine, List.mem_append, List.mem_singleton, not_or]
    exact ⟨⟨⟨⟨⟨htext, hspace⟩, hhigh⟩, hlow⟩, hspace⟩, hpath⟩

/-- also of an oracle's path. -/
theorem replayLine_oneLine (t : TargetName) (fn : List UInt8 → List UInt8)
    (p : OraclePath) (bytes : List UInt8) : newline ∉ replayLine t fn p.text bytes :=
  replayLine_newline t fn (fun h => p.oneLine _ h (by decide)) bytes

end Diffsecp
