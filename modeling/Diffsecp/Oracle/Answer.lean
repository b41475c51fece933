import Diffsecp.Oracle.Line

/-!
# Oracle — Answer

An answer from the replay's `printf` to the comparison of `oracle_check`, with
the width of the replay's `long`, the buffer that cuts the line, and a memory
that ends where the line does.
-/

namespace Diffsecp

/-! ## The replay -/

/-- The width of the replay's `unsigned long`. -/
inductive LongWidth where
  | bits32 | bits64
  deriving DecidableEq, Repr

def LongWidth.bits : LongWidth → ℕ
  | .bits32 => 32
  | .bits64 => 64

/-- `%08lx` of a value converted to `unsigned long`. -/
def printLong (long : LongWidth) (v : UInt64) : List UInt8 :=
  printHex 8 (v.toNat % 2 ^ long.bits)

/-- The path in a line of stdin: what comes before the first of `"\r\n"`. -/
def replayPath (line : List UInt8) : List UInt8 :=
  line.takeWhile fun c => decide (c ∉ [13, newline])

/-- What the replay makes of an input. -/
inductive Replayed where
  | oversized
  | digest (h : UInt64)

/-- What `replay_paths` prints for a line of stdin that names an input. -/
def replayPrints (t : TargetName) (long : LongWidth) (line : List UInt8) :
    Replayed → List UInt8
  | .oversized =>
      if replayPath line = [] then []
        else t.text ++ [space] ++ ascii "-" ++ [space] ++ replayPath line ++ [newline]
  | .digest h =>
      if replayPath line = [] then []
      else
        t.text ++ [space] ++ printLong long (h >>> 32) ++
          printLong long (h &&& 0xffffffff) ++ [space] ++ replayPath line ++ [newline]

/-! ## The oracle -/

/-- `oracle_read_line` on what comes through the pipe, and what it leaves
there. -/
def oracleReadLine (cap : ℕ) (line : List UInt8) :
    List UInt8 → Option (List UInt8 × List UInt8)
  | [] => none
  | c :: pipe => if c = newline then some (line ++ [0], pipe)
      else oracleReadLine cap (putByte cap line c) pipe

/-- `strchr` from a pointer into memory that ends with the list, `none` where
it would read on. -/
def boundedStrchr (c : UInt8) : List UInt8 → Option (Option (List UInt8))
  | [] => none
  | b :: rest => if b = c then some (some (b :: rest)) else if b = 0 then some none
      else boundedStrchr c rest

/-- `strncmp(s, t, n) == 0`, `none` where it would read past either memory. -/
def boundedStrncmp : ℕ → List UInt8 → List UInt8 → Option Bool
  | 0, _, _ => some true
  | n + 1, b :: s, e :: t =>
      if b ≠ e then some false else if b = 0 then some true else boundedStrncmp n s t
  | _ + 1, _, _ => none

/-- `snprintf` of a reference into `expected`. -/
def expectedText (reference : UInt64) : List UInt8 :=
  (printHex 16 reference.toNat).take 16 ++ [0]

/-- The comparison of `oracle_check` with the line in memory. -/
def oracleCheckLine (line : List UInt8) (reference : UInt64) : Option Bool := do
  match ← boundedStrchr space line with
  | none => some false
  | some digest =>
      if ← boundedStrncmp 16 (digest.drop 1) (expectedText reference) then
        let after ← digest[17]?
        some (decide (after = space))
      else some false

/-! ## Reading the line -/

theorem putByte_eq {cap : ℕ} {line : List UInt8}
    (hline : line.length ≤ cap - 1) (c : UInt8) :
    putByte cap line c = (line ++ [c]).take (cap - 1) := by
  rw [putByte]
  split
  · rename_i hroom
    rw [List.take_of_length_le]
    rw [List.length_append, List.length_singleton]
    omega
  · rename_i hfull
    rw [List.take_append_of_le_length (by omega), List.take_of_length_le hline]

/-- A line is read up to its newline and cut to the buffer. -/
theorem oracleReadLine_eq {cap : ℕ} {line text : List UInt8}
    (hline : line.length ≤ cap - 1) (htext : newline ∉ text) (pipe : List UInt8) :
    oracleReadLine cap line (text ++ newline :: pipe) =
      some ((line ++ text).take (cap - 1) ++ [0], pipe) := by
  induction text generalizing line with
  | nil =>
      rw [List.nil_append, List.append_nil, oracleReadLine, if_pos rfl,
        List.take_of_length_le hline]
  | cons c text ih =>
      rw [List.mem_cons, not_or] at htext
      obtain ⟨hc, htext⟩ := htext
      rw [List.cons_append, oracleReadLine, if_neg (Ne.symm hc),
        putByte_eq hline, ih _ htext]
      · have hcut : (line ++ c :: text).take (cap - 1) =
            ((line ++ [c]).take (cap - 1) ++ text).take (cap - 1) := by
          rw [List.append_cons]
          rcases Nat.lt_or_ge line.length (cap - 1) with hlt | hge
          · have hroom : (line ++ [c]).length ≤ cap - 1 := by
              rw [List.length_append, List.length_singleton]
              omega
            rw [List.take_of_length_le hroom]
          · have hfull : (line ++ [c]).take (cap - 1) = line := by
              rw [List.take_append_of_le_length hge, List.take_of_length_le hline]
            rw [hfull, List.append_assoc, List.take_append_of_le_length hge,
              List.take_append_of_le_length hge]
        rw [hcut]
      · rw [List.length_take]
        exact Nat.min_le_left ..

/-! ## Comparing it -/

/-- A search ends at the character, -/
theorem boundedStrchr_found {c : UInt8} {s : List UInt8} (hzero : 0 ∉ s) (hc : c ∉ s)
    (rest : List UInt8) :
    boundedStrchr c (s ++ c :: rest) = some (some (c :: rest)) := by
  induction s with
  | nil => rw [List.nil_append, boundedStrchr, if_pos rfl]
  | cons b s ih =>
      rw [List.mem_cons, not_or] at hzero hc
      rw [List.cons_append, boundedStrchr, if_neg (Ne.symm hc.1),
        if_neg (Ne.symm hzero.1), ih hzero.2 hc.2]

/-- or at the terminator. -/
theorem boundedStrchr_missing {c : UInt8} (hnul : c ≠ 0) {s : List UInt8}
    (hzero : 0 ∉ s) (hc : c ∉ s) (rest : List UInt8) :
    boundedStrchr c (s ++ 0 :: rest) = some none := by
  induction s with
  | nil => rw [List.nil_append, boundedStrchr, if_neg (Ne.symm hnul), if_pos rfl]
  | cons b s ih =>
      rw [List.mem_cons, not_or] at hzero hc
      rw [List.cons_append, boundedStrchr, if_neg (Ne.symm hc.1),
        if_neg (Ne.symm hzero.1), ih hzero.2 hc.2]

/-- A comparison ends at the first difference, the terminator being one. -/
theorem boundedStrncmp_eq {e s : List UInt8} (he : 0 ∉ e) (rest rest' : List UInt8) :
    boundedStrncmp e.length (s ++ 0 :: rest) (e ++ rest') =
      some (decide (s.take e.length = e)) := by
  induction e generalizing s with
  | nil => rw [List.length_nil, boundedStrncmp, List.take_zero, decide_eq_true rfl]
  | cons x e ih =>
      rw [List.mem_cons, not_or] at he
      rw [List.length_cons, List.cons_append]
      cases s with
      | nil =>
          rw [List.nil_append, boundedStrncmp, if_pos he.1, List.take_nil]
          rfl
      | cons b s =>
          rw [List.cons_append, boundedStrncmp, List.take_succ_cons]
          by_cases hb : b = x
          · subst hb
            rw [if_neg (not_not_intro rfl), if_neg (Ne.symm he.1), ih he.2]
            simp
          · rw [if_pos hb, decide_eq_false]
            exact fun h => hb (List.cons_eq_cons.mp h).1

/-- The comparison of a line with whatever lies behind its terminator. -/
theorem oracleCheckLine_eq {s : List UInt8} (hzero : 0 ∉ s) (rest : List UInt8)
    (r : UInt64) :
    oracleCheckLine (s ++ 0 :: rest) r = some (accepts s r) := by
  have hstr : cString s = s := cString_eq_self fun c hc h0 => hzero (h0 ▸ hc)
  have hsplit :=
    List.takeWhile_append_dropWhile (p := fun c : UInt8 => decide (c ≠ space)) (l := s)
  have hpre : space ∉ s.takeWhile fun c => decide (c ≠ space) := by
    intro hmem
    simpa using List.mem_takeWhile_imp hmem
  rw [accepts, hstr, printHex_reference]
  cases hdrop : s.dropWhile fun c => decide (c ≠ space) with
  | nil =>
      rw [hdrop, List.append_nil] at hsplit
      rw [hsplit] at hpre
      rw [oracleCheckLine, boundedStrchr_missing (by decide) hzero hpre]
      rfl
  | cons b digest =>
      have hb : b = space := by
        have h := List.head?_dropWhile_not (fun c : UInt8 => decide (c ≠ space)) s
        rw [hdrop] at h
        simpa using h
      subst hb
      rw [hdrop] at hsplit
      rw [← hsplit, List.mem_append, List.mem_cons, not_or, not_or] at hzero
      obtain ⟨hpre0, -, hdigest⟩ := hzero
      have hexpected : expectedText r = hexDigits 16 r.toNat ++ [0] := by
        rw [expectedText, printHex_reference,
          List.take_of_length_le (Nat.le_of_eq (hexDigits_length ..))]
      have hcmp := boundedStrncmp_eq (s := digest) (e := hexDigits 16 r.toNat)
        (fun h => hexDigits_text h (by decide)) rest [0]
      rw [hexDigits_length, ← hexpected] at hcmp
      rw [← hsplit, List.append_assoc, List.cons_append, oracleCheckLine,
        boundedStrchr_found hpre0 hpre, Option.bind_eq_bind, Option.bind_some]
      dsimp only
      rw [List.drop_one, List.tail_cons, hcmp, List.getElem?_cons_succ]
      by_cases hsame : digest.take 16 = hexDigits 16 r.toNat
      · have hlen : 16 ≤ digest.length := by
          have h := congrArg List.length hsame
          rw [List.length_take, hexDigits_length] at h
          omega
        -- sixteen digits matched, so the next character is the line's or its terminator
        rcases Nat.lt_or_eq_of_le hlen with hlt | heq
        · rw [List.getElem?_append_left hlt, List.getElem?_eq_getElem hlt]
          simp [hsame]
        · rw [List.getElem?_append_right (Nat.le_of_eq heq.symm), ← heq,
            List.getElem?_eq_none (Nat.le_of_eq heq.symm)]
          simp [space]
      · simp [hsame]

theorem cString_zero (s : List UInt8) : 0 ∉ cString s := by
  intro h
  simpa using List.mem_takeWhile_imp h

/-- A buffer with a terminator is a string and what lies behind it. -/
theorem exists_cString (s : List UInt8) : ∃ rest, s ++ [0] = cString s ++ 0 :: rest := by
  induction s with
  | nil => exact ⟨[], rfl⟩
  | cons b s ih =>
      by_cases hb : b = 0
      · subst hb
        exact ⟨s ++ [0], rfl⟩
      · obtain ⟨rest, hrest⟩ := ih
        refine ⟨rest, ?_⟩
        have hstr : cString (b :: s) = b :: cString s :=
          List.takeWhile_cons_of_pos (decide_eq_true hb)
        rw [hstr, List.cons_append, hrest, List.cons_append]

theorem oracleCheckLine_concat (s : List UInt8) (r : UInt64) :
    oracleCheckLine (s ++ [0]) r = some (accepts s r) := by
  obtain ⟨rest, hrest⟩ := exists_cString s
  have hstr : cString (cString s) = cString s := cString_eq_self fun c hc h0 =>
    cString_zero s (h0 ▸ hc)
  rw [hrest, oracleCheckLine_eq (cString_zero s), accepts, accepts, hstr]

/-! ## The answers -/

/-- A path that `fgets` reads from its line and the replay prints a line
for. -/
structure RequestPath where
  text : List UInt8
  isString : 0 ∉ text
  oneLine : newline ∉ text
  printed : replayPath text ≠ []

def RequestPath.request (p : RequestPath) : List UInt8 := p.text ++ [newline]

/-- The line's newline is what its path ends at. -/
theorem RequestPath.replayPath_request (p : RequestPath) :
    replayPath p.request = replayPath p.text := by
  have hend : [newline].takeWhile (fun c => decide (c ∉ [13, newline])) = [] := by decide
  rw [replayPath, RequestPath.request, List.takeWhile_append]
  split
  · rename_i hall
    rw [hend, List.append_nil, replayPath, (List.takeWhile_prefix _).eq_of_length hall]
  · rfl

theorem RequestPath.path_isString (p : RequestPath) : 0 ∉ replayPath p.text :=
  fun h => p.isString ((List.takeWhile_sublist _).subset h)

theorem RequestPath.path_oneLine (p : RequestPath) : newline ∉ replayPath p.text :=
  fun h => p.oneLine ((List.takeWhile_sublist _).subset h)

theorem printLong_halves (long : LongWidth) (h : UInt64) :
    printLong long (h >>> 32) ++ printLong long (h &&& 0xffffffff) =
      hexDigits 16 h.toNat := by
  have hlt : h.toNat < 2 ^ 64 := h.toNat_lt
  have hbits : 2 ^ 32 ≤ 2 ^ long.bits := by cases long <;> decide
  have hhigh : (h >>> 32).toNat < 2 ^ 32 := by
    rw [UInt64.toNat_shiftRight, Nat.shiftRight_eq_div_pow]
    exact Nat.div_lt_of_lt_mul hlt
  have hlow : (h &&& 0xffffffff).toNat < 2 ^ 32 := by
    rw [UInt64.toNat_and]
    exact Nat.lt_of_le_of_lt Nat.and_le_right (by decide)
  rw [printLong, printLong, Nat.mod_eq_of_lt (Nat.lt_of_lt_of_le hhigh hbits),
    Nat.mod_eq_of_lt (Nat.lt_of_lt_of_le hlow hbits), printHex_halves]

/-- What follows a start that fits is all that is cut. -/
theorem take_start {start rest : List UInt8} {cap : ℕ} (h : start.length ≤ cap) :
    (start ++ rest).take cap = start ++ rest.take (cap - start.length) := by
  rw [List.take_append, List.take_of_length_le h]

theorem oracleReadLine_line {line : List UInt8} (h : newline ∉ line) (pipe : List UInt8) :
    oracleReadLine lineMax [] (line ++ newline :: pipe) =
      some (line.take (lineMax - 1) ++ [0], pipe) :=
  oracleReadLine_eq (Nat.zero_le _) h pipe

/-- The line for a digest, as the oracle's buffer holds it. -/
theorem oracleReadLine_digest (t : TargetName) (long : LongWidth) (p : RequestPath)
    (h : UInt64) (pipe : List UInt8) :
    ∃ path, 0 ∉ path ∧
      oracleReadLine lineMax [] (replayPrints t long p.request (.digest h) ++ pipe) =
      some (t.text ++ [space] ++ (hexDigits 16 h.toNat ++ [space] ++ path) ++ [0],
        pipe) := by
  have ht := t.text_length
  have hstart :
      (t.text ++ [space] ++ (hexDigits 16 h.toNat ++ [space])).length ≤ lineMax - 1 := by
    simp only [List.length_append, List.length_singleton, hexDigits_length, lineMax]
    omega
  have hline : newline ∉ t.text ++ [space] ++ (hexDigits 16 h.toNat ++ [space]) ++
      replayPath p.text := by
    simp only [List.mem_append, List.mem_singleton, not_or]
    have htext : newline ∉ t.text := fun hmem => t.text_plain hmem (by decide)
    have hdigits : newline ∉ hexDigits 16 h.toNat :=
      fun hmem => hexDigits_text hmem (by decide)
    exact ⟨⟨⟨htext, by decide⟩, hdigits, by decide⟩, p.path_oneLine⟩
  refine ⟨(replayPath p.text).take
    (lineMax - 1 - (t.text ++ [space] ++ (hexDigits 16 h.toNat ++ [space])).length),
    fun hmem => p.path_isString (List.mem_of_mem_take hmem), ?_⟩
  have hprints : replayPrints t long p.request (.digest h) ++ pipe =
      t.text ++ [space] ++ (hexDigits 16 h.toNat ++ [space]) ++ replayPath p.text ++
        newline :: pipe := by
    rw [replayPrints, p.replayPath_request, if_neg p.printed, ← printLong_halves long]
    simp only [List.append_assoc, List.cons_append, List.nil_append]
  rw [hprints, oracleReadLine_line hline, take_start hstart]
  simp only [List.append_assoc]

/-- The line for a skipped input. -/
theorem oracleReadLine_oversized (t : TargetName) (long : LongWidth) (p : RequestPath)
    (pipe : List UInt8) :
    ∃ path, 0 ∉ path ∧
      oracleReadLine lineMax [] (replayPrints t long p.request .oversized ++ pipe) =
      some (t.text ++ [space] ++ (ascii "-" ++ [space] ++ path) ++ [0], pipe) := by
  have ht := t.text_length
  have hdash : ascii "-" = [45] := by decide
  have hstart : (t.text ++ [space] ++ (ascii "-" ++ [space])).length ≤ lineMax - 1 := by
    simp only [List.length_append, List.length_singleton, hdash, lineMax]
    omega
  have hline :
      newline ∉ t.text ++ [space] ++ (ascii "-" ++ [space]) ++ replayPath p.text := by
    simp only [List.mem_append, List.mem_singleton, not_or]
    have htext : newline ∉ t.text := fun hmem => t.text_plain hmem (by decide)
    exact ⟨⟨⟨htext, by decide⟩, by decide, by decide⟩, p.path_oneLine⟩
  refine ⟨(replayPath p.text).take
    (lineMax - 1 - (t.text ++ [space] ++ (ascii "-" ++ [space])).length),
    fun hmem => p.path_isString (List.mem_of_mem_take hmem), ?_⟩
  have hprints : replayPrints t long p.request .oversized ++ pipe =
      t.text ++ [space] ++ (ascii "-" ++ [space]) ++ replayPath p.text ++
        newline :: pipe := by
    rw [replayPrints, p.replayPath_request, if_neg p.printed]
    simp only [List.append_assoc, List.cons_append, List.nil_append]
  rw [hprints, oracleReadLine_line hline, take_start hstart]
  simp only [List.append_assoc]

/-- The line a replay prints for a digest is accepted for that digest only,
whatever the width of its `long` and the length of the path; that of a skipped
input and what stands in for a missing answer never are; and no comparison
reads past the terminator. -/
theorem oracleCheckLine_answer (r : UInt64) :
    (∀ t long p h pipe, ∃ line,
      oracleReadLine lineMax [] (replayPrints t long (RequestPath.request p)
        (.digest h) ++ pipe) = some (line, pipe) ∧
      oracleCheckLine line r = some (decide (h = r))) ∧
    (∀ t long p pipe, ∃ line,
      oracleReadLine lineMax [] (replayPrints t long (RequestPath.request p) .oversized ++
        pipe) = some (line, pipe) ∧
      oracleCheckLine line r = some false) ∧
    (∀ e, oracleCheckLine (noAnswerLine lineMax e ++ [0]) r = some false) ∧
    ∀ s, oracleCheckLine (cString s ++ [0]) r ≠ none := by
  refine ⟨?_, ?_, ?_, ?_⟩
  · intro t long p h pipe
    obtain ⟨path, hpath, hread⟩ := oracleReadLine_digest t long p h pipe
    refine ⟨_, hread, ?_⟩
    rw [oracleCheckLine_concat, accepts_digest t h r hpath]
  · intro t long p pipe
    obtain ⟨path, hpath, hread⟩ := oracleReadLine_oversized t long p pipe
    refine ⟨_, hread, ?_⟩
    rw [oracleCheckLine_concat, accepts_dash t r hpath]
  · intro e
    rw [oracleCheckLine_concat, accepts_noAnswerLine]
  · intro s
    rw [oracleCheckLine_eq (cString_zero s)]
    exact nofun

end Diffsecp
