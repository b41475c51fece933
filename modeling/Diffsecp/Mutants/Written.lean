import Mathlib.Algebra.BigOperators.Group.Finset.Piecewise
import Mathlib.Algebra.Order.BigOperators.Group.Finset
import Diffsecp.Mutants.Rewritten

/-!
# Mutants — Written

What `mutants/gen.py` writes: the copy of libsecp's tree, where a file `mutate`
returns under the copy's path takes the place of the file, and `mutants.h`.
-/

namespace Diffsecp

open Text

/-! ## The trees -/

/-- `COPIED`. -/
def copiedTops : List Str := ["src".toList, "include".toList, "contrib".toList]

/-- The tree at SECP: the file that a path opens from there, and the paths
below a top directory, as `os.walk` and `relpath` give them. -/
structure Tree (ι : Type) where
  file? : Str → Option ι
  bytes : ι → List UInt8
  walk : Str → List Str
  opens : ∀ top ∈ copiedTops, ∀ rel ∈ walk top, (file? rel).isSome = true

/-- What paths hold below OUT. -/
abbrev Files := Str → Option (List UInt8)

section Tree

variable {ι : Type} (tree : Tree ι)

def Tree.openFile (path : Str) : Option (List UInt8) := (tree.file? path).map tree.bytes

def Tree.copied : List Str := copiedTops.flatMap tree.walk

def outPath (rel : Str) : Str := "secp/".toList ++ rel

/-- `write_if_changed`. -/
def writeIfChanged (out : Files) (path : Str) (data : List UInt8) : Files :=
  if out path = some data then out else Function.update out path (some data)

/-- What the copy at `rel` holds. -/
def copyData (mutated : List (Str × Str)) (rel : Str) : List UInt8 :=
  match mutated.lookup rel with
  | some text => encodeUtf8 text
  | none => (tree.openFile rel).getD []

def copyTree (mutated : List (Str × Str)) (out : Files) : Files :=
  tree.copied.foldl
    (fun out rel => writeIfChanged out (outPath rel) (copyData tree mutated rel)) out

end Tree

/-! ## The header -/

/-- `str.replace` of a character. -/
def replaceChar (a : Char) (w s : Str) : Str :=
  s.flatMap fun c => if c = a then w else [c]

/-- `c_string`. -/
def Gen.cString (s : Str) : Str :=
  '\x22' :: replaceChar '\x22' ['\x5c', '\x22'] (replaceChar '\x5c' ['\x5c', '\x5c'] s) ++
    ['\x22']

def Record.name (r : Record) : Str :=
  r.path ++ ":".toList ++ r.function ++ ": ".toList ++ r.original ++
    " -> ".toList ++ r.mutated

def countLine (n : ℕ) : Str := "#define DIFFSECP_MUTANT_COUNT ".toList ++ natText n

theorem countLine_eq (n : ℕ) :
    countLine n = "#define DIFFSECP_MUTANT_COUNT ".toList ++ natText n := rfl

/-- `mutants.h`. -/
def header (records : List Record) : Str :=
  "/* Generated by mutants/gen.py from mutants/mutants.txt. */\n".toList ++
    ("#define DIFFSECP_MUTANT_DETECT (-1)\n".toList ++
      (countLine records.length ++
        ("\n#define DIFFSECP_MUTANT_NAMES \x7b \\\n".toList ++
          (" \\\n".toList.intercalate (records.map fun r =>
            "    ".toList ++ (Gen.cString r.name ++ [','])) ++ " \\\n\x7d\n".toList))))

theorem header_eq (records : List Record) :
    header records =
      "/* Generated by mutants/gen.py from mutants/mutants.txt. */\n".toList ++
      ("#define DIFFSECP_MUTANT_DETECT (-1)\n".toList ++
        (countLine records.length ++
          ("\n#define DIFFSECP_MUTANT_NAMES \x7b \\\n".toList ++
            (" \\\n".toList.intercalate (records.map fun r =>
              "    ".toList ++ (Gen.cString r.name ++ [','])) ++
              " \\\n\x7d\n".toList)))) := rfl

/-- `main`, for a list and a tree, from what OUT holds. -/
def writeSchemata {ι : Type} (cls : CharClasses) (tree : Tree ι) (list : Str)
    (out : Files) :
    Except GenError Files := do
  let records ← parse cls list
  let mutated ← mutate cls tree.openFile records
  pure (writeIfChanged (copyTree tree mutated out) "mutants.h".toList
    (encodeUtf8 (header records)))

/-! ## What the build needs of it -/

/-- The string literals of a text, as C reads them: the one being read so far
and the rest of the text. -/
def literalsFrom : Option Str → Str → List Str
  | _, [] => []
  | none, c :: cs =>
      if c = '\x22' then literalsFrom (some []) cs else literalsFrom none cs
  | some w, '\x5c' :: c :: cs => literalsFrom (some (w ++ [c])) cs
  | some w, c :: cs =>
      if c = '\x22' then w :: literalsFrom none cs else literalsFrom (some (w ++ [c])) cs

def literals (s : Str) : List Str := literalsFrom none s

/-- `written` is `text` after the prelude, with the switches of the records
`ks` at their sites, each once. -/
def Spliced (cls : CharClasses) (records : List Record) (ks : ℕ → Prop)
    (text written : Str) : Prop :=
  ∃ pieces : List (Piece ℕ Char),
    written = preludeText ++ render (switchOf records) pieces ∧
    render (originalOf records) pieces = text ∧
    (keys pieces).Nodup ∧ (∀ k, k ∈ keys pieces ↔ ks k) ∧
    ∀ ps k qs, pieces = ps ++ .site k :: qs → ∃ r, records[k]? = some r ∧
      SitedAt cls text r (render (originalOf records) ps).length

/-- No mutant is dropped: every record has a place in the copy, the file it
names, where its switch is spliced in and nowhere else, what is no record's
place is an unchanged copy, and the header names them all. -/
def Complete {ι : Type} (cls : CharClasses) (tree : Tree ι) (records : List Record)
    (out : Files) : Prop :=
  (∃ place : ℕ → Str,
    (∀ k r, records[k]? = some r → place k ∈ tree.copied ∧
      tree.file? (place k) = tree.file? r.path) ∧
    ∀ rel ∈ tree.copied, ∃ i, tree.file? rel = some i ∧
      if ∃ k < records.length, place k = rel then
        ∃ text written, readText (tree.bytes i) = some text ∧
          out (outPath rel) = some (encodeUtf8 written) ∧
          Spliced cls records (fun k => k < records.length ∧ place k = rel) text written
      else out (outPath rel) = some (tree.bytes i)) ∧
  ∃ text, out "mutants.h".toList = some (encodeUtf8 text) ∧ (∃ before' after',
    text = before' ++ ('\n' :: (countLine records.length ++ ('\n' :: after')))) ∧
      literals text = records.map Record.name

/-! ## The header's literals -/

section Header

variable {s w rest : Str} {records : List Record}

theorem literals_skip (hs : '\x22' ∉ s) : literals (s ++ rest) = literals rest := by
  induction s with
  | nil => rfl
  | cons c s ih =>
      rw [List.mem_cons, not_or] at hs
      rw [literals, List.cons_append, literalsFrom, if_neg (Ne.symm hs.1)]
      exact ih hs.2

theorem literalsFrom_escaped :
    literalsFrom (some w)
      (replaceChar '\x22' ['\x5c', '\x22'] (replaceChar '\x5c' ['\x5c', '\x5c'] s) ++
        '\x22' :: rest) = (w ++ s) :: literals rest := by
  induction s generalizing w with
  | nil =>
      rw [List.append_nil]
      rfl
  | cons c s ih =>
      have hnext := ih (w := w ++ [c])
      rw [List.append_assoc, List.singleton_append] at hnext
      rw [← hnext]
      by_cases hslash : c = '\x5c'
      · subst hslash
        rfl
      by_cases hquote : c = '\x22'
      · subst hquote
        rfl
      have hkeep : replaceChar '\x22' ['\x5c', '\x22']
          (replaceChar '\x5c' ['\x5c', '\x5c'] (c :: s)) =
          c :: replaceChar '\x22' ['\x5c', '\x22'] (replaceChar '\x5c'
            ['\x5c', '\x5c'] s) := by
        simp [replaceChar, hslash, hquote]
      rw [hkeep, List.cons_append, literalsFrom]
      · rw [if_neg hquote]
      · rintro c' cs rfl
        exact absurd rfl hslash

theorem literals_cString : literals (Gen.cString s ++ rest) = s :: literals rest := by
  have hescaped : literalsFrom (some [])
      (replaceChar '\x22' ['\x5c', '\x22'] (replaceChar '\x5c' ['\x5c', '\x5c'] s) ++
        '\x22' :: rest) = ([] ++ s) :: literals rest := literalsFrom_escaped
  rw [List.nil_append] at hescaped
  rw [← hescaped, Gen.cString, List.append_assoc]
  rfl

theorem not_mem_natText {c : Char} (hc : c.isDigit = false) (n : ℕ) : c ∉ natText n := by
  intro hmem
  rw [natText, Nat.toList_repr] at hmem
  have hdigit := Nat.isDigit_of_mem_toDigits (by decide) (by decide) hmem
  rw [hc] at hdigit
  nomatch hdigit

/-- The entries of the header's list. -/
theorem literals_entries (names : List Str) :
    literals (" \\\n".toList.intercalate (names.map fun n =>
      "    ".toList ++ (Gen.cString n ++ [','])) ++ rest) = names ++ literals rest := by
  have hindent : '\x22' ∉ "    ".toList := by
    rw [String.toList_ofList]
    decide
  have hsep : '\x22' ∉ " \\\n".toList := by
    rw [String.toList_ofList]
    decide
  have hone (n : Str) (rest : Str) :
      literals (("    ".toList ++ (Gen.cString n ++ [','])) ++ rest) =
        n :: literals rest := by
    rw [List.append_assoc, literals_skip hindent, List.append_assoc, literals_cString,
      literals_skip (by decide)]
  induction names with
  | nil => rfl
  | cons n names ih =>
      cases names with
      | nil =>
          rw [List.map_singleton, List.intercalate_singleton, hone]
          rfl
      | cons m names =>
          rw [List.map_cons] at ih ⊢
          rw [List.map_cons, List.intercalate_cons_cons, List.append_assoc,
            List.append_assoc, hone, literals_skip hsep, ih]
          rfl

/-- The header's literals are the names of the records. -/
theorem literals_header : literals (header records) = records.map Record.name := by
  have hcount : '\x22' ∉ countLine records.length := by
    rw [countLine_eq, List.mem_append, not_or, String.toList_ofList]
    exact ⟨by decide, not_mem_natText (by decide) _⟩
  have hentries : (records.map fun r => "    ".toList ++ (Gen.cString r.name ++ [','])) =
      (records.map Record.name).map fun n =>
        "    ".toList ++ (Gen.cString n ++ [',']) := by
    rw [List.map_map]
    rfl
  rw [header_eq, literals_skip (by rw [String.toList_ofList]; decide),
    literals_skip (by rw [String.toList_ofList]; decide), literals_skip hcount,
    literals_skip (by rw [String.toList_ofList]; decide), hentries, literals_entries]
  have hend : literals " \\\n\x7d\n".toList = [] := by
    rw [String.toList_ofList]
    rfl
  rw [hend, List.append_nil]

/-- The line of the header that counts the records. -/
theorem countLine_header : ∃ before' after',
    header records =
      before' ++ ('\n' :: (countLine records.length ++ ('\n' :: after'))) := by
  have hdetect : "#define DIFFSECP_MUTANT_DETECT (-1)\n".toList =
      "#define DIFFSECP_MUTANT_DETECT (-1)".toList ++ ['\n'] := by
    rw [String.toList_ofList, String.toList_ofList]
    rfl
  have hnames : "\n#define DIFFSECP_MUTANT_NAMES \x7b \\\n".toList =
      '\n' :: "#define DIFFSECP_MUTANT_NAMES \x7b \\\n".toList := by
    rw [String.toList_ofList, String.toList_ofList]
  rw [header_eq, hdetect, hnames]
  have hshape (a b c d e : Str) :
      a ++ (b ++ ['\n'] ++ (c ++ ('\n' :: d ++ e))) =
        a ++ b ++ ('\n' :: (c ++ ('\n' :: (d ++ e)))) := by simp
  exact ⟨_, _, hshape _ _ _ _ _⟩

end Header

/-! ## What the switches add -/

section Gain

variable {cls : CharClasses} {records : List Record} {text written : Str}

/-- The characters that the switch of record `k` adds to a text. -/
def gain (records : List Record) (k : ℕ) : ℕ :=
  (switchOf records k).countP inLine - (originalOf records k).countP inLine

theorem switchOf_eq_of_lt {k : ℕ} (hk : k < records.length) :
    switchOf records k = records[k].switch k ∧
    originalOf records k = records[k].original := by
  rw [switchOf, originalOf, List.getElem?_eq_getElem hk]
  exact ⟨rfl, rfl⟩

/-- Every switch adds to the text. -/
theorem countP_switchOf {k : ℕ} (hk : k < records.length) :
    (switchOf records k).countP inLine =
      (originalOf records k).countP inLine + gain records k ∧ 0 < gain records k := by
  obtain ⟨hswitch, horiginal⟩ := switchOf_eq_of_lt hk
  have hname : 0 < "DIFFSECP_MUTATE(".toList.countP inLine := by
    rw [String.toList_ofList]
    decide
  have hlt :
      (originalOf records k).countP inLine < (switchOf records k).countP inLine := by
    rw [hswitch, horiginal, Record.switch_eq]
    simp only [List.countP_append]
    omega
  rw [gain]
  omega

open Classical in
/-- The characters that the switches of the records `ks` add. -/
noncomputable def gains (records : List Record) (ks : ℕ → Prop) : ℕ :=
  ∑ k ∈ Finset.range records.length, if ks k then gain records k else 0

/-- What a text with switches counts. -/
theorem Spliced.countP {ks : ℕ → Prop} (h : Spliced cls records ks text written)
    (hks : ∀ k, ks k → k < records.length) :
    written.countP inLine =
      preludeText.countP inLine + (text.countP inLine + gains records ks) := by
  obtain ⟨pieces, rfl, rfl, hnodup, hkeys, -⟩ := h
  have hcount : ∀ k ∈ keys pieces, (switchOf records k).countP inLine =
      (originalOf records k).countP inLine + gain records k :=
    fun k hk => (countP_switchOf (hks k ((hkeys k).mp hk))).1
  have hsum : ((keys pieces).map (gain records)).sum = gains records ks := by
    classical
    rw [← List.sum_toFinset _ hnodup, gains, ← Finset.sum_filter]
    apply Finset.sum_congr _ fun _ _ => rfl
    ext k
    rw [List.mem_toFinset, hkeys, Finset.mem_filter, Finset.mem_range]
    exact ⟨fun hk => ⟨hks k hk, hk⟩, And.right⟩
  rw [List.countP_append, countP_render hcount, hsum]

open Classical in
/-- What the switches of all files add, where no record is in two. -/
theorem sum_gains {W : Finset Str} {P : ℕ → Str → Prop}
    (hP : ∀ k rel rel', P k rel → P k rel' → rel = rel') :
    ∑ rel ∈ W, gains records (fun k => P k rel) =
      ∑ k ∈ Finset.range records.length,
      if ∃ rel ∈ W, P k rel then gain records k else 0 := by
  simp only [gains]
  rw [Finset.sum_comm]
  apply Finset.sum_congr rfl
  intro k _
  by_cases hex : ∃ rel ∈ W, P k rel
  · obtain ⟨rel, hrel, hk⟩ := hex
    rw [if_pos ⟨rel, hrel, hk⟩, Finset.sum_eq_single_of_mem rel hrel, if_pos hk]
    intro rel' _ hne
    exact if_neg fun hk' => hne (hP k _ _ hk' hk)
  · rw [if_neg hex]
    apply Finset.sum_eq_zero
    intro rel hrel
    exact if_neg fun hk => hex ⟨rel, hrel, hk⟩

theorem countP_preludeText : 0 < preludeText.countP inLine := by
  rw [List.countP_pos_iff]
  refine ⟨'/', ?_, rfl⟩
  rw [preludeText, preludeLines, List.flatMap_cons, List.mem_append, String.toList_ofList]
  exact .inl (List.mem_cons_self ..)

/-- Reading a text that was written counts the same. -/
theorem countP_readText (h : readText (encodeUtf8 written) = some text) :
    text.countP inLine = written.countP inLine := by
  rw [readText, decodeUtf8_encodeUtf8, Option.map_some, Option.some_inj] at h
  rw [← h, List.countP_eq_length_filter, filter_universalNewlines,
    ← List.countP_eq_length_filter]

end Gain

/-! ## The copy -/

section Copy

variable {ι : Type} {cls : CharClasses} {tree : Tree ι} {records : List Record}
  {mutated : List (Str × Str)} {list rel : Str} {before' after' : Files}

theorem writeIfChanged_apply (out : Files) (path q : Str) (data : List UInt8) :
    writeIfChanged out path data q = if q = path then some data else out q := by
  rw [writeIfChanged]
  by_cases hsame : out path = some data
  · rw [if_pos hsame]
    by_cases hq : q = path
    · rw [if_pos hq, hq, hsame]
    · rw [if_neg hq]
  · rw [if_neg hsame, Function.update_apply]

theorem outPath_inj {r r' : Str} : outPath r = outPath r' ↔ r = r' :=
  List.append_right_inj _

theorem outPath_ne_header (r : Str) : outPath r ≠ "mutants.h".toList := by
  intro h
  have hhead := congrArg List.head? h
  rw [outPath, String.toList_ofList, String.toList_ofList] at hhead
  exact absurd hhead (by simp)

/-- Every file of the tree is copied. -/
theorem copyTree_apply (hrel : rel ∈ tree.copied) (out : Files) :
    copyTree tree mutated out (outPath rel) = some (copyData tree mutated rel) := by
  have hfold (rels : List Str) (out : Files) (h : rel ∈ rels ∨
    out (outPath rel) = some (copyData tree mutated rel)) :
      rels.foldl (fun out r => writeIfChanged out (outPath r) (copyData tree mutated r))
        out (outPath rel) = some (copyData tree mutated rel) := by
    induction rels generalizing out with
    | nil => exact h.resolve_left nofun
    | cons r rels ih =>
        apply ih
        dsimp only
        rw [writeIfChanged_apply]
        by_cases hsame : rel = r
        · rw [if_pos (outPath_inj.mpr hsame), hsame]
          exact .inr rfl
        · rw [if_neg fun heq => hsame (outPath_inj.mp heq)]
          rcases h with h | h
          · exact .inl ((List.mem_cons.mp h).resolve_left hsame)
          · exact .inr h
  exact hfold _ out (.inl hrel)

/-- What a run that succeeds read and leaves. -/
theorem writeSchemata_ok (h : writeSchemata cls tree list before' = .ok after') :
    ∃ records mutated, parse cls list = .ok records ∧
      mutate cls tree.openFile records = .ok mutated ∧
      (∀ rel ∈ tree.copied, after' (outPath rel) = some (copyData tree mutated rel)) ∧
        after' "mutants.h".toList = some (encodeUtf8 (header records)) := by
  obtain ⟨records, hparse, hrest⟩ := bind_eq_ok.mp h
  obtain ⟨mutated, hmutate, hpure⟩ := bind_eq_ok.mp hrest
  obtain rfl := Except.ok.inj hpure
  refine ⟨records, mutated, hparse, hmutate, fun rel hrel => ?_, ?_⟩
  · rw [writeIfChanged_apply, if_neg (outPath_ne_header rel), copyTree_apply hrel]
  · rw [writeIfChanged_apply, if_pos rfl]

theorem Tree.file_of_copied (hrel : rel ∈ tree.copied) :
    ∃ i, tree.file? rel = some i := by
  obtain ⟨top, htop, hwalk⟩ := List.mem_flatMap.mp hrel
  exact Option.isSome_iff_exists.mp (tree.opens top htop rel hwalk)

/-- What the copy of a file is: its text with the switches of the records that
name it so, or the file. -/
theorem copyData_cases (hmutate : mutate cls tree.openFile records = .ok mutated) {i : ι}
    (hi : tree.file? rel = some i) :
    ((∃ k : ℕ, (records[k]?).map Record.path = some rel) ∧
      ∃ text written, readText (tree.bytes i) = some text ∧
        copyData tree mutated rel = encodeUtf8 written ∧
        Spliced cls records (fun k : ℕ => (records[k]?).map Record.path = some rel)
          text written) ∨
    ((∀ k : ℕ, (records[k]?).map Record.path ≠ some rel) ∧
      copyData tree mutated rel = tree.bytes i) := by
  obtain ⟨hnodup, hpaths, hfiles⟩ := mutate_spec hmutate
  have hpathOf (k : ℕ) : (records[k]?).map Record.path = some rel ↔
      ∃ r, records[k]? = some r ∧ r.path = rel :=
    Option.map_eq_some_iff
  have hbytes : tree.openFile rel = some (tree.bytes i) := by
    rw [Tree.openFile, hi]
    rfl
  cases hlookup : mutated.lookup rel with
  | some written =>
      left
      obtain ⟨l₁, l₂, rfl, -⟩ := List.lookup_eq_some_iff.mp hlookup
      have hmem : (rel, written) ∈ l₁ ++ (rel, written) :: l₂ := by simp
      obtain ⟨bytes, text, hopen, htext, pieces, hwritten, hself, hkeys, hsites⟩ :=
        hfiles _ hmem
      rw [hbytes] at hopen
      obtain rfl := Option.some.inj hopen
      obtain ⟨r, hr, hpath⟩ := (hpaths rel).mp (List.mem_map.mpr ⟨_, hmem, rfl⟩)
      obtain ⟨k, hk⟩ := List.mem_iff_getElem?.mp hr
      refine ⟨⟨k, (hpathOf k).mpr ⟨r, hk, hpath⟩⟩, text, written, htext, ?_, pieces,
        hwritten, hself, ?_, fun j => ?_, fun ps j qs hpieces => ?_⟩
      · rw [copyData, hlookup]
      · exact hkeys.nodup_iff.mpr (nodup_recordsOf records rel)
      · refine hkeys.mem_iff.trans (List.mem_map.trans (Iff.trans ?_ (hpathOf j).symm))
        constructor
        · rintro ⟨rk, hrk, rfl⟩
          exact ⟨rk.1, mem_recordsOf.mp hrk⟩
        · rintro ⟨q, hq⟩
          exact ⟨(q, j), mem_recordsOf.mpr hq, rfl⟩
      · obtain ⟨q, hq, -, hsited, -⟩ := hsites ps j qs hpieces
        exact ⟨q, hq, hsited⟩
  | none =>
      right
      constructor
      · intro k hk
        obtain ⟨r, hr, hpath⟩ := (hpathOf k).mp hk
        obtain ⟨file, hfile, hfpath⟩ :=
          List.mem_map.mp ((hpaths rel).mpr ⟨r, List.mem_of_getElem? hr, hpath⟩)
        have hne := List.lookup_eq_none_iff.mp hlookup file hfile
        rw [hfpath] at hne
        simp at hne
      · rw [copyData, hlookup, hbytes]
        rfl

/-- Where every record names a file of the copy as the copy does, none is
dropped. -/
theorem complete_of_paths (hmutate : mutate cls tree.openFile records = .ok mutated)
    (hcopy : ∀ rel ∈ tree.copied, after' (outPath rel) = some (copyData tree mutated rel))
    (hheader : after' "mutants.h".toList = some (encodeUtf8 (header records)))
    (hpaths : ∀ r ∈ records, r.path ∈ tree.copied) :
    Complete cls tree records after' := by
  refine ⟨⟨fun k => ((records[k]?).map Record.path).getD [], fun k r hr => ?_,
    fun rel hrel => ?_⟩, header records, hheader, countLine_header, literals_header⟩
  · dsimp only
    rw [hr]
    exact ⟨hpaths r (List.mem_of_getElem? hr), rfl⟩
  · obtain ⟨i, hi⟩ := tree.file_of_copied hrel
    have hplace (k : ℕ) :
        (k < records.length ∧ ((records[k]?).map Record.path).getD [] = rel) ↔
        (records[k]?).map Record.path = some rel := by
      cases hk : records[k]? with
      | none => exact iff_of_false (fun h => by simp at hk; omega) nofun
      | some r => exact ⟨fun h => congrArg some h.2,
            fun h => ⟨(List.getElem?_eq_some_iff.mp hk).1, Option.some.inj h⟩⟩
    simp only [hplace]
    rw [hcopy rel hrel]
    refine ⟨i, hi, ?_⟩
    rcases copyData_cases hmutate hi with ⟨hex, text, written, htext, hdata,
      hspliced⟩ | ⟨hnone, hdata⟩
    · obtain ⟨k, hk⟩ := hex
      rw [if_pos ⟨k, (hplace k).mpr hk⟩, hdata]
      exact ⟨text, written, htext, rfl, hspliced⟩
    · rw [if_neg fun ⟨k, hk⟩ => hnone k ((hplace k).mp hk), hdata]

/-- What the switches of a file add, told by where the records are placed and
by what they name. -/
theorem gain_eq (hmutate : mutate cls tree.openFile records = .ok mutated) {i : ι}
    (hi : tree.file? rel = some i) {place : ℕ → Str}
    (hplaced : if ∃ k < records.length, place k = rel then
        ∃ text written, readText (tree.bytes i) = some text ∧
          copyData tree mutated rel = encodeUtf8 written ∧
          Spliced cls records (fun k => k < records.length ∧ place k = rel) text written
      else copyData tree mutated rel = tree.bytes i) :
    gains records (fun k => k < records.length ∧ place k = rel) =
      gains records fun k : ℕ => (records[k]?).map Record.path = some rel := by
  have hlt (k : ℕ) (hk : (records[k]?).map Record.path = some rel) :
      k < records.length := by
    obtain ⟨r, hr, -⟩ := Option.map_eq_some_iff.mp hk
    exact (List.getElem?_eq_some_iff.mp hr).1
  have hprelude := countP_preludeText
  -- a file that is unchanged has no prelude
  have hchanged {ks : ℕ → Prop} {text written : Str} (hks : ∀ k,
    ks k → k < records.length)
      (htext : readText (tree.bytes i) = some text)
      (hspliced : Spliced cls records ks text written) :
      encodeUtf8 written ≠ tree.bytes i := by
    intro heq
    rw [← heq] at htext
    have hread := countP_readText htext
    have hcount := hspliced.countP hks
    omega
  rcases copyData_cases hmutate hi with ⟨⟨j, hj⟩, text, written, htext, hdata,
    hspliced⟩ | ⟨hnone, hdata⟩
  · split at hplaced
    next hex =>
      obtain ⟨text', written', htext', hdata', hspliced'⟩ := hplaced
      rw [htext] at htext'
      obtain rfl := Option.some.inj htext'
      obtain rfl := encodeUtf8_injective (hdata.symm.trans hdata')
      have hcount := hspliced.countP hlt
      have hcount' := hspliced'.countP fun k hk => hk.1
      omega
    next hex => exact absurd (hdata.symm.trans hplaced) (hchanged hlt htext hspliced)
  · split at hplaced
    next hex =>
      obtain ⟨text', written', htext', hdata', hspliced'⟩ := hplaced
      exact absurd (hdata'.symm.trans hdata)
        (hchanged (fun k hk => hk.1) htext' hspliced')
    next hex =>
      have hnot (k : ℕ) : ¬ (k < records.length ∧ place k = rel) := fun hk => hex ⟨k, hk⟩
      simp only [gains, hnot, hnone]

/-- Where none is dropped, every record names a file of the copy as the copy
does: what the switches add to all files is the sum over all records. -/
theorem paths_of_complete (hmutate : mutate cls tree.openFile records = .ok mutated)
    (hcopy : ∀ rel ∈ tree.copied, after' (outPath rel) = some (copyData tree mutated rel))
    (h : Complete cls tree records after') : ∀ r ∈ records, r.path ∈ tree.copied := by
  obtain ⟨⟨place, hplace, hfiles⟩, -⟩ := h
  have hgains : ∑ rel ∈ tree.copied.toFinset,
      gains records (fun k => k < records.length ∧ place k = rel) =
      ∑ rel ∈ tree.copied.toFinset, gains records fun k : ℕ =>
        (records[k]?).map Record.path = some rel := by
    apply Finset.sum_congr rfl
    intro rel hrel
    rw [List.mem_toFinset] at hrel
    obtain ⟨i, hi, hplaced⟩ := hfiles rel hrel
    simp only [hcopy rel hrel, Option.some_inj] at hplaced
    exact gain_eq hmutate hi hplaced
  rw [sum_gains fun k rel rel' h h' => h.2.symm.trans h'.2,
    sum_gains fun k rel rel' h h' => Option.some.inj (h.symm.trans h')] at hgains
  intro r hr
  by_contra hdropped
  obtain ⟨j, hj⟩ := List.mem_iff_getElem?.mp hr
  have hlt : j < records.length := (List.getElem?_eq_some_iff.mp hj).1
  -- every record adds in the file it is placed in, and this one in no file it names
  have hplaced {k : ℕ} (hk : k < records.length) :
      ∃ rel ∈ tree.copied.toFinset, k < records.length ∧ place k = rel :=
    ⟨place k, List.mem_toFinset.mpr (hplace k _ (List.getElem?_eq_getElem hk)).1, hk, rfl⟩
  have hnamed : ¬ ∃ rel ∈ tree.copied.toFinset, (records[j]?).map Record.path =
      some rel := by
    rintro ⟨rel, hrel, hpath⟩
    rw [hj] at hpath
    obtain rfl := Option.some.inj hpath
    exact hdropped (List.mem_toFinset.mp hrel)
  refine absurd hgains
    (Nat.ne_of_gt (Finset.sum_lt_sum (fun k hk => ?_) ⟨j, Finset.mem_range.mpr hlt, ?_⟩))
  · rw [if_pos (hplaced (Finset.mem_range.mp hk))]
    split
    next => exact Nat.le_refl _
    next => exact Nat.zero_le _
  · rw [if_pos (hplaced hlt), if_neg hnamed]
    exact (countP_switchOf hlt).2

end Copy

/-- For every list and tree on which the build succeeds: no mutant is dropped
if and only if every record spells its file as the copy does. -/
theorem writeSchemata_complete_iff {ι : Type} (cls : CharClasses) (tree : Tree ι)
    (list : Str) (before' after' : Files) (records : List Record)
    (hparse : parse cls list = .ok records)
    (hwrite : writeSchemata cls tree list before' = .ok after') :
    Complete cls tree records after' ↔ ∀ r ∈ records, r.path ∈ tree.copied := by
  obtain ⟨records', mutated, hparse', hmutate, hcopy, hheader⟩ := writeSchemata_ok hwrite
  rw [hparse] at hparse'
  obtain rfl := Except.ok.inj hparse'
  exact ⟨paths_of_complete hmutate hcopy, complete_of_paths hmutate hcopy hheader⟩

/-- A tree of one file, opened by two paths. -/
def loneTree : Tree Unit where
  file? path :=
    if path = "src/f.c".toList ∨ path = "./src/f.c".toList then some () else none
  bytes _ := encodeUtf8 "int f(int a) \x7b\n  return a == 2;\n\x7d\n".toList
  walk top := if top = "src".toList then ["src/f.c".toList] else []
  opens := by decide +kernel

def loneRecord (path : Str) : Record :=
  ⟨path, "f".toList, none, "a == 2".toList, "a == 3".toList, 1⟩

theorem exists_writeSchemata (list path : Str)
    (hparse : (parse asciiClasses list).toOption = some [loneRecord path])
    (hmutate : (mutate asciiClasses loneTree.openFile [loneRecord path]).toOption.isSome =
      true) :
    parse asciiClasses list = .ok [loneRecord path] ∧
      ∃ after', writeSchemata asciiClasses loneTree list (fun _ => none) =
        .ok after' := by
  obtain ⟨mutated, hmutated⟩ := Option.isSome_iff_exists.mp hmutate
  have hrecords := ok_of_toOption hparse
  exact ⟨hrecords, _,
    bind_eq_ok.mpr ⟨_, hrecords, bind_eq_ok.mpr ⟨mutated, ok_of_toOption hmutated, rfl⟩⟩⟩

theorem writeSchemata_complete_lone :
    ∃ after', writeSchemata asciiClasses loneTree "src/f.c f\n  a == 2\n  a == 3\n".toList
      (fun _ => none) =
        .ok after' ∧
      Complete asciiClasses loneTree [loneRecord "src/f.c".toList] after' := by
  obtain ⟨hparse, after', hwrite⟩ :=
    exists_writeSchemata "src/f.c f\n  a == 2\n  a == 3\n".toList
    "src/f.c".toList (by decide +kernel) (by decide +kernel)
  refine ⟨after', hwrite, (writeSchemata_complete_iff _ _ _ _ _ _ hparse hwrite).mpr ?_⟩
  exact List.forall_mem_singleton.mpr (by decide +kernel)

/-- A record whose path has a redundant component is dropped. -/
theorem writeSchemata_drops :
    ∃ after', writeSchemata asciiClasses loneTree
      "./src/f.c f\n  a == 2\n  a == 3\n".toList (fun _ => none) =
        .ok after' ∧
      loneTree.file? "./src/f.c".toList = loneTree.file? "src/f.c".toList ∧
        ¬ Complete asciiClasses loneTree [loneRecord "./src/f.c".toList] after' := by
  obtain ⟨hparse, after', hwrite⟩ :=
    exists_writeSchemata "./src/f.c f\n  a == 2\n  a == 3\n".toList
    "./src/f.c".toList (by decide +kernel) (by decide +kernel)
  obtain ⟨records, mutated, hparse', hmutate, hcopy, -⟩ := writeSchemata_ok hwrite
  rw [hparse] at hparse'
  obtain rfl := Except.ok.inj hparse'
  refine ⟨after', hwrite, by decide +kernel, fun hcomplete => ?_⟩
  have hpath := paths_of_complete hmutate hcopy hcomplete _ (List.mem_singleton_self _)
  exact absurd hpath (by decide +kernel)

end Diffsecp
