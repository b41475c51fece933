import Mathlib.Data.List.Sort
import Diffsecp.Text.File
import Diffsecp.Text.Regex
import Diffsecp.Text.Splice
import Diffsecp.Text.Words

/-!
# Mutants — Generator

`mutants/gen.py`: the list of mutants is parsed, each mutant's site is found
in the function it names, and the texts are rewritten with every mutation
behind `DIFFSECP_MUTATE`.
-/

namespace Diffsecp

open Text

abbrev Str := List Char

/-- The characters that `\w` and `\s` take. -/
structure CharClasses where
  word : Char → Bool
  space : Char → Bool
  space_blank : space ' ' = true
  space_newline : space '\n' = true
  space_brace : space '\x7b' = false

/-- Those of ASCII; `\s` takes the four separators before the blank too. -/
def asciiClasses : CharClasses where
  word c := c.isAlphanum || c = '_'
  space c := c = ' ' || ('\t' ≤ c && c ≤ '\r') || ('\x1c' ≤ c && c ≤ '\x1f')
  space_blank := rfl
  space_newline := rfl
  space_brace := rfl

/-- `PRELUDE`. -/
def preludeLines : List String :=
  ["/* Mutant schemata written by diffsecp's mutants/gen.py. */\n",
    "#ifndef DIFFSECP_MUTATE\n",
    "extern int diffsecp_mutant;\n",
    "extern unsigned char diffsecp_mutant_infected[];\n",
    "#define DIFFSECP_MUTATE(k, o, m) (diffsecp_mutant == (k) ? (m) : \\\n",
    "    (diffsecp_mutant < 0 && (o) != (m)) ? (diffsecp_mutant_infected[k] = 1, (o)) : (o))\n",
    "#endif\n"]

def preludeText : Str := preludeLines.flatMap String.toList

theorem not_mem_preludeText : '\r' ∉ preludeText := by
  intro h
  obtain ⟨l, hl, hc⟩ := List.mem_flatMap.mp h
  simp only [preludeLines, List.mem_cons, List.not_mem_nil, or_false] at hl
  rcases hl with rfl | rfl | rfl | rfl | rfl | rfl | rfl
  all_goals
    rw [String.toList_ofList] at hc
    exact absurd hc (by decide)

/-- A mutant, from a line of the list on. -/
structure Record where
  path : Str
  function : Str
  anchor : Option Str
  original : Str
  mutated : Str
  line : ℕ
deriving DecidableEq

/-! ## Failures -/

inductive GenError where
  | expected (line : ℕ)
  | outside (line : ℕ)
  | needs (line : ℕ)
  | noMutants
  | unreadable (line : ℕ) (path : Str)
  /-- Not UTF-8, which nothing catches. -/
  | undecodable (path : Str)
  | definition (line : ℕ) (function path : Str)
  | anchor (line : ℕ) (anchor : Str) (count : ℕ) (function : Str)
  | original (line : ℕ) (original : Str) (count : ℕ) (function : Str) (anchored : Bool)
  | overlap (path : Str)

/-- What a sequence of steps gives, its steps give. -/
theorem bind_eq_ok {ε α β : Type} {x : Except ε α} {f : α → Except ε β} {b : β} :
    x >>= f = .ok b ↔ ∃ a, x = .ok a ∧ f a = .ok b := by
  cases x with
  | error e => exact iff_of_false nofun fun ⟨a, ha, _⟩ => nomatch ha
  | ok a => exact ⟨fun h => ⟨a, rfl, h⟩, fun ⟨_, ha, h⟩ => Except.ok.inj ha ▸ h⟩

theorem ok_of_toOption {ε α : Type} {x : Except ε α} {a : α} (h : x.toOption = some a) :
    x = .ok a := by
  cases x with
  | error e => nomatch h
  | ok b => exact congrArg Except.ok (Option.some.inj h)

theorem mapM_eq_ok {ε α β : Type} {f : α → Except ε β} {as : List α} {bs : List β} :
    as.mapM f = .ok bs ↔ List.Forall₂ (fun a b => f a = .ok b) as bs := by
  induction as generalizing bs with
  | nil =>
      rw [List.mapM_nil, List.forall₂_nil_left_iff]
      exact ⟨fun h => (Except.ok.inj h).symm, fun h => congrArg Except.ok h.symm⟩
  | cons a as ih =>
      rw [List.mapM_cons, bind_eq_ok, List.forall₂_cons_left_iff]
      constructor
      · rintro ⟨b, hb, hrest⟩
        obtain ⟨bs', hbs', hpure⟩ := bind_eq_ok.mp hrest
        exact ⟨b, bs', hb, ih.mp hbs', (Except.ok.inj hpure).symm⟩
      · rintro ⟨b, bs', hb, hrest, rfl⟩
        exact ⟨b, hb, bind_eq_ok.mpr ⟨bs', ih.mpr hrest, rfl⟩⟩

/-- What stands on one side of two lists related one by one has its match on
the other. -/
theorem exists_of_forall₂ {α β : Type} {R : α → β → Prop} {as : List α} {bs : List β}
    (h : List.Forall₂ R as bs) {b : β} (hb : b ∈ bs) : ∃ a ∈ as, R a b := by
  induction h with
  | nil => nomatch hb
  | cons hab _ ih =>
      rcases List.mem_cons.mp hb with rfl | hb
      · exact ⟨_, List.mem_cons_self .., hab⟩
      · obtain ⟨a, ha, hab⟩ := ih hb
        exact ⟨a, List.mem_cons_of_mem _ ha, hab⟩

def natText (n : ℕ) : Str := (Nat.repr n).toList

/-- What `fail` prints, for the list at `list`; Python's `repr` and the text
of an `OSError` are given. -/
def GenError.message (list : Str) (repr osError : Str → Str)
    (e : GenError) : Option Str :=
  let at' (n : ℕ) : Str := list ++ ":".toList ++ natText n ++ ": ".toList
  let fail (msg : Str) : Option Str := some ("mutants/gen.py: ".toList ++ msg)
  match e with
  | .expected n => fail (at' n ++ "expected FILE FUNCTION".toList)
  | .outside n => fail (at' n ++ "expression outside a record".toList)
  | .needs n =>
      fail (at' n ++ "a record needs an original and a mutated expression".toList)
  | .noMutants => fail (list ++ " lists no mutants".toList)
  | .unreadable n path => fail (at' n ++ osError path)
  | .undecodable _ => none
  | .definition n function path =>
      fail
        (at' n ++ "no single definition of ".toList ++ function ++ " in ".toList ++ path)
  | .anchor n needle count function =>
      fail (at' n ++ "anchor ".toList ++ repr needle ++ " appears ".toList ++
        natText count ++ " times in ".toList ++ function)
  | .original n needle count function anchored =>
      fail (at' n ++ repr needle ++ " appears ".toList ++ natText count ++
        " times in ".toList ++ function ++
        if anchored then " after its anchor".toList else [])
  | .overlap path => fail ("mutations overlap in ".toList ++ path)

/-! ## The list of mutants -/

section Parse

variable (cls : CharClasses)

/-- `str.strip`. -/
def strip (s : Str) : Str := ((s.dropWhile cls.space).reverse.dropWhile cls.space).reverse

/-- `str.split`. -/
def splitWords (s : Str) : List Str := words cls.space s

/-- A record being read: the fields of its first line, the expressions so
far and the number of the line. -/
structure Pending where
  path : Str
  function : Str
  exprs : List Str
  line : ℕ

/-- Line `n` of the list. -/
def parseLine (records : List Pending) (n : ℕ) (line : Str) :
    Except GenError (List Pending) :=
  if strip cls line = [] ∨ line.head? = some '#' then
    pure records
  else if ¬ line.head?.any cls.space then
    match splitWords cls line with
    | [path, function] => pure (records ++ [⟨path, function, [], n⟩])
    | _ => throw (.expected n)
  else
    match records.getLast? with
    | none => throw (.outside n)
    | some cur =>
        -- an anchor, an original and a mutated expression at most
        if cur.exprs.length = 3 then throw (.outside n)
        else pure
          (records.dropLast ++ [{ cur with exprs := cur.exprs ++ [strip cls line] }])

/-- The lines from number `n` on. -/
def parseLines : List Pending → ℕ → List Str → Except GenError (List Pending)
  | records, _, [] => pure records
  | records, n, line :: lines => do
      let records ← parseLine cls records n line
      parseLines records (n + 1) lines

/-- The record, whose anchor may be missing. -/
def Pending.record : Pending → Except GenError Record
  | ⟨path, function, [original, mutated], n⟩ =>
      pure ⟨path, function, none, original, mutated, n⟩
  | ⟨path, function, [anchor, original, mutated], n⟩ =>
      pure ⟨path, function, some anchor, original, mutated, n⟩
  | cur => throw (.needs cur.line)

/-- The records of the list, a text whose line ends are `\n`. -/
def parse (list : Str) : Except GenError (List Record) := do
  let pending ← parseLines cls [] 1 (list.splitOn '\n')
  let records ← pending.mapM Pending.record
  if records = [] then throw .noMutants
  else pure records

end Parse

/-! ## Sites -/

section Sites

variable (cls : CharClasses)

/-- `^` and `$` of several lines. -/
def lineStart : Atom Char := .here fun prev _ => prev = none ∨ prev = some '\n'

def lineEnd : Atom Char := .here fun _ next => next = none ∨ next = some '\n'

/-- `\b`. -/
def boundary : Atom Char := .here fun prev next => prev.any cls.word != next.any cls.word

/-- The pattern of a definition's head, which starts in column 0 and whose
parameters may span lines up to the brace that ends one. -/
def headRegex (function : Str) : Regex Char :=
  [lineStart, .one cls.word, .many fun c => c ≠ ';' ∧ c ≠ '\n', boundary cls] ++
    Regex.word function ++
    [.one (· = '('), .many fun c => c ≠ ';' ∧ c ≠ '\x7b', .one (· = ')'), .many cls.space,
      .one (· = '\x7b'), lineEnd]

/-- The span of the function's body, up to the first line that is just a
brace. -/
def body (text function : Str) : Option (ℕ × ℕ) :=
  match finditer text (headRegex cls function) with
  | [m] => (find text ['\n', '\x7d', '\n'] m.2).map fun stop => (m.2, stop)
  | _ => none

/-- A site that was found and what replaces it. -/
structure Splice where
  start : ℕ
  length : ℕ
  replacement : Str

/-- `DIFFSECP_MUTATE(k, (original), (mutated))`. -/
def Record.switch (k : ℕ) (r : Record) : Str :=
  "DIFFSECP_MUTATE(".toList ++ natText k ++ ", (".toList ++ r.original ++ "), (".toList ++
    r.mutated ++ "))".toList

theorem Record.switch_eq (k : ℕ) (r : Record) : r.switch k =
    "DIFFSECP_MUTATE(".toList ++ natText k ++ ", (".toList ++ r.original ++
      "), (".toList ++ r.mutated ++ "))".toList :=
  rfl

/-- The span, from the end of the anchor on where there is one. -/
def anchored (text : Str) (r : Record) (span : ℕ × ℕ) : Except GenError (ℕ × ℕ) :=
  match r.anchor with
  | none => pure span
  | some anchor =>
      match finditer (slice text span.1 span.2) (Regex.word anchor) with
      | [m] => pure (span.1 + m.2, span.2)
      | ms => throw (.anchor r.line anchor ms.length r.function)

/-- The site of the original expression in a span. -/
def siteIn (text : Str) (k : ℕ) (r : Record) (span : ℕ × ℕ) : Except GenError Splice :=
  match finditer (slice text span.1 span.2) (Regex.word r.original) with
  | [m] => pure ⟨span.1 + m.1, r.original.length, r.switch k⟩
  | ms => throw (.original r.line r.original ms.length r.function r.anchor.isSome)

/-- The site of record `k`. -/
def site (text : Str) (k : ℕ) (r : Record) : Except GenError Splice :=
  match body cls text r.function with
  | none => throw (.definition r.line r.function r.path)
  | some span => do
      let span ← anchored text r span
      siteIn text k r span

end Sites

/-! ## Rewriting -/

/-- What `mutate` keeps of a file: its text and the sites found so far. -/
structure FileSites where
  path : Str
  text : Str
  found : List Splice

section Mutate

variable (cls : CharClasses) (openFile : Str → Option (List UInt8))

/-- The entry of a record's file, which is read where it has none yet. -/
def openSites (sites : List FileSites) (r : Record) : Except GenError FileSites :=
  match sites.find? (·.path = r.path) with
  | some file => pure file
  | none =>
      match openFile r.path with
      | none => throw (.unreadable r.line r.path)
      | some bytes =>
          match readText bytes with
          | none => throw (.undecodable r.path)
          | some text => pure ⟨r.path, text, []⟩

def putSites (sites : List FileSites) (file : FileSites) : List FileSites :=
  if sites.any (·.path = file.path) then sites.map fun f =>
    if f.path = file.path then file else f
  else sites ++ [file]

def mutateRecord (sites : List FileSites) (k : ℕ) (r : Record) :
    Except GenError (List FileSites) := do
  let file ← openSites openFile sites r
  let found ← site cls file.text k r
  pure (putSites sites { file with found := file.found ++ [found] })

/-- The records from number `k` on. -/
def mutateRecords : List FileSites → ℕ → List Record → Except GenError (List FileSites)
  | sites, _, [] => pure sites
  | sites, k, r :: rs => do
      let sites ← mutateRecord cls openFile sites k r
      mutateRecords sites (k + 1) rs

/-- The order of tuples, from the last to the first. -/
def Splice.follows (a b : Splice) : Bool :=
  b.start < a.start ∨ b.start = a.start ∧
  (b.length < a.length ∨ b.length = a.length ∧ b.replacement ≤ a.replacement)

def sortFound (found : List Splice) : List Splice :=
  found.insertionSort fun a b => a.follows b

/-- Two neighbours share a character. -/
def overlaps : List Splice → Bool
  | a :: b :: found => b.start + b.length > a.start || overlaps (b :: found)
  | _ => false

/-- The new text of a file, rewritten from the end so earlier offsets stay
valid. -/
def rewrite (file : FileSites) : Except GenError (Str × Str) :=
  let found := sortFound file.found
  if overlaps found then throw (.overlap file.path)
  else
    pure (file.path, preludeText ++
      found.foldl (fun text s => spliceAt text s.start s.length s.replacement) file.text)

/-- The texts of the mutated files, by the path their records give;
`openFile` opens a path from SECP. -/
def mutate (records : List Record) : Except GenError (List (Str × Str)) := do
  let sites ← mutateRecords cls openFile [] 0 records
  sites.mapM rewrite

end Mutate

end Diffsecp
