import Mathlib.Data.List.DropRight
import Diffsecp.Mutants.Generator

/-!
# Mutants — Parsed

The grammar of the list of mutants: what is left of its lines without blank
lines and comments is a sequence of records, each a line of two fields and
the indented expressions that follow it.
-/

namespace Diffsecp

open Text

variable (cls : CharClasses)

/-! ## The grammar -/

/-- A line that is neither blank nor a comment. -/
def kept (line : Str) : Bool := ¬ (strip cls line = [] ∨ line.head? = some '#')

/-- A line that starts with whitespace. -/
def indented (line : Str) : Bool := line.head?.any cls.space

/-- The lines that are kept, with their numbers. -/
def keptFrom (n : ℕ) (lines : List Str) : List (Str × ℕ) :=
  (lines.zipIdx n).filter (kept cls ·.1)

/-- A line of two fields, the first in column 0. -/
def Fields (line path function : Str) : Prop :=
  path ≠ [] ∧ (∀ c ∈ path, cls.space c = false) ∧
    function ≠ [] ∧ (∀ c ∈ function, cls.space c = false) ∧
    ∃ gap rest, line = path ++ (gap ++ (function ++ rest)) ∧ gap ≠ [] ∧
      (∀ c ∈ gap, cls.space c = true) ∧ ∀ c ∈ rest, cls.space c = true

/-- The lines of a record: its fields, and two or three expressions, of which
the anchor is the first of three. -/
def Spells (block : List (Str × ℕ)) (r : Record) : Prop :=
  ∃ header exprs, block = (header, r.line) :: exprs ∧
    Fields cls header r.path r.function ∧ (∀ l ∈ exprs, indented cls l.1 = true) ∧
    exprs.map (strip cls ·.1) = r.anchor.toList ++ [r.original, r.mutated]

/-! ## Lines -/

section Lines

variable {cls} {line path function : Str}

theorem kept_iff : kept cls line = true ↔
    ¬ (strip cls line = [] ∨ line.head? = some '#') := decide_eq_true_iff

/-- What `split` finds in a line that starts in column 0. -/
theorem splitWords_eq_pair (hcol : indented cls line = false) :
    splitWords cls line = [path, function] ↔ Fields cls line path function := by
  rw [splitWords, words_eq_cons]
  constructor
  · rintro ⟨lead, rest, rfl, hlead, hpath, hpathc, hrest, hwords⟩
    obtain ⟨gap, rest', rfl, hgap, hfun, hfunc, hrest', hend⟩ := words_eq_cons.mp hwords
    have hlead' : lead = [] := by
      cases lead with
      | nil => rfl
      | cons c lead =>
          have hc := hlead c (List.mem_cons_self ..)
          rw [indented, List.cons_append, List.head?_cons, Option.any_some, hc] at hcol
          nomatch hcol
    have hgap' : gap ≠ [] := by
      rintro rfl
      cases function with
      | nil => exact hfun rfl
      | cons c function =>
          have hc := hrest c rfl
          rw [hfunc c (List.mem_cons_self ..)] at hc
          nomatch hc
    refine ⟨hpath, hpathc, hfun, hfunc, gap, rest', ?_, hgap', hgap, words_eq_nil.mp hend⟩
    rw [hlead', List.nil_append]
  · rintro ⟨hpath, hpathc, hfun, hfunc, gap, rest, rfl, hgap, hgapc, hrest⟩
    refine ⟨[], gap ++ (function ++ rest), rfl, nofun, hpath, hpathc, fun c hc => ?_, ?_⟩
    · cases gap with
      | nil => exact absurd rfl hgap
      | cons c' gap =>
          obtain rfl := Option.some.inj hc
          exact hgapc c' (List.mem_cons_self ..)
    · have hhead : ∀ c ∈ rest.head?, cls.space c = true :=
        fun c hc => hrest c (List.mem_of_mem_head? hc)
      exact words_eq_cons.mpr ⟨gap, rest, rfl, hgapc, hfun, hfunc, hhead,
        words_eq_nil.mpr hrest⟩

theorem Fields.not_indented (h : Fields cls line path function) :
    indented cls line = false := by
  obtain ⟨hpath, hpathc, -, -, gap, rest, rfl, -⟩ := h
  cases path with
  | nil => exact absurd rfl hpath
  | cons c path => exact hpathc c (List.mem_cons_self ..)

/-- Indenting is what `strip` takes off. -/
theorem strip_append {indent s : Str} (hindent : ∀ c ∈ indent, cls.space c = true) :
    strip cls (indent ++ s) = strip cls s := by
  rw [strip, List.dropWhile_append_of_pos hindent, strip]

theorem strip_sublist (s : Str) : (strip cls s).Sublist s := by
  rw [strip, ← List.reverse_reverse s, List.reverse_sublist, List.reverse_reverse]
  exact (List.dropWhile_sublist _).trans
    (List.reverse_sublist.mpr (List.dropWhile_sublist _))

/-- What is stripped stays as it is. -/
theorem strip_strip (s : Str) : strip cls (strip cls s) = strip cls s := by
  have hleft : (strip cls s).dropWhile cls.space = strip cls s := by
    cases hstrip : strip cls s with
    | nil => rfl
    | cons c t =>
        have hstart : strip cls s <+: s.dropWhile cls.space := by
          rw [strip, ← List.reverse_suffix, List.reverse_reverse]
          exact List.dropWhile_suffix _
        rw [hstrip] at hstart
        obtain ⟨rest, hrest⟩ := hstart
        have hnot := List.head?_dropWhile_not cls.space s
        rw [← hrest, List.cons_append, List.head?_cons] at hnot
        exact List.dropWhile_cons_of_neg (by simpa using hnot)
  have hright : ((strip cls s).reverse.dropWhile cls.space) = (strip cls s).reverse := by
    rw [strip, List.reverse_reverse, List.dropWhile_idempotent]
  rw [strip, hleft, hright, List.reverse_reverse]

end Lines

/-! ## Records being read -/

section Pending

variable {cls} {records ps : List Pending} {p : Pending} {block : List (Str × ℕ)}
  {blocks : List (List (Str × ℕ))}

/-- The lines of a record being read. -/
def PendingSpells (cls : CharClasses) (block : List (Str × ℕ)) (p : Pending) : Prop :=
  ∃ header exprs, block = (header, p.line) :: exprs ∧
    Fields cls header p.path p.function ∧
    (∀ l ∈ exprs, indented cls l.1 = true) ∧ exprs.map (strip cls ·.1) = p.exprs ∧
      p.exprs.length ≤ 3

/-- The lines that are kept, one after the other. -/
def parseKept (cls : CharClasses) (records : List Pending) (lines : List (Str × ℕ)) :
    Except GenError (List Pending) :=
  lines.foldlM (fun records l => parseLine cls records l.2 l.1) records

/-- The lines that are not kept change nothing. -/
theorem parseLines_eq (n : ℕ) (lines : List Str) :
    parseLines cls records n lines = parseKept cls records (keptFrom cls n lines) := by
  induction lines generalizing records n with
  | nil => rfl
  | cons line lines ih =>
      rw [parseLines, keptFrom, List.zipIdx_cons]
      cases hkept : kept cls line with
      | false =>
          have hskip : parseLine cls records n line = pure records := by
            rw [← Bool.not_eq_true, kept_iff, not_not] at hkept
            rw [parseLine, if_pos hkept]
          rw [hskip, pure_bind, List.filter_cons_of_neg (by simp [hkept]), ih]
          rfl
      | true =>
          rw [List.filter_cons_of_pos (p := fun l : Str × ℕ => kept cls l.1) hkept,
            parseKept, List.foldlM_cons]
          exact bind_congr fun records' => ih (n + 1)

theorem parseLine_header {line path function : Str} (n : ℕ) (hkept : kept cls line = true)
    (hfields : Fields cls line path function) :
    parseLine cls records n line = .ok (records ++ [⟨path, function, [], n⟩]) := by
  have hcol := hfields.not_indented
  rw [parseLine, if_neg (kept_iff.mp hkept),
    if_pos (by rw [← indented, hcol]; exact Bool.false_ne_true),
    (splitWords_eq_pair hcol).mpr hfields]
  rfl

theorem parseLine_expr {line : Str} (n : ℕ) (hkept : kept cls line = true)
    (hin : indented cls line = true) (hlen : p.exprs.length ≠ 3) :
    parseLine cls (records ++ [p]) n line =
      .ok (records ++ [{ p with exprs := p.exprs ++ [strip cls line] }]) := by
  rw [parseLine, if_neg (kept_iff.mp hkept),
    if_neg (by rw [← indented, hin]; exact not_not_intro rfl), List.getLast?_concat]
  dsimp only
  rw [if_neg hlen, List.dropLast_concat]
  rfl

/-- What a line that is kept does: it starts a record or adds to the last. -/
theorem parseLine_cases {n : ℕ} {line : Str} (hkept : kept cls line = true)
    {out : List Pending} (h : parseLine cls records n line = .ok out) :
    (∃ path function, Fields cls line path function ∧
        out = records ++ [⟨path, function, [], n⟩]) ∨
      ∃ init cur, records = init ++ [cur] ∧ indented cls line = true ∧
        cur.exprs.length ≠ 3 ∧
        out = init ++ [{ cur with exprs := cur.exprs ++ [strip cls line] }] := by
  rw [parseLine, if_neg (kept_iff.mp hkept), ← indented] at h
  cases hin : indented cls line with
  | false =>
      rw [hin, if_pos Bool.false_ne_true] at h
      split at h
      next path function hwords =>
        exact .inl ⟨path,
          function, (splitWords_eq_pair hin).mp hwords, (Except.ok.inj h).symm⟩
      next => nomatch h
  | true =>
      rw [hin, if_neg (not_not_intro rfl)] at h
      split at h
      next => nomatch h
      next cur hlast =>
        split at h
        next => nomatch h
        next hlen =>
          obtain ⟨init, rfl⟩ := List.getLast?_eq_some_iff.mp hlast
          rw [List.dropLast_concat] at h
          exact .inr ⟨init, cur, rfl, rfl, hlen, (Except.ok.inj h).symm⟩

/-- The expressions that follow a record's first line go to it. -/
theorem parseKept_exprs {exprs : List (Str × ℕ)}
    (hkept : ∀ l ∈ exprs, kept cls l.1 = true)
    (hin : ∀ l ∈ exprs, indented cls l.1 = true)
    (hlen : p.exprs.length + exprs.length ≤ 3) :
    parseKept cls (records ++ [p]) exprs =
      .ok (records ++ [{ p with exprs := p.exprs ++ exprs.map (strip cls ·.1) }]) := by
  induction exprs generalizing p with
  | nil =>
      rw [List.map_nil, List.append_nil]
      rfl
  | cons l exprs ih =>
      rw [List.forall_mem_cons] at hkept hin
      rw [List.length_cons] at hlen
      rw [parseKept, List.foldlM_cons, parseLine_expr l.2 hkept.1 hin.1 (by omega)]
      have hrest := ih (p := { p with exprs := p.exprs ++ [strip cls l.1] }) hkept.2 hin.2
        (by rw [List.length_append, List.length_singleton]; omega)
      dsimp only at hrest
      rw [List.append_assoc, List.singleton_append] at hrest
      exact hrest

/-- The lines of a record give it. -/
theorem parseKept_block (hkept : ∀ l ∈ block, kept cls l.1 = true)
    (h : PendingSpells cls block p) :
    parseKept cls records block = .ok (records ++ [p]) := by
  obtain ⟨header, exprs, rfl, hfields, hin, hexprs, hlen⟩ := h
  rw [List.forall_mem_cons] at hkept
  have hlength : exprs.length = p.exprs.length := by rw [← hexprs, List.length_map]
  rw [parseKept, List.foldlM_cons, parseLine_header _ hkept.1 hfields]
  have hrest : parseKept cls (records ++ [⟨p.path, p.function, [], p.line⟩]) exprs =
      .ok (records ++ [⟨p.path, p.function, [] ++ exprs.map (strip cls ·.1), p.line⟩]) :=
    parseKept_exprs hkept.2 hin (by rw [hlength]; exact (Nat.zero_add _).symm ▸ hlen)
  rw [List.nil_append, hexprs] at hrest
  exact hrest

theorem parseKept_blocks (hkept : ∀ l ∈ blocks.flatten, kept cls l.1 = true)
    (h : List.Forall₂ (PendingSpells cls) blocks ps) :
    parseKept cls records blocks.flatten = .ok (records ++ ps) := by
  induction h generalizing records with
  | nil => exact congrArg Except.ok (List.append_nil records).symm
  | @cons block p blocks ps hblock _ ih =>
      rw [List.flatten_cons, List.forall_mem_append] at hkept
      rw [List.flatten_cons, parseKept, List.foldlM_append, bind_eq_ok]
      refine ⟨records ++ [p], parseKept_block hkept.1 hblock, ?_⟩
      rw [List.append_cons records p ps]
      exact ih hkept.2

/-- What is read is spelled by the lines read. -/
theorem pendingSpells_of_parseKept {lines : List (Str × ℕ)}
    (hkept : ∀ l ∈ lines, kept cls l.1 = true) {out : List Pending}
    (hrecords : List.Forall₂ (PendingSpells cls) blocks records)
    (h : parseKept cls records lines = .ok out) :
    ∃ blocks', blocks'.flatten = blocks.flatten ++ lines ∧
      List.Forall₂ (PendingSpells cls) blocks' out := by
  induction lines generalizing records blocks with
  | nil =>
      obtain rfl := Except.ok.inj h
      exact ⟨blocks, (List.append_nil _).symm, hrecords⟩
  | cons l lines ih =>
      rw [List.forall_mem_cons] at hkept
      rw [parseKept, List.foldlM_cons] at h
      obtain ⟨records', hline, hrest⟩ := bind_eq_ok.mp h
      rcases parseLine_cases hkept.1 hline with ⟨path, function, hfields, rfl⟩ | ⟨init,
        cur, rfl, hin, hlen, rfl⟩
      · have hnew : PendingSpells cls [l] ⟨path, function, [], l.2⟩ :=
          ⟨l.1, [], rfl, hfields, nofun, rfl, Nat.zero_le 3⟩
        obtain ⟨blocks', hflat, hspells⟩ :=
          ih hkept.2 (List.rel_append hrecords (.cons hnew .nil)) hrest
        refine ⟨blocks', ?_, hspells⟩
        rw [hflat, List.flatten_append, List.append_assoc]
        rfl
      · obtain ⟨blocks₀, last, hinit, hlast, rfl⟩ : ∃ blocks₀ last,
            List.Forall₂ (PendingSpells cls) blocks₀ init ∧
            PendingSpells cls last cur ∧ blocks = blocks₀ ++ [last] := by
          have hinit := List.forall₂_take_append blocks init [cur] hrecords
          obtain ⟨last, rest, hlast, hrest', hdrop⟩ :=
            List.forall₂_cons_right_iff.mp
              (List.forall₂_drop_append blocks init [cur] hrecords)
          rw [List.forall₂_nil_right_iff.mp hrest'] at hdrop
          refine ⟨_, last, hinit, hlast, ?_⟩
          rw [← hdrop, List.take_append_drop]
        obtain ⟨header, exprs, rfl, hfields, hexprs, hmap, hle⟩ := hlast
        have hnew : PendingSpells cls ((header, cur.line) :: exprs ++ [l])
            { cur with exprs := cur.exprs ++ [strip cls l.1] } := by
          refine ⟨header, exprs ++ [l], rfl, hfields, ?_, ?_, ?_⟩
          · exact List.forall_mem_append.mpr ⟨hexprs, List.forall_mem_singleton.mpr hin⟩
          · rw [List.map_append, hmap]
            rfl
          · rw [List.length_append, List.length_singleton]
            omega
        obtain ⟨blocks', hflat, hspells⟩ :=
          ih hkept.2 (List.rel_append hinit (.cons hnew .nil)) hrest
        refine ⟨blocks', ?_, hspells⟩
        rw [hflat]
        simp

end Pending

/-! ## What the list gives -/

section Parse

variable {cls} {text : Str} {records : List Record}

/-- A record that is read whole. -/
theorem spells_iff {block : List (Str × ℕ)} {r : Record} :
    Spells cls block r ↔ ∃ p, PendingSpells cls block p ∧ p.record = .ok r := by
  constructor
  · rintro ⟨header, exprs, rfl, hfields, hin, hmap⟩
    obtain ⟨path, function, anchor, original, mutated, line⟩ := r
    refine ⟨⟨path, function, exprs.map (strip cls ·.1), line⟩,
      ⟨header, exprs, rfl, hfields, hin, rfl, ?_⟩, ?_⟩
    · dsimp only
      rw [hmap]
      cases anchor with
      | none => exact Nat.le_succ 2
      | some anchor => exact Nat.le_refl 3
    · rw [hmap]
      cases anchor with
      | none => rfl
      | some anchor => rfl
  · rintro ⟨p, ⟨header, exprs, rfl, hfields, hin, hmap, -⟩, hrecord⟩
    unfold Pending.record at hrecord
    split at hrecord
    next =>
      obtain rfl := Except.ok.inj hrecord
      exact ⟨header, exprs, rfl, hfields, hin, hmap⟩
    next =>
      obtain rfl := Except.ok.inj hrecord
      exact ⟨header, exprs, rfl, hfields, hin, hmap⟩
    next => nomatch hrecord

theorem forall₂_comp {α β γ : Type} {R : α → β → Prop} {S : β → γ → Prop} {as : List α}
    {cs : List γ} :
    List.Forall₂ (fun a c => ∃ b, R a b ∧ S b c) as cs ↔ ∃ bs, List.Forall₂ R as bs ∧
      List.Forall₂ S bs cs := by
  constructor
  · intro h
    induction h with
    | nil => exact ⟨[], .nil, .nil⟩
    | cons hab _ ih =>
        obtain ⟨b, hab, hbc⟩ := hab
        obtain ⟨bs, has, hcs⟩ := ih
        exact ⟨b :: bs, .cons hab has, .cons hbc hcs⟩
  · rintro ⟨bs, has, hcs⟩
    induction has generalizing cs with
    | nil =>
        cases hcs
        exact .nil
    | cons hab _ ih =>
        cases hcs with
        | cons hbc hcs => exact .cons ⟨_, hab, hbc⟩ (ih hcs)

/-- The list is accepted exactly where its lines spell records, which are
what it gives. -/
theorem parse_eq_ok : parse cls text = .ok records ↔
    records ≠ [] ∧ ∃ blocks, keptFrom cls 1 (text.splitOn '\n') = blocks.flatten ∧
      List.Forall₂ (Spells cls) blocks records := by
  have hkept : ∀ l ∈ keptFrom cls 1 (text.splitOn '\n'), kept cls l.1 = true :=
    fun l hl => (List.mem_filter.mp hl).2
  have hspells (blocks) : List.Forall₂ (Spells cls) blocks records ↔
      ∃ ps, List.Forall₂ (PendingSpells cls) blocks ps ∧
        List.Forall₂ (fun p r => Pending.record p = .ok r) ps records := by
    have heq : Spells cls = fun block r => ∃ p, PendingSpells cls block p ∧
        Pending.record p = .ok r := by
      ext block r
      exact spells_iff
    rw [heq, forall₂_comp]
  simp only [hspells]
  rw [parse, parseLines_eq]
  constructor
  · intro h
    obtain ⟨ps, hps, hrest⟩ := bind_eq_ok.mp h
    obtain ⟨records', hrecords, hrest⟩ := bind_eq_ok.mp hrest
    split at hrest
    next => nomatch hrest
    next hne =>
      obtain rfl := Except.ok.inj hrest
      obtain ⟨blocks, hflat, hblocks⟩ := pendingSpells_of_parseKept hkept .nil hps
      exact ⟨hne, blocks, hflat.symm, ps, hblocks, mapM_eq_ok.mp hrecords⟩
  · rintro ⟨hne, blocks, hflat, ps, hblocks, hrecords⟩
    rw [hflat] at hkept ⊢
    refine bind_eq_ok.mpr ⟨ps, parseKept_blocks hkept hblocks,
      bind_eq_ok.mpr ⟨records, mapM_eq_ok.mpr hrecords, ?_⟩⟩
    rw [if_neg hne]
    rfl

/-- What holds of a record that was read: fields without whitespace, and
expressions that are stripped, not blank and on one line. -/
structure Record.Valid (cls : CharClasses) (r : Record) : Prop where
  path : r.path ≠ [] ∧ r.path.head? ≠ some '#' ∧ ∀ c ∈ r.path, cls.space c = false
  function : r.function ≠ [] ∧ ∀ c ∈ r.function, cls.space c = false
  exprs : ∀ e ∈ r.anchor.toList ++ [r.original, r.mutated], e ≠ [] ∧
    strip cls e = e ∧ '\n' ∉ e

theorem parse_valid (h : parse cls text = .ok records) {r : Record} (hr : r ∈ records) :
    r.Valid cls := by
  obtain ⟨-, blocks, hflat, hspells⟩ := parse_eq_ok.mp h
  obtain ⟨block, hblock, header, exprs, rfl, hfields, -, hmap⟩ :=
    exists_of_forall₂ hspells hr
  have hline {l : Str × ℕ} (hl : l ∈ (header, r.line) :: exprs) :
      kept cls l.1 = true ∧ '\n' ∉ l.1 := by
    have hmem : l ∈ keptFrom cls 1 (text.splitOn '\n') := by
      rw [hflat]
      exact List.mem_flatten_of_mem hblock hl
    obtain ⟨hzip, hkept⟩ := List.mem_filter.mp hmem
    refine ⟨hkept, fun hnl => ?_⟩
    have hin : l.1 ∈ text.splitOnP (· == '\n') := List.fst_mem_of_mem_zipIdx hzip
    have hnot := not_sep_of_mem_splitOnP hin hnl
    nomatch hnot
  obtain ⟨hheader, -⟩ := hline (List.mem_cons_self ..)
  have hexprs : ∀ e ∈ exprs.map (strip cls ·.1), e ≠ [] ∧ strip cls e = e ∧ '\n' ∉ e := by
    intro e he
    obtain ⟨l, hl, rfl⟩ := List.mem_map.mp he
    obtain ⟨hkept, hnl⟩ := hline (List.mem_cons_of_mem _ hl)
    exact ⟨fun hnil => kept_iff.mp hkept (.inl hnil), strip_strip l.1,
      fun hc => hnl ((strip_sublist l.1).mem hc)⟩
  obtain ⟨hpath, hpathc, hfun, hfunc, gap, rest, hheq, -⟩ := hfields
  refine ⟨⟨hpath, fun hhash => ?_, hpathc⟩, ⟨hfun, hfunc⟩, hmap ▸ hexprs⟩
  apply kept_iff.mp hheader
  right
  dsimp only
  rw [hheq, List.head?_append, hhash]
  rfl

end Parse

/-! ## Rendering -/

/-- The lines of a record as one writes it. -/
def Record.lines (r : Record) : List Str :=
  (r.path ++ (" ".toList ++ r.function)) ::
    (r.anchor.toList ++ [r.original, r.mutated]).map ("    ".toList ++ ·)

/-- The record without the number of its line. -/
def Record.unnumbered (r : Record) : Record := { r with line := 0 }

section Render

variable {cls} {records : List Record} {block : List (Str × ℕ)}

/-- The lines of a record, numbered, give it with its number. -/
theorem spells_lines {r : Record} (hr : r.Valid cls)
    (hblock : block.map Prod.fst = r.lines) :
    ∃ n, Spells cls block { r with line := n } ∧
      (block.filter fun l => !indented cls l.1).map Prod.snd = [n] := by
  obtain ⟨⟨header, n⟩, exprs, rfl, hheader, hexprs⟩ := List.map_eq_cons_iff.mp hblock
  dsimp only at hheader
  have hfields : Fields cls header r.path r.function := by
    refine ⟨hr.path.1, hr.path.2.2, hr.function.1, hr.function.2, " ".toList, [],
      ?_, by decide, ?_, nofun⟩
    · rw [hheader, List.append_nil]
    · exact List.forall_mem_singleton.mpr cls.space_blank
  have hindent : ∀ c ∈ "    ".toList, cls.space c = true := by
    intro c hc
    obtain rfl : c = ' ' := by simpa using hc
    exact cls.space_blank
  have hin : ∀ l ∈ exprs, indented cls l.1 = true := by
    intro l hl
    have hmem : l.1 ∈ exprs.map Prod.fst := List.mem_map_of_mem hl
    rw [hexprs] at hmem
    obtain ⟨e, -, he⟩ := List.mem_map.mp hmem
    rw [indented, ← he]
    exact cls.space_blank
  refine ⟨n, ⟨header, exprs, rfl, hfields, hin, ?_⟩, ?_⟩
  · have hmap : exprs.map (strip cls ·.1) = (exprs.map Prod.fst).map (strip cls) := by
      rw [List.map_map]; rfl
    rw [hmap, hexprs, List.map_map]
    refine (List.map_congr_left fun e he => ?_).trans (List.map_id _)
    exact (strip_append hindent).trans (hr.exprs e he).2.1
  · have hnone : exprs.filter (fun l => !indented cls l.1) = [] := by
      rw [List.filter_eq_nil_iff]
      intro l hl
      simp [hin l hl]
    rw [List.filter_cons_of_pos (by simp [hfields.not_indented]), hnone]
    rfl

/-- The lines of records, numbered, give them with their numbers. -/
theorem spells_flatMap_lines (hr : ∀ r ∈ records, r.Valid cls)
    (hblock : block.map Prod.fst = records.flatMap Record.lines) :
    ∃ blocks out, block = blocks.flatten ∧ List.Forall₂ (Spells cls) blocks out ∧
      out.map Record.unnumbered = records.map Record.unnumbered ∧
      out.map Record.line = (block.filter fun l => !indented cls l.1).map Prod.snd := by
  induction records generalizing block with
  | nil =>
      obtain rfl := List.map_eq_nil_iff.mp hblock
      exact ⟨[], [], rfl, .nil, rfl, rfl⟩
  | cons r records ih =>
      rw [List.forall_mem_cons] at hr
      rw [List.flatMap_cons] at hblock
      obtain ⟨first, rest, rfl, hfirst, hrest⟩ := List.map_eq_append_iff.mp hblock
      obtain ⟨n, hspells, hnumber⟩ := spells_lines hr.1 hfirst
      obtain ⟨blocks, out, rfl, hblocks, hout, hlines⟩ := ih hr.2 hrest
      refine ⟨first :: blocks, { r with line := n } :: out, rfl,
        .cons hspells hblocks, ?_, ?_⟩
      · rw [List.map_cons, hout]
        rfl
      · rw [List.map_cons, hlines, List.filter_append, List.map_append, hnumber]
        rfl

/-- Records that are rendered are read back, whatever blank lines and comments
stand between their lines. -/
theorem parse_render (hne : records ≠ []) (hr : ∀ r ∈ records, r.Valid cls)
    {lines : List Str} (hnl : ∀ l ∈ lines, '\n' ∉ l)
    (hlines : lines.filter (kept cls) = records.flatMap Record.lines) :
    ∃ out, parse cls (['\n'].intercalate lines) = .ok out ∧
      out.map Record.unnumbered = records.map Record.unnumbered ∧
      out.map Record.line =
        ((keptFrom cls 1 lines).filter fun l => !indented cls l.1).map Prod.snd := by
  have hlinesne : lines ≠ [] := by
    rintro rfl
    obtain ⟨r, rs, rfl⟩ := List.exists_cons_of_ne_nil hne
    nomatch hlines
  have hkept : (keptFrom cls 1 lines).map Prod.fst = records.flatMap Record.lines := by
    rw [← hlines, keptFrom]
    have hzip := List.filter_map (f := Prod.fst) (p := kept cls) (l := lines.zipIdx 1)
    rw [List.zipIdx_map_fst] at hzip
    exact hzip.symm
  obtain ⟨blocks, out, hflat, hspells, hout, hnumbers⟩ := spells_flatMap_lines hr hkept
  refine ⟨out, parse_eq_ok.mpr ⟨?_, blocks, ?_, hspells⟩, hout, hnumbers⟩
  · rintro rfl
    exact hne (List.map_eq_nil_iff.mp hout.symm)
  · rw [List.splitOn_intercalate '\n' hnl hlinesne, hflat]

end Render

/-- The parser accepts exactly its grammar, and gives what the lines spell;
what is rendered, it reads back. -/
theorem parse_grammar :
    (∀ text records, parse cls text = .ok records ↔
      records ≠ [] ∧ ∃ blocks, keptFrom cls 1 (text.splitOn '\n') = blocks.flatten ∧
        List.Forall₂ (Spells cls) blocks records) ∧
    (∀ text records, parse cls text = .ok records → ∀ r ∈ records, r.Valid cls) ∧
    ∀ records lines, records ≠ [] → (∀ r ∈ records, r.Valid cls) →
      (∀ l ∈ lines, '\n' ∉ l) → lines.filter (kept cls) = records.flatMap Record.lines →
        ∃ out, parse cls (['\n'].intercalate lines) = .ok out ∧
          out.map Record.unnumbered = records.map Record.unnumbered ∧
          out.map Record.line =
            ((keptFrom cls 1 lines).filter fun l => !indented cls l.1).map Prod.snd :=
  ⟨fun _ _ => parse_eq_ok, fun _ _ h _ hr => parse_valid h hr,
    fun _ _ hne hr hnl hlines => parse_render hne hr hnl hlines⟩

def pairList : List Record :=
  [⟨"f.c".toList, "f".toList, none, "a == 2".toList, "a == 3".toList, 2⟩,
    ⟨"f.c".toList, "f".toList, some "if (".toList, "a == 1".toList, "a == 4".toList, 6⟩]

def pairLines : List Str :=
  ["# Two.", "f.c f", "    a == 2", "", "    a == 3", "f.c f", "    if (", "# The last.",
    "    a == 1", "    a == 4", " "].map String.toList

theorem Record.Valid.of_all {r : Record} (hpath : r.path ≠ [] ∧ r.path.head? ≠ some '#')
    (hspace : (r.path.all fun c => !asciiClasses.space c) = true) (hfun : r.function ≠ [])
    (hspace' : (r.function.all fun c => !asciiClasses.space c) = true)
    (hexprs : ((r.anchor.toList ++ [r.original, r.mutated]).all fun e =>
      e ≠ [] ∧ strip asciiClasses e = e ∧ '\n' ∉ e) = true) : r.Valid asciiClasses :=
  ⟨⟨hpath.1, hpath.2, by simpa using hspace⟩, ⟨hfun, by simpa using hspace'⟩,
    fun e he => of_decide_eq_true (List.all_eq_true.mp hexprs e he)⟩

theorem parse_grammar_pair :
    ∃ out, parse asciiClasses (['\n'].intercalate pairLines) = .ok out ∧
      out.map Record.unnumbered = pairList.map Record.unnumbered ∧
      out.map Record.line = [2, 6] := by
  have hvalid : ∀ r ∈ pairList, r.Valid asciiClasses := by
    intro r hr
    simp only [pairList, List.mem_cons, List.not_mem_nil, or_false] at hr
    rcases hr with rfl | rfl
    · exact .of_all (by decide +kernel) (by decide +kernel) (by decide +kernel)
        (by decide +kernel) (by decide +kernel)
    · exact .of_all (by decide +kernel) (by decide +kernel) (by decide +kernel)
        (by decide +kernel) (by decide +kernel)
  obtain ⟨out, hout, hrecords, hnumbers⟩ :=
    (parse_grammar asciiClasses).2.2 pairList pairLines (by decide) hvalid
      (by decide +kernel) (by decide +kernel)
  have hlines : ((keptFrom asciiClasses 1 pairLines).filter fun l =>
    !indented asciiClasses l.1).map Prod.snd =
      [2, 6] := by decide +kernel
  exact ⟨out, hout, hrecords, hnumbers.trans hlines⟩

end Diffsecp
