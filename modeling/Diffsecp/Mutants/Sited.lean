import Diffsecp.Mutants.Generator

/-!
# Mutants — Sited

Where a record's site is: the definition its function has, the part of the
body the original is looked for in, and the one place found there.
-/

namespace Diffsecp

open Text

variable (cls : CharClasses)

/-- A definition of `function` starts in column 0 at `start`, and its body
opens with the brace at `brace`, the last character of its line. -/
def DefinedAt (text function : Str) (start brace : ℕ) : Prop :=
  ∃ name close,
    (before text start = none ∨ before text start = some '\n') ∧
    (∃ c, text[start]? = some c ∧ cls.word c) ∧
    start < name ∧ Run (fun c => c ≠ ';' ∧ c ≠ '\n') text (start + 1) name ∧
    (before text name).any cls.word ≠ text[name]?.any cls.word ∧
    Occurs text function name ∧
    text[name + function.length]? = some '(' ∧
    name + function.length < close ∧
    Run (fun c => c ≠ ';' ∧ c ≠ '\x7b') text (name + function.length + 1) close ∧
    text[close]? = some ')' ∧
    close < brace ∧ Run cls.space text (close + 1) brace ∧
    text[brace]? = some '\x7b' ∧ (text[brace + 1]? = none ∨ text[brace + 1]? = some '\n')

/-- The body that opens with the brace at `brace` ends before the line at
`stop`, the first that is just a brace. -/
def ClosedAt (text : Str) (brace stop : ℕ) : Prop :=
  brace < stop ∧ Occurs text ['\n', '\x7d', '\n'] stop ∧
    ∀ j, brace < j → j < stop → ¬ Occurs text ['\n', '\x7d', '\n'] j

/-- The original is looked for from `start` on: from the end of the anchor,
where there is one, which stands in the body as `stands` says. -/
def StartsAt (stands : Str → ℕ → ℕ → ℕ → Prop) (r : Record)
    (brace stop start : ℕ) : Prop :=
  match r.anchor with
  | none => start = brace + 1
  | some anchor => ∃ p, stands anchor (brace + 1) stop p ∧ start = p + anchor.length

/-- The record's site is at `p`: in the body of its function, after its anchor. -/
def SitedAt (text : Str) (r : Record) (p : ℕ) : Prop :=
  ∃ head brace stop start, DefinedAt cls text r.function head brace ∧
    ClosedAt text brace stop ∧
    StartsAt (OccursIn text) r brace stop start ∧ OccursIn text r.original start stop p

/-- The definitions of `function` are one, whose body opens with `brace`. -/
def DefinedOnce (text function : Str) (brace : ℕ) : Prop :=
  (∃ start, DefinedAt cls text function start brace) ∧
    ∀ start brace', DefinedAt cls text function start brace' → brace' = brace

variable {cls} {text function : Str}

theorem mem_ends_headRegex {i e : ℕ} :
    e ∈ (headRegex cls function).ends text i ↔ ∃ brace, e = brace + 1 ∧
      DefinedAt cls text function i brace := by
  simp only [headRegex, lineStart, lineEnd, boundary, mem_ends_append, mem_ends_cons,
    mem_ends_nil, mem_ends_one,
    mem_ends_here, mem_ends_many, mem_ends_word, decide_eq_true_eq, bne_iff_ne]
  constructor
  · rintro ⟨_, ⟨name, ⟨_, ⟨rfl, hline⟩, _, ⟨rfl, hword⟩, _, ⟨hname, hrun⟩, _,
      ⟨rfl, hbound⟩, rfl⟩, rfl, hfun⟩,
      _, ⟨rfl, _, hparen, rfl⟩, close, ⟨hclose, hparams⟩, _, ⟨rfl, _, hcloses, rfl⟩,
      brace, ⟨hbrace, hspace⟩, _,
      ⟨rfl, _, hopens, rfl⟩, _, ⟨rfl, hend⟩, rfl⟩
    exact ⟨brace, rfl, name, close, hline, hword, hname, hrun, hbound, hfun, hparen,
      hclose, hparams, hcloses, hbrace, hspace, hopens, hend⟩
  · rintro ⟨brace, rfl, name, close, hline, hword, hname, hrun, hbound, hfun, hparen,
      hclose, hparams, hcloses, hbrace, hspace, hopens, hend⟩
    exact ⟨_, ⟨name, ⟨_, ⟨rfl, hline⟩, _, ⟨rfl, hword⟩, name, ⟨hname, hrun⟩, _,
      ⟨rfl, hbound⟩, rfl⟩, rfl, hfun⟩,
      _, ⟨rfl, _, hparen, rfl⟩, close, ⟨hclose, hparams⟩, _, ⟨rfl, _, hcloses, rfl⟩,
      brace, ⟨hbrace, hspace⟩, _,
      ⟨rfl, _, hopens, rfl⟩, _, ⟨rfl, hend⟩, rfl⟩

/-- What a definition begun before a brace opens with comes no later. -/
theorem DefinedAt.brace_le {i b i' b' : ℕ} (hfun : '\n' ∉ function)
    (h : DefinedAt cls text function i b) (h' : DefinedAt cls text function i' b')
    (hle : i' ≤ b) : b' ≤ b := by
  obtain ⟨-, -, -, -, -, -, -, -, -, -, -, -, -, -, hopens, hend⟩ := h
  obtain ⟨name, close, -, -, hname, hrun, -, hoccurs, hparen, hclose, hparams, hcloses,
        hbrace, hspace, -, -⟩ := h'
  have hlast (c : Char) (hc : text[b + 1]? = some c) : c = '\n' := by
    rw [hc] at hend
    rcases hend with hend | hend
    · nomatch hend
    · exact Option.some.inj hend
  -- the name stands in one line, which the brace ends
  have hbefore : name + function.length < b := by
    rcases Nat.lt_or_ge (name + function.length) b with hlt | hge
    · exact hlt
    exfalso
    rcases Nat.eq_or_lt_of_le hge with heq | hgt
    · rw [← heq, hopens] at hparen
      nomatch hparen
    rcases Nat.eq_or_lt_of_le (Nat.succ_le_of_lt hgt) with heq | hgt
    · have hc := hlast '(' (by rw [← hparen]; exact congrArg (text[·]?) heq)
      nomatch hc
    rcases Nat.lt_or_ge (b + 1) name with hlt | hge
    · obtain ⟨c, hc, hpass⟩ := hrun (b + 1) (by omega) hlt
      rw [hlast c hc] at hpass
      nomatch hpass
    · obtain ⟨d, hd⟩ := Nat.exists_eq_add_of_le hge
      have hlt : d < function.length := by omega
      have hget := hoccurs.getElem hlt
      rw [List.getElem_drop] at hget
      have hc := hlast function[d] (by
        rw [hd, hget, List.getElem?_eq_getElem])
      exact hfun (hc ▸ List.getElem_mem hlt)
  have hcloseb : close < b := by
    rcases Nat.lt_trichotomy close b with hlt | heq | hgt
    · exact hlt
    · rw [heq, hopens] at hcloses
      nomatch hcloses
    · obtain ⟨c, hc, hpass⟩ := hparams b hbefore hgt
      rw [hopens] at hc
      obtain rfl := Option.some.inj hc
      nomatch hpass
  refine Nat.le_of_not_lt fun hlt => ?_
  obtain ⟨c, hc, hpass⟩ := hspace b hcloseb hlt
  rw [hopens] at hc
  obtain rfl := Option.some.inj hc
  rw [cls.space_brace] at hpass
  nomatch hpass

theorem DefinedAt.lt {i b : ℕ} (h : DefinedAt cls text function i b) : i < b := by
  obtain ⟨name, close, -, -, hname, -, -, -, -, hclose, -, -, hbrace, -, -, -⟩ := h
  omega

theorem DefinedAt.brace_lt {i b : ℕ} (h : DefinedAt cls text function i b) :
    b < text.length := by
  obtain ⟨name, close, -, -, -, -, -, -, -, -, -, -, -, -, hopens, -⟩ := h
  exact (List.getElem?_eq_some_iff.mp hopens).1

/-- The scan lists one head exactly where the definitions are one, whatever
else a definition's head could be read from. -/
theorem finditer_headRegex (hfun : '\n' ∉ function) {b : ℕ} :
    (∃ m, finditer text (headRegex cls function) = [m] ∧ m.2 = b + 1) ↔
      DefinedOnce cls text function b := by
  have hne (i e : ℕ) (he : e ∈ (headRegex cls function).ends text i) : i < e := by
    obtain ⟨brace, rfl, hdef⟩ := mem_ends_headRegex.mp he
    exact Nat.lt_succ_of_lt hdef.lt
  have hnil {j : ℕ} (hj : (headRegex cls function).ends text j = []) (brace : ℕ) :
      ¬ DefinedAt cls text function j brace := by
    intro hdef
    have hmem := mem_ends_headRegex.mpr ⟨brace, rfl, hdef⟩
    rw [hj] at hmem
    nomatch hmem
  simp only [finditer_eq_singleton hne]
  constructor
  · rintro ⟨m, ⟨-, hfirst, hbefore, hafter⟩, hm⟩
    obtain ⟨brace, hbrace, hdef⟩ := mem_ends_headRegex.mp (List.mem_of_mem_head? hfirst)
    obtain rfl : brace = b := by omega
    refine ⟨⟨m.1, hdef⟩, fun i b' hdef' => ?_⟩
    have hlt := hdef'.lt
    have hlen := hdef'.brace_lt
    have hge : m.1 ≤ i := Nat.le_of_not_lt fun hlt' => hnil (hbefore i hlt') b' hdef'
    have hle : i ≤ brace := Nat.le_of_not_lt fun hgt =>
      hnil (hafter i (by omega) (by omega)) b' hdef'
    exact Nat.le_antisymm (hdef.brace_le hfun hdef' hle)
      (hdef'.brace_le hfun hdef (by omega))
  · rintro ⟨hex, huniq⟩
    classical
    have hfirst := Nat.find_spec hex
    have hlen := hfirst.brace_lt
    have hlt := hfirst.lt
    have hnone {j : ℕ} (h : ¬ DefinedAt cls text function j b) :
        (headRegex cls function).ends text j = [] := by
      rw [List.eq_nil_iff_forall_not_mem]
      intro e he
      obtain ⟨brace, -, hdef⟩ := mem_ends_headRegex.mp he
      exact h (huniq j brace hdef ▸ hdef)
    refine ⟨(Nat.find hex, b + 1), ⟨by omega, ?_, fun j hj => hnone (Nat.find_min hex hj),
      fun j hj _ => hnone ?_⟩, rfl⟩
    · cases hlist : (headRegex cls function).ends text (Nat.find hex) with
      | nil => exact absurd hfirst (hnil hlist b)
      | cons e es =>
          have he : e ∈ (headRegex cls function).ends text (Nat.find hex) := by
            rw [hlist]; exact List.mem_cons_self ..
          obtain ⟨brace, rfl, hdef⟩ := mem_ends_headRegex.mp he
          rw [List.head?_cons, huniq _ brace hdef]
    · intro hdef
      have := hdef.lt
      omega

/-- The body found is that of the only definition. -/
theorem body_eq_some (hfun : '\n' ∉ function) {span : ℕ × ℕ} :
    body cls text function = some span ↔
      ∃ brace, span.1 = brace + 1 ∧
        DefinedOnce cls text function brace ∧ ClosedAt text brace span.2 := by
  rw [body]
  constructor
  · intro h
    split at h
    next m hm =>
      obtain ⟨stop, hstop, rfl⟩ := Option.map_eq_some_iff.mp h
      have hmem : m ∈ finditer text (headRegex cls function) := by
        rw [hm]; exact List.mem_singleton_self m
      obtain ⟨brace, hbrace, -⟩ := mem_ends_headRegex.mp (mem_finditer hmem).2
      refine ⟨brace, hbrace, (finditer_headRegex hfun).mp ⟨m, hm, hbrace⟩, ?_⟩
      rw [hbrace] at hstop
      exact (find_eq_some (by decide)).mp hstop
    next => nomatch h
  · rintro ⟨brace, hbrace, honce, hclosed⟩
    obtain ⟨m, hm, hend⟩ := (finditer_headRegex hfun).mpr honce
    rw [hm]
    dsimp only
    rw [hend, (find_eq_some (by decide)).mpr hclosed, Option.map_some, ← hbrace]

/-- A word found in a part of a text stands there. -/
theorem occursIn_of_finditer {w : Str} {a b : ℕ} {m : ℕ × ℕ} (hab : a ≤ b)
    (h : finditer (slice text a b) (Regex.word w) = [m]) :
    OccursIn text w a b (a + m.1) ∧ m.2 = m.1 + w.length := by
  have hmem : m ∈ finditer (slice text a b) (Regex.word w) := by
    rw [h]; exact List.mem_singleton_self m
  obtain ⟨hlen, hoccurs, hle⟩ := occurs_of_finditer hab hmem
  exact ⟨⟨Nat.le_add_right a m.1, hle, hoccurs⟩, hlen⟩

/-- What a site that is found is. -/
theorem sitedAt_of_site {k : ℕ} {r : Record} {s : Splice}
    (h : site cls text k r = .ok s) :
    s.length = r.original.length ∧ s.replacement = r.switch k ∧
    SitedAt cls text r s.start := by
  rw [site] at h
  split at h
  next => nomatch h
  next span hbody =>
    have hspan : ∃ head brace, span.1 = brace + 1 ∧
        DefinedAt cls text r.function head brace ∧ ClosedAt text brace span.2 := by
      rw [body] at hbody
      split at hbody
      next m hm =>
        obtain ⟨stop, hstop, rfl⟩ := Option.map_eq_some_iff.mp hbody
        have hmem : m ∈ finditer text (headRegex cls r.function) := by
          rw [hm]; exact List.mem_singleton_self m
        obtain ⟨brace, hbrace, hdef⟩ := mem_ends_headRegex.mp (mem_finditer hmem).2
        rw [hbrace] at hstop
        exact ⟨m.1, brace, hbrace, hdef, (find_eq_some (by decide)).mp hstop⟩
      next => nomatch hbody
    obtain ⟨head, brace, hbrace, hdef, hclosed⟩ := hspan
    obtain ⟨from', hfrom, hin⟩ := bind_eq_ok.mp h
    have hstart : StartsAt (OccursIn text) r brace span.2 from'.1 ∧ from'.2 = span.2 ∧
        from'.1 ≤ span.2 := by
      rw [anchored] at hfrom
      rw [StartsAt]
      cases hanchor : r.anchor with
      | none =>
          rw [hanchor] at hfrom
          obtain rfl := Except.ok.inj hfrom
          exact ⟨hbrace, rfl, by rw [hbrace]; exact hclosed.1⟩
      | some anchor =>
          rw [hanchor] at hfrom
          dsimp only at hfrom
          split at hfrom
          next m hm =>
            obtain rfl := Except.ok.inj hfrom
            obtain ⟨hstands, hlen⟩ :=
              occursIn_of_finditer (by rw [hbrace]; exact hclosed.1) hm
            refine ⟨⟨span.1 + m.1, by rwa [← hbrace], by dsimp only; omega⟩, rfl, ?_⟩
            have hle := hstands.2.1
            dsimp only
            omega
          next => nomatch hfrom
    obtain ⟨hstarts, hstop, hle⟩ := hstart
    rw [siteIn] at hin
    split at hin
    next m hm =>
      obtain rfl := Except.ok.inj hin
      obtain ⟨hstands, -⟩ := occursIn_of_finditer (by omega) hm
      exact ⟨rfl, rfl, head, brace, span.2, from'.1, hdef, hclosed,
        hstarts, by rwa [← hstop]⟩
    next => nomatch hin

end Diffsecp
