import Mathlib.Data.List.Sort
import Diffsecp.Digest
import Diffsecp.Replay.Program
import Diffsecp.Text.Diff

/-!
# Replay — Cross

`make cross`: every architecture replays the corpus, the digests are compared
with those of the first one, and a build with one byte flipped shows that the
comparison would see a divergence in each target.
-/

namespace Diffsecp

open Text

/-! ## Sorting -/

/-- The order of `LC_ALL=C`. -/
def bytesLe : List UInt8 → List UInt8 → Bool
  | [], _ => true
  | _ :: _, [] => false
  | x :: xs, y :: ys => x < y || (x = y && bytesLe xs ys)

/-- `LC_ALL=C sort`. -/
def sortText (text : List UInt8) : List UInt8 :=
  joinLines ((textLines text).mergeSort bytesLe)

/-! ## The recipes -/

/-- An architecture: its build, and the order `find` lists the corpus in. -/
structure CrossArch where
  fn : TargetName → List UInt8 → List UInt8
  found : TargetName → List (List UInt8)

section Recipes

variable (file : List UInt8 → Option (List UInt8))

def CrossArch.env (a : CrossArch) : ReplayEnv := ⟨a.fn, file⟩

/-- The loop that writes `digests`, `none` where a replay fails. -/
def CrossArch.digestsOf (a : CrossArch) : List TargetName → Option (List UInt8)
  | [] => some []
  | t :: ts =>
      let (text, code) := replayMain (a.env file) [ascii "replay", t.text] .eof
        (sortText (joinLines (a.found t)))
      if code = 0 then (a.digestsOf ts).map (text ++ ·) else none

def CrossArch.digests (a : CrossArch) : Option (List UInt8) := a.digestsOf file allTargets

/-- `diff` and the words it puts before a hunk. -/
structure DiffProgram extends DiffTool (List UInt8) where
  command : Hunk (List UInt8) → List UInt8
  command_plain : ∀ h c, (command h).head? = some c → c ≠ 62

/-- The lines `diff` prints. -/
def DiffProgram.print (tool : DiffProgram) (a b : List UInt8) : List (List UInt8) :=
  (tool.hunks (textLines a) (textLines b)).flatMap fun h =>
    [tool.command h] ++ h.removed.map (ascii "< " ++ ·) ++
      (if h.removed = [] ∨ h.added = [] then [] else [ascii "---"]) ++
        h.added.map (ascii "> " ++ ·)

/-- `grep -q "^> $t "`. -/
def reports (t : TargetName) (lines : List (List UInt8)) : Bool :=
  lines.any fun line => (ascii "> " ++ t.text ++ [space]).isPrefixOf line

/-- `cross-selftest` with the digests of the reference and of the build with
one byte flipped. -/
def crossSelftest (tool : DiffProgram) (reference selftest : List UInt8) : Bool :=
  allTargets.all fun t => reports t (tool.print reference selftest)

/-- `cross`, whether it succeeds. -/
def cross (tool : DiffProgram) (reference selftest : CrossArch)
    (others : List CrossArch) : Bool :=
  match reference.digests file, selftest.digests file with
  | some r, some s =>
      crossSelftest tool r s && others.all fun a => a.digests file = some r
  | _, _ => false

end Recipes

/-- A build with the last byte of each transcript flipped. -/
def CrossArch.selftest (a : CrossArch)
    (found : TargetName → List (List UInt8)) : CrossArch :=
  ⟨fun t inp => selftestWrap (a.fn t inp), found⟩

/-! ## Lines and their order -/

section Lines

variable {paths paths' : List (List UInt8)}

theorem bytesLe_total (a b : List UInt8) : (bytesLe a b || bytesLe b a) = true := by
  induction a generalizing b with
  | nil => simp [bytesLe]
  | cons x xs ih =>
      cases b with
      | nil => simp [bytesLe]
      | cons y ys =>
          have hrest := ih ys
          simp only [bytesLe, Bool.or_eq_true, Bool.and_eq_true, decide_eq_true_eq]
            at hrest ⊢
          by_cases h : x = y
          · rcases hrest with hrest | hrest
            · exact .inl (.inr ⟨h, hrest⟩)
            · exact .inr (.inr ⟨h.symm, hrest⟩)
          · rcases UInt8.lt_or_lt_of_ne h with h | h
            · exact .inl (.inl h)
            · exact .inr (.inl h)

theorem bytesLe_trans (a b c : List UInt8) (hab : bytesLe a b = true)
    (hbc : bytesLe b c = true) :
    bytesLe a c = true := by
  induction a generalizing b c with
  | nil => simp [bytesLe]
  | cons x xs ih =>
      cases b with
      | nil => simp [bytesLe] at hab
      | cons y ys =>
          cases c with
          | nil => simp [bytesLe] at hbc
          | cons z zs =>
              simp only [bytesLe, Bool.or_eq_true, Bool.and_eq_true, decide_eq_true_eq]
                at hab hbc ⊢
              rcases hab with hxy | ⟨rfl, hab⟩
              · rcases hbc with hyz | ⟨rfl, hbc⟩
                · exact .inl (UInt8.lt_trans hxy hyz)
                · exact .inl hxy
              · rcases hbc with hyz | ⟨rfl, hbc⟩
                · exact .inl hyz
                · exact .inr ⟨rfl, ih ys zs hab hbc⟩

theorem bytesLe_antisymm (a b : List UInt8) (hab : bytesLe a b = true)
    (hba : bytesLe b a = true) : a = b := by
  induction a generalizing b with
  | nil =>
      cases b with
      | nil => rfl
      | cons y ys => simp [bytesLe] at hba
  | cons x xs ih =>
      cases b with
      | nil => simp [bytesLe] at hab
      | cons y ys =>
          simp only [bytesLe, Bool.or_eq_true, Bool.and_eq_true, decide_eq_true_eq]
            at hab hba
          rcases hab with hxy | ⟨rfl, hab⟩
          · rcases hba with hyx | ⟨rfl, -⟩
            · exact absurd hyx (UInt8.lt_asymm hxy)
            · exact absurd hxy (UInt8.lt_irrefl _)
          · rcases hba with hyx | ⟨-, hba⟩
            · exact absurd hyx (UInt8.lt_irrefl x)
            · rw [ih ys hab hba]

/-- The order `find` lists files in is lost in the sort. -/
theorem sort_perm (h : paths.Perm paths') :
    paths.mergeSort bytesLe = paths'.mergeSort bytesLe := by
  have hp := List.pairwise_mergeSort bytesLe_trans bytesLe_total paths
  have hp' := List.pairwise_mergeSort bytesLe_trans bytesLe_total paths'
  have hperm : (paths.mergeSort bytesLe).Perm (paths'.mergeSort bytesLe) :=
    (List.mergeSort_perm paths bytesLe).trans
      (h.trans (List.mergeSort_perm paths' bytesLe).symm)
  exact hperm.eq_of_pairwise (fun a b _ _ => bytesLe_antisymm a b) hp hp'

end Lines

/-! ## Digests -/

/-- A path that `find` prints on one line and `replay_paths` reads back. -/
structure PlainPath (path : List UInt8) : Prop where
  nonempty : path ≠ []
  fits : path.length + 1 < pathMax
  oneLine : ∀ c ∈ path, c ∉ [0, newline, 13]

section Digests

variable {file : List UInt8 → Option (List UInt8)} {env : ReplayEnv} {t t' : TargetName}
  {paths : List (List UInt8)} {path : List UInt8}

theorem PlainPath.newline_notin (h : PlainPath path) : newline ∉ path :=
  fun hc => h.oneLine _ hc (by decide)

theorem PlainPath.pathOf_eq (h : PlainPath path) : pathOf path = path := by
  rw [pathOf, List.takeWhile_eq_self_iff]
  intro c hc
  have hplain := h.oneLine c hc
  simp only [List.mem_cons, not_or] at hplain
  simpa using hplain.2.2.1

theorem pathsOf_joinLines (h : ∀ p ∈ paths, PlainPath p) :
    pathsOf (joinLines paths) = paths := by
  have hmap : paths.map pathOf = paths := by
    conv_rhs => rw [← List.map_id paths]
    exact List.map_congr_left fun p hp => (h p hp).pathOf_eq
  have hkeep : paths.filter (fun p => decide (p ≠ [])) = paths := by
    rw [List.filter_eq_self]
    intro p hp
    simpa using (h p hp).nonempty
  rw [pathsOf, splitOn_joinLines fun p hp => (h p hp).newline_notin, List.map_append,
    hmap, List.filter_append, hkeep]
  simp [pathOf]

/-- The build reads what `find` printed. -/
theorem replayMain_joinLines (h : ∀ p ∈ paths, PlainPath p) (argv : List UInt8) :
    replayMain env [argv, t.text] .eof (joinLines paths) =
      (joinLines (servePaths env t paths).1, (servePaths env t paths).2.code) := by
  have hnul : 0 ∉ joinLines paths := by
    intro hmem
    obtain ⟨p, hp, hc⟩ := List.mem_flatMap.mp hmem
    rcases List.mem_append.mp hc with hc | hc
    · exact (h p hp).oneLine 0 hc (by decide)
    · exact absurd hc (by decide)
  have hfits : ∀ line ∈ (joinLines paths).splitOn newline, line.length + 1 < pathMax := by
    rw [splitOn_joinLines fun p hp => (h p hp).newline_notin]
    intro line hline
    rcases List.mem_append.mp hline with hline | hline
    · exact (h line hline).fits
    · rw [List.mem_singleton.mp hline]
      decide
  rw [replayMain, findTarget_text]
  simp only [replayPaths_eq hnul hfits, pathsOf_joinLines h]
  rfl

/-- All paths are answered, -/
theorem servePaths_done (h : ∀ p ∈ paths, (env.file p).isSome = true) :
    servePaths env t paths = (paths.map (env.line t), .done) := by
  induction paths with
  | nil => rfl
  | cons p paths ih =>
      rw [List.forall_mem_cons] at h
      obtain ⟨bytes, hbytes⟩ := Option.isSome_iff_exists.mp h.1
      have hread : readInput env p = some (bytes.take (inputMax + 1)) := by
        rw [readInput, hbytes]
        rfl
      rw [servePaths, hread]
      simp only [ih h.2, List.map_cons, ReplayEnv.line, hread, Option.getD_some]

/-- or one that cannot be read stops the build. -/
theorem servePaths_code (h : (servePaths env t paths).2.code = 0) :
    ∀ p ∈ paths, (env.file p).isSome = true := by
  induction paths with
  | nil => simp
  | cons p paths ih =>
      rw [servePaths] at h
      cases hfile : env.file p with
      | none => simp [readInput, hfile, ReplayEnd.code] at h
      | some bytes =>
          have hread : readInput env p = some (bytes.take (inputMax + 1)) := by
            rw [readInput, hfile]
            rfl
          rw [hread] at h
          rw [List.forall_mem_cons]
          exact ⟨by rw [hfile]; rfl, ih h⟩

variable (file) in
/-- The lines of `digests`. -/
def CrossArch.lines (a : CrossArch) (ts : List TargetName) : List (List UInt8) :=
  ts.flatMap fun t => ((a.found t).mergeSort bytesLe).map ((a.env file).line t)

variable {a : CrossArch} {ts : List TargetName} {digests : List UInt8}

theorem digestsOf_eq_some (hplain : ∀ t, ∀ p ∈ a.found t, PlainPath p) :
    a.digestsOf file ts = some digests ↔
      (∀ t ∈ ts, ∀ p ∈ a.found t, (file p).isSome = true) ∧
        digests = joinLines (a.lines file ts) := by
  induction ts generalizing digests with
  | nil =>
      constructor
      · intro h
        exact ⟨fun t ht => absurd ht List.not_mem_nil, (Option.some.inj h).symm⟩
      · rintro ⟨-, rfl⟩
        rfl
  | cons t ts ih =>
      have hsorted : ∀ p ∈ (a.found t).mergeSort bytesLe, PlainPath p := by
        intro p hp
        exact hplain t p (List.mem_mergeSort.mp hp)
      have hlines : textLines (joinLines (a.found t)) = a.found t :=
        textLines_joinLines fun p hp => (hplain t p hp).newline_notin
      rw [CrossArch.digestsOf, sortText, hlines, replayMain_joinLines hsorted,
        List.forall_mem_cons]
      dsimp only
      by_cases hread : ∀ p ∈ a.found t, (file p).isSome = true
      · have hserve : servePaths (a.env file) t ((a.found t).mergeSort bytesLe) =
            (((a.found t).mergeSort bytesLe).map ((a.env file).line t), .done) :=
          servePaths_done fun p hp => hread p (List.mem_mergeSort.mp hp)
        have hcode : ReplayEnd.done.code = 0 := rfl
        have happend : joinLines (a.lines file (t :: ts)) =
            joinLines (((a.found t).mergeSort bytesLe).map ((a.env file).line t)) ++
              joinLines (a.lines file ts) := by
          rw [← joinLines_append]
          rfl
        rw [hserve, happend]
        dsimp only
        rw [if_pos hcode, Option.map_eq_some_iff]
        constructor
        · rintro ⟨rest, hrest, rfl⟩
          obtain ⟨hall, rfl⟩ := ih.mp hrest
          exact ⟨⟨hread, hall⟩, rfl⟩
        · rintro ⟨⟨-, hall⟩, rfl⟩
          exact ⟨_, ih.mpr ⟨hall, rfl⟩, rfl⟩
      · rw [if_neg]
        · constructor
          · exact nofun
          · intro h
            exact absurd h.1.1 hread
        · intro hcode
          exact hread fun p hp => servePaths_code hcode p (List.mem_mergeSort.mpr hp)

/-! ## What a line says -/

/-- A line names its target, -/
theorem replayLine_head (t : TargetName) (fn : List UInt8 → List UInt8)
    (path bytes : List UInt8) :
    ∃ rest, replayLine t fn path bytes = t.text ++ space :: rest := by
  unfold replayLine
  split
  · exact ⟨ascii "-" ++ [space] ++ path, by simp [skipLine]⟩
  · exact ⟨_, by simp only [answerLine, List.append_assoc, List.singleton_append]; rfl⟩

theorem text_injective (h : t.text = t'.text) : t = t' := by
  have hfind := findTarget_text t
  rw [h, findTarget_text] at hfind
  exact (Option.some.inj hfind).symm

theorem head_injective {rest rest' : List UInt8}
    (h : t.text ++ space :: rest = t'.text ++ space :: rest') :
    t = t' ∧ rest = rest' := by
  have hword : ∀ (u : TargetName) (r : List UInt8),
      (u.text ++ space :: r).takeWhile (· ≠ space) = u.text := by
    intro u r
    have hplain : ∀ c ∈ u.text, decide (c ≠ space) = true := by
      intro c hc
      rw [decide_eq_true_eq]
      rintro rfl
      exact u.text_plain hc (by decide)
    rw [List.takeWhile_append_of_pos hplain]
    simp
  have htext := congrArg (List.takeWhile (· ≠ space)) h
  rw [hword, hword] at htext
  obtain rfl := text_injective htext
  exact ⟨rfl, (List.cons.inj (List.append_cancel_left h)).2⟩

/-- the path, and the digest where it has one. -/
theorem answerLine_injective {d d' : UInt64} {path' : List UInt8}
    (h : answerLine t d path = answerLine t' d' path') :
    t = t' ∧ d = d' ∧ path = path' := by
  have hsplit : ∀ (u : TargetName) (e : UInt64) (p : List UInt8),
      answerLine u e p = u.text ++ space :: (hexDigits 16 e.toNat ++ space :: p) := by
    intro u e p
    rw [← printHex_halves]
    simp [answerLine, List.append_assoc]
  rw [hsplit, hsplit] at h
  obtain ⟨rfl, hrest⟩ := head_injective h
  obtain ⟨hhex, hpath⟩ := List.append_inj hrest (by simp)
  have hpow : 2 ^ 64 ≤ 16 ^ 16 := by decide
  have hnat :=
    hexDigits_inj (lt_of_lt_of_le d.toNat_lt hpow) (lt_of_lt_of_le d'.toNat_lt hpow) hhex
  exact ⟨rfl, UInt64.toNat_inj.mp hnat, (List.cons.inj hpath).2⟩

/-- A dash is no digest. -/
theorem answerLine_ne_skipLine (t t' : TargetName) (d : UInt64)
    (path path' : List UInt8) :
    answerLine t d path ≠ skipLine t' path' := by
  intro h
  have hsplit : answerLine t d path =
      t.text ++ space :: (hexDigits 16 d.toNat ++ space :: path) := by
    rw [← printHex_halves]
    simp [answerLine, List.append_assoc]
  have hskip : skipLine t' path' = t'.text ++ space :: (45 :: space :: path') := by
    simp [skipLine, ascii, space]
  rw [hsplit, hskip] at h
  obtain ⟨-, hrest⟩ := head_injective h
  have hget := congrArg (·[1]?) hrest
  have hone : 1 < (hexDigits 16 d.toNat).length := by simp
  rw [List.getElem?_append_left hone, List.getElem?_eq_getElem hone] at hget
  have hspace : (hexDigits 16 d.toNat)[1] = space := Option.some.inj hget
  exact hexDigits_text (hspace ▸ List.getElem_mem hone) (by decide)

/-! ## Two architectures -/

variable {b : CrossArch} {bytes : List UInt8} {tool : DiffProgram}

theorem line_of_small (hfile : file path = some bytes) (hlen : bytes.length ≤ inputMax) :
    (a.env file).line t path = answerLine t (diffsecpDigest (a.fn t bytes)) path := by
  have hopen : (a.env file).file path = some bytes := hfile
  have hread : readInput (a.env file) path = some bytes := by
    rw [readInput, hopen, Option.map_some, List.take_of_length_le (by omega)]
  rw [ReplayEnv.line, hread, Option.getD_some, replayLine, if_neg (by omega)]
  rfl

theorem line_of_large (hfile : file path = some bytes) (hlen : inputMax < bytes.length) :
    (a.env file).line t path = skipLine t path := by
  have hopen : (a.env file).file path = some bytes := hfile
  have hread : readInput (a.env file) path = some (bytes.take (inputMax + 1)) := by
    rw [readInput, hopen, Option.map_some]
  rw [ReplayEnv.line, hread, Option.getD_some, replayLine, if_pos]
  rw [List.length_take]
  omega

/-- Two builds print one line for a file where their digests agree or both
skip it. -/
theorem line_eq_iff (hfile : file path = some bytes) :
    (a.env file).line t path = (b.env file).line t path ↔
      (bytes.length ≤ inputMax →
        diffsecpDigest (a.fn t bytes) = diffsecpDigest (b.fn t bytes)) := by
  by_cases hlen : bytes.length ≤ inputMax
  · rw [line_of_small hfile hlen, line_of_small hfile hlen]
    constructor
    · intro h _
      exact (answerLine_injective h).2.1
    · intro h
      rw [h hlen]
  · rw [line_of_large hfile (by omega), line_of_large hfile (by omega)]
    exact ⟨fun _ h => absurd h hlen, fun _ => rfl⟩

theorem mem_lines {l : List UInt8} :
    l ∈ a.lines file ts ↔ ∃ t ∈ ts, ∃ p ∈ a.found t, (a.env file).line t p = l := by
  simp [CrossArch.lines, List.mem_flatMap]

theorem lines_newline (hplain : ∀ t, ∀ p ∈ a.found t, PlainPath p) :
    ∀ l ∈ a.lines file ts, newline ∉ l := by
  intro l hl
  obtain ⟨t, -, p, hp, rfl⟩ := mem_lines.mp hl
  exact replayLine_newline t _ (hplain t p hp).newline_notin _

/-- The files agree line by line. -/
theorem lines_eq_iff (hfound : ∀ t, (a.found t).Perm (b.found t)) :
    a.lines file ts = b.lines file ts ↔
      ∀ t ∈ ts, ∀ p ∈ a.found t, (a.env file).line t p = (b.env file).line t p := by
  induction ts with
  | nil => exact ⟨fun _ t ht => absurd ht List.not_mem_nil, fun _ => rfl⟩
  | cons t ts ih =>
      have hcons : ∀ x : CrossArch, x.lines file (t :: ts) =
          ((x.found t).mergeSort bytesLe).map ((x.env file).line t) ++ x.lines file ts :=
            fun x => rfl
      rw [hcons, hcons, ← sort_perm (hfound t), List.forall_mem_cons, ← ih]
      constructor
      · intro h
        obtain ⟨hhead, htail⟩ := List.append_inj h (by simp)
        exact ⟨fun p hp =>
          List.map_inj_left.mp hhead p (List.mem_mergeSort.mpr hp), htail⟩
      · rintro ⟨hhead, htail⟩
        rw [htail, List.map_inj_left.mpr fun p hp => hhead p (List.mem_mergeSort.mp hp)]

/-- A line of a build that another digests differently is not among the
other's. -/
theorem line_notin (hfile : file path = some bytes) (hlen : bytes.length ≤ inputMax)
    (hdiff : diffsecpDigest (b.fn t bytes) ≠ diffsecpDigest (a.fn t bytes))
    (hread : ∀ t, ∀ p ∈ a.found t, (file p).isSome = true) :
    (b.env file).line t path ∉ a.lines file ts := by
  intro hmem
  obtain ⟨t', -, p, hp, hline⟩ := mem_lines.mp hmem
  obtain ⟨bytes', hbytes'⟩ := Option.isSome_iff_exists.mp (hread t' p hp)
  rw [line_of_small hfile hlen] at hline
  by_cases hlen' : bytes'.length ≤ inputMax
  · rw [line_of_small hbytes' hlen'] at hline
    obtain ⟨rfl, hdigest, rfl⟩ := answerLine_injective hline
    obtain rfl := Option.some.inj (hfile.symm.trans hbytes')
    exact hdiff hdigest.symm
  · rw [line_of_large hbytes' (by omega)] at hline
    exact answerLine_ne_skipLine _ _ _ _ _ hline.symm

/-! ## What `grep` finds -/

theorem reports_of_new {old new line rest : List UInt8} (hnew : line ∈ textLines new)
    (hold : line ∉ textLines old) (hline : line = t.text ++ space :: rest) :
    reports t (tool.print old new) = true := by
  obtain ⟨h, hmem, hadded⟩ :=
    (tool.correct (textLines old) (textLines new)).added_of_mem hnew hold
  rw [reports, List.any_eq_true]
  refine ⟨ascii "> " ++ line, ?_, ?_⟩
  · rw [DiffProgram.print, List.mem_flatMap]
    exact ⟨h, hmem, List.mem_append_right _ (List.mem_map_of_mem hadded)⟩
  · rw [List.isPrefixOf_iff_prefix, hline]
    exact ⟨rest, by simp⟩

theorem of_reports {old new : List UInt8} (h : reports t (tool.print old new) = true) :
    ∃ rest, t.text ++ space :: rest ∈ textLines new := by
  obtain ⟨line, hline, hstart⟩ := List.any_eq_true.mp h
  obtain ⟨rest, rfl⟩ := List.isPrefixOf_iff_prefix.mp hstart
  obtain ⟨hunk, hmem, hprinted⟩ := List.mem_flatMap.mp hline
  have hhead : (ascii "> " ++ t.text ++ [space] ++ rest).head? = some 62 := rfl
  rcases List.mem_append.mp hprinted with hprinted | hadded
  · rcases List.mem_append.mp hprinted with hprinted | hdashes
    · rcases List.mem_append.mp hprinted with hcommand | hremoved
      · rw [List.mem_singleton.mp hcommand] at hhead
        exact absurd rfl (tool.command_plain hunk 62 hhead)
      · obtain ⟨l, -, hl⟩ := List.mem_map.mp hremoved
        have hless : (ascii "< " ++ l).head? = some 60 := rfl
        rw [← hl, hless] at hhead
        exact absurd hhead (by decide)
    · split at hdashes
      · exact absurd hdashes List.not_mem_nil
      · rw [List.mem_singleton.mp hdashes] at hhead
        exact absurd hhead (by decide)
  · obtain ⟨l, hl, heq⟩ := List.mem_map.mp hadded
    rw [List.append_assoc, List.append_assoc] at heq
    have hsame := List.append_cancel_left heq
    refine ⟨rest, ?_⟩
    rw [hsame] at hl
    exact (tool.correct _ _).mem_of_added hmem hl

end Digests

/-- The flip of the last byte changes the digest. -/
theorem diffsecpDigest_selftestWrap {t : List UInt8} (ht : t ≠ []) :
    diffsecpDigest (selftestWrap t) ≠ diffsecpDigest t := by
  apply diffsecpDigest_positions (t.length - 1)
  · rw [selftestWrap]
    split
    · exact List.length_modify ..
    · rfl
  · exact selftestWrap_ne ht
  · intro j hj
    rw [selftestWrap] at hj
    split at hj
    · rw [List.getElem?_modify] at hj
      split at hj
      · omega
      · simp at hj
    · exact absurd rfl hj

/-! ## The corpus -/

/-- The files below `corpus/`, by target. -/
structure Corpus where
  file : List UInt8 → Option (List UInt8)
  paths : TargetName → List (List UInt8)
  plain : ∀ t, ∀ p ∈ paths t, PlainPath p

namespace Corpus

variable (corpus : Corpus) {a b : CrossArch} {t : TargetName} {tool : DiffProgram}
  {r s : List UInt8}

def Readable : Prop := ∀ t, ∀ p ∈ corpus.paths t, (corpus.file p).isSome = true

/-- `find` lists the corpus. -/
def ListedBy (a : CrossArch) : Prop := ∀ t, (a.found t).Perm (corpus.paths t)

/-- An input of the target on which the digests differ. -/
def Tells (a b : CrossArch) (t : TargetName) : Prop :=
  ∃ p ∈ corpus.paths t, ∃ bytes, corpus.file p = some bytes ∧ bytes.length ≤ inputMax ∧
    diffsecpDigest (a.fn t bytes) ≠ diffsecpDigest (b.fn t bytes)

theorem mem_allTargets (t : TargetName) : t ∈ allTargets := by
  cases t <;> decide

variable {corpus}

theorem ListedBy.plain (h : corpus.ListedBy a) : ∀ t, ∀ p ∈ a.found t, PlainPath p := by
  intro t p hp
  exact corpus.plain t p ((h t).mem_iff.mp hp)

theorem digests_iff (h : corpus.ListedBy a) :
    a.digests corpus.file = some r ↔ corpus.Readable ∧
    r = joinLines (a.lines corpus.file allTargets) := by
  rw [CrossArch.digests, digestsOf_eq_some h.plain]
  have hread : (∀ t ∈ allTargets, ∀ p ∈ a.found t, (corpus.file p).isSome = true) ↔
      corpus.Readable := by
    constructor
    · intro hall t p hp
      exact hall t (mem_allTargets t) p ((h t).mem_iff.mpr hp)
    · intro hall t _ p hp
      exact hall t p ((h t).mem_iff.mp hp)
  rw [hread]

theorem textLines_digests (h : corpus.ListedBy a) (hr : a.digests corpus.file = some r) :
    textLines r = a.lines corpus.file allTargets := by
  rw [((digests_iff h).mp hr).2, textLines_joinLines (lines_newline h.plain)]

/-- The digests are one file where no input tells the architectures apart. -/
theorem digests_eq_iff (ha : corpus.ListedBy a) (hb : corpus.ListedBy b)
    (hr : a.digests corpus.file = some r) :
    b.digests corpus.file = some r ↔ ∀ t, ¬ corpus.Tells a b t := by
  obtain ⟨hread, rfl⟩ := (digests_iff ha).mp hr
  have hsame : joinLines (a.lines corpus.file allTargets) =
      joinLines (b.lines corpus.file allTargets) ↔
      a.lines corpus.file allTargets = b.lines corpus.file allTargets := by
    constructor
    · intro h
      have htext := congrArg textLines h
      rwa [textLines_joinLines (lines_newline ha.plain),
        textLines_joinLines (lines_newline hb.plain)] at htext
    · intro h
      rw [h]
  rw [digests_iff hb, hsame, lines_eq_iff fun t => (ha t).trans (hb t).symm]
  constructor
  · rintro ⟨-, hall⟩ t ⟨p, hp, bytes, hfile, hlen, hdiff⟩
    exact hdiff
      ((line_eq_iff hfile).mp (hall t (mem_allTargets t) p ((ha t).mem_iff.mpr hp)) hlen)
  · intro hall
    refine ⟨hread, ?_⟩
    intro t _ p hp
    have hp' := (ha t).mem_iff.mp hp
    obtain ⟨bytes, hfile⟩ := Option.isSome_iff_exists.mp (hread t p hp')
    rw [line_eq_iff hfile]
    intro hlen
    by_contra hdiff
    exact hall t ⟨p, hp', bytes, hfile, hlen, hdiff⟩

/-- One file a target, which all targets echo. -/
def sampleCorpus : Corpus where
  file path := if path = [] then none else some [7]
  paths t := [t.text]
  plain := by
    intro t p hp
    rw [List.mem_singleton.mp hp]
    refine ⟨?_, ?_, ?_⟩
    · cases t <;> decide
    · have hlen := t.text_length
      have hmax : 15 < pathMax := by decide
      omega
    · intro c hc hbad
      apply t.text_plain hc
      simp only [List.mem_cons, List.not_mem_nil, or_false] at hbad ⊢
      rcases hbad with h | h | h
      · exact .inl h
      · exact .inr (.inl h)
      · exact .inr (.inr (.inl h))

def sampleDiff : DiffProgram where
  toDiffTool := .whole
  command _ := ascii "1c1"
  command_plain := by
    intro h c hc
    obtain rfl : 49 = c := Option.some.inj hc
    decide

def sampleArch : CrossArch := ⟨fun _ inp => inp, fun t => [t.text]⟩

theorem sampleCorpus_listed {fn : TargetName → List UInt8 → List UInt8} :
    sampleCorpus.ListedBy ⟨fn, sampleArch.found⟩ := fun _ => List.Perm.refl _

theorem sampleCorpus_file (t : TargetName) : sampleCorpus.file t.text = some [7] := by
  apply if_neg
  cases t <;> decide

theorem sampleCorpus_readable : sampleCorpus.Readable := by
  intro t p hp
  rw [List.mem_singleton.mp hp, sampleCorpus_file t]
  rfl

theorem sampleCorpus_tells (t : TargetName) :
    sampleCorpus.Tells sampleArch (sampleArch.selftest sampleArch.found) t := by
  refine ⟨t.text, List.mem_singleton_self _, [7], sampleCorpus_file t, by decide, ?_⟩
  exact (diffsecpDigest_selftestWrap (List.cons_ne_nil 7 [])).symm

/-- The selftest passes where an input of each target tells the builds apart.
It fails where a target has no corpus, and where the builds are one. -/
theorem crossSelftest_reports (ha : corpus.ListedBy a) (hb : corpus.ListedBy b)
    (hr : a.digests corpus.file = some r) (hs : b.digests corpus.file = some s) :
    ((∀ t, corpus.Tells a b t) → crossSelftest tool r s = true) ∧
      (crossSelftest tool r s = true → (∀ t, corpus.paths t ≠ []) ∧
        ∃ t, corpus.Tells a b t) := by
  have hread := ((digests_iff ha).mp hr).1
  constructor
  · intro htells
    rw [crossSelftest, List.all_eq_true]
    intro t _
    obtain ⟨p, hp, bytes, hfile, hlen, hdiff⟩ := htells t
    have hnew : (b.env corpus.file).line t p ∈ b.lines corpus.file allTargets :=
      mem_lines.mpr ⟨t, mem_allTargets t, p, (hb t).mem_iff.mpr hp, rfl⟩
    have hold : (b.env corpus.file).line t p ∉ a.lines corpus.file allTargets :=
      line_notin hfile hlen hdiff.symm fun t p hp => hread t p ((ha t).mem_iff.mp hp)
    obtain ⟨rest, hrest⟩ := replayLine_head t ((b.env corpus.file).fn t) p
      ((readInput (b.env corpus.file) p).getD [])
    rw [← textLines_digests hb hs] at hnew
    rw [← textLines_digests ha hr] at hold
    exact reports_of_new hnew hold hrest
  · intro hpass
    rw [crossSelftest, List.all_eq_true] at hpass
    have hpaths : ∀ t, corpus.paths t ≠ [] := by
      intro t hnil
      obtain ⟨rest, hline⟩ := of_reports (hpass t (mem_allTargets t))
      rw [textLines_digests hb hs] at hline
      obtain ⟨t', -, p, hp, heq⟩ := mem_lines.mp hline
      obtain ⟨rest', hhead⟩ := replayLine_head t' ((b.env corpus.file).fn t') p
        ((readInput (b.env corpus.file) p).getD [])
      obtain ⟨rfl, -⟩ := head_injective (hhead.symm.trans heq)
      rw [(hb t').mem_iff, hnil] at hp
      exact absurd hp List.not_mem_nil
    refine ⟨hpaths, ?_⟩
    by_contra hnone
    rw [not_exists] at hnone
    have hone := (digests_eq_iff ha hb hr).mpr hnone
    obtain rfl := Option.some.inj (hone.symm.trans hs)
    have hsilent : tool.print r r = [] := by
      rw [DiffProgram.print, tool.silent]
      rfl
    have hreport := hpass .ecdsa (mem_allTargets _)
    rw [hsilent] at hreport
    exact absurd hreport (by decide)

/-- A selftest of builds that differ everywhere, and one of a build with
itself. -/
theorem crossSelftest_reports_sample :
    crossSelftest sampleDiff (joinLines (sampleArch.lines sampleCorpus.file allTargets))
        (joinLines ((sampleArch.selftest sampleArch.found).lines sampleCorpus.file
          allTargets)) = true ∧
      ¬ crossSelftest sampleDiff
        (joinLines (sampleArch.lines sampleCorpus.file allTargets))
        (joinLines (sampleArch.lines sampleCorpus.file allTargets)) = true := by
  have hr :=
    (digests_iff (a := sampleArch) sampleCorpus_listed).mpr ⟨sampleCorpus_readable, rfl⟩
  have hs :=
    (digests_iff (a := sampleArch.selftest sampleArch.found) sampleCorpus_listed).mpr
    ⟨sampleCorpus_readable, rfl⟩
  constructor
  · exact (crossSelftest_reports sampleCorpus_listed sampleCorpus_listed hr hs).1
      sampleCorpus_tells
  · intro hpass
    obtain ⟨-, t, p, -, bytes, -, -, hdiff⟩ :=
      (crossSelftest_reports sampleCorpus_listed sampleCorpus_listed hr hr).2 hpass
    exact hdiff rfl

/-- With an input of each target that leaves a transcript, `make cross` passes
exactly where the corpus can be read and tells no architecture from the first
one. -/
theorem cross_iff (tool : DiffProgram) (reference : CrossArch)
    (found : TargetName → List (List UInt8)) (others : List CrossArch)
    (hreference : corpus.ListedBy reference)
    (hselftest : corpus.ListedBy (reference.selftest found))
    (hothers : ∀ a ∈ others, corpus.ListedBy a) (hseen : ∀ t, ∃ p ∈ corpus.paths t,
      ∃ bytes, corpus.file p = some bytes ∧ bytes.length ≤ inputMax ∧
      reference.fn t bytes ≠ []) :
    cross corpus.file tool reference (reference.selftest found) others = true ↔
      corpus.Readable ∧ ∀ a ∈ others, ∀ t, ¬ corpus.Tells reference a t := by
  rw [cross]
  by_cases hread : corpus.Readable
  · have hr := (digests_iff hreference).mpr ⟨hread, rfl⟩
    have hs := (digests_iff hselftest).mpr ⟨hread, rfl⟩
    have hself : crossSelftest tool (joinLines (reference.lines corpus.file allTargets))
        (joinLines ((reference.selftest found).lines corpus.file allTargets)) = true := by
      apply (crossSelftest_reports hreference hselftest hr hs).1
      intro t
      obtain ⟨p, hp, bytes, hfile, hlen, hne⟩ := hseen t
      exact ⟨p, hp, bytes, hfile, hlen, (diffsecpDigest_selftestWrap hne).symm⟩
    rw [hr, hs]
    simp only [hself, Bool.true_and, List.all_eq_true, decide_eq_true_eq]
    constructor
    · intro h
      exact ⟨hread, fun a ha => (digests_eq_iff hreference (hothers a ha) hr).mp (h a ha)⟩
    · rintro ⟨-, h⟩ a ha
      exact (digests_eq_iff hreference (hothers a ha) hr).mpr (h a ha)
  · have hnone : reference.digests corpus.file = none := by
      cases hd : reference.digests corpus.file with
      | none => rfl
      | some d => exact absurd ((digests_iff hreference).mp hd).1 hread
    rw [hnone]
    simp [hread]

/-- `make cross` with an architecture that agrees and with one that does not. -/
theorem cross_sample :
    cross sampleCorpus.file sampleDiff sampleArch (sampleArch.selftest sampleArch.found)
      [sampleArch] = true ∧
      ¬ cross sampleCorpus.file sampleDiff sampleArch
        (sampleArch.selftest sampleArch.found)
        [sampleArch.selftest sampleArch.found] = true := by
  have hseen : ∀ t, ∃ p ∈ sampleCorpus.paths t, ∃ bytes,
      sampleCorpus.file p = some bytes ∧
      bytes.length ≤ inputMax ∧ sampleArch.fn t bytes ≠ [] := by
    intro t
    exact ⟨t.text, List.mem_singleton_self _, [7], sampleCorpus_file t, by decide,
      List.cons_ne_nil 7 []⟩
  constructor
  · rw [cross_iff sampleDiff sampleArch sampleArch.found [sampleArch] sampleCorpus_listed
      sampleCorpus_listed (List.forall_mem_singleton.mpr sampleCorpus_listed) hseen]
    refine ⟨sampleCorpus_readable, ?_⟩
    rintro a ha t ⟨p, -, bytes, -, -, hdiff⟩
    rw [List.mem_singleton.mp ha] at hdiff
    exact hdiff rfl
  · rw [cross_iff sampleDiff sampleArch sampleArch.found
      [sampleArch.selftest sampleArch.found] sampleCorpus_listed
      sampleCorpus_listed (List.forall_mem_singleton.mpr sampleCorpus_listed) hseen]
    rintro ⟨-, hall⟩
    exact hall _ (List.mem_singleton_self _) .ecdsa (sampleCorpus_tells .ecdsa)

end Corpus

end Diffsecp
