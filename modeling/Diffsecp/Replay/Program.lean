import Mathlib.Data.List.Basic
import Diffsecp.Oracle.Protocol
import Diffsecp.Text.Words

/-!
# Replay — Program

`src/replay.c`: a build that prints the digest of each input whose path it
reads, or the transcript of one file in hexadecimal.
-/

namespace Diffsecp

open Text

/-- What `replay` runs on: the targets of its build and the files it can read
to their end. -/
structure ReplayEnv where
  fn : TargetName → List UInt8 → List UInt8
  file : List UInt8 → Option (List UInt8)

/-- `DIFFSECP_TARGETS` in order. -/
def allTargets : List TargetName :=
  [.ecdsa, .schnorrsig, .field, .scalar, .group, .keys, .ellswift, .recovery, .musig,
    .silentpayments]

def findTarget (name : List UInt8) : Option TargetName :=
  allTargets.find? fun t => name = t.text

/-- `read_input`. -/
def readInput (env : ReplayEnv) (path : List UInt8) : Option (List UInt8) :=
  (env.file path).map fun bytes => bytes.take (inputMax + 1)

/-! ## `replay_paths` -/

/-- What stops reading from `stdin`. -/
inductive StreamEnd where
  | eof
  | error
  deriving DecidableEq

/-- `fgets` into `cap` bytes: the line, what is left and whether the end was
met. -/
def fgets (cap : ℕ) (ending : StreamEnd) (stdin : List UInt8) :
    Option (List UInt8 × List UInt8 × Bool) :=
  let head := stdin.take (cap - 1)
  if newline ∈ head then
    let line := head.takeWhile (· ≠ newline) ++ [newline]
    some (line, stdin.drop line.length, false)
  else if stdin.length < cap - 1 then
    if stdin = [] ∨ ending = .error then none else some (stdin, [], true)
  else
    some (head, stdin.drop (cap - 1), false)

inductive ReplayError where
  | pathTooLong (path : List UInt8)
  | cannotRead (path : List UInt8)
  deriving DecidableEq

/-- How `replay_paths` ends. -/
inductive ReplayEnd where
  | done
  | failed (e : ReplayError)
  | stdinError
  deriving DecidableEq

/-- What `replay_paths` returns. -/
def ReplayEnd.code : ReplayEnd → ℕ
  | .done => 0
  | .failed _ => 1
  | .stdinError => 1

/-- The characters `strcspn(path, "\r\n")` counts. -/
def inPath (c : UInt8) : Bool := c ≠ 0 ∧ c ≠ 13 ∧ c ≠ newline

/-- The loop of `replay_paths`: the lines it prints and how it ends. -/
def replayLoop (env : ReplayEnv) (name : TargetName) (ending : StreamEnd) :
    (fuel : ℕ) → (stdin : List UInt8) → List (List UInt8) × ReplayEnd
  | 0, _ => ([], .done)
  | fuel + 1, stdin =>
      match fgets pathMax ending stdin with
      | none => ([], if ending = .error then .stdinError else .done)
      | some (line, rest, feof) =>
          let path := line.takeWhile inPath
          -- the character there is the end of the string
          if line.getD path.length 0 = 0 ∧ feof = false then
            ([], .failed (.pathTooLong (cString line)))
          else if path = [] then
            replayLoop env name ending fuel rest
          else
            match readInput env path with
            | none => ([], .failed (.cannotRead path))
            | some bytes =>
                let (out, e) := replayLoop env name ending fuel rest
                (replayLine name (env.fn name) path bytes :: out, e)

def replayPaths (env : ReplayEnv) (name : TargetName) (ending : StreamEnd)
    (stdin : List UInt8) :
    List (List UInt8) × ReplayEnd := replayLoop env name ending (stdin.length + 1) stdin

/-! ## `dump` -/

/-- A transcript in hexadecimal, 32 bytes to a line. -/
def hexDump (t : List UInt8) : List UInt8 :=
  (t.mapIdx fun i b =>
    printHex 2 b.toNat ++
      [if i % 32 = 31 ∨ i + 1 = t.length then newline else space]).flatten

/-- `dump`, `none` where the file cannot be read or is too large. -/
def replayDump (env : ReplayEnv) (name : TargetName) (path : List UInt8) :
    Option (List UInt8) :=
  match readInput env path with
  | none => none
  | some bytes =>
      if inputMax < bytes.length then none else some (hexDump (env.fn name bytes))

/-! ## `main` -/

/-- What `main` prints on `stdout`, and its code. -/
def replayMain (env : ReplayEnv) (argv : List (List UInt8)) (ending : StreamEnd)
    (stdin : List UInt8) :
    List UInt8 × ℕ :=
  match argv with
  | [_, name] =>
      match findTarget name with
      | none => ([], 2)
      | some t =>
          let (out, e) := replayPaths env t ending stdin
          (out.flatMap (· ++ [newline]), e.code)
  | [_, option, name, path] =>
      if option = ascii "-d" then
        match findTarget name with
        | none => ([], 2)
        | some t =>
            match replayDump env t path with
            | none => ([], 1)
            | some text => (text, 0)
      else ([], 2)
  | _ => ([], 2)

/-! ## Lines -/

section Lines

variable {env : ReplayEnv} {name : TargetName} {ending : StreamEnd}
  {stdin line rest : List UInt8}

/-- Each line takes a byte of `stdin` at least. -/
theorem fgets_rest {feof : Bool}
    (h : fgets pathMax ending stdin = some (line, rest, feof)) :
    rest.length < stdin.length := by
  have hne : stdin ≠ [] := by
    rintro rfl
    simp [fgets, pathMax] at h
  have hpos := List.length_pos_of_ne_nil hne
  have hcap : 0 < pathMax - 1 := by decide
  unfold fgets at h
  dsimp only at h
  split at h
  · cases h
    rw [List.length_drop, List.length_append, List.length_singleton]
    omega
  · split at h
    · split at h
      · cases h
      · cases h
        exact hpos
    · cases h
      rw [List.length_drop]
      omega

/-- Any fuel above the length of `stdin` is enough. -/
theorem replayLoop_fuel {fuel fuel' : ℕ} (h : stdin.length < fuel)
    (h' : stdin.length < fuel') :
    replayLoop env name ending fuel stdin = replayLoop env name ending fuel' stdin := by
  induction fuel generalizing fuel' stdin with
  | zero => omega
  | succ fuel ih =>
      cases fuel' with
      | zero => omega
      | succ fuel' =>
          unfold replayLoop
          cases hgets : fgets pathMax ending stdin with
          | none => rfl
          | some w =>
              obtain ⟨line, rest, feof⟩ := w
              have hrest := fgets_rest hgets
              have hsame : replayLoop env name ending fuel rest =
                  replayLoop env name ending fuel' rest :=
                ih (by omega) (by omega)
              simp only [hsame]

/-- A line that fits, with its newline. -/
theorem fgets_line (hnl : newline ∉ line) (hfits : line.length + 1 < pathMax) :
    fgets pathMax ending (line ++ newline :: rest) = some (line ++ [newline],
      rest, false) := by
  have htake : (line ++ newline :: rest).take (pathMax - 1)
      = line ++ newline :: rest.take (pathMax - 1 - line.length - 1) := by
    rw [List.take_append, List.take_of_length_le (by omega)]
    congr 1
    obtain ⟨k, hk⟩ : ∃ k, pathMax - 1 - line.length = k + 1 :=
      ⟨pathMax - 1 - line.length - 1, by omega⟩
    rw [hk, List.take_succ_cons, Nat.add_sub_cancel]
  have hplain : ∀ c ∈ line, decide (c ≠ newline) = true := by
    intro c hc
    rw [decide_eq_true_eq]
    rintro rfl
    exact hnl hc
  have hword : (line ++ newline :: rest.take (pathMax - 1 - line.length - 1)).takeWhile
      (· ≠ newline) = line := by
    rw [List.takeWhile_append_of_pos hplain]
    simp
  have hdrop : (line ++ newline :: rest).drop (line ++ [newline]).length = rest := by
    rw [List.append_cons line newline rest, List.drop_left]
  unfold fgets
  simp only [htake]
  rw [if_pos (List.mem_append_right _ List.mem_cons_self), hword, hdrop]

/-- A last line without one. -/
theorem fgets_last (hnl : newline ∉ line) (hfits : line.length + 1 < pathMax)
    (hne : line ≠ []) :
    fgets pathMax .eof line = some (line, [], true) := by
  have htake : line.take (pathMax - 1) = line := List.take_of_length_le (by omega)
  unfold fgets
  simp only [htake]
  rw [if_neg hnl, if_pos (by omega), if_neg (by simp [hne])]

end Lines

/-! ## Paths -/

/-- What a line says, whichever line ending it has. -/
def pathOf (line : List UInt8) : List UInt8 := line.takeWhile (· ≠ 13)

/-- The paths on `stdin`. -/
def pathsOf (stdin : List UInt8) : List (List UInt8) :=
  ((stdin.splitOn newline).map pathOf).filter (· ≠ [])

/-- A line for each path, up to the first that cannot be read. -/
def servePaths (env : ReplayEnv) (name : TargetName) :
    List (List UInt8) → List (List UInt8) × ReplayEnd
  | [] => ([], .done)
  | path :: paths =>
      match readInput env path with
      | none => ([], .failed (.cannotRead path))
      | some bytes =>
          let (out, e) := servePaths env name paths
          (replayLine name (env.fn name) path bytes :: out, e)

/-- What a build prints for a path. -/
def ReplayEnv.line (env : ReplayEnv) (t : TargetName) (path : List UInt8) : List UInt8 :=
  replayLine t (env.fn t) path ((readInput env path).getD [])

section Paths

variable {env : ReplayEnv} {name : TargetName} {stdin line rest : List UInt8}

/-- `strcspn` stops where the path does. -/
theorem takeWhile_inPath (hnl : newline ∉ line) (hnul : 0 ∉ line) (tail : List UInt8)
    (htail : tail = [] ∨ tail = [newline]) :
    (line ++ tail).takeWhile inPath = pathOf line := by
  induction line with
  | nil =>
      rcases htail with rfl | rfl
      · rfl
      · decide
  | cons c line ih =>
      rw [List.mem_cons, not_or] at hnl hnul
      rw [List.cons_append, List.takeWhile_cons, pathOf, List.takeWhile_cons]
      by_cases hc : c = 13
      · rw [if_neg (by simp [inPath, hc]), if_neg (by simp [hc])]
      · have hin : inPath c = true := by
          simp [inPath, hc, Ne.symm hnl.1, Ne.symm hnul.1]
        rw [if_pos hin, if_pos (by simpa using hc), ih hnl.2 hnul.2]
        rfl

theorem pathOf_length_le (line : List UInt8) : (pathOf line).length ≤ line.length :=
  (List.takeWhile_prefix _).length_le

/-- The character there is not the end of the string where a newline is. -/
theorem getD_inPath (hnul : 0 ∉ line) :
    (line ++ [newline]).getD (pathOf line).length 0 ≠ 0 := by
  have hlt : (pathOf line).length < (line ++ [newline]).length := by
    have hle := pathOf_length_le line
    rw [List.length_append, List.length_singleton]
    omega
  rw [List.getD_eq_getElem?_getD, List.getElem?_eq_getElem hlt, Option.getD_some]
  intro h0
  have hmem : (0 : UInt8) ∈ line ++ [newline] := h0 ▸ List.getElem_mem hlt
  rcases List.mem_append.mp hmem with hmem | hmem
  · exact hnul hmem
  · exact absurd hmem (by decide)

theorem pathsOf_line (hnl : newline ∉ line) :
    pathsOf (line ++ newline :: rest) =
      (if pathOf line = [] then [] else [pathOf line]) ++ pathsOf rest := by
  have hplain : ∀ c ∈ line, (c == newline) = false := by
    intro c hc
    rw [beq_eq_false_iff_ne]
    rintro rfl
    exact hnl hc
  rw [pathsOf, List.splitOn,
    List.splitOnP_append_cons_of_forall_mem hplain newline (by decide), List.map_cons,
    List.filter_cons]
  by_cases hpath : pathOf line = []
  · simp [hpath, pathsOf, List.splitOn]
  · simp [hpath, pathsOf, List.splitOn]

theorem pathsOf_last (hnl : newline ∉ line) :
    pathsOf line = if pathOf line = [] then [] else [pathOf line] := by
  have hplain : ∀ c ∈ line, (c == newline) = false := by
    intro c hc
    rw [beq_eq_false_iff_ne]
    rintro rfl
    exact hnl hc
  rw [pathsOf, List.splitOn, List.splitOnP_eq_singleton hplain]
  by_cases hpath : pathOf line = []
  · simp [hpath]
  · simp [hpath]

/-- One turn of the loop on a line that ends in a newline, -/
theorem replayLoop_line (hnl : newline ∉ line) (hnul : 0 ∉ line)
    (hfits : line.length + 1 < pathMax) (ending : StreamEnd) (fuel : ℕ) :
    replayLoop env name ending (fuel + 1) (line ++ newline :: rest) =
      if pathOf line = [] then replayLoop env name ending fuel rest
      else
        match readInput env (pathOf line) with
        | none => ([], .failed (.cannotRead (pathOf line)))
        | some bytes =>
            let (out, e) := replayLoop env name ending fuel rest
            (replayLine name (env.fn name) (pathOf line) bytes :: out, e) := by
  rw [replayLoop, fgets_line hnl hfits]
  simp only [takeWhile_inPath hnl hnul [newline] (.inr rfl), getD_inPath hnul,
    false_and, if_false]

/-- and on one the stream ends in. -/
theorem replayLoop_last (hnl : newline ∉ line) (hnul : 0 ∉ line)
    (hfits : line.length + 1 < pathMax) (hne : line ≠ []) (fuel : ℕ) :
    replayLoop env name .eof (fuel + 1) line =
      if pathOf line = [] then replayLoop env name .eof fuel []
      else
        match readInput env (pathOf line) with
        | none => ([], .failed (.cannotRead (pathOf line)))
        | some bytes =>
            let (out, e) := replayLoop env name .eof fuel []
            (replayLine name (env.fn name) (pathOf line) bytes :: out, e) := by
  have hpath := takeWhile_inPath hnl hnul [] (.inl rfl)
  rw [List.append_nil] at hpath
  rw [replayLoop, fgets_last hnl hfits hne]
  simp only [hpath, Bool.true_eq_false, and_false, if_false]

theorem replayLoop_nil (fuel : ℕ) : replayLoop env name .eof fuel [] = ([], .done) := by
  cases fuel with
  | zero => rfl
  | succ fuel => rfl

theorem servePaths_if (paths : List (List UInt8)) (path : List UInt8) :
    servePaths env name ((if path = [] then [] else [path]) ++ paths) =
      if path = [] then servePaths env name paths
      else
        match readInput env path with
        | none => ([], .failed (.cannotRead path))
        | some bytes =>
            let (out, e) := servePaths env name paths
            (replayLine name (env.fn name) path bytes :: out, e) := by
  by_cases hpath : path = []
  · rw [if_pos hpath, if_pos hpath, List.nil_append]
  · rw [if_neg hpath, if_neg hpath]
    rfl

theorem replayLoop_eq {fuel : ℕ} (hfuel : stdin.length < fuel) (hnul : 0 ∉ stdin)
    (hfits : ∀ line ∈ stdin.splitOn newline, line.length + 1 < pathMax) :
    replayLoop env name .eof fuel stdin = servePaths env name (pathsOf stdin) := by
  induction fuel generalizing stdin with
  | zero => omega
  | succ fuel ih =>
      by_cases hmem : newline ∈ stdin
      · obtain ⟨line, rest, rfl, hnl⟩ := List.eq_append_cons_of_mem hmem
        have hplain : ∀ c ∈ line, (c == newline) = false := by
          intro c hc
          rw [beq_eq_false_iff_ne]
          rintro rfl
          exact hnl hc
        rw [List.splitOn,
          List.splitOnP_append_cons_of_forall_mem hplain newline (by decide)] at hfits
        rw [List.mem_append, List.mem_cons, not_or, not_or] at hnul
        have hrest :
            replayLoop env name .eof fuel rest = servePaths env name (pathsOf rest) := by
          apply ih
          · simp only [List.length_append, List.length_cons] at hfuel
            omega
          · exact hnul.2.2
          · intro l hl
            exact hfits l (List.mem_cons_of_mem _ hl)
        rw [replayLoop_line hnl hnul.1 (hfits line List.mem_cons_self), pathsOf_line hnl,
          servePaths_if, hrest]
      · by_cases hne : stdin = []
        · subst hne
          rfl
        · have hplain : ∀ c ∈ stdin, (c == newline) = false := by
            intro c hc
            rw [beq_eq_false_iff_ne]
            rintro rfl
            exact hmem hc
          rw [List.splitOn, List.splitOnP_eq_singleton hplain] at hfits
          rw [replayLoop_last hmem hnul (hfits stdin List.mem_cons_self) hne,
            pathsOf_last hmem,
            ← List.append_nil (if pathOf stdin = [] then [] else [pathOf stdin]),
            servePaths_if, replayLoop_nil]
          rfl

/-- A list of paths, with either line ending and with or without the last
one. -/
theorem replayPaths_eq (hnul : 0 ∉ stdin)
    (hfits : ∀ line ∈ stdin.splitOn newline, line.length + 1 < pathMax) :
    replayPaths env name .eof stdin = servePaths env name (pathsOf stdin) :=
  replayLoop_eq (Nat.lt_succ_self _) hnul hfits

/-- What the loop did with the paths: an answer for each up to the end, or up
to one that cannot be read. -/
theorem servePaths_split (env : ReplayEnv) (name : TargetName)
    (paths : List (List UInt8)) :
    ∃ served rest, paths = served ++ rest ∧ (∀ p ∈ served, (env.file p).isSome = true) ∧
      (servePaths env name paths).1 = served.map (env.line name) ∧
      ((rest = [] ∧ (servePaths env name paths).2 = .done) ∨
        ∃ p more, rest = p :: more ∧ env.file p = none ∧
          (servePaths env name paths).2 = .failed (.cannotRead p)) := by
  induction paths with
  | nil => exact ⟨[], [], rfl, by simp, rfl, .inl ⟨rfl, rfl⟩⟩
  | cons p paths ih =>
      cases hfile : env.file p with
      | none =>
          have hread : readInput env p = none := by
            rw [readInput, hfile]
            rfl
          refine ⟨[], p :: paths, rfl, by simp, ?_, .inr ⟨p, paths, rfl, hfile, ?_⟩⟩
          · rw [servePaths, hread]
            rfl
          · rw [servePaths, hread]
      | some bytes =>
          have hread : readInput env p = some (bytes.take (inputMax + 1)) := by
            rw [readInput, hfile]
            rfl
          obtain ⟨served, rest, rfl, hserved, hout, hend⟩ := ih
          refine ⟨p :: served, rest, rfl, ?_, ?_, ?_⟩
          · rw [List.forall_mem_cons]
            exact ⟨by rw [hfile]; rfl, hserved⟩
          · rw [servePaths, hread]
            simp only [hout, List.map_cons, ReplayEnv.line, hread, Option.getD_some]
          · rw [servePaths, hread]
            exact hend

end Paths

/-! ## Files of lines -/

/-- A file of lines. -/
def joinLines (lines : List (List UInt8)) : List UInt8 := lines.flatMap (· ++ [newline])

/-- Its lines, the last one perhaps without its newline. -/
def textLines (text : List UInt8) : List (List UInt8) :=
  let lines := text.splitOn newline
  if lines.getLast? = some [] then lines.dropLast else lines

section Lines

variable {lines paths paths' : List (List UInt8)}

theorem splitOn_joinLines (h : ∀ l ∈ lines, newline ∉ l) :
    (joinLines lines).splitOn newline = lines ++ [[]] := by
  induction lines with
  | nil => rfl
  | cons l lines ih =>
      rw [List.forall_mem_cons] at h
      have hplain : ∀ c ∈ l, (c == newline) = false := by
        intro c hc
        rw [beq_eq_false_iff_ne]
        rintro rfl
        exact h.1 hc
      have hcons : joinLines (l :: lines) = l ++ newline :: joinLines lines := by
        simp [joinLines]
      rw [hcons, List.splitOn, List.splitOnP_append_cons_of_forall_mem hplain newline
        (by decide), ← List.splitOn, ih h.2, List.cons_append]

theorem textLines_joinLines (h : ∀ l ∈ lines, newline ∉ l) :
    textLines (joinLines lines) = lines := by
  simp [textLines, splitOn_joinLines h]

theorem joinLines_append :
    joinLines (paths ++ paths') = joinLines paths ++ joinLines paths' := by
  simp [joinLines]

theorem newline_notin_pathsOf {stdin p : List UInt8} (hp : p ∈ pathsOf stdin) :
    newline ∉ p := by
  obtain ⟨hmem, -⟩ := List.mem_filter.mp hp
  obtain ⟨line, hline, rfl⟩ := List.mem_map.mp hmem
  intro hc
  have hnot := not_sep_of_mem_splitOnP hline ((List.takeWhile_prefix _).subset hc)
  exact absurd rfl (beq_eq_false_iff_ne.mp hnot)

end Lines

theorem findTarget_text (t : TargetName) : findTarget t.text = some t := by
  cases t <;> decide

/-- `replay TARGET` answers the paths on `stdin` in order, with either line
ending and with or without the last one, up to the first that cannot be read,
and its code says whether there was one. -/
theorem replay_answers (env : ReplayEnv) (t : TargetName) (program stdin : List UInt8)
    (hnul : 0 ∉ stdin)
    (hfits : ∀ line ∈ stdin.splitOn newline, line.length + 1 < pathMax) :
    ∃ served rest, pathsOf stdin = served ++ rest ∧
      (∀ p ∈ served, (env.file p).isSome = true) ∧
      textLines (replayMain env [program, t.text] .eof stdin).1 =
        served.map (env.line t) ∧
      ((rest = [] ∧ (replayMain env [program, t.text] .eof stdin).2 = 0) ∨
        ∃ p more, rest = p :: more ∧ env.file p = none ∧
          (replayMain env [program, t.text] .eof stdin).2 = 1) := by
  have hmain : replayMain env [program, t.text] .eof stdin =
      (joinLines (servePaths env t (pathsOf stdin)).1,
        (servePaths env t (pathsOf stdin)).2.code) := by
    rw [replayMain, findTarget_text]
    simp only [replayPaths_eq hnul hfits]
    rfl
  obtain ⟨served, rest, hpaths, hserved, hout, hend⟩ :=
    servePaths_split env t (pathsOf stdin)
  refine ⟨served, rest, hpaths, hserved, ?_, ?_⟩
  · rw [hmain, hout]
    apply textLines_joinLines
    intro l hl
    obtain ⟨p, hp, rfl⟩ := List.mem_map.mp hl
    have hin : p ∈ pathsOf stdin := by
      rw [hpaths]
      exact List.mem_append_left _ hp
    exact replayLine_newline t _ (newline_notin_pathsOf hin) _
  · rw [hmain]
    rcases hend with ⟨hrest, hdone⟩ | ⟨p, more, hrest, hfile, hfailed⟩
    · exact .inl ⟨hrest, by rw [hdone]; rfl⟩
    · exact .inr ⟨p, more, hrest, hfile, by rw [hfailed]; rfl⟩

/-- Two files the targets echo. -/
def sampleReplay : ReplayEnv :=
  ⟨fun _ inp => inp, fun p => if p = ascii "a" ∨ p = ascii "b" then some [7] else none⟩

/-- Their paths, the first with the other line ending and the last one
unfinished. -/
theorem replay_answers_sample :
    textLines (replayMain sampleReplay [ascii "replay", TargetName.text .keys] .eof
      (ascii "a\r\n\nb")).1 =
      [answerLine .keys (diffsecpDigest [7]) (ascii "a"),
        answerLine .keys (diffsecpDigest [7]) (ascii "b")] := by
  obtain ⟨served, rest, hpaths, -, hlines, hend⟩ :=
    replay_answers sampleReplay .keys (ascii "replay") (ascii "a\r\n\nb")
      (by decide) (by decide)
  have htwo : pathsOf (ascii "a\r\n\nb") = [ascii "a", ascii "b"] := by decide
  rw [htwo] at hpaths
  rw [hlines]
  rcases hend with ⟨rfl, -⟩ | ⟨p, more, rfl, hnone, -⟩
  · rw [List.append_nil] at hpaths
    rw [← hpaths]
    rfl
  · exfalso
    have hmem : p ∈ [ascii "a", ascii "b"] := by
      rw [hpaths]
      simp
    have hsome : sampleReplay.file p = some [7] := if_pos (by simpa using hmem)
    rw [hsome] at hnone
    cases hnone

/-! ## Reading a dump back -/

/-- What separates the bytes of a dump. -/
def isBlank (c : UInt8) : Bool := c = newline || c = space

def hexValue (c : UInt8) : Option ℕ :=
  if 48 ≤ c ∧ c ≤ 57 then some (c.toNat - 48)
    else if 97 ≤ c ∧ c ≤ 102 then some (c.toNat - 87) else none

def hexByte : List UInt8 → Option UInt8
  | [c, d] => do
      let high ← hexValue c
      let low ← hexValue d
      return UInt8.ofNat (16 * high + low)
  | _ => none

/-- The transcript a dump shows. -/
def undump (text : List UInt8) : Option (List UInt8) := (words isBlank text).mapM hexByte

section Dump

theorem hexByte_printHex (b : UInt8) : hexByte (printHex 2 b.toNat) = some b := by
  have hdigit : ∀ d < 16, hexValue (hexChar d) = some d := by decide
  have hlt := b.toNat_lt
  have hhigh := hdigit (b.toNat / 16 % 16) (Nat.mod_lt _ (by decide))
  have hlow := hdigit (b.toNat % 16) (Nat.mod_lt _ (by decide))
  have hsum : 16 * (b.toNat / 16 % 16) + b.toNat % 16 = b.toNat := by omega
  rw [printHex_eq (by omega)]
  show (do
    let high ← hexValue _
    let low ← hexValue _
    return UInt8.ofNat (16 * high + low)) = some b
  rw [hhigh, hlow]
  show some (UInt8.ofNat (16 * (b.toNat / 16 % 16) + b.toNat % 16)) = some b
  rw [hsum, UInt8.ofNat_toNat]

theorem printHex_plain (b : UInt8) : ∀ c ∈ printHex 2 b.toNat, isBlank c = false := by
  have hlt := b.toNat_lt
  rw [printHex_eq (by omega)]
  intro c hc
  have hplain := hexDigits_text hc
  simp only [List.mem_cons, not_or] at hplain
  simp [isBlank, hplain.2.1, hplain.2.2.2.1]

theorem printHex_ne_nil (b : UInt8) : printHex 2 b.toNat ≠ [] := by
  have hlt := b.toNat_lt
  rw [printHex_eq (by omega)]
  exact List.ne_nil_of_length_pos (by simp)

/-- The words of a dump, whichever blank follows each byte. -/
theorem words_dump (blank : ℕ → UInt8) (hblank : ∀ i, isBlank (blank i) = true)
    (t : List UInt8) :
    words isBlank ((t.mapIdx fun i b => printHex 2 b.toNat ++ [blank i]).flatten) =
      t.map fun b => printHex 2 b.toNat := by
  induction t generalizing blank with
  | nil => simp
  | cons b t ih =>
      rw [List.mapIdx_cons, List.flatten_cons, List.append_assoc, List.singleton_append,
        words_word (printHex_ne_nil b) (printHex_plain b) (by simpa using hblank 0),
        words_sep (hblank 0),
        ih (fun i => blank (i + 1)) (fun i => hblank (i + 1)), List.map_cons]

theorem mapM_hexByte (t : List UInt8) :
    (t.map fun b => printHex 2 b.toNat).mapM hexByte = some t := by
  induction t with
  | nil => rfl
  | cons b t ih =>
      rw [List.map_cons, List.mapM_cons, hexByte_printHex, ih]
      rfl

theorem undump_hexDump (t : List UInt8) : undump (hexDump t) = some t := by
  have hblank : ∀ i,
      isBlank (if i % 32 = 31 ∨ i + 1 = t.length then newline else space) = true := by
    intro i
    split <;> rfl
  rw [undump, hexDump, words_dump _ hblank, mapM_hexByte]

/-! ## The rows of a dump -/

/-- The bytes of a row in hexadecimal, with spaces between them. -/
def hexRow (row : List UInt8) : List UInt8 :=
  [space].intercalate (row.map fun b => printHex 2 b.toNat)

/-- `rows` is `t` in rows of 32 bytes, the last one perhaps shorter. -/
structure RowsOf (t : List UInt8) (rows : List (List UInt8)) : Prop where
  flatten : rows.flatten = t
  full : ∀ row ∈ rows.dropLast, row.length = 32
  sized : ∀ row ∈ rows, row ≠ [] ∧ row.length ≤ 32

theorem RowsOf.nil : RowsOf [] [] := ⟨rfl, nofun, nofun⟩

/-- A last row. -/
theorem RowsOf.last {row : List UInt8} (hne : row ≠ []) (hrow : row.length ≤ 32) :
    RowsOf row [row] := by
  refine ⟨List.flatten_singleton, nofun, ?_⟩
  rw [List.forall_mem_singleton]
  exact ⟨hne, hrow⟩

/-- A full row before others. -/
theorem RowsOf.cons {row t : List UInt8} {rows : List (List UInt8)}
    (hrow : row.length = 32) (h : RowsOf t rows) : RowsOf (row ++ t) (row :: rows) := by
  refine ⟨by rw [List.flatten_cons, h.flatten], ?_, ?_⟩
  · intro r hr
    cases rows with
    | nil => nomatch hr
    | cons r' rows =>
        rw [List.dropLast_cons_cons] at hr
        rcases List.mem_cons.mp hr with rfl | hr
        · exact hrow
        · exact h.full r hr
  · rw [List.forall_mem_cons]
    exact ⟨⟨List.ne_nil_of_length_pos (by omega), hrow.le⟩, h.sized⟩

/-- Bytes with a space after each but the last, which ends the line. -/
theorem hexRow_newline {row : List UInt8} (hne : row ≠ []) :
    (row.mapIdx fun i b =>
      printHex 2 b.toNat ++ [if i + 1 = row.length then newline else space]).flatten =
      hexRow row ++ [newline] := by
  induction row with
  | nil => exact absurd rfl hne
  | cons b row ih =>
      rw [List.mapIdx_cons, List.flatten_cons]
      cases row with
      | nil =>
          rw [hexRow, List.map_singleton, List.intercalate_singleton]
          simp
      | cons b' row =>
          have hshift : ∀ i, i + 1 + 1 = (b :: b' :: row).length ↔
              i + 1 = (b' :: row).length := by
            intro i
            simp
          simp only [hshift, ih (List.cons_ne_nil _ _)]
          simp only [hexRow, List.map_cons]
          rw [List.intercalate_cons_cons, if_neg (by simp)]
          simp

theorem hexDump_row {row : List UInt8} (hne : row ≠ []) (hrow : row.length ≤ 32) :
    hexDump row = hexRow row ++ [newline] := by
  rw [← hexRow_newline hne, hexDump]
  congr 1
  apply List.ext_getElem (by simp)
  intro i hi _
  rw [List.length_mapIdx] at hi
  have hlast : (i % 32 = 31 ∨ i + 1 = row.length) ↔ i + 1 = row.length := by omega
  simp only [List.getElem_mapIdx, hlast]

/-- A full row of a dump is followed by the dump of the rest. -/
theorem hexDump_append {row t : List UInt8} (hrow : row.length = 32) (hne : t ≠ []) :
    hexDump (row ++ t) = hexDump row ++ hexDump t := by
  have hpos : 0 < t.length := List.length_pos_iff.mpr hne
  rw [hexDump, List.mapIdx_append, List.flatten_append, hexDump, hexDump]
  congr 2
  · apply List.ext_getElem (by simp)
    intro i hi _
    rw [List.length_mapIdx] at hi
    have hlast : (i % 32 = 31 ∨ i + 1 = (row ++ t).length) ↔
        (i % 32 = 31 ∨ i + 1 = row.length) := by
      rw [List.length_append]
      omega
    simp only [List.getElem_mapIdx, hlast]
  · apply List.ext_getElem (by simp)
    intro i hi _
    have hlast : ((i + row.length) % 32 = 31 ∨ i + row.length + 1 = (row ++ t).length) ↔
        (i % 32 = 31 ∨ i + 1 = t.length) := by
      rw [List.length_append]
      omega
    simp only [List.getElem_mapIdx, hlast]

/-- A dump is the lines of its rows. -/
theorem hexDump_rows (t : List UInt8) :
    ∃ rows, RowsOf t rows ∧ hexDump t = joinLines (rows.map hexRow) := by
  induction hlen : t.length using Nat.strong_induction_on generalizing t with
  | _ n ih =>
      by_cases hnil : t = []
      · subst hnil
        exact ⟨[], .nil, rfl⟩
      by_cases hlast : t.length ≤ 32
      · refine ⟨[t], .last hnil hlast, ?_⟩
        rw [hexDump_row hnil hlast]
        simp [joinLines]
      have hfull : (t.take 32).length = 32 := by
        rw [List.length_take]
        omega
      have hrest : (t.drop 32).length = t.length - 32 := List.length_drop
      obtain ⟨rows, hrows, hdump⟩ := ih _ (by omega) (t.drop 32) rfl
      refine ⟨t.take 32 :: rows, ?_, ?_⟩
      · have hcons := RowsOf.cons hfull hrows
        rwa [List.take_append_drop] at hcons
      · have happend := hexDump_append hfull
          (List.ne_nil_of_length_pos (by omega : 0 < (t.drop 32).length))
        rw [List.take_append_drop, hdump,
          hexDump_row (List.ne_nil_of_length_pos (by omega)) hfull.le] at happend
        rw [happend]
        simp [joinLines]

/-- `replay -d TARGET FILE` shows the transcript of a file in full, in lines
of 32 bytes, whatever is on `stdin`. It shows nothing, and its code says so,
where the file cannot be read or is larger than what the fuzzer takes. -/
theorem replay_dumps (env : ReplayEnv) (t : TargetName) (program path : List UInt8)
    (ending : StreamEnd) (stdin : List UInt8) :
    (∀ bytes, env.file path = some bytes → bytes.length ≤ inputMax →
      ∃ text rows,
        replayMain env [program, ascii "-d", t.text, path] ending stdin = (text, 0) ∧
        undump text = some (env.fn t bytes) ∧
        RowsOf (env.fn t bytes) rows ∧ text = joinLines (rows.map hexRow)) ∧
    ((∀ bytes, env.file path = some bytes → inputMax < bytes.length) →
      replayMain env [program, ascii "-d", t.text, path] ending stdin = ([], 1)) := by
  have hmain : replayMain env [program, ascii "-d", t.text, path] ending stdin =
      match replayDump env t path with
      | none => ([], 1)
      | some text => (text, 0) := by
    rw [replayMain]
    simp only [if_true, findTarget_text]
  rw [hmain, replayDump, readInput]
  constructor
  · intro bytes hfile hlen
    obtain ⟨rows, hrows, hdump⟩ := hexDump_rows (env.fn t bytes)
    refine ⟨hexDump (env.fn t bytes), rows, ?_, undump_hexDump _, hrows, hdump⟩
    rw [hfile, Option.map_some, List.take_of_length_le (by omega)]
    simp only [if_neg (by omega : ¬ inputMax < bytes.length)]
  · intro hlarge
    cases hfile : env.file path with
    | none => rfl
    | some bytes =>
        have hover : inputMax < (bytes.take (inputMax + 1)).length := by
          have := hlarge bytes hfile
          rw [List.length_take]
          omega
        rw [Option.map_some]
        simp only [if_pos hover]

end Dump

end Diffsecp
