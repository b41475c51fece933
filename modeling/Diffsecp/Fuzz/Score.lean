import Mathlib.Data.List.FinRange
import Mathlib.Data.List.Nodup
import Diffsecp.Fuzz.Mutants
import Diffsecp.Mutants.Parsed
import Diffsecp.Mutants.Written

/-!
# Fuzz — Score

`make mutation-score`: every fuzzer runs its corpus and reports the mutants,
and an awk program keeps the best status of each over all the reports.
-/

namespace Diffsecp

open Interact Text

variable {n : ℕ}

/-! ## awk -/

/-- What separates fields. -/
def awkBlank (c : Char) : Bool := c = ' ' ∨ c = '\t' ∨ c = '\n'

/-- `$i`, for `i` from 1. -/
def awkField (line : Str) (i : ℕ) : Str := (words awkBlank line).getD (i - 1) []

/-- `index(s, t)`. -/
def awkIndex (s t : Str) : ℕ := ((find s t 0).map (· + 1)).getD 0

/-- `substr(s, m)`. -/
def awkSubstr (s : Str) (m : ℕ) : Str := s.drop (m - 1)

/-- The lines of a text, of which the last may lack its end. -/
def awkRecords (text : Str) : List Str :=
  let lines := text.splitOn '\n'
  if lines.getLast? = some [] then lines.dropLast else lines

/-! ## The program -/

/-- Its arrays. -/
structure Score where
  best : Str → Option ℕ
  status : Str → Str
  name : Str → Str

def Score.init : Score := ⟨fun _ => none, fun _ => [], fun _ => []⟩

def scoreRank (status : Str) : ℕ :=
  if status = "killed".toList then 2 else if status = "masked".toList then 1 else 0

/-- The action on each line. -/
def scoreLine (st : Score) (line : Str) : Score :=
  let k := awkField line 2
  let rank := scoreRank (awkField line 3)
  let st := if (st.best k).all (· < rank) then
      { st with
        best := Function.update st.best k (some rank)
        status := Function.update st.status k (awkField line 3) }
    else st
  { st with
    name := Function.update st.name k (awkSubstr line (awkIndex line (awkField line 4))) }

/-- What the loop at the end counts and prints. -/
structure Tally where
  n : ℕ
  count : Str → ℕ
  printed : List Str

def Tally.init : Tally := ⟨0, fun _ => 0, []⟩

/-- One round of that loop. -/
def Tally.add (t : Tally) (status name : Str) : Tally where
  n := t.n + 1
  count := Function.update t.count status (t.count status + 1)
  printed := if status = "killed".toList then t.printed
    else t.printed ++ [status ++ ": ".toList ++ name]

/-- `for (k = 0; k in best; k++)`, from `k` on. -/
def scoreEnd (st : Score) : (fuel k : ℕ) → Tally → Option Tally
  | 0, _, _ => none
  | fuel + 1, k, t =>
      if (st.best (natText k)).isSome then
        scoreEnd st fuel (k + 1) (t.add (st.status (natText k)) (st.name (natText k)))
      else some t

/-- The line the program leaves for the README. -/
def Tally.summary (t : Tally) : Str :=
  "Mutation score: ".toList ++ natText (t.count "killed".toList) ++ " of ".toList ++
    natText t.n ++
    " mutants killed, ".toList ++ natText (t.count "masked".toList) ++
      " masked, ".toList ++
    natText (t.count "missed".toList) ++ " missed.\n".toList

def mutationScore (fuel : ℕ) (text : Str) : Option Tally :=
  scoreEnd ((awkRecords text).foldl scoreLine .init) fuel 0 .init

/-! ## The reports -/

/-- What a fuzzer prints at exit. -/
def reportText (d : Driver n) (st : FuzzState n) : Str :=
  (reportMutants d st).flatMap fun line => line.toList ++ ['\n']

/-- The loop of the recipe over the fuzzers, each with the inputs it runs: it
stops where one fails. -/
def scoreText : List (Driver n × List (List UInt8)) → Except Abort Str
  | [] => .ok []
  | (d, inputs) :: fuzzers => do
      let st ← fuzzAll d inputs (.init n)
      let rest ← scoreText fuzzers
      .ok (reportText d st ++ rest)

/-- A fuzzer linked with the schemata of `records`, run with
`DIFFSECP_MUTANTS=report`. -/
structure ReportFuzzer (records : List Record) where
  driver : Driver records.length
  builds : List (Schemata records.length)
  inputs : List (List UInt8)
  schemata : driver.mutantBuilds = builds.map Schemata.build
  names : ∀ k, (driver.mutantNames k).toList = (records.get k).name
  report : driver.mutantsOff = false

/-! ## One line -/

section Line

variable {i : ℕ} {status w rest : Str}

/-- A line of a report. -/
def reportLine (i : ℕ) (status name : Str) : Str :=
  "mutant".toList ++ ' ' :: (natText i ++ ' ' :: (status ++ ' ' :: name))

theorem reportMutants_lines (d : Driver n) (st : FuzzState n) :
    (reportMutants d st).map String.toList =
      (List.finRange n).map fun k : Fin n =>
        reportLine k (mutantStatus st k).text.toList (d.mutantNames k).toList := by
  rw [reportMutants, List.map_map]
  apply List.map_congr_left
  intro k _
  simp only [Function.comp_apply, String.toList_append, reportLine, List.append_assoc]
  rfl

/-- A word that is one field. -/
def Plain (w : Str) : Prop := w ≠ [] ∧ ∀ c ∈ w, awkBlank c = false

theorem Plain.of_all (hw : w ≠ [])
    (hall : (w.all fun c => !awkBlank c) = true) : Plain w := by
  refine ⟨hw, fun c hc => ?_⟩
  have hc := List.all_eq_true.mp hall c hc
  simpa using hc

theorem words_plain (hw : Plain w) :
    words awkBlank (w ++ ' ' :: rest) = w :: words awkBlank rest := by
  rw [words_word hw.1 hw.2 (fun c hc => by cases hc; rfl), words_sep rfl]

theorem plain_natText (i : ℕ) : Plain (natText i) := by
  constructor
  · rw [natText, Nat.toList_repr]
    exact Nat.toDigits_ne_nil
  · intro c hc
    by_contra hblank
    rw [Bool.not_eq_false, awkBlank, decide_eq_true_eq] at hblank
    rcases hblank with rfl | rfl | rfl
    · exact not_mem_natText rfl i hc
    · exact not_mem_natText rfl i hc
    · exact not_mem_natText rfl i hc

theorem plain_text (s : MutantStatus) : Plain s.text.toList := by
  cases s with
  | missed => exact .of_all (by decide) rfl
  | masked => exact .of_all (by decide) rfl
  | killed => exact .of_all (by decide) rfl

/-- The fields of a line whose name starts with the word `w`. -/
theorem words_reportLine (i : ℕ) (rest : Str) (hstatus : Plain status) (hw : Plain w) :
    words awkBlank (reportLine i status (w ++ ' ' :: rest)) =
      "mutant".toList :: natText i :: status :: w :: words awkBlank rest := by
  have hmutant : Plain "mutant".toList := .of_all (by decide) rfl
  rw [reportLine, words_plain hmutant, words_plain (plain_natText i), words_plain hstatus,
    words_plain hw]

/-- The name is what `substr` finds, as no earlier field has a colon. -/
theorem awkSubstr_reportLine (i : ℕ) (rest : Str) (hstatus : ':' ∉ status) (hw : Plain w)
    (hcolon : ':' ∈ w) :
    awkSubstr (reportLine i status (w ++ ' ' :: rest))
      (awkIndex (reportLine i status (w ++ ' ' :: rest)) w) = w ++ ' ' :: rest := by
  set start := "mutant".toList ++ ' ' :: (natText i ++ ' ' :: status) with hstart
  have hline :
      reportLine i status (w ++ ' ' :: rest) = start ++ ' ' :: (w ++ ' ' :: rest) := by
    simp [reportLine, hstart]
  have hnone : ':' ∉ start := by
    have hdigits := not_mem_natText (c := ':') rfl i
    simp [hstart, hdigits, hstatus]
  rw [hline]
  have hname : (start ++ ' ' :: (w ++ ' ' :: rest)).drop (start.length + 1) =
      w ++ ' ' :: rest := by
    rw [← List.drop_drop, List.drop_left, List.drop_succ_cons, List.drop_zero]
  have hfind :
      find (start ++ ' ' :: (w ++ ' ' :: rest)) w 0 = some (start.length + 1) := by
    refine (find_eq_some hw.1).mpr ⟨Nat.zero_le _, ?_, fun j _ hj hoccurs => ?_⟩
    · rw [Occurs, hname]
      exact List.prefix_append _ _
    · -- an earlier place has the blank inside the word, or the colon before it
      have hdrop : (start ++ ' ' :: (w ++ ' ' :: rest)).drop j =
          (start.drop j ++ [' ']) ++ (w ++ ' ' :: rest) := by
        rw [List.drop_append_of_le_length (by omega), List.append_assoc]
        rfl
      rw [Occurs, hdrop] at hoccurs
      rcases List.prefix_or_prefix_of_prefix hoccurs
        (List.prefix_append _ _) with hshort | hlong
      · have hmem := hshort.subset hcolon
        rw [List.mem_append, List.mem_singleton] at hmem
        rcases hmem with hmem | hmem
        · exact hnone (List.drop_subset _ _ hmem)
        · exact absurd hmem (by decide)
      · have hblank :=
          hw.2 ' ' (hlong.subset (List.mem_append_right _ (List.mem_singleton_self _)))
        cases hblank
  rw [awkIndex, hfind, awkSubstr, Option.map_some, Option.getD_some,
    Nat.add_sub_cancel, hname]

theorem scoreRank_text (s : MutantStatus) : scoreRank s.text.toList = s.rank := by
  cases s with
  | missed => rfl
  | masked => rfl
  | killed => rfl

theorem text_colon (s : MutantStatus) : ':' ∉ s.text.toList := by
  cases s with
  | missed => decide
  | masked => decide
  | killed => decide

end Line

/-! ## All lines -/

/-- The better of what is known of a mutant and one more status. -/
def MutantStatus.raise : Option MutantStatus → MutantStatus → MutantStatus
  | none, s => s
  | some t, s => if t.rank < s.rank then s else t

/-- A name whose first word has a colon. -/
def MutantName (name : Str) : Prop :=
  ∃ w rest, name = w ++ ' ' :: rest ∧ Plain w ∧ ':' ∈ w

/-- The arrays hold the status `f` of each mutant. -/
structure ScoreIs (names : Fin n → Str) (st : Score)
    (f : Fin n → Option MutantStatus) : Prop where
  best (k : Fin n) : st.best (natText k) = (f k).map MutantStatus.rank
  others (i : ℕ) (hi : n ≤ i) : st.best (natText i) = none
  status (k : Fin n) (s : MutantStatus) (hs : f k = some s) :
    st.status (natText k) = s.text.toList
  name (k : Fin n) (s : MutantStatus) (hs : f k = some s) : st.name (natText k) = names k

theorem scoreIs_init (names : Fin n → Str) : ScoreIs names .init fun _ => none where
  best _ := rfl
  others _ _ := rfl
  status _ _ hs := by cases hs
  name _ _ hs := by cases hs

theorem natText_injective {i j : ℕ} (h : natText i = natText j) : i = j := by
  have hdigits : Nat.toDigits 10 i = Nat.toDigits 10 j := by
    rw [← Nat.toList_repr, ← Nat.toList_repr]
    exact h
  have hread := congrArg (Nat.ofDigitChars 10 · 0) hdigits
  simpa using hread

section Lines

variable {names : Fin n → Str} {st : Score} {f : Fin n → Option MutantStatus}

theorem scoreLine_report {name : Str} (hname : MutantName name) (i : ℕ) (s : MutantStatus)
    (st : Score) :
    scoreLine st (reportLine i s.text.toList name) =
      { best := if (st.best (natText i)).all (· < s.rank) then
          Function.update st.best (natText i) (some s.rank) else st.best
        status := if (st.best (natText i)).all (· < s.rank) then
          Function.update st.status (natText i) s.text.toList else st.status
        name := Function.update st.name (natText i) name } := by
  obtain ⟨w, rest, rfl, hw, hcolon⟩ := hname
  have hfields := words_reportLine i rest (plain_text s) hw
  have hsub := awkSubstr_reportLine i rest (text_colon s) hw hcolon
  have h2 : awkField (reportLine i s.text.toList (w ++ ' ' :: rest)) 2 = natText i := by
    rw [awkField, hfields]
    rfl
  have h3 : awkField (reportLine i s.text.toList (w ++ ' ' :: rest)) 3 =
      s.text.toList := by
    rw [awkField, hfields]
    rfl
  have h4 : awkField (reportLine i s.text.toList (w ++ ' ' :: rest)) 4 = w := by
    rw [awkField, hfields]
    rfl
  rw [scoreLine, h2, h3, h4, hsub, scoreRank_text]
  by_cases hbetter : (st.best (natText i)).all (· < s.rank) = true
  · simp only [hbetter, if_true]
  · simp only [if_neg hbetter]

/-- A status replaces what it is better than. -/
theorem MutantStatus.raise_cases (b : Option MutantStatus) (s : MutantStatus) :
    ((b.map MutantStatus.rank).all (· < s.rank) = true ∧ raise b s = s) ∨
      ((b.map MutantStatus.rank).all (· < s.rank) = false ∧ b = some (raise b s)) := by
  cases b with
  | none => exact .inl ⟨rfl, rfl⟩
  | some t =>
      by_cases hlt : t.rank < s.rank
      · exact .inl ⟨decide_eq_true hlt, if_pos hlt⟩
      · exact .inr ⟨decide_eq_false hlt, congrArg some (if_neg hlt).symm⟩

/-- One line raises one mutant. -/
theorem ScoreIs.line (h : ScoreIs names st f) (k : Fin n) (hname : MutantName (names k))
    (s : MutantStatus) :
    ScoreIs names (scoreLine st (reportLine k s.text.toList (names k)))
      (Function.update f k (some (MutantStatus.raise (f k) s))) := by
  have hne : ∀ j, j ≠ k → natText j ≠ natText k := fun j hj heq =>
    hj (Fin.ext (natText_injective heq))
  have hnew : ∀ i, n ≤ i → natText i ≠ natText k := by
    intro i hi heq
    have hik := natText_injective heq
    omega
  rw [scoreLine_report hname, h.best]
  rcases MutantStatus.raise_cases (f k) s with ⟨hbetter, hraise⟩ | ⟨hbetter, hraise⟩
  · rw [hbetter, hraise]
    constructor
    · intro j
      by_cases hj : j = k
      · simp [hj]
      · simp [hj, hne j hj, h.best]
    · intro i hi
      simp [hnew i hi, h.others i hi]
    · intro j t hj
      by_cases hjk : j = k
      · subst hjk
        simp_all
      · simp [hne j hjk, h.status j t (by simpa [hjk] using hj)]
    · intro j t hj
      by_cases hjk : j = k
      · simp [hjk]
      · simp [hne j hjk, h.name j t (by simpa [hjk] using hj)]
  · rw [hbetter, ← hraise, Function.update_eq_self]
    refine ⟨h.best, h.others, h.status, fun j t hj => ?_⟩
    by_cases hjk : j = k
    · simp [hjk]
    · simp [hne j hjk, h.name j t hj]

/-- The lines of distinct mutants raise each of these. -/
theorem ScoreIs.lines (h : ScoreIs names st f) (hnames : ∀ k, MutantName (names k))
    (s : Fin n → MutantStatus) {ks : List (Fin n)} (hks : ks.Nodup) :
    ScoreIs names ((ks.map fun k : Fin n =>
      reportLine k (s k).text.toList (names k)).foldl scoreLine st)
      fun k => if k ∈ ks then some (MutantStatus.raise (f k) (s k)) else f k := by
  induction ks generalizing st f with
  | nil => simpa using h
  | cons k ks ih =>
      obtain ⟨hk, hks⟩ := List.nodup_cons.mp hks
      have hrest := ih (h.line k (hnames k) (s k)) hks
      rw [List.map_cons, List.foldl_cons]
      convert hrest using 2 with j
      by_cases hj : j = k
      · simp [hj, hk]
      · simp [hj]

end Lines

/-- The text of some lines is read back as these. -/
theorem awkRecords_lines {lines : List Str} (h : ∀ l ∈ lines, '\n' ∉ l) :
    awkRecords (lines.flatMap (· ++ ['\n'])) = lines := by
  have hsplit : (lines.flatMap (· ++ ['\n'])).splitOn '\n' = lines ++ [[]] := by
    induction lines with
    | nil => simp [List.splitOn]
    | cons l lines ih =>
        have hl : ∀ c ∈ l, (c == '\n') = false := by
          intro c hc
          have hne : c ≠ '\n' := fun heq => h l List.mem_cons_self (heq ▸ hc)
          simpa using hne
        have hrest := ih fun l' hl' => h l' (List.mem_cons_of_mem _ hl')
        rw [List.splitOn] at hrest ⊢
        rw [List.flatMap_cons, List.append_assoc, List.singleton_append,
          List.splitOnP_append_cons_of_forall_mem hl '\n' rfl, hrest]
        rfl
  rw [awkRecords, hsplit]
  simp

/-! ## The loop at the end -/

section End

variable {names : Fin n → Str} {st : Score} {status : Fin n → MutantStatus}

/-- One round, of mutant `k`. -/
def Tally.round (names : Fin n → Str) (status : Fin n → MutantStatus) (t : Tally)
    (k : Fin n) : Tally :=
  t.add (status k).text.toList (names k)

theorem scoreEnd_eq (h : ScoreIs names st fun k => some (status k)) {fuel i : ℕ}
    (hi : i ≤ n) (hfuel : n < fuel + i) (t : Tally) :
    scoreEnd st fuel i t =
      some (((List.finRange n).drop i).foldl (Tally.round names status) t) := by
  induction fuel generalizing i t with
  | zero => omega
  | succ fuel ih =>
      rcases Nat.lt_or_eq_of_le hi with hlt | rfl
      · have hlen : i < (List.finRange n).length := by rwa [List.length_finRange]
        have hbest := h.best ⟨i, hlt⟩
        have hstatus := h.status ⟨i, hlt⟩ _ rfl
        have hname := h.name ⟨i, hlt⟩ _ rfl
        rw [scoreEnd, if_pos (by rw [hbest]; rfl), hstatus, hname,
          List.drop_eq_getElem_cons hlen, List.foldl_cons, List.getElem_finRange]
        exact ih hlt (by omega) _
      · have hnone := h.others i le_rfl
        rw [scoreEnd, if_neg (by rw [hnone]; exact Bool.false_ne_true),
          List.drop_eq_nil_of_le (by simp)]
        rfl

theorem MutantStatus.text_injective {s t : MutantStatus}
    (h : s.text.toList = t.text.toList) : s = t := by
  have hrank : s.rank = t.rank := by rw [← scoreRank_text, ← scoreRank_text, h]
  cases s <;> cases t <;> first | rfl | cases hrank

theorem round_count (t : Tally) (k : Fin n) (s : MutantStatus) :
    (t.round names status k).count s.text.toList =
      t.count s.text.toList + if status k = s then 1 else 0 := by
  rw [Tally.round, Tally.add]
  by_cases hs : status k = s
  · subst hs
    rw [if_pos rfl]
    exact Function.update_self ..
  · rw [if_neg hs]
    exact Function.update_of_ne (fun heq => hs (MutantStatus.text_injective heq).symm) ..

theorem round_printed (t : Tally) (k : Fin n) :
    (t.round names status k).printed = t.printed ++
      if status k = .killed then []
          else [(status k).text.toList ++ ": ".toList ++ names k] := by
  rw [Tally.round, Tally.add]
  by_cases hk : status k = .killed
  · rw [if_pos hk, List.append_nil]
    exact if_pos (congrArg (fun s : MutantStatus => s.text.toList) hk)
  · rw [if_neg hk]
    exact if_neg fun heq => hk (MutantStatus.text_injective (t := .killed) heq)

/-- What the loop counts and prints. -/
theorem foldl_round (names : Fin n → Str) (status : Fin n → MutantStatus)
    (ks : List (Fin n)) (t : Tally) :
    (ks.foldl (Tally.round names status) t).n = t.n + ks.length ∧
      (∀ s : MutantStatus, (ks.foldl (Tally.round names status) t).count s.text.toList =
        t.count s.text.toList + ks.countP fun k => status k = s) ∧
      (ks.foldl (Tally.round names status) t).printed = t.printed ++
        ((ks.filter fun k => status k ≠ .killed).map fun k =>
          (status k).text.toList ++ ": ".toList ++ names k) := by
  induction ks generalizing t with
  | nil => simp
  | cons k ks ih =>
      obtain ⟨hn, hcount, hprinted⟩ := ih (t.round names status k)
      rw [List.foldl_cons]
      refine ⟨?_, fun s => ?_, ?_⟩
      · have hround : (t.round names status k).n = t.n + 1 := rfl
        rw [hn, hround, List.length_cons]
        omega
      · rw [hcount, round_count, List.countP_cons]
        simp only [decide_eq_true_eq]
        omega
      · rw [hprinted, round_printed]
        by_cases hk : status k = .killed
        · simp [hk]
        · simp [hk]

end End

/-! ## All reports -/

section Reports

variable {names : Fin n → Str} {st : Score} {f : Fin n → Option MutantStatus}

/-- The lines of a report. -/
def reportLines (names : Fin n → Str) (s : Fin n → MutantStatus) : List Str :=
  (List.finRange n).map fun k : Fin n => reportLine k (s k).text.toList (names k)

theorem reportLines_newline (hnames : ∀ k, '\n' ∉ names k)
    (ss : List (Fin n → MutantStatus)) :
    ∀ l ∈ ss.flatMap (reportLines names), '\n' ∉ l := by
  intro l hl
  obtain ⟨s, -, hl⟩ := List.mem_flatMap.mp hl
  obtain ⟨k, -, rfl⟩ := List.mem_map.mp hl
  have hdigits := not_mem_natText (c := '\n') rfl k
  have hstatus : '\n' ∉ (s k).text.toList :=
    fun hmem => absurd ((plain_text (s k)).2 _ hmem) (by decide)
  simp only [reportLine, List.mem_append, List.mem_cons, not_or]
  exact ⟨by decide, by decide, hdigits, by decide, hstatus, by decide, hnames k⟩

/-- The reports one after the other keep the best status. -/
theorem ScoreIs.reports (h : ScoreIs names st f) (hnames : ∀ k, MutantName (names k))
    (ss : List (Fin n → MutantStatus)) :
    ScoreIs names ((ss.flatMap (reportLines names)).foldl scoreLine st)
      fun k => (ss.map (· k)).foldl (fun b s => some (MutantStatus.raise b s)) (f k) := by
  induction ss generalizing st f with
  | nil => exact h
  | cons s ss ih =>
      have hone := h.lines hnames s (List.nodup_finRange n)
      simp only [List.mem_finRange, if_true] at hone
      rw [List.flatMap_cons, List.foldl_append]
      exact ih hone

/-- The better of two is one of them. -/
theorem MutantStatus.raise_spec (b : Option MutantStatus) (s : MutantStatus) :
    s.rank ≤ (raise b s).rank ∧ (∀ t ∈ b, t.rank ≤ (raise b s).rank) ∧
      (raise b s = s ∨ b = some (raise b s)) := by
  cases b with
  | none =>
      refine ⟨le_rfl, ?_, .inl rfl⟩
      rintro t ⟨⟩
  | some t =>
      by_cases hlt : t.rank < s.rank
      · rw [raise, if_pos hlt]
        refine ⟨le_rfl, ?_, .inl rfl⟩
        rintro t' ⟨⟩
        exact hlt.le
      · rw [raise, if_neg hlt]
        refine ⟨not_lt.mp hlt, ?_, .inr rfl⟩
        rintro t' ⟨⟩
        exact le_rfl

/-- It is one of the statuses, and none is better. -/
theorem foldl_raise (ss : List MutantStatus) (b : Option MutantStatus)
    (hne : b = none → ss ≠ []) :
    ∃ s, ss.foldl (fun b s => some (MutantStatus.raise b s)) b = some s ∧
      (s ∈ ss ∨ b = some s) ∧ (∀ t ∈ ss, t.rank ≤ s.rank) ∧ ∀ t ∈ b, t.rank ≤ s.rank := by
  induction ss generalizing b with
  | nil =>
      cases b with
      | none => exact absurd rfl (hne rfl)
      | some s => exact ⟨s, rfl, .inr rfl, List.forall_mem_nil _,
            fun t ht => by cases ht; exact le_rfl⟩
  | cons a ss ih =>
      obtain ⟨s, hs, hmem, hle, hraise⟩ :=
        ih (some (MutantStatus.raise b a)) (fun h => by cases h)
      have hraise := hraise _ rfl
      obtain ⟨ha, hb, hone⟩ := MutantStatus.raise_spec b a
      refine ⟨s, hs, ?_, ?_, fun t ht => (hb t ht).trans hraise⟩
      · rcases hmem with hmem | hmem
        · exact .inl (List.mem_cons_of_mem _ hmem)
        · obtain rfl := Option.some.inj hmem
          rcases hone with hone | hone
          · rw [hone]
            exact .inl List.mem_cons_self
          · exact .inr hone
      · intro t ht
        rcases List.mem_cons.mp ht with rfl | ht
        · exact ha.trans hraise
        · exact hle t ht

end Reports

section Fuzzers

variable {cls : CharClasses} {records : List Record}
  {fuzzers : List (ReportFuzzer records)} {text : Str}

def ReportFuzzer.run (f : ReportFuzzer records) :
    Driver records.length × List (List UInt8) := (f.driver, f.inputs)

/-- The recipe goes through when no fuzzer fails. -/
theorem scoreText_eq (h : scoreText (fuzzers.map ReportFuzzer.run) = .ok text) :
    ∃ sts, List.Forall₂ (fun f st => fuzzAll f.driver f.inputs (.init records.length) =
      .ok st) fuzzers sts ∧
      text = (sts.flatMap fun st =>
        reportLines (fun k => (records.get k).name) (mutantStatus st)).flatMap
        (· ++ ['\n']) := by
  induction fuzzers generalizing text with
  | nil =>
      cases h
      exact ⟨[], .nil, rfl⟩
  | cons f fuzzers ih =>
      rw [List.map_cons, ReportFuzzer.run, scoreText] at h
      cases hst : fuzzAll f.driver f.inputs (.init records.length) with
      | error a =>
          rw [hst] at h
          cases h
      | ok st =>
          rw [hst] at h
          cases hrest : scoreText (fuzzers.map ReportFuzzer.run) with
          | error a =>
              simp only [bind, Except.bind, hrest] at h
              cases h
          | ok rest =>
              simp only [bind, Except.bind, hrest] at h
              obtain rfl := Except.ok.inj h
              obtain ⟨sts, hsts, rfl⟩ := ih hrest
              refine ⟨st :: sts, .cons hst hsts, ?_⟩
              have hlines : (reportMutants f.driver st).map String.toList =
                  reportLines (fun k => (records.get k).name) (mutantStatus st) := by
                rw [reportMutants_lines, reportLines]
                simp only [f.names]
              rw [List.flatMap_cons, List.flatMap_append, reportText, ← hlines,
                List.flatMap_map]

/-- The name of a mutant starts with the word that `substr` looks for. -/
theorem mutantName_of_parse {list : Str}
    (hblank : ∀ c, awkBlank c = true → cls.space c = true)
    (hparse : parse cls list = .ok records) (k : Fin records.length) :
    MutantName (records.get k).name ∧ '\n' ∉ (records.get k).name := by
  obtain ⟨⟨hpath, -, hpathc⟩, ⟨-, hfunction⟩, hexprs⟩ :=
    parse_valid hparse (List.get_mem records k)
  set r := records.get k
  have hplain : ∀ c, cls.space c = false → awkBlank c = false := by
    intro c hc
    by_contra hnot
    rw [Bool.not_eq_false] at hnot
    rw [hblank c hnot] at hc
    cases hc
  have hnl : ∀ {w : Str}, (∀ c ∈ w, cls.space c = false) → '\n' ∉ w := by
    intro w hw hmem
    have hspace := hw _ hmem
    rw [cls.space_newline] at hspace
    cases hspace
  have horiginal := (hexprs r.original (by simp)).2.2
  have hmutated := (hexprs r.mutated (by simp)).2.2
  constructor
  · refine ⟨r.path ++ ':' :: (r.function ++ [':']),
      r.original ++ " -> ".toList ++ r.mutated, ?_, ⟨?_, ?_⟩, ?_⟩
    · simp [Record.name]
    · simp
    · intro c hc
      simp only [List.mem_append, List.mem_cons, List.not_mem_nil, or_false] at hc
      rcases hc with hc | rfl | hc | rfl
      · exact hplain c (hpathc c hc)
      · rfl
      · exact hplain c (hfunction c hc)
      · rfl
    · simp
  · have hp := hnl hpathc
    have hf := hnl hfunction
    simp [Record.name, hp, hf, horiginal, hmutated]

/-- Each fuzzer has a run, and each run a fuzzer. -/
theorem runs_paired {sts : List (FuzzState records.length)}
    (hsts : List.Forall₂ (fun f st => fuzzAll f.driver f.inputs (.init records.length) =
      .ok st) fuzzers sts) :
    (∀ f ∈ fuzzers, ∃ st ∈ sts,
      fuzzAll f.driver f.inputs (.init records.length) = .ok st) ∧
      ∀ st ∈ sts, ∃ f ∈ fuzzers,
        fuzzAll f.driver f.inputs (.init records.length) = .ok st := by
  induction hsts with
  | nil => exact ⟨List.forall_mem_nil _, List.forall_mem_nil _⟩
  | cons hrun _ ih =>
      obtain ⟨hleft, hright⟩ := ih
      constructor
      · intro f hf
        rcases List.mem_cons.mp hf with rfl | hf
        · exact ⟨_, List.mem_cons_self, hrun⟩
        · obtain ⟨st, hst, hrun⟩ := hleft f hf
          exact ⟨st, List.mem_cons_of_mem _ hst, hrun⟩
      · intro st hst
        rcases List.mem_cons.mp hst with rfl | hst
        · exact ⟨_, List.mem_cons_self, hrun⟩
        · obtain ⟨f, hf, hrun⟩ := hright st hst
          exact ⟨f, List.mem_cons_of_mem _ hf, hrun⟩

/-- The best status over the runs of all fuzzers, by exhaustive testing. -/
theorem best_status {sts : List (FuzzState records.length)}
    (hsts : List.Forall₂
      (fun f st => fuzzAll f.driver f.inputs (.init records.length) = .ok st) fuzzers sts)
    (k : Fin records.length) {s : MutantStatus} (hmem : ∃ st ∈ sts, mutantStatus st k = s)
    (hbest : ∀ st ∈ sts, (mutantStatus st k).rank ≤ s.rank) :
    (s = .killed ↔ ∃ f ∈ fuzzers, f.driver.Killed f.builds f.inputs k) ∧
      (s = .masked ↔ (¬ ∃ f ∈ fuzzers, f.driver.Killed f.builds f.inputs k) ∧
        ∃ f ∈ fuzzers, Triggered f.builds f.inputs k) := by
  obtain ⟨hleft, hright⟩ := runs_paired hsts
  have hkilled : s = .killed ↔ ∃ f ∈ fuzzers, f.driver.Killed f.builds f.inputs k := by
    constructor
    · rintro rfl
      obtain ⟨st, hst, hs⟩ := hmem
      obtain ⟨f, hf, hrun⟩ := hright st hst
      exact ⟨f, hf, (fuzzAll_status f.schemata f.report hrun k).1.mp hs⟩
    · rintro ⟨f, hf, hk⟩
      obtain ⟨st, hst, hrun⟩ := hleft f hf
      have hrank := hbest st hst
      rw [(fuzzAll_status f.schemata f.report hrun k).1.mpr hk] at hrank
      cases s <;> first | rfl | exact absurd hrank (by decide)
  refine ⟨hkilled, ?_⟩
  rw [← hkilled]
  constructor
  · rintro rfl
    obtain ⟨st, hst, hs⟩ := hmem
    obtain ⟨f, hf, hrun⟩ := hright st hst
    exact ⟨by decide, f, hf, ((fuzzAll_status f.schemata f.report hrun k).2.1.mp hs).2⟩
  · rintro ⟨hnot, f, hf, htriggered⟩
    obtain ⟨st, hst, hrun⟩ := hleft f hf
    have halive : ¬ f.driver.Killed f.builds f.inputs k :=
      fun hk => hnot (hkilled.mpr ⟨f, hf, hk⟩)
    have hrank := hbest st hst
    rw [(fuzzAll_status f.schemata f.report hrun k).2.1.mpr ⟨halive, htriggered⟩] at hrank
    cases s <;> first | rfl | exact absurd rfl hnot | exact absurd hrank (by decide)

end Fuzzers

/-- For any fuzzers linked with the mutants of a list that `gen.py` reads, and
whatever inputs they run: a mutant counts as killed when exhaustive testing of
some fuzzer kills it, as masked when none kills it and some triggers it, and
else as missed; each mutant that is not killed is printed once, in order and
under its own name, and the summary counts them all. -/
theorem mutationScore_counts (cls : CharClasses)
    (hblank : ∀ c, awkBlank c = true → cls.space c = true) {list : Str}
    {records : List Record} (hparse : parse cls list = .ok records)
    (fuzzers : List (ReportFuzzer records)) (hne : fuzzers ≠ []) {text : Str}
    (htext : scoreText (fuzzers.map ReportFuzzer.run) = .ok text) (fuel : ℕ)
    (hfuel : records.length < fuel) :
    ∃ (t : Tally) (status : Fin records.length → MutantStatus),
      mutationScore fuel text = some t ∧
      (∀ k, (status k = .killed ↔ ∃ f ∈ fuzzers, f.driver.Killed f.builds f.inputs k) ∧
        (status k = .masked ↔ (¬ ∃ f ∈ fuzzers, f.driver.Killed f.builds f.inputs k) ∧
          ∃ f ∈ fuzzers, Triggered f.builds f.inputs k)) ∧
      t.printed = ((List.finRange records.length).filter fun k => status k ≠ .killed).map
        (fun k => (status k).text.toList ++ ": ".toList ++ (records.get k).name) ∧
      t.summary = "Mutation score: ".toList ++
        natText ((List.finRange _).countP fun k => status k = .killed) ++
        " of ".toList ++ natText records.length ++ " mutants killed, ".toList ++
        natText ((List.finRange _).countP fun k => status k = .masked) ++
          " masked, ".toList ++
        natText ((List.finRange _).countP fun k => status k = .missed) ++
          " missed.\n".toList := by
  obtain ⟨sts, hsts, rfl⟩ := scoreText_eq htext
  have hnames := mutantName_of_parse hblank hparse
  have hstsne : sts ≠ [] := by
    rintro rfl
    cases hsts
    exact hne rfl
  choose status hstatus hmem hbest using fun k : Fin records.length =>
    foldl_raise ((sts.map mutantStatus).map (· k)) none fun _ => by simpa using hstsne
  set names : Fin records.length → Str := fun k => (records.get k).name
  have hscore :=
    (scoreIs_init names).reports (fun k => (hnames k).1) (sts.map mutantStatus)
  simp only [hstatus] at hscore
  have hend := scoreEnd_eq hscore (Nat.zero_le _) hfuel .init
  rw [List.drop_zero] at hend
  have hrecords : awkRecords ((sts.flatMap fun st =>
    reportLines names (mutantStatus st)).flatMap (· ++ ['\n'])) =
      (sts.map mutantStatus).flatMap (reportLines names) := by
    rw [← awkRecords_lines (reportLines_newline (fun k => (hnames k).2) _),
      List.flatMap_map]
  obtain ⟨hn, hcount, hprinted⟩ :=
    foldl_round names status (List.finRange records.length) .init
  generalize (List.finRange records.length).foldl (Tally.round names status) .init =
    t at hend hn hcount hprinted
  have htally : mutationScore fuel
      ((sts.flatMap fun st => reportLines names (mutantStatus st)).flatMap
        (· ++ ['\n'])) = some t := by
    rw [mutationScore, hrecords]
    exact hend
  refine ⟨t, status, htally, fun k => best_status hsts k ?_ ?_,
    hprinted.trans (List.nil_append _), ?_⟩
  · obtain ⟨s, hs, heq⟩ := List.mem_map.mp ((hmem k).resolve_right nofun)
    obtain ⟨st, hst, rfl⟩ := List.mem_map.mp hs
    exact ⟨st, hst, heq⟩
  · intro st hst
    exact (hbest k).1 _ (List.mem_map.mpr ⟨mutantStatus st, List.mem_map_of_mem hst, rfl⟩)
  · have hkilled : t.count "killed".toList = (List.finRange _).countP fun k =>
        status k = .killed :=
      (hcount .killed).trans (Nat.zero_add _)
    have hmasked : t.count "masked".toList = (List.finRange _).countP fun k =>
        status k = .masked :=
      (hcount .masked).trans (Nat.zero_add _)
    have hmissed : t.count "missed".toList = (List.finRange _).countP fun k =>
        status k = .missed :=
      (hcount .missed).trans (Nat.zero_add _)
    rw [List.length_finRange, Tally.init, Nat.zero_add] at hn
    unfold Tally.summary
    simp only [hn, hkilled, hmasked, hmissed]

/-- A build with one mutant, which shows where the first byte is not zero. -/
def scoreSchemata : Schemata 1 where
  name := "mutants"
  prog inp := do
    let b ← Prog.invoke (.mutate (Fin.last 0) (inp.getD 0 0) 0)
    Prog.emit [b]
    pure true

def scoreFuzzer (inputs : List (List UInt8)) :
    ReportFuzzer [loneRecord "src/f.c".toList] where
  driver :=
    { target := "sample"
      reference := ⟨"reference", fun inp => some [inp.getD 0 0]⟩
      others := []
      mutantBuilds := [scoreSchemata.build]
      mutantNames := fun k => String.ofList ([loneRecord "src/f.c".toList].get k).name
      mutantsOff := false }
  builds := [scoreSchemata]
  inputs := inputs
  schemata := rfl
  names _ := String.toList_ofList
  report := rfl

/-- The mutant that the first fuzzer misses and the second kills is killed. -/
theorem mutationScore_counts_sample :
    ∃ text t, scoreText ([scoreFuzzer [[0]], scoreFuzzer [[0], [5]]].map
      ReportFuzzer.run) = .ok text ∧ mutationScore 2 text = some t ∧ t.printed = [] ∧
      t.summary =
        "Mutation score: 1 of 1 mutants killed, 0 masked, 0 missed.\n".toList := by
  have hparse : parse asciiClasses "src/f.c f\n  a == 2\n  a == 3\n".toList =
      .ok [loneRecord "src/f.c".toList] :=
    ok_of_toOption (by decide +kernel)
  have hblank : ∀ c, awkBlank c = true → asciiClasses.space c = true := by
    intro c hc
    rw [awkBlank, decide_eq_true_eq] at hc
    rcases hc with rfl | rfl | rfl <;> rfl
  have hruns : (scoreText
    ([scoreFuzzer [[0]], scoreFuzzer [[0], [5]]].map ReportFuzzer.run)).toOption.isSome =
      true := by decide +kernel
  obtain ⟨text, htext⟩ := Option.isSome_iff_exists.mp hruns
  have htext := ok_of_toOption htext
  obtain ⟨t, status, ht, hstatus, hprinted, hsummary⟩ :=
    mutationScore_counts asciiClasses hblank hparse
    [scoreFuzzer [[0]], scoreFuzzer [[0], [5]]] (List.cons_ne_nil _ _) htext 2 (by decide)
  have hkills : ∀ k, scoreSchemata.Kills [5] k [5] := by
    intro k
    obtain rfl : k = 0 := Subsingleton.elim ..
    exact ⟨⟨[0], false, fun _ => false⟩, rfl, .inr (by decide)⟩
  have hkilled : ∀ k, status k = .killed := by
    intro k
    refine (hstatus k).1.mpr ⟨_, List.mem_cons_of_mem _ (List.mem_singleton_self _), [5],
      ?_, by decide, ?_⟩
    · exact List.mem_cons_of_mem _ (List.mem_singleton_self _)
    · exact ⟨scoreSchemata, List.mem_singleton_self _, hkills k⟩
  refine ⟨text, t, htext, ht, ?_, ?_⟩
  · rw [hprinted]
    simp [hkilled]
  · rw [hsummary]
    simp only [hkilled]
    decide +kernel

end Diffsecp
