import Mathlib.Data.Fintype.BigOperators
import Mathlib.Tactic.Linarith
import Diffsecp.Oracle.Agreement

/-!
# Oracle — Progress

No call waits for ever: while one is going on, some step changes the system,
whether or not processes have died, and there is an end to such steps.
-/

namespace Diffsecp

open Interact

variable {n : ℕ} {cfg : Oracles n}

/-! ## The work left -/

/-- A bound on what one answer costs beyond reading the file: it is printed,
written out and read. -/
def answerWork : ℕ := 2 * lineMax + 4

/-- What serving one request costs a process, for a file of `size` bytes. -/
def serveWork (size : ℕ) : ℕ := size + answerWork

def ReplayPhase.work (size : ℕ) : ReplayPhase → ℕ
  | .fgets => 1
  | .fread got => size - got.length + answerWork
  | .fflush left => 2 * left.length + 2
  | .ended => 0

/-- A byte of a request moves twice before it is read, and could open the
file. -/
def OracleState.work (size : ℕ) (o : OracleState) : ℕ :=
  2 * serveWork size * o.requests.length + serveWork size * o.stdin.length +
    o.phase.work size + o.answers.length

/-- What sending a request of `length` bytes to one oracle costs. -/
def sendWork (size length : ℕ) : ℕ := 3 * serveWork size * length + 1

def FuzzerPhase.work (size length : ℕ) : FuzzerPhase n → ℕ
  | .idle => 0
  | .fwrite _ left => left.length + (n + 1) * sendWork size length + n + 3
  | .sending _ i left =>
      3 * serveWork size * left.length + (n - i) * sendWork size length + n + 2
  | .reading _ i _ => n - i + 1
  | .exited _ => 0

/-- The size of the file the call going on writes. -/
def FuzzerPhase.size (f : FuzzerPhase n) : ℕ := (f.current.map (·.input.length)).sum

/-- A bound on the steps of a call that change anything, for an input of `size`
bytes. -/
def OracleSystem.work (cfg : Oracles n) (size : ℕ) (s : OracleSystem n) : ℕ :=
  ∑ i, (s.oracle i).work size + s.fuzzer.work size cfg.path.request.length

/-- `oracle_check` has been called and has neither returned nor exited. -/
def OracleSystem.InCall (s : OracleSystem n) : Prop :=
  match s.fuzzer with
  | .idle => False
  | .exited _ => False
  | _ => True

/-! ## Steps of a process -/

section Replay

variable {size : ℕ} {file : List UInt8} {i : Fin n} {o o' : OracleState}

theorem serveWork_pos (size : ℕ) : 0 < serveWork size := by
  rw [serveWork, answerWork]
  omega

theorem serve_length (cfg : Oracles n) (i : Fin n) (got : List UInt8) :
    (cfg.serve i got).line.length + 1 < lineMax := replayLine_fits _ _ cfg.path _

/-- A line takes a byte of `stdin` at least. -/
theorem afterLine_length {stdin : List UInt8} (h : gotLine stdin) :
    (afterLine stdin).length + 1 ≤ stdin.length := by
  have hne : stdin ≠ [] := by
    rintro rfl
    exact absurd h (by decide)
  have hpos := List.length_pos_of_ne_nil hne
  have hle := (List.dropWhile_suffix (· ≠ newline) (l := stdin)).length_le
  rw [afterLine, List.length_drop]
  omega

/-- The state a line leads to is to read the file at most. -/
theorem opens_work (cfg : Oracles n) (size : ℕ) (stdin : List UInt8) :
    (cfg.opens stdin).work size ≤ serveWork size := by
  unfold Oracles.opens
  dsimp only
  split
  · exact Nat.zero_le _
  · split
    · exact serveWork_pos size
    · split
      · exact le_rfl
      · exact Nat.zero_le _

theorem ReplayStep.work_lt (hstep : ReplayStep cfg file i o o')
    (hfile : file.length ≤ size) (hne : o' ≠ o) :
    o'.work size < o.work size := by
  have hpos := serveWork_pos size
  cases hstep with
  | fill m hphase hline =>
      have hmoved : 0 < min m o.requests.length := by
        by_contra hzero
        apply hne
        rcases Nat.min_eq_zero_iff.mp
          (by omega : min m o.requests.length = 0) with rfl | hnil
        · simp [OracleState.fill]
        · rw [List.length_eq_zero_iff] at hnil
          simp [OracleState.fill, hnil]
          rw [← hnil]
      simp only [OracleState.work, OracleState.fill, List.length_append, List.length_take,
        List.length_drop]
      obtain ⟨d, hd⟩ := Nat.exists_eq_add_of_le (Nat.min_le_right m o.requests.length)
      have hdrop : o.requests.length - m = d := by omega
      rw [hdrop]
      generalize min m o.requests.length = moved at hmoved hd ⊢
      rw [hd]
      nlinarith
  | line hphase hline =>
      have hshort := afterLine_length hline
      have hopens := opens_work cfg size o.stdin
      have htaken := Nat.mul_le_mul_left (serveWork size) hshort
      rw [Nat.mul_add, Nat.mul_one] at htaken
      have hbefore : o.phase.work size = 1 := by
        rw [hphase]
        rfl
      simp only [OracleState.work]
      omega
  | @read got m hphase =>
      have hmore : 0 <
          ((file.drop got.length).take (min m (inputMax + 1 - got.length))).length := by
        apply List.length_pos_of_ne_nil
        intro hnil
        apply hne
        rw [OracleState.read, hnil, List.append_nil, ← hphase]
      have hroom : got.length < file.length := by
        rw [List.length_take, List.length_drop] at hmore
        omega
      simp only [OracleState.work, OracleState.read, hphase, ReplayPhase.work,
        List.length_append]
      omega
  | @print got hphase hend =>
      have hfits := serve_length cfg i got
      simp only [OracleState.work, OracleState.print, hphase, ReplayPhase.work,
        List.length_append, List.length_singleton, answerWork]
      omega
  | @flush left m hphase =>
      have hmoved : 0 < min m left.length := by
        by_contra hzero
        apply hne
        rcases Nat.min_eq_zero_iff.mp (by omega : min m left.length = 0) with rfl | hnil
        · simp [OracleState.flush, ← hphase]
        · rw [List.length_eq_zero_iff] at hnil
          simp [OracleState.flush, hnil] at hphase ⊢
          rw [← hphase]
      simp only [OracleState.work, OracleState.flush, hphase, ReplayPhase.work,
        List.length_append, List.length_take, List.length_drop]
      omega
  | flushed hphase =>
      simp only [OracleState.work, hphase, ReplayPhase.work, List.length_nil]
      omega
  | die =>
      have halive : o.phase ≠ .ended := by
        intro hphase
        apply hne
        rw [← hphase]
      have hwork : 0 < o.phase.work size := by
        cases hphase : o.phase with
        | ended => exact absurd hphase halive
        | fgets => exact Nat.one_pos
        | fread got => exact Nat.lt_of_lt_of_le (by decide) (Nat.le_add_left _ _)
        | fflush left => exact Nat.succ_pos _
      simp only [OracleState.work]
      rw [show ReplayPhase.work size .ended = 0 from rfl]
      omega

end Replay

/-! ## Steps of the system -/

section Steps

variable {s s' : OracleSystem n}

/-- A step that moves oracle `i` and the fuzzer. -/
theorem work_setOracle_lt {size : ℕ} {i : Fin n} {o : OracleState} {f : FuzzerPhase n}
    (h : o.work size + f.work size cfg.path.request.length <
      (s.oracle i).work size + s.fuzzer.work size cfg.path.request.length) :
    ({ s.setOracle i o with fuzzer := f } : OracleSystem n).work cfg size <
      s.work cfg size := by
  have hsum : ∑ j, ((s.setOracle i o).oracle j).work size
      = ∑ j, Function.update (fun j => (s.oracle j).work size) i (o.work size) j := by
    apply Finset.sum_congr rfl
    intro j _
    exact Function.apply_update (fun _ o => OracleState.work size o) s.oracle i o j
  rw [Finset.sum_update_of_mem (Finset.mem_univ i),
    Finset.sdiff_singleton_eq_erase] at hsum
  have hold :=
    Finset.add_sum_erase Finset.univ (fun j => (s.oracle j).work size) (Finset.mem_univ i)
  simp only [OracleSystem.work]
  omega

/-- A step of the fuzzer alone. -/
theorem work_fuzzer_lt {size : ℕ} {file : List UInt8} {f : FuzzerPhase n}
    {calls : List (Call n)} (h : f.work size cfg.path.request.length <
      s.fuzzer.work size cfg.path.request.length) :
    (⟨file, s.oracle, f, calls⟩ : OracleSystem n).work cfg size < s.work cfg size :=
      Nat.add_lt_add_left h _

/-- While a call goes on, the file is no larger than its input. -/
theorem Paired.file_length (h : Paired cfg s) (hcall : s.InCall) :
    s.file.length ≤ s.fuzzer.size := by
  have hgood := h.good
  unfold OracleSystem.InCall at hcall
  cases hf : s.fuzzer with
  | idle =>
      rw [hf] at hcall
      exact hcall.elim
  | exited c =>
      rw [hf] at hcall
      exact hcall.elim
  | fwrite c left =>
      rw [hf] at hgood
      have hlen := congrArg List.length hgood.1
      rw [List.length_append] at hlen
      simp only [FuzzerPhase.size, FuzzerPhase.current, List.map_cons, List.map_nil,
        List.sum_singleton]
      omega
  | sending c i left =>
      rw [hf] at hgood
      simp [FuzzerPhase.size, FuzzerPhase.current, hgood.1]
  | reading c i line =>
      rw [hf] at hgood
      simp [FuzzerPhase.size, FuzzerPhase.current, hgood.1]

theorem sendWork_eq (size length : ℕ) :
    sendWork size length = 3 * serveWork size * length + 1 := rfl

/-- Each step of a call that changes anything brings its end nearer. -/
theorem Paired.work_lt (h : Paired cfg s) (hstep : OracleStep cfg s s') (hcall : s.InCall)
    (hcall' : s'.InCall) (hne : s' ≠ s) :
    s'.work cfg s.fuzzer.size < s.work cfg s.fuzzer.size := by
  have hfile := h.file_length hcall
  have hgood := h.good
  have hpos := serveWork_pos s.fuzzer.size
  generalize s.fuzzer.size = size at hfile hpos ⊢
  cases hstep with
  | @replay i o hr =>
      have hmoved : o ≠ s.oracle i := by
        rintro rfl
        exact hne (by rw [OracleSystem.setOracle, Function.update_eq_self])
      have hlt := hr.work_lt hfile hmoved
      exact work_setOracle_lt (f := s.fuzzer) (Nat.add_lt_add_right hlt _)
  | fopen input reference hf =>
      rw [OracleSystem.InCall, hf] at hcall
      exact hcall.elim
  | @fwrite c left m hf =>
      apply work_fuzzer_lt
      have hmoved : 0 < min m left.length := by
        by_contra hzero
        apply hne
        rcases Nat.min_eq_zero_iff.mp (by omega : min m left.length = 0) with rfl | hnil
        · simp [← hf]
        · rw [List.length_eq_zero_iff] at hnil
          subst hnil
          simp [← hf]
      simp only [hf, FuzzerPhase.work, List.length_drop]
      omega
  | @fclose c hf =>
      apply work_fuzzer_lt
      simp only [hf, FuzzerPhase.work, List.length_nil, sendWork_eq, Nat.sub_zero,
        Nat.add_mul, Nat.one_mul]
      omega
  | fail hf => exact hcall'.elim
  | interrupted => exact absurd rfl hne
  | @write c left i m hf halive =>
      apply work_setOracle_lt
      have hmoved : 0 < min m left.length := by
        by_contra hzero
        apply hne
        rcases Nat.min_eq_zero_iff.mp (by omega : min m left.length = 0) with rfl | hnil
        · simp [OracleSystem.setOracle, OracleState.request, ← hf]
        · rw [List.length_eq_zero_iff] at hnil
          subst hnil
          simp [OracleSystem.setOracle, OracleState.request, ← hf]
      simp only [hf, FuzzerPhase.work, OracleState.work, OracleState.request,
        List.length_append, List.length_take, List.length_drop]
      obtain ⟨d, hd⟩ := Nat.exists_eq_add_of_le (Nat.min_le_right m left.length)
      have hdrop : left.length - m = d := by omega
      rw [hdrop]
      generalize min m left.length = moved at hmoved hd ⊢
      rw [hd]
      nlinarith
  | @wrote c i hf =>
      apply work_fuzzer_lt
      obtain ⟨d, hd⟩ := Nat.exists_eq_add_of_lt i.isLt
      have hrest : n - i.val = d + 1 := by omega
      have hnext : n - (i.val + 1) = d := by omega
      simp only [hf, FuzzerPhase.work, List.length_nil, hrest, hnext, sendWork_eq,
        Nat.add_mul, Nat.one_mul]
      omega
  | @epipe c left i hf hleft hended =>
      apply work_fuzzer_lt
      obtain ⟨d, hd⟩ := Nat.exists_eq_add_of_lt i.isLt
      have hrest : n - i.val = d + 1 := by omega
      have hnext : n - (i.val + 1) = d := by omega
      simp only [hf, FuzzerPhase.work, hrest, hnext, sendWork_eq,
        Nat.add_mul, Nat.one_mul]
      omega
  | @sentAll c left hf =>
      apply work_fuzzer_lt
      simp only [hf, FuzzerPhase.work, Nat.sub_self, Nat.sub_zero]
      omega
  | @read c line b rest i hf hsent hans hb =>
      apply work_setOracle_lt
      simp only [hf, FuzzerPhase.work, OracleState.work, hans, List.length_cons]
      omega
  | @line c line rest i hf hsent hans =>
      apply work_setOracle_lt
      simp only [hf, FuzzerPhase.work, OracleState.work, hans, List.length_cons]
      omega
  | @noAnswer c line i e hf hlost hended =>
      apply work_fuzzer_lt
      have hi := i.isLt
      simp only [hf, FuzzerPhase.work]
      omega
  | ret hf => exact hcall'.elim

/-- A call writes one input. -/
theorem OracleStep.size_eq (hstep : OracleStep cfg s s') (hcall : s.InCall)
    (hcall' : s'.InCall) :
    s'.fuzzer.size = s.fuzzer.size := by
  cases hstep with
  | fopen input reference hf =>
      rw [OracleSystem.InCall, hf] at hcall
      exact hcall.elim
  | fail hf => exact hcall'.elim
  | ret hf => exact hcall'.elim
  | replay => rfl
  | interrupted => rfl
  | fwrite m hf => rw [hf]; rfl
  | fclose hf => rw [hf]; rfl
  | write i m hf => rw [hf]; rfl
  | wrote i hf => rw [hf]; rfl
  | epipe i hf => rw [hf]; rfl
  | sentAll hf => rw [hf]; rfl
  | read i hf => rw [hf]; rfl
  | line i hf => rw [hf]; rfl
  | noAnswer i e hf => rw [hf]; rfl

end Steps

/-! ## A step there is -/

/-- The fuzzer is at an oracle or past the last, and has read no newline yet. -/
def FuzzerPhase.Placed : FuzzerPhase n → Prop
  | .sending _ j _ => j ≤ n
  | .reading _ j line => j ≤ n ∧ newline ∉ line
  | _ => True

theorem placed {s : OracleSystem n} (h : (oracleSystem cfg).Reachable s) :
    s.fuzzer.Placed := by
  apply h.invariant (I := fun s => s.fuzzer.Placed)
  · trivial
  · intro s s' hs hstep
    cases hstep with
    | replay => exact hs
    | interrupted => exact hs
    | @write c left i m hf => exact i.isLt.le
    | wrote i hf => exact i.isLt
    | epipe i hf => exact i.isLt
    | sentAll => exact ⟨Nat.zero_le _, List.not_mem_nil⟩
    | @read c line b rest i hf hsent hans hb =>
        rw [hf] at hs
        refine ⟨hs.1, ?_⟩
        unfold putByte
        split
        · rw [List.mem_append, List.mem_singleton]
          rintro (hmem | rfl)
          · exact hs.2 hmem
          · exact hb rfl
        · exact hs.2
    | line i => exact ⟨i.isLt, List.not_mem_nil⟩
    | noAnswer i => exact ⟨i.isLt, List.not_mem_nil⟩
    | fclose => exact Nat.zero_le n
    | fopen => trivial
    | fwrite => trivial
    | fail => trivial
    | ret => trivial

section Enabled

variable {file left line : List UInt8} {k : ℕ} {i : Fin n} {o : OracleState}
  {s : OracleSystem n}

/-- A living process that owes an answer can go on, and lives. -/
theorem Outstanding.enabled (h : Outstanding cfg file k [] line o) (halive : o.Alive)
    (hans : o.answers = []) (hline : newline ∉ line) :
    ∃ o', ReplayStep cfg file i o o' ∧ o' ≠ o ∧ o'.Alive := by
  cases hphase : o.phase with
  | fgets =>
      simp only [Outstanding, hphase] at h
      rcases h with h | h
      · by_cases hgot : gotLine o.stdin
        · obtain ⟨hstdin, -, -⟩ := h.whole hgot
          have hopen := (opens_request cfg).1
          refine ⟨_, .line hphase hgot, fun heq => ?_, ?_⟩
          · have hnext := congrArg OracleState.phase heq
            rw [hphase, hstdin, hopen] at hnext
            cases hnext
          · simp [OracleState.Alive, hstdin, hopen]
        · refine ⟨_, .fill o.requests.length hphase hgot, fun heq => ?_, ?_⟩
          · -- else the whole request is in `stdin`, and it is a line
            have hnext := congrArg OracleState.requests heq
            have hnil : o.requests = [] := by
              rw [← hnext]
              simp [OracleState.fill]
            have hrequest := h.request
            rw [hnil, List.append_nil, List.append_nil] at hrequest
            apply hgot
            rw [hrequest]
            exact .inl (List.mem_append_right _ (List.mem_singleton_self _))
          · simp [OracleState.Alive, OracleState.fill, hphase]
      · -- an answer read whole has its newline
        obtain ⟨v, -, heq⟩ := h.answer
        rw [hans, List.append_nil, List.append_nil] at heq
        exact absurd (heq ▸ List.mem_append_right _ (List.mem_singleton_self _)) hline
  | fread got =>
      simp only [Outstanding, hphase] at h
      by_cases hend : got.length = inputMax + 1 ∨ file.length ≤ got.length
      · refine ⟨_, .print hphase hend, fun heq => ?_, ?_⟩
        · have hnext := congrArg OracleState.phase heq
          rw [hphase] at hnext
          cases hnext
        · simp [OracleState.Alive, OracleState.print]
      · obtain ⟨-, hlen⟩ := h.got
        refine ⟨_, .read 1 hphase, fun heq => ?_, ?_⟩
        · have hnext := congrArg OracleState.phase heq
          rw [hphase, OracleState.read, ReplayPhase.fread.injEq] at hnext
          have hshort := congrArg List.length hnext
          rw [List.length_append, List.length_take, List.length_drop] at hshort
          omega
        · simp [OracleState.Alive, OracleState.read]
  | fflush out =>
      cases out with
      | nil =>
          refine ⟨_, .flushed hphase, fun heq => ?_, ?_⟩
          · have hnext := congrArg OracleState.phase heq
            rw [hphase] at hnext
            cases hnext
          · simp [OracleState.Alive]
      | cons b out =>
          refine ⟨_, .flush 1 hphase, fun heq => ?_, ?_⟩
          · have hnext := congrArg OracleState.answers heq
            simp [OracleState.flush] at hnext
          · simp [OracleState.Alive, OracleState.flush]
  | ended => exact absurd hphase halive

/-- The processes that live go on living. -/
def OracleSystem.SameAlive (s s' : OracleSystem n) : Prop :=
  ∀ i, (s'.oracle i).Alive ↔ (s.oracle i).Alive

theorem sameAlive_setOracle {i : Fin n} {o : OracleState} {f : FuzzerPhase n}
    (ho : o.Alive ↔ (s.oracle i).Alive) :
    s.SameAlive { s.setOracle i o with fuzzer := f } := by
  intro j
  show (Function.update s.oracle i o j).Alive ↔ _
  by_cases hj : j = i
  · subst hj
    rw [Function.update_self]
    exact ho
  · rw [Function.update_of_ne hj]

/-- A step of the fuzzer that takes it elsewhere. -/
theorem fuzzer_ne {file : List UInt8} {f : FuzzerPhase n} {calls : List (Call n)}
    (h : f ≠ s.fuzzer) : (⟨file, s.oracle, f, calls⟩ : OracleSystem n) ≠ s :=
      fun heq => h (congrArg OracleSystem.fuzzer heq)

/-- The fuzzer waits for an answer that will come, or for none. -/
theorem Paired.reading_enabled (h : Paired cfg s) (hline : newline ∉ line)
    {c : Call n} (i : Fin n) (hf : s.fuzzer = .reading c i line) :
    ∃ s', OracleStep cfg s s' ∧ s' ≠ s ∧ s.SameAlive s' := by
  have hsees := h.sees i
  have hgood := h.good
  rw [hf] at hsees hgood
  obtain ⟨-, hsent, -⟩ := hgood
  simp only [FuzzerPhase.view, lt_self_iff_false, if_false, if_true] at hsees
  have hmoved : ∀ (c' : Call n) (line' : List UInt8),
      FuzzerPhase.reading c' (i + 1) line' ≠ s.fuzzer := by
    intro c' line' heq
    rw [hf, FuzzerPhase.reading.injEq] at heq
    omega
  by_cases hflag : c.sent[i.val]? = some true
  · rw [if_pos hflag] at hsees
    cases hans : (s.oracle i).answers with
    | nil =>
        by_cases halive : (s.oracle i).Alive
        · obtain ⟨o', hstep, hne, halive'⟩ := Outstanding.enabled hsees halive hans hline
          refine ⟨_, .replay i hstep, fun heq => hne ?_, ?_⟩
          · have hsame := congrFun (congrArg OracleSystem.oracle heq) i
            simpa [OracleSystem.setOracle] using hsame
          · exact sameAlive_setOracle (f := s.fuzzer) (iff_of_true halive' halive)
        · exact ⟨_, .noAnswer i (.exited 0) hf (.inr hans) halive, fuzzer_ne (hmoved _ _),
            fun _ => Iff.rfl⟩
    | cons b rest =>
        have hrest : rest ≠ (s.oracle i).answers := by
          rw [hans]
          exact List.ne_cons_self
        have hne : ∀ f : FuzzerPhase n,
            ({ s.setOracle i { s.oracle i with answers := rest } with fuzzer := f }
              : OracleSystem n) ≠ s := by
          intro f heq
          apply hrest
          have hsame :=
            congrArg OracleState.answers (congrFun (congrArg OracleSystem.oracle heq) i)
          simpa [OracleSystem.setOracle] using hsame
        by_cases hb : b = newline
        · subst hb
          exact ⟨_, .line i hf hflag hans, hne _, sameAlive_setOracle Iff.rfl⟩
        · exact ⟨_, .read i hf hflag hans hb, hne _, sameAlive_setOracle Iff.rfl⟩
  · rw [if_neg hflag] at hsees
    have hfalse : c.sent[i.val]? = some false := by
      have hget := List.getElem?_eq_getElem (l := c.sent) (i := i.val) (by omega)
      cases hbit : c.sent[i.val] with
      | true => exact absurd (by rw [hget, hbit]) hflag
      | false => rw [hget, hbit]
    exact ⟨_, .noAnswer i (.exited 0) hf (.inl hfalse) hsees.1, fuzzer_ne (hmoved _ _),
      fun _ => Iff.rfl⟩

/-- The fuzzer can write on, or learns that it cannot. -/
theorem sending_enabled {c : Call n} (i : Fin n) (hf : s.fuzzer = .sending c i left) :
    ∃ s', OracleStep cfg s s' ∧ s' ≠ s ∧ s.SameAlive s' := by
  have hmoved : ∀ (c' : Call n) (left' : List UInt8),
      FuzzerPhase.sending c' (i + 1) left' ≠ s.fuzzer := by
    intro c' left' heq
    rw [hf, FuzzerPhase.sending.injEq] at heq
    omega
  cases left with
  | nil => exact ⟨_, .wrote i hf, fuzzer_ne (hmoved _ _), fun _ => Iff.rfl⟩
  | cons b left =>
      by_cases halive : (s.oracle i).Alive
      · refine ⟨_, .write i 1 hf halive, fun heq => ?_, sameAlive_setOracle Iff.rfl⟩
        have hnext := congrArg OracleSystem.fuzzer heq
        rw [hf, FuzzerPhase.sending.injEq] at hnext
        exact absurd hnext.2.2 (by simp)
      · exact ⟨_, .epipe i hf nofun halive, fuzzer_ne (hmoved _ _), fun _ => Iff.rfl⟩

/-- A call that goes on can go on, and no process needs to die for it. -/
theorem call_enabled (h : (oracleSystem cfg).Reachable s) (hcall : s.InCall) :
    ∃ s', OracleStep cfg s s' ∧ s' ≠ s ∧ s.SameAlive s' := by
  have hpaired := paired h
  have hplaced := placed h
  cases hf : s.fuzzer with
  | idle =>
      rw [OracleSystem.InCall, hf] at hcall
      exact hcall.elim
  | exited c =>
      rw [OracleSystem.InCall, hf] at hcall
      exact hcall.elim
  | fwrite c left =>
      cases left with
      | nil =>
          refine ⟨_, .fclose hf, fuzzer_ne ?_, fun _ => Iff.rfl⟩
          rw [hf]
          exact nofun
      | cons b left =>
          refine ⟨_, .fwrite 1 hf, fuzzer_ne ?_, fun _ => Iff.rfl⟩
          rw [hf]
          simp
  | sending c j left =>
      rw [hf] at hplaced
      rcases Nat.lt_or_eq_of_le hplaced with hj | rfl
      · exact sending_enabled ⟨j, hj⟩ hf
      · refine ⟨_, .sentAll hf, fuzzer_ne ?_, fun _ => Iff.rfl⟩
        rw [hf]
        exact nofun
  | reading c j line =>
      rw [hf] at hplaced
      obtain ⟨hj, hline⟩ := hplaced
      rcases Nat.lt_or_eq_of_le hj with hj | rfl
      · exact hpaired.reading_enabled hline ⟨j, hj⟩ hf
      · refine ⟨_, .ret hf, fuzzer_ne ?_, fun _ => Iff.rfl⟩
        rw [hf]
        exact nofun

end Enabled

/-! ## The pipes -/

/-- `PIPE_BUF`, which any pipe holds. -/
def pipeBuf : ℕ := 4096

/-- The bytes in the pipes of a living process. -/
theorem Sees.pipes {file : List UInt8} {k : ℕ} {o : OracleState} {v : View}
    (h : Sees cfg file k o v) (halive : o.Alive)
    (hserved : ∀ v ∈ o.served, v.line.length + 1 < lineMax) :
    o.requests.length ≤ cfg.path.request.length ∧ o.answers.length ≤ lineMax := by
  have hprinted : ∀ {left line out}, Printed k left line out o →
      o.requests.length ≤ cfg.path.request.length ∧ o.answers.length ≤ lineMax := by
    intro left line out hp
    obtain ⟨v, hv, heq⟩ := hp.answer
    have hlen := congrArg List.length heq
    have hfits := hserved v (List.mem_of_getElem? hv)
    simp only [List.length_append, List.length_singleton] at hlen
    rw [hp.requests]
    exact ⟨Nat.zero_le _, by omega⟩
  have hasked : ∀ {left line}, Asked cfg k left line o →
      o.requests.length ≤ cfg.path.request.length ∧ o.answers.length ≤ lineMax := by
    intro left line ha
    have hlen := congrArg List.length ha.request
    simp only [List.length_append] at hlen
    rw [ha.answers]
    exact ⟨by omega, Nat.zero_le _⟩
  cases v with
  | quiet count =>
      obtain ⟨hans, hrests⟩ := h
      rw [hans, (hrests halive).requests]
      exact ⟨Nat.zero_le _, Nat.zero_le _⟩
  | lost => exact absurd halive h.1
  | outstanding left line =>
      cases hphase : o.phase with
      | fgets =>
          simp only [Sees, Outstanding, hphase] at h
          exact h.elim hasked hprinted
      | fread got =>
          simp only [Sees, Outstanding, hphase] at h
          rw [h.requests, h.answers]
          exact ⟨Nat.zero_le _, Nat.zero_le _⟩
      | fflush out =>
          simp only [Sees, Outstanding, hphase] at h
          exact h.elim (fun h => hasked h.2) hprinted
      | ended => exact absurd hphase halive

theorem pipes_hold {s : OracleSystem n} (h : (oracleSystem cfg).Reachable s) (i : Fin n)
    (halive : (s.oracle i).Alive) :
    (s.oracle i).requests.length ≤ pipeBuf ∧ (s.oracle i).answers.length ≤ pipeBuf := by
  have hpaired := paired h
  have hserved : ∀ v ∈ (s.oracle i).served, v.line.length + 1 < lineMax := by
    intro v hv
    obtain ⟨k, hk⟩ := List.mem_iff_getElem?.mp hv
    obtain ⟨c, -, rfl⟩ := hpaired.accounted.origin i k v hk
    exact serve_length cfg i _
  obtain ⟨hrequests, hanswers⟩ := (hpaired.sees i).pipes halive hserved
  have hrequest := cfg.path.request_length
  have hroom : pathMax ≤ pipeBuf ∧ lineMax ≤ pipeBuf := by decide
  omega

/-! ## Calls end -/

/-- A call of `oracle_check` ends, however the processes answer or die. While
it goes on, some step changes the system without a process dying for it, no
write to a living process can fill a pipe, and every run that does not stand
still in a call leaves it. -/
theorem oracle_check_ends (cfg : Oracles n) :
    (∀ s, (oracleSystem cfg).Reachable s → s.InCall →
      ∃ s', OracleStep cfg s s' ∧ s' ≠ s ∧ s.SameAlive s') ∧
    (∀ s, (oracleSystem cfg).Reachable s → ∀ i, (s.oracle i).Alive →
      (s.oracle i).requests.length ≤ pipeBuf ∧ (s.oracle i).answers.length ≤ pipeBuf) ∧
    ∀ run, (oracleSystem cfg).Run run →
      (∀ k, (run k).InCall → ∃ m, k ≤ m ∧ run m ≠ run k) → ∀ k, ∃ m, k ≤ m ∧
        ¬ (run m).InCall := by
  refine ⟨fun s h => call_enabled h, fun s h i => pipes_hold h i,
    fun run hrun hmoves => ?_⟩
  have hlower : ∀ s s', (oracleSystem cfg).Reachable s → s.InCall → OracleStep cfg s s' →
      s'.InCall → s' ≠ s → s'.work cfg s'.fuzzer.size < s.work cfg s.fuzzer.size := by
    intro s s' hreach hcall hstep hcall' hne
    rw [hstep.size_eq hcall hcall']
    exact (paired hreach).work_lt hstep hcall hcall' hne
  exact hrun.leaves (fun s => s.work cfg s.fuzzer.size) hlower hmoves

end Diffsecp
