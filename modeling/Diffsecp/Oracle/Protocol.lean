import Diffsecp.Interact.Reach
import Diffsecp.Oracle.Line

/-!
# Oracle — Protocol

`oracle_check` of `src/oracle.h` against processes that run `replay_paths` of
`src/replay.c`: a pipe each way for each process, and one file all of them
read. Every system call is a step. Writes and reads move any number of bytes,
an interrupted one moves none, and a process may end at any step.
-/

namespace Diffsecp

open Interact

variable {n : ℕ}

/-- The processes `oracle_start` started, and the file they read. -/
structure Oracles (n : ℕ) where
  name : Fin n → String
  target : Fin n → TargetName
  fn : Fin n → List UInt8 → List UInt8
  path : OraclePath

/-! ## `replay_paths` -/

/-- Where a process stands: waiting for a line, reading the file, writing its
answer out. -/
inductive ReplayPhase where
  | fgets
  | fread (got : List UInt8)
  | fflush (left : List UInt8)
  | ended
  deriving DecidableEq

/-- A request a process has answered: the bytes it read from the file and the
line it printed. -/
structure Served where
  bytes : List UInt8
  line : List UInt8

/-- A process and its pipes. `stdin` is what stdio has read ahead, and
`served` the answers so far. -/
structure OracleState where
  requests : List UInt8
  answers : List UInt8
  stdin : List UInt8
  phase : ReplayPhase
  served : List Served

def OracleState.Alive (o : OracleState) : Prop := o.phase ≠ .ended

/-- `sizeof(path)` in `replay_paths`. -/
def pathMax : ℕ := 4096

/-- `fgets` can return: a line is buffered, or as much as `path` holds. -/
def gotLine (stdin : List UInt8) : Prop := newline ∈ stdin ∨ pathMax - 1 ≤ stdin.length

instance (stdin : List UInt8) : Decidable (gotLine stdin) :=
  inferInstanceAs (Decidable (_ ∨ _))

/-- What `replay_paths` does with the line at the start of `stdin`. -/
def Oracles.opens (cfg : Oracles n) (stdin : List UInt8) : ReplayPhase :=
  let text := (stdin.take (pathMax - 1)).takeWhile (· ≠ newline)
  let path := text.takeWhile fun c => c ≠ 0 ∧ c ≠ 13
  if newline ∉ stdin.take (pathMax - 1) ∨ text[path.length]? = some 0 then .ended
  else if path = [] then .fgets
  else if path = cfg.path.text then .fread []
  else .ended

/-- What is left of `stdin`. -/
def afterLine (stdin : List UInt8) : List UInt8 := (stdin.dropWhile (· ≠ newline)).drop 1

/-- The answer of process `i` to a file of the bytes read. -/
def Oracles.serve (cfg : Oracles n) (i : Fin n) (bytes : List UInt8) : Served :=
  ⟨bytes, replayLine (cfg.target i) (cfg.fn i) cfg.path.text bytes⟩

namespace OracleState

variable (o : OracleState)

def fill (m : ℕ) : OracleState :=
  { o with stdin := o.stdin ++ o.requests.take m, requests := o.requests.drop m }

def read (got file : List UInt8) (m : ℕ) : OracleState :=
  { o with
    phase := .fread
      (got ++ (file.drop got.length).take (min m (inputMax + 1 - got.length))) }

def print (v : Served) : OracleState :=
  { o with phase := .fflush (v.line ++ [newline]), served := o.served ++ [v] }

def flush (left : List UInt8) (m : ℕ) : OracleState :=
  { o with phase := .fflush (left.drop m), answers := o.answers ++ left.take m }

/-- The fuzzer's write of the first `m` bytes of `left`. -/
def request (left : List UInt8) (m : ℕ) : OracleState :=
  { o with requests := o.requests ++ left.take m }

end OracleState

/-- A step of process `i` while the file holds `file`. -/
inductive ReplayStep (cfg : Oracles n) (file : List UInt8) (i : Fin n) :
    OracleState → OracleState → Prop where
  | fill {o} (m : ℕ) (hphase : o.phase = .fgets) (hline : ¬ gotLine o.stdin) :
      ReplayStep cfg file i o (o.fill m)
  | line {o} (hphase : o.phase = .fgets) (hline : gotLine o.stdin) :
      ReplayStep cfg file i o { o with
        phase := cfg.opens o.stdin, stdin := afterLine o.stdin }
  | read {o got} (m : ℕ) (hphase : o.phase = .fread got) :
      ReplayStep cfg file i o (o.read got file m)
  | print {o got} (hphase : o.phase = .fread got)
      (hend : got.length = inputMax + 1 ∨ file.length ≤ got.length) :
      ReplayStep cfg file i o (o.print (cfg.serve i got))
  | flush {o left} (m : ℕ) (hphase : o.phase = .fflush left) :
      ReplayStep cfg file i o (o.flush left m)
  | flushed {o} (hphase : o.phase = .fflush []) :
      ReplayStep cfg file i o { o with phase := .fgets }
  | die {o} : ReplayStep cfg file i o { o with phase := .ended }

/-! ## `oracle_check` -/

/-- A call: its arguments, its variables `sent` and `diverged`, and what it
took from each oracle so far, `none` for one that ended. -/
structure Call (n : ℕ) where
  input : List UInt8
  reference : UInt64
  sent : List Bool
  diverged : Option (Fin n)
  taken : List (Option (List UInt8))

/-- The call reads `line` for oracle `i`. -/
def Call.judge (c : Call n) (i : Fin n) (line : List UInt8)
    (taken : Option (List UInt8)) : Call n :=
  { c with
    diverged := if c.diverged = none ∧ accepts line c.reference = false then some i
      else c.diverged
    taken := c.taken ++ [taken] }

def Call.setSent (c : Call n) (sent : Bool) : Call n :=
  { c with sent := c.sent ++ [sent] }

/-- Where the fuzzer stands: between calls, writing the file, sending the
request to oracle `i`, reading the line of oracle `i`, or gone because the file
cannot be written. -/
inductive FuzzerPhase (n : ℕ) where
  | idle
  | fwrite (c : Call n) (left : List UInt8)
  | sending (c : Call n) (i : ℕ) (left : List UInt8)
  | reading (c : Call n) (i : ℕ) (line : List UInt8)
  | exited (c : Call n)

/-- The whole system, with the calls that have returned. -/
structure OracleSystem (n : ℕ) where
  file : List UInt8
  oracle : Fin n → OracleState
  fuzzer : FuzzerPhase n
  calls : List (Call n)

def OracleSystem.setOracle (s : OracleSystem n) (i : Fin n) (o : OracleState) :
    OracleSystem n :=
  { s with oracle := Function.update s.oracle i o }

inductive OracleStep (cfg : Oracles n) : OracleSystem n → OracleSystem n → Prop where
  | replay {s} (i : Fin n) {o} (h : ReplayStep cfg s.file i (s.oracle i) o) :
      OracleStep cfg s (s.setOracle i o)
  -- the input file
  | fopen {s} (input : List UInt8) (reference : UInt64) (h : s.fuzzer = .idle) :
      OracleStep cfg s
        { s with file := [], fuzzer := .fwrite ⟨input, reference, [], none, []⟩ input }
  | fwrite {s c left} (m : ℕ) (h : s.fuzzer = .fwrite c left) :
      OracleStep cfg s { s with
        file := s.file ++ left.take m, fuzzer := .fwrite c (left.drop m) }
  | fclose {s c} (h : s.fuzzer = .fwrite c []) :
      OracleStep cfg s { s with fuzzer := .sending c 0 cfg.path.request }
  | fail {s c left} (h : s.fuzzer = .fwrite c left) :
      OracleStep cfg s { s with fuzzer := .exited c }
  -- a system call fails with EINTR and is made again
  | interrupted {s} : OracleStep cfg s s
  -- `oracle_write`
  | write {s c left} (i : Fin n) (m : ℕ) (h : s.fuzzer = .sending c i left)
      (halive : (s.oracle i).Alive) :
      OracleStep cfg s { s.setOracle i ((s.oracle i).request left m) with
        fuzzer := .sending c i (left.drop m) }
  | wrote {s c} (i : Fin n) (h : s.fuzzer = .sending c i []) :
      OracleStep cfg s { s with
        fuzzer := .sending (c.setSent true) (i + 1) cfg.path.request }
  | epipe {s c left} (i : Fin n) (h : s.fuzzer = .sending c i left) (hleft : left ≠ [])
      (hended : ¬ (s.oracle i).Alive) :
      OracleStep cfg s { s with
        fuzzer := .sending (c.setSent false) (i + 1) cfg.path.request }
  | sentAll {s c left} (h : s.fuzzer = .sending c n left) :
      OracleStep cfg s { s with fuzzer := .reading c 0 [] }
  -- `oracle_read_line`
  | read {s c line b rest} (i : Fin n) (h : s.fuzzer = .reading c i line)
      (hsent : c.sent[i.val]? = some true)
      (hans : (s.oracle i).answers = b :: rest) (hb : b ≠ newline) :
      OracleStep cfg s
        { s.setOracle i { s.oracle i with answers := rest } with
          fuzzer := .reading c i (putByte lineMax line b) }
  | line {s c line rest} (i : Fin n) (h : s.fuzzer = .reading c i line)
      (hsent : c.sent[i.val]? = some true)
      (hans : (s.oracle i).answers = newline :: rest) :
      OracleStep cfg s
        { s.setOracle i { s.oracle i with answers := rest } with
          fuzzer := .reading (c.judge i line (some line)) (i + 1) [] }
  -- `oracle_no_answer`, which waits for the process
  | noAnswer {s c line} (i : Fin n) (e : Ending) (h : s.fuzzer = .reading c i line)
      (hlost : c.sent[i.val]? = some false ∨ (s.oracle i).answers = [])
      (hended : ¬ (s.oracle i).Alive) :
      OracleStep cfg s { s with
        fuzzer := .reading (c.judge i (noAnswerLine lineMax e) none) (i + 1) [] }
  | ret {s c line} (h : s.fuzzer = .reading c n line) :
      OracleStep cfg s { s with fuzzer := .idle, calls := s.calls ++ [c] }

/-- What a process starts with. -/
def OracleState.start : OracleState := ⟨[], [], [], .fgets, []⟩

/-- The fuzzer after `oracle_start`. -/
def oracleSystem (cfg : Oracles n) : System (OracleSystem n) where
  init := ⟨[], fun _ => .start, .idle, []⟩
  Step := OracleStep cfg

/-! ## Calls -/

/-- The call going on. -/
def FuzzerPhase.current : FuzzerPhase n → List (Call n)
  | .idle => []
  | .fwrite c _ => [c]
  | .sending c _ _ => [c]
  | .reading c _ _ => [c]
  | .exited c => [c]

/-- All calls in order, the last one perhaps going on. -/
def OracleSystem.history (s : OracleSystem n) : List (Call n) :=
  s.calls ++ s.fuzzer.current

/-- What `oracle_check` returns. -/
def Call.returned (cfg : Oracles n) (c : Call n) : Option String :=
  c.diverged.map cfg.name

/-- Oracle `i` answered with the digest of the input, and it is the
reference. -/
def Call.Agrees (cfg : Oracles n) (c : Call n) (i : Fin n) : Prop :=
  c.taken[i.val]? = some (some (answerLine (cfg.target i) c.reference cfg.path.text)) ∧
    c.input.length ≤ inputMax ∧ diffsecpDigest (cfg.fn i c.input) = c.reference

end Diffsecp
