import Mathlib.Data.List.FinRange
import Mathlib.Logic.Function.Basic
import Diffsecp.Transcript

/-!
# Fuzz — Driver

`src/fuzz.c` with the oracle off: each input runs through every variant and
then through the mutant schemata builds. All buffers, lengths and flags are
static and keep what earlier inputs left in them.
-/

namespace Diffsecp

/-- `DIFFSECP_MUTANT_DETECT`. -/
def mutantDetect : Int := -1

/-- What one run of a schemata build leaves: its transcript, whether the API
rejected its arguments and the mutants it flagged. -/
structure SchemataRun (n : ℕ) where
  transcript : List UInt8
  illegal : Bool
  infected : Fin n → Bool

/-- One build; `none` is an abort inside the target. -/
structure Variant where
  name : String
  target : List UInt8 → Option (List UInt8)

/-- A schemata build of `n` mutants, given the mutant that is on. -/
structure MutantBuild (n : ℕ) where
  name : String
  target : Int → List UInt8 → Option (SchemataRun n)

/-- What the driver is linked and started with. `variants[0]` is the
reference. -/
structure Driver (n : ℕ) where
  target : String
  reference : Variant
  others : List Variant
  mutantBuilds : List (MutantBuild n)
  mutantNames : Fin n → String
  mutantsOff : Bool

/-- The static variables. -/
structure FuzzState (n : ℕ) where
  transcripts : ℕ → List UInt8
  lengths : ℕ → ℕ
  mutantTranscript : List UInt8
  mutant : Int
  illegal : Bool
  infected : Fin n → Bool
  killed : Fin n → Bool
  everInfected : Fin n → Bool
  everKilled : Fin n → Bool

/-- The variables before the first input. -/
def FuzzState.init (n : ℕ) : FuzzState n where
  transcripts _ := List.replicate transcriptMax 0
  lengths _ := 0
  mutantTranscript := List.replicate transcriptMax 0
  mutant := mutantDetect
  illegal := false
  infected _ := false
  killed _ := false
  everInfected _ := false
  everKilled _ := false

/-! ## Comparing and reporting -/

/-- A target overwrites the start of its buffer. -/
def overwrite (buf t : List UInt8) : List UInt8 := t ++ buf.drop t.length

/-- What `dump` prints. -/
structure Dump where
  name : String
  lo : ℕ
  hi : ℕ
  bytes : List UInt8
  deriving DecidableEq, Repr

/-- The indices `dump` reads. -/
def dumpIndices (len pos : ℕ) : List ℕ :=
  let lo := if pos > 16 then pos - 16 else 0
  let hi := if pos + 48 < len then pos + 48 else len
  List.range' lo (hi - lo)

def dump (name : String) (t : List UInt8) (len pos : ℕ) : Dump where
  name := name
  lo := if pos > 16 then pos - 16 else 0
  hi := if pos + 48 < len then pos + 48 else len
  bytes := (dumpIndices len pos).map fun i => t.getD i 0

/-- What `report_divergence` prints. -/
structure Divergence where
  target : String
  reference : String
  name : String
  pos : ℕ
  referenceLen : ℕ
  len : ℕ
  referenceDump : Dump
  dump : Dump
  deriving DecidableEq, Repr

/-- Why the driver aborts. -/
inductive Abort where
  | divergence (d : Divergence)
  | illegal (target name : String)
  | inTarget
  deriving DecidableEq, Repr

/-- The loop of `report_divergence` with at most `n` rounds left. -/
def scan (a b : List UInt8) : ℕ → ℕ → ℕ
  | 0, pos => pos
  | n + 1, pos => if a.getD pos 0 = b.getD pos 0 then scan a b n (pos + 1) else pos

variable {n : ℕ}

def matchesReference (st : FuzzState n) (t : List UInt8) (len : ℕ) : Bool :=
  len = st.lengths 0 ∧ t.take len = (st.transcripts 0).take len

def reportDivergence (d : Driver n) (st : FuzzState n) (name : String)
    (t : List UInt8) (len : ℕ) :
    Divergence :=
  let n := if st.lengths 0 < len then st.lengths 0 else len
  let pos := scan (st.transcripts 0) t n 0
  { target := d.target
    reference := d.reference.name
    name := name
    pos := pos
    referenceLen := st.lengths 0
    len := len
    referenceDump := dump d.reference.name (st.transcripts 0) (st.lengths 0) pos
    dump := dump name t len pos }

/-- Killed, masked (the input's values triggered the mutant but no transcript
showed it) or missed (no input reached the values). -/
inductive MutantStatus where
  | missed
  | masked
  | killed
  deriving DecidableEq, Repr

def MutantStatus.text : MutantStatus → String
  | .missed => "missed"
  | .masked => "masked"
  | .killed => "killed"

def mutantStatus (st : FuzzState n) (k : Fin n) : MutantStatus :=
  if st.everKilled k then .killed else if st.everInfected k then .masked else .missed

/-- The lines of the report at exit. -/
def reportMutants (d : Driver n) (st : FuzzState n) : List String :=
  (List.finRange n).map fun k =>
    "mutant " ++ toString k.val ++ " " ++ (mutantStatus st k).text ++ " " ++
      d.mutantNames k

/-! ## What the driver writes -/

namespace FuzzState

variable (st : FuzzState n)

/-- Variant `i` has written the transcript `t`. -/
def setTranscript (i : ℕ) (t : List UInt8) : FuzzState n :=
  { st with
    transcripts := Function.update st.transcripts i (overwrite (st.transcripts i) t)
    lengths := Function.update st.lengths i t.length }

/-- A schemata build has run on `st` and left `w`. -/
def ran (w : SchemataRun n) : FuzzState n :=
  { st with
    mutantTranscript := overwrite st.mutantTranscript w.transcript
    illegal := st.illegal || w.illegal
    infected := fun k => st.infected k || w.infected k
    mutant := mutantDetect }

def clearInfected : FuzzState n := { st with infected := fun _ => false }

def reach (k : Fin n) : FuzzState n :=
  { st with everInfected := Function.update st.everInfected k true }

def kill (k : Fin n) : FuzzState n :=
  { st with
    killed := Function.update st.killed k true
    everKilled := Function.update st.everKilled k true }

end FuzzState

/-! ## Running -/

def runSchemata (b : MutantBuild n) (mutant : Int) (inp : List UInt8) (st : FuzzState n) :
    Except Abort (ℕ × FuzzState n) :=
  let st := { st with mutant := mutant, illegal := false }
  match b.target st.mutant inp with
  | none => .error .inTarget
  | some w => .ok (w.transcript.length, st.ran w)

/-- The loop of `run_mutants` over the mutants, which also collects the
flagged ones in `infected`. -/
def tryMutants (b : MutantBuild n) (inp : List UInt8) :
    List (Fin n) → (Fin n → Bool) → FuzzState n →
    Except Abort ((Fin n → Bool) × FuzzState n)
  | [], infected, st => .ok (infected, st)
  | k :: ks, infected, st =>
      if st.infected k = false then
        tryMutants b inp ks infected st
      else
        let infected := Function.update infected k true
        let st := st.reach k
        if st.everKilled k then
          tryMutants b inp ks infected st
        else do
          let (len, st) ← runSchemata b k inp st
          let st := if st.illegal = true ∨
            matchesReference st st.mutantTranscript len = false then
              st.kill k
            else st
          tryMutants b inp ks infected st

/-- The loop of `run_mutants` over the builds. With no mutant on, a schemata
build is one more build that must agree. -/
def runBuilds (d : Driver n) (inp : List UInt8) :
    List (MutantBuild n) → (Fin n → Bool) → FuzzState n →
    Except Abort ((Fin n → Bool) × FuzzState n)
  | [], infected, st => .ok (infected, st)
  | b :: bs, infected, st => do
      let (len, st) ← runSchemata b mutantDetect inp st.clearInfected
      if st.illegal then
        .error (.illegal d.target b.name)
      else if matchesReference st st.mutantTranscript len = false then
        .error (.divergence (reportDivergence d st b.name st.mutantTranscript len))
      else do
        let (infected, st) ← tryMutants b inp (List.finRange n) infected st
        runBuilds d inp bs infected st

def runMutants (d : Driver n) (inp : List UInt8) (st : FuzzState n) :
    Except Abort (FuzzState n) := do
  let (infected, st) ← runBuilds d inp d.mutantBuilds (fun _ => false) st
  -- what the fuzzer observes: the mutants any build flagged
  .ok { st with infected := infected }

/-- The first loop of the driver, from variant `i` on. -/
def runVariants (inp : List UInt8) :
    List Variant → ℕ → FuzzState n → Except Abort (FuzzState n)
  | [], _, st => .ok st
  | v :: vs, i, st =>
      match v.target inp with
      | none => .error .inTarget
      | some t => runVariants inp vs (i + 1) (st.setTranscript i t)

/-- The second loop of the driver, from variant `i` on. -/
def checkVariants (d : Driver n) (st : FuzzState n) : List Variant → ℕ → Except Abort Unit
  | [], _ => .ok ()
  | v :: vs, i =>
      if matchesReference st (st.transcripts i) (st.lengths i) = false then
        .error
          (.divergence (reportDivergence d st v.name (st.transcripts i) (st.lengths i)))
      else
        checkVariants d st vs (i + 1)

/-- `LLVMFuzzerTestOneInput`: the code returned and the variables it
leaves. -/
def llvmFuzzerTestOneInput (d : Driver n) (inp : List UInt8) (st : FuzzState n) :
    Except Abort (Int × FuzzState n) :=
  if inputMax < inp.length then
    .ok (-1, st)
  else do
    let st ← runVariants inp (d.reference :: d.others) 0 st
    checkVariants d st d.others 1
    let st ← if d.mutantsOff then .ok st else runMutants d inp st
    .ok (0, st)

/-- The driver on one input after the other. -/
def fuzzAll (d : Driver n) : List (List UInt8) → FuzzState n → Except Abort (FuzzState n)
  | [], st => .ok st
  | inp :: inps, st => do
      let (_, st) ← llvmFuzzerTestOneInput d inp st
      fuzzAll d inps st

end Diffsecp
