import Mathlib.Data.List.Forall2
import Mathlib.Data.List.TakeDrop
import Diffsecp.Buffer
import Diffsecp.Oracle.Line
import Diffsecp.Text.Strtok

/-!
# Oracle — Start

How `oracle_start` reads the specification of the oracles: two scans of
`strtok_r`, one in the other, cut one copy of it into entries and words.
-/

namespace Diffsecp

open Text

/-! ## The scans -/

/-- `ORACLE_MAX`. -/
def oracleMax : ℕ := 16

/-- The elements of `argv`. -/
def argvMax : ℕ := 64

def semicolon : UInt8 := 59

def equals : UInt8 := 61

/-- `strchr`. -/
def strchr (mem : List UInt8) (p : ℕ) (c : UInt8) : Option ℕ :=
  if c ∈ stringAt mem p then some (p + ((stringAt mem p).takeWhile (· ≠ c)).length)
    else none

/-- The words of a command as they are read: a pointer that is `none` is
`NULL`. -/
structure Args where
  mem : List UInt8
  argv : Buf (Option ℕ) argvMax
  argc : ℕ
  words : ℕ

/-- The loop over the words, with `left` more elements of `argv` to fill. -/
def argvLoop : (left : ℕ) → Args → Option Args
  | 0, st => some st
  | left + 1, st =>
      (st.argv.load? st.argc).bind fun cur =>
        if cur = none then some st
        else
          let next := strtokR st.mem st.words space
          (st.argv.store? (st.argc + 1) next.2.1).bind fun argv =>
            argvLoop left ⟨next.1, argv, st.argc + 1, next.2.2⟩

/-- The arguments from `i` on, up to `NULL`, as the process that is started
reads them. -/
def argvTexts (mem : List UInt8) (argv : Buf (Option ℕ) argvMax) :
    (fuel i : ℕ) → List (List UInt8)
  | 0, _ => []
  | fuel + 1, i =>
      match argv.load? i with
      | some (some p) => stringAt mem p :: argvTexts mem argv fuel (i + 1)
      | _ => []

/-- An element of `oracles`: where its name is, and what was started. -/
structure Launch where
  name : ℕ
  argv : List (List UInt8)

inductive StartError where
  | expected (entry : List UInt8)
  | noCommand (entry : List UInt8)

/-- What is printed. -/
def StartError.message : StartError → List UInt8
  | .expected entry =>
      ascii "diffsecp: oracle " ++ entry ++
        ascii ": expected NAME=COMMAND, at most 16" ++ [newline]
  | .noCommand entry =>
      ascii "diffsecp: oracle " ++ entry ++ ascii ": no command, or no pipe" ++ [newline]

/-- What the loop does with an entry that is not empty: the memory it leaves,
and what is started or why not. Pipes and processes can be made. -/
def startEntry (mem : List UInt8) (noracles entry : ℕ) :
    Option (List UInt8 × Except StartError Launch) :=
  match strchr mem entry equals with
  | none => some (mem, .error (.expected (stringAt mem entry)))
  | some eq =>
      if noracles = oracleMax then some (mem, .error (.expected (stringAt mem entry)))
      else
        let first := strtokR (mem.set eq 0) (eq + 1) space
        ((Buf.uninit argvMax).store? 0 first.2.1).bind fun argv =>
          (argvLoop (argvMax - 1) ⟨first.1, argv, 0, first.2.2⟩).bind fun st =>
            (st.argv.store? st.argc none).bind fun argv =>
              if st.argc = 0 then some (st.mem,
                .error (.noCommand (stringAt st.mem entry)))
              else some (st.mem, .ok ⟨entry, argvTexts st.mem argv argvMax 0⟩)

/-- What `oracle_start` leaves: it returns -1 where there is an error. -/
structure Started where
  mem : List UInt8
  oracles : List Launch
  error : Option StartError

/-- The loop over the entries, which goes on at `save`. -/
def startLoop :
    (fuel : ℕ) → (mem : List UInt8) → (save : ℕ) → List Launch → Option Started
  | 0, _, _, _ => none
  | fuel + 1, mem, save, oracles =>
      let next := strtokR mem save semicolon
      match next.2.1 with
      | none => some ⟨next.1, oracles, none⟩
      | some tok =>
          let entry := tok + ((stringAt next.1 tok).takeWhile (· = space)).length
          if stringAt next.1 entry = [] then startLoop fuel next.1 next.2.2 oracles
          else
            (startEntry next.1 oracles.length entry).bind fun result =>
              match result.2 with
              | .error e => some ⟨result.1, oracles, some e⟩
              | .ok launch =>
                  if oracles.length < oracleMax
                    then startLoop fuel result.1 next.2.2 (oracles ++ [launch]) else none

/-- `oracle_start`, whose loop takes an entry of the copy each time; `none`
where an array is accessed outside it. -/
def oracleStart (spec : List UInt8) : Option Started :=
  startLoop (spec.length + 1) (spec ++ [0]) 0 []

/-- The oracles that were started, by their names and arguments. -/
def Started.launched (out : Started) : List (List UInt8 × List (List UInt8)) :=
  out.oracles.map fun l => (stringAt out.mem l.name, l.argv)

example : (oracleStart (ascii " a=x  y; ;;b=z;")).map Started.launched =
    some [(ascii "a", [ascii "x", ascii "y"]), (ascii "b", [ascii "z"])] := by
      decide +kernel

/-! ## What a specification says -/

/-- The entries that are not empty after their leading spaces. -/
def entriesOf (spec : List UInt8) : List (List UInt8) :=
  ((words (· = semicolon) spec).map (List.dropWhile (· = space))).filter (· ≠ [])

def entryName (e : List UInt8) : List UInt8 := e.takeWhile (· ≠ equals)

def entryCommand (e : List UInt8) : List (List UInt8) :=
  words (· = space) ((e.dropWhile (· ≠ equals)).drop 1)

/-- The entry is a name and a command of at least one word. -/
def EntryOk (e : List UInt8) : Prop := equals ∈ e ∧ entryCommand e ≠ []

/-! ## The words of a command -/

section Argv

variable {mem : List UInt8} {argv : Buf (Option ℕ) argvMax}
  {toks ws : List (List UInt8)} {lo hi : ℕ}

/-- The elements of `argv` point to the words in `toks`, which stand before
what is still scanned. -/
def Points (mem : List UInt8) (argv : Buf (Option ℕ) argvMax) (toks : List (List UInt8))
    (lo hi : ℕ) : Prop :=
  ∀ (j : ℕ) w, toks[j]? = some w → ∃ p, argv[j]? = some (some (some p)) ∧ StrAt mem p w ∧
    (p + w.length < lo ∨ hi ≤ lo)

/-- What is scanned next leaves the words alone. -/
theorem Points.step (h : Points mem argv toks lo hi) {mem' : List UInt8} {lo' : ℕ}
    (hlo : lo ≤ lo') (hagree : Agree lo hi mem mem') {x : Option ℕ}
    {argv' : Buf (Option ℕ) argvMax}
    (hargv : ∀ j : ℕ, argv'[j]? = if j = toks.length then some (some x) else argv[j]?) :
    Points mem' argv' toks lo' hi := by
  intro j w hw
  obtain ⟨p, hp, hstr, hout⟩ := h j w hw
  have hj : j < toks.length := (List.getElem?_eq_some_iff.mp hw).1
  refine ⟨p, ?_, hstr.of_agree hagree (by omega), by omega⟩
  rw [hargv, if_neg (by omega), hp]

theorem Points.concat (h : Points mem argv toks lo hi) {p : ℕ} {w : List UInt8}
    (hargv : argv[toks.length]? = some (some (some p))) (hstr : StrAt mem p w)
    (hout : p + w.length < lo ∨ hi ≤ lo) :
    Points mem argv (toks ++ [w]) lo hi := by
  intro j v hv
  rcases Nat.lt_or_ge j toks.length with hlt | hge
  · rw [List.getElem?_append_left hlt] at hv
    exact h j v hv
  · have hj : j < (toks ++ [w]).length := (List.getElem?_eq_some_iff.mp hv).1
    rw [List.length_append, List.length_singleton] at hj
    obtain rfl : j = toks.length := by omega
    rw [List.getElem?_concat_length] at hv
    obtain rfl := Option.some.inj hv
    exact ⟨p, hargv, hstr, hout⟩

theorem Points.take (h : Points mem argv toks lo hi) (n : ℕ) :
    Points mem argv (toks.take n) lo hi := by
  intro j w hw
  rw [List.getElem?_take] at hw
  split at hw
  next => exact h j w hw
  next => nomatch hw

/-- From a word on, the loop stores the words that are left until `argv` is
full. -/
theorem argvLoop_spec (left : ℕ) (st : Args) {body : List UInt8}
    (hleft : st.argc + left + 1 = argvMax) (htoks : toks.length = st.argc + 1)
    (hbody : StrAt st.mem st.words body) (hwords : words (· = space) body = ws)
    (hpoints : Points st.mem st.argv toks st.words (st.words + body.length)) :
    ∃ st', argvLoop left st = some st' ∧
      st'.argc = min (argvMax - 1) (toks.length + ws.length) ∧
      Points st'.mem st'.argv ((toks ++ ws).take st'.argc) st'.words
        (st.words + body.length) ∧
      Agree st.words (st.words + body.length) st.mem st'.mem := by
  induction left generalizing st body toks ws with
  | zero =>
      refine ⟨st, rfl, by omega, ?_, Agree.refl _⟩
      rw [List.take_append_of_le_length (by omega)]
      exact hpoints.take _
  | succ left ih =>
      have hlast : st.argc < toks.length := by omega
      obtain ⟨p, hp, -, -⟩ := hpoints st.argc _ (List.getElem?_eq_getElem hlast)
      have hload : st.argv.load? st.argc = some (some p) := by
        rw [Buf.load?, hp]
        rfl
      obtain ⟨argv, hstore, hargv⟩ :=
        Buf.store?_of_lt (b := st.argv) (x := (strtokR st.mem st.words space).2.1)
        (by omega : st.argc + 1 < argvMax)
      rw [argvLoop, hload, Option.bind_some, if_neg (by simp)]
      dsimp only
      rw [hstore, Option.bind_some]
      rw [← htoks] at hargv
      cases ws with
      | nil =>
          rw [strtokR_none hbody hwords] at hargv ⊢
          dsimp only at hargv ⊢
          -- the next element is NULL, at which the loop ends
          have hnull : argv.load? (st.argc + 1) = some none := by
            rw [Buf.load?, hargv, if_pos htoks.symm]
            rfl
          have hend : argvLoop left ⟨st.mem, argv, st.argc + 1, st.words + body.length⟩ =
              some ⟨st.mem, argv, st.argc + 1, st.words + body.length⟩ := by
            cases left with
            | zero => rfl
            | succ left => rw [argvLoop, hnull, Option.bind_some, if_pos rfl]
          refine ⟨_, hend, ?_, ?_, Agree.refl _⟩
          · dsimp only
            rw [List.length_nil]
            omega
          · dsimp only
            rw [List.append_nil]
            exact (hpoints.step (Nat.le_add_right _ _) (Agree.refl _) hargv).take _
      | cons w ws =>
          obtain ⟨mem, tok, save, rest, hnext, hstr, htok, hrest, hws, hend,
                hout, hagree⟩ :=
            strtokR_some hbody (by decide) hwords
          rw [hnext] at hargv ⊢
          dsimp only at hargv ⊢
          have hsave : st.words ≤ save := by omega
          have hnew : Points mem argv (toks ++ [w]) save (save + rest.length) := by
            rw [hend]
            refine (hpoints.step hsave hagree hargv).concat ?_ hstr ?_
            · rw [hargv, if_pos rfl]
            · rcases hout with hlt | ⟨-, hnil⟩
              · exact .inl hlt
              · right
                rw [hnil, List.length_nil] at hend
                omega
          obtain ⟨st', hloop, hargc, hpoints', hagree'⟩ :=
            ih ⟨mem, argv, st.argc + 1, save⟩
            (by dsimp only; omega) (by rw [List.length_append, htoks]; rfl) hrest hws hnew
          refine ⟨st', hloop, ?_, ?_, ?_⟩
          · rw [hargc, List.length_append, List.length_singleton, List.length_cons]
            omega
          · rw [hend, List.append_assoc] at hpoints'
            exact hpoints'
          · dsimp only at hagree'
            rw [hend] at hagree'
            exact hagree.trans (hagree'.mono hsave (Nat.le_refl _))

/-- What the process that is started reads of `argv`. -/
theorem argvTexts_eq (hpoints : Points mem argv toks lo hi)
    (hnull : argv[toks.length]? = some (some none)) (hlen : toks.length < argvMax) :
    argvTexts mem argv argvMax 0 = toks := by
  have hfrom (fuel i : ℕ) (hi' : i ≤ toks.length) (hfuel : toks.length < i + fuel) :
      argvTexts mem argv fuel i = toks.drop i := by
    induction fuel generalizing i with
    | zero => omega
    | succ fuel ih =>
        rw [argvTexts, Buf.load?]
        rcases Nat.eq_or_lt_of_le hi' with rfl | hlt
        · rw [hnull, List.drop_length]
          rfl
        · obtain ⟨p, hp, hstr, -⟩ := hpoints i _ (List.getElem?_eq_getElem hlt)
          rw [hp, Option.join_some]
          dsimp only
          rw [hstr.stringAt_eq, ih (i + 1) hlt (by omega),
            ← List.drop_eq_getElem_cons hlt]
  exact hfrom argvMax 0 (Nat.zero_le _) (by omega)

end Argv

/-! ## An entry -/

section Entry

variable {mem : List UInt8} {p : ℕ} {e : List UInt8}

/-- An entry with an `=` is its name, the `=` and its command. -/
theorem entry_eq (he : equals ∈ e) :
    e = entryName e ++ equals :: (e.dropWhile (· ≠ equals)).drop 1 := by
  have hsplit :=
    List.takeWhile_append_dropWhile (p := fun c : UInt8 => decide (c ≠ equals)) (l := e)
  cases hdrop : e.dropWhile (· ≠ equals) with
  | nil =>
      rw [hdrop, List.append_nil] at hsplit
      have hnot := List.takeWhile_eq_self_iff.mp hsplit equals he
      exact absurd rfl (of_decide_eq_true hnot)
  | cons c rest =>
      have hc := List.head?_dropWhile_not (fun c : UInt8 => decide (c ≠ equals)) e
      rw [hdrop] at hc
      obtain rfl : c = equals := by simpa using hc
      rw [hdrop] at hsplit
      exact hsplit.symm

theorem strchr_eq (h : StrAt mem p e) :
    strchr mem p equals = if equals ∈ e then some (p + (entryName e).length)
      else none := by
  rw [strchr, h.stringAt_eq]
  rfl

theorem startEntry_expected (h : StrAt mem p e) {n : ℕ}
    (hbad : equals ∉ e ∨ n = oracleMax) :
    startEntry mem n p = some (mem, .error (.expected e)) := by
  rw [startEntry, strchr_eq h]
  by_cases he : equals ∈ e
  · rw [if_pos he]
    dsimp only
    rw [if_pos (hbad.resolve_left (not_not_intro he)), h.stringAt_eq]
  · rw [if_neg he]
    dsimp only
    rw [h.stringAt_eq]

/-- What is started of an entry, and what of the memory it changes. -/
theorem startEntry_command (h : StrAt mem p e) {n : ℕ} (hn : n ≠ oracleMax)
    (he : equals ∈ e) :
    ∃ mem' result, startEntry mem n p = some (mem', result) ∧
      Agree p (p + e.length) mem mem' ∧
      StrAt mem' p (entryName e) ∧ p + (entryName e).length < p + e.length ∧
      result = if entryCommand e = [] then .error (.noCommand (entryName e))
        else .ok ⟨p, (entryCommand e).take (argvMax - 1)⟩ := by
  have hsplit := entry_eq he
  have hwhole := h
  rw [hsplit] at hwhole
  have hlen : e.length =
      (entryName e).length + 1 + ((e.dropWhile (· ≠ equals)).drop 1).length := by
    conv_lhs => rw [hsplit]
    rw [List.length_append, List.length_cons]
    omega
  have hname := hwhole.left
  have hcommand := hwhole.cut
  have hset : Agree p (p + e.length) mem (mem.set (p + (entryName e).length) 0) :=
    Agree.set (Nat.le_add_right _ _) (by omega) 0
  obtain ⟨argv, hstore, hargv⟩ := Buf.store?_of_lt (b := Buf.uninit argvMax)
    (x := (strtokR (mem.set (p + (entryName e).length) 0)
      (p + (entryName e).length + 1) space).2.1)
    (by decide : 0 < argvMax)
  rw [startEntry, strchr_eq h, if_pos he]
  dsimp only
  rw [if_neg hn, hstore, Option.bind_some]
  cases hwords : entryCommand e with
  | nil =>
      rw [strtokR_none hcommand hwords] at hargv ⊢
      dsimp only at hargv ⊢
      have hnull : argv.load? 0 = some none := by
        rw [Buf.load?, hargv, if_pos rfl]
        rfl
      obtain ⟨argv', hstore', -⟩ :=
        Buf.store?_of_lt (b := argv) (x := none) (by decide : 0 < argvMax)
      have hloop (left : ℕ) (st : Args) (hst : st.argv.load? st.argc = some none) :
          argvLoop left st = some st := by
        cases left with
        | zero => rfl
        | succ left => rw [argvLoop, hst, Option.bind_some, if_pos rfl]
      rw [hloop _ _ hnull, Option.bind_some]
      dsimp only
      rw [hstore', Option.bind_some, if_pos rfl, hname.stringAt_eq, if_pos rfl]
      exact ⟨_, _, rfl, hset, hname, by omega, rfl⟩
  | cons w ws =>
      obtain ⟨mem', tok, save, rest, hnext, hstr, htok, hrest, hws, hend, hout, hagree⟩ :=
        strtokR_some hcommand (by decide) hwords
      rw [hnext] at hargv ⊢
      dsimp only at hargv ⊢
      have hpoints : Points mem' argv [w] save (save + rest.length) := by
        intro j v hv
        obtain ⟨rfl, rfl⟩ : j = 0 ∧ w = v := by
          rw [List.getElem?_singleton] at hv
          split at hv
          next hj => exact ⟨hj, Option.some.inj hv⟩
          next => cases hv
        refine ⟨tok, by rw [hargv, if_pos rfl], hstr, ?_⟩
        rcases hout with hlt | ⟨-, hnil⟩
        · exact .inl hlt
        · right
          rw [hnil, List.length_nil]
          omega
      obtain ⟨st, hloop, hargc, hpoints', hagree'⟩ :=
        argvLoop_spec (argvMax - 1) ⟨mem', argv, 0, save⟩ rfl rfl hrest hws hpoints
      rw [List.length_singleton] at hargc
      have hfull : argvMax = 64 := rfl
      obtain ⟨argv', hstore', hargv'⟩ :=
        Buf.store?_of_lt (b := st.argv) (x := none) (by omega : st.argc < argvMax)
      have htake : ([w] ++ ws).take st.argc = (w :: ws).take (argvMax - 1) := by
        rw [List.singleton_append, List.take_eq_take_iff, hargc, List.length_cons]
        omega
      have hcount : (([w] ++ ws).take st.argc).length = st.argc := by
        rw [List.length_take, List.length_append, List.length_singleton]
        omega
      have hnull : argv'[(([w] ++ ws).take st.argc).length]? = some (some none) := by
        rw [hargv', hcount, if_pos rfl]
      have hargs : argvTexts st.mem argv' argvMax 0 = (w :: ws).take (argvMax - 1) := by
        rw [← htake]
        have hargv'' : ∀ j : ℕ, argv'[j]? =
            if j = (([w] ++ ws).take st.argc).length then some (some none)
                else st.argv[j]? := by
          rw [hcount]
          exact hargv'
        exact argvTexts_eq (hpoints'.step (Nat.le_refl _) (Agree.refl _) hargv'')
          hnull (by omega)
      have hnames : StrAt st.mem p (entryName e) :=
        (hname.of_agree hagree (.inl (Nat.lt_succ_self _))).of_agree hagree'
          (.inl (by dsimp only; omega))
      rw [hloop, Option.bind_some, hstore', Option.bind_some, if_neg (by omega), hargs,
        if_neg (List.cons_ne_nil _ _)]
      refine ⟨_, _, rfl, hset.trans ((hagree.mono ?_ ?_).trans (hagree'.mono ?_ ?_)),
        hnames, by omega, rfl⟩
      · omega
      · omega
      · show p ≤ save
        omega
      · show save + rest.length ≤ p + e.length
        omega

end Entry

/-! ## The loop over the entries -/

section Loop

variable {mem : List UInt8} {save : ℕ} {oracles : List Launch}
  {views : List (List UInt8 × List (List UInt8))}

/-- What was started, whose names stand before what is still scanned. -/
def Named (mem : List UInt8) (save : ℕ) :
    List Launch → List (List UInt8 × List (List UInt8)) → Prop :=
  List.Forall₂ fun l v => StrAt mem l.name v.1 ∧ l.name + v.1.length < save ∧ l.argv = v.2

theorem Named.step (h : Named mem save oracles views) {mem' : List UInt8}
    {lo hi save' : ℕ} (hlo : save ≤ lo) (hsave : save ≤ save')
    (hagree : Agree lo hi mem mem') : Named mem' save' oracles views :=
  h.imp fun _ _ ⟨hstr, hlt, hargv⟩ =>
    ⟨hstr.of_agree hagree (.inl (by omega)), by omega, hargv⟩

theorem Named.launched (h : Named mem save oracles views) (e : Option StartError) :
    Started.launched ⟨mem, oracles, e⟩ = views := by
  induction h with
  | nil => rfl
  | cons hl _ ih =>
      rw [Started.launched, List.map_cons, hl.1.stringAt_eq, hl.2.2]
      exact congrArg (_ :: ·) ih

/-- What an entry starts: its name, and the words of its command that fit. -/
def entryLaunch (e : List UInt8) : List UInt8 × List (List UInt8) :=
  (entryName e, (entryCommand e).take (argvMax - 1))

/-- The entries that are left are started in order, or one of them is in
error. -/
theorem startLoop_spec (fuel : ℕ) (oracles : List Launch) {body : List UInt8}
    (hbody : StrAt mem save body) (hfuel : (words (· = semicolon) body).length < fuel)
    (hroom : oracles.length ≤ oracleMax) (hnamed : Named mem save oracles views) :
    ∃ out, startLoop fuel mem save oracles = some out ∧ out.oracles.length ≤ oracleMax ∧
      (out.error = none ↔ oracles.length + (entriesOf body).length ≤ oracleMax ∧
        ∀ e ∈ entriesOf body, EntryOk e) ∧
      (out.error = none → out.launched = views ++ (entriesOf body).map entryLaunch) := by
  induction fuel generalizing mem save oracles views body with
  | zero => omega
  | succ fuel ih =>
      rw [startLoop]
      cases hwords : words (· = semicolon) body with
      | nil =>
          have hnone : entriesOf body = [] := by rw [entriesOf, hwords]; rfl
          rw [strtokR_none hbody hwords, hnone]
          refine ⟨_, rfl, hroom, ?_, fun _ => ?_⟩
          · exact iff_of_true rfl ⟨by simpa using hroom, nofun⟩
          · rw [List.map_nil, List.append_nil]
            exact hnamed.launched none
      | cons w ws =>
          obtain ⟨mem', tok, save', body', hnext, hstr, htok, hrest, hws, hend,
                hout, hagree⟩ :=
            strtokR_some hbody (by decide) hwords
          have hsave : tok + w.length ≤ save' := by omega
          have hfuel' : (words (· = semicolon) body').length < fuel := by
            rw [hwords, List.length_cons] at hfuel
            rw [hws]
            omega
          have hnamed' : Named mem' save oracles views :=
            hnamed.step (Nat.le_refl _) (Nat.le_refl _) hagree
          have hsplit := List.takeWhile_append_dropWhile
            (p := fun c : UInt8 => decide (c = space)) (l := w)
          have hentry : StrAt mem' (tok + (w.takeWhile (· = space)).length)
              (w.dropWhile (· = space)) := by
            apply StrAt.right
            rwa [hsplit]
          have hlen : (w.takeWhile (· = space)).length +
              (w.dropWhile (· = space)).length = w.length := by
            rw [← List.length_append, hsplit]
          rw [hnext]
          dsimp only
          rw [hstr.stringAt_eq, hentry.stringAt_eq]
          by_cases hnil : w.dropWhile (· = space) = []
          · have hentries : entriesOf body = entriesOf body' := by
              rw [entriesOf, hwords, List.map_cons,
                List.filter_cons_of_neg (by simpa using hnil), entriesOf, hws]
            rw [if_pos hnil, hentries]
            have hsame : Agree save save mem' mem' := Agree.refl mem'
            exact ih oracles hrest hfuel' hroom
              (hnamed'.step (Nat.le_refl _) (by omega) hsame)
          · have hentries :
                entriesOf body = w.dropWhile (· = space) :: entriesOf body' := by
              rw [entriesOf, hwords, List.map_cons,
                List.filter_cons_of_pos (by simpa using hnil), entriesOf, hws]
            rw [if_neg hnil, hentries, List.length_cons, List.forall_mem_cons]
            by_cases hbad : equals ∉ w.dropWhile (· = space) ∨ oracles.length = oracleMax
            · rw [startEntry_expected hentry hbad, Option.bind_some]
              refine ⟨_, rfl, hroom, iff_of_false nofun ?_, nofun⟩
              rintro ⟨hfit, hok, -⟩
              rcases hbad with hbad | hbad
              · exact hbad hok.1
              · omega
            · rw [not_or, not_not] at hbad
              obtain ⟨mem'', result, hstart, hagree', hname, hshort, hresult⟩ :=
                startEntry_command hentry hbad.2 hbad.1
              rw [hstart, Option.bind_some]
              dsimp only
              rw [hresult]
              by_cases hcommand : entryCommand (w.dropWhile (· = space)) = []
              · rw [if_pos hcommand]
                refine ⟨_, rfl, hroom, iff_of_false nofun ?_, nofun⟩
                exact fun hgood => hgood.2.1.2 hcommand
              · have hless : oracles.length < oracleMax := Nat.lt_of_le_of_ne hroom hbad.2
                have hrest' : StrAt mem'' save' body' :=
                  hrest.of_agree hagree' (.inr (.inl (by omega)))
                have hnew : Named mem'' save'
                    (oracles ++ [⟨tok + (w.takeWhile (· = space)).length,
                    (entryCommand (w.dropWhile (· = space))).take (argvMax - 1)⟩])
                    (views ++ [entryLaunch (w.dropWhile (· = space))]) := by
                  refine List.rel_append (hnamed'.step ?_ ?_ hagree')
                    (.cons ⟨hname, ?_, rfl⟩ .nil)
                  · omega
                  · omega
                  · rw [entryLaunch]
                    dsimp only
                    omega
                obtain ⟨out, hloop, hcount, herror, hlaunched⟩ := ih _ hrest' hfuel'
                  (by rw [List.length_append, List.length_singleton]; omega) hnew
                rw [if_neg hcommand]
                dsimp only
                rw [if_pos hless]
                refine ⟨out, hloop, hcount, herror.trans ?_, fun hnone => ?_⟩
                · rw [List.length_append, List.length_singleton]
                  constructor
                  · rintro ⟨hfit, hall⟩
                    exact ⟨by omega, ⟨hbad.1, hcommand⟩, hall⟩
                  · rintro ⟨hfit, -, hall⟩
                    exact ⟨by omega, hall⟩
                · rw [hlaunched hnone, List.append_assoc]
                  rfl

end Loop

/-! ## The specification of the Makefile -/

/-- A word of a command line: no blank, no `;` and no terminator in it. -/
def PlainWord (w : List UInt8) : Prop := w ≠ [] ∧ ∀ c ∈ w, c ∉ [0, space, semicolon]

/-- An architecture of `ORACLE_ARCHES`, with the words that run its replay. -/
structure OracleArch where
  name : List UInt8
  run : List (List UInt8)
  name_plain : PlainWord name ∧ equals ∉ name
  run_plain : ∀ w ∈ run, PlainWord w

/-- The words of the command, for a target. -/
def OracleArch.command (a : OracleArch) (target : TargetName) : List (List UInt8) :=
  a.run ++ [target.text]

def OracleArch.entry (a : OracleArch) (target : TargetName) : List UInt8 :=
  a.name ++ equals :: [space].intercalate (a.command target)

/-- `oracle_env`'s `DIFFSECP_ORACLE`. -/
def oracleEnv (target : TargetName) (arches : List OracleArch) : List UInt8 :=
  [space].intercalate (arches.map fun a => a.entry target ++ [semicolon])

section Env

variable {target : TargetName} {a : OracleArch}

theorem oracleEnv_singleton (target : TargetName) (a : OracleArch) :
    oracleEnv target [a] = a.entry target ++ [semicolon] := by simp [oracleEnv]

theorem oracleEnv_cons_cons (target : TargetName) (a b : OracleArch)
    (arches : List OracleArch) :
    oracleEnv target (a :: b :: arches) =
      a.entry target ++ semicolon :: space :: oracleEnv target (b :: arches) := by
        simp [oracleEnv]

theorem TargetName.plainWord (t : TargetName) : PlainWord t.text := by
  have hall : (t.text.all fun c => c ∉ [0, space, semicolon]) = true ∧ t.text ≠ [] := by
    cases t <;> decide
  exact ⟨hall.2, fun c hc => of_decide_eq_true (List.all_eq_true.mp hall.1 c hc)⟩

theorem OracleArch.command_plain (a : OracleArch) (target : TargetName) :
    ∀ w ∈ a.command target, PlainWord w := by
  intro w hw
  rcases List.mem_append.mp hw with hw | hw
  · exact a.run_plain w hw
  · obtain rfl := List.mem_singleton.mp hw
    exact target.plainWord

theorem mem_intercalate {c : UInt8} {ws : List (List UInt8)}
    (hc : c ∈ [space].intercalate ws) :
    c = space ∨ ∃ w ∈ ws, c ∈ w := by
  induction ws with
  | nil => nomatch hc
  | cons w ws ih =>
      cases ws with
      | nil =>
          rw [List.intercalate_singleton] at hc
          exact .inr ⟨w, List.mem_singleton_self w, hc⟩
      | cons v ws =>
          rw [List.intercalate_cons_cons, List.mem_append, List.mem_append,
            List.mem_singleton] at hc
          rcases hc with (hc | hc) | hc
          · exact .inr ⟨w, List.mem_cons_self .., hc⟩
          · exact .inl hc
          · exact (ih hc).imp_right fun ⟨v', hv', hcv⟩ =>
              ⟨v', List.mem_cons_of_mem _ hv', hcv⟩

theorem OracleArch.mem_entry {c : UInt8} (hc : c ∈ a.entry target) :
    c ∉ [0, semicolon] := by
  rcases List.mem_append.mp hc with hc | hc
  · have hplain := a.name_plain.1.2 c hc
    simp only [List.mem_cons, List.not_mem_nil, or_false, not_or] at hplain ⊢
    exact ⟨hplain.1, hplain.2.2⟩
  · rcases List.mem_cons.mp hc with rfl | hc
    · decide
    · rcases mem_intercalate hc with rfl | ⟨w, hw, hcw⟩
      · decide
      · have hplain := (a.command_plain target w hw).2 c hcw
        simp only [List.mem_cons, List.not_mem_nil, or_false, not_or] at hplain ⊢
        exact ⟨hplain.1, hplain.2.2⟩

theorem OracleArch.dropWhile_entry (a : OracleArch) (target : TargetName) :
    (a.entry target).dropWhile (· = space) = a.entry target := by
  obtain ⟨c, name, hname⟩ := List.exists_cons_of_ne_nil a.name_plain.1.1
  have hc := a.name_plain.1.2 c (hname ▸ List.mem_cons_self ..)
  rw [OracleArch.entry, hname, List.cons_append, List.dropWhile_cons_of_neg]
  intro heq
  exact hc (by simp [of_decide_eq_true heq])

/-- The entries of a rendered specification. -/
theorem entriesOf_oracleEnv (target : TargetName) (arches : List OracleArch) :
    entriesOf (oracleEnv target arches) = arches.map (·.entry target) := by
  have hne (a : OracleArch) : a.entry target ≠ [] := by simp [OracleArch.entry]
  have hword (a : OracleArch) : ∀ c ∈ a.entry target, decide (c = semicolon) = false := by
    intro c hc
    have hplain := OracleArch.mem_entry hc
    simp only [List.mem_cons, List.not_mem_nil, or_false, not_or] at hplain
    exact decide_eq_false hplain.2
  have hfirst (lead : List UInt8) (hlead : ∀ c ∈ lead, c = space) (a : OracleArch)
      (rest : List UInt8) :
      words (· = semicolon) (lead ++ (a.entry target ++ semicolon :: rest)) =
        (lead ++ a.entry target) :: words (· = semicolon) rest := by
    rw [← List.append_assoc, words_word, words_sep rfl]
    · simp [hne]
    · intro c hc
      rcases List.mem_append.mp hc with hc | hc
      · rw [hlead c hc]
        rfl
      · exact hword a c hc
    · simp
  -- an entry after the first begins with a blank
  have hwords (lead : List UInt8) (hlead : ∀ c ∈ lead, c = space) (a : OracleArch)
      (arches : List OracleArch) :
      words (· = semicolon) (lead ++ oracleEnv target (a :: arches)) =
        (lead ++ a.entry target) :: arches.map fun b => space :: b.entry target := by
    induction arches generalizing lead a with
    | nil => rw [oracleEnv_singleton, hfirst lead hlead, words_nil, List.map_nil]
    | cons b arches ih =>
        have hrest := ih [space] (List.forall_mem_singleton.mpr rfl) b
        rw [oracleEnv_cons_cons, hfirst lead hlead, List.map_cons]
        exact congrArg (_ :: ·) hrest
  have hentries :
      (words (· = semicolon) (oracleEnv target arches)).map (List.dropWhile (· = space)) =
      arches.map (·.entry target) := by
    cases arches with
    | nil => rfl
    | cons a arches =>
        rw [← List.nil_append (oracleEnv target (a :: arches)), hwords [] nofun,
          List.map_cons, List.map_map, List.nil_append, a.dropWhile_entry, List.map_cons]
        refine congrArg (_ :: ·) (List.map_congr_left fun b _ => ?_)
        exact (List.dropWhile_cons_of_pos rfl).trans (b.dropWhile_entry target)
  rw [entriesOf, hentries, List.filter_eq_self]
  intro e he
  obtain ⟨a, -, rfl⟩ := List.mem_map.mp he
  exact decide_eq_true (hne a)

theorem OracleArch.entryLaunch_entry (a : OracleArch) (target : TargetName) :
    entryName (a.entry target) = a.name ∧
    entryCommand (a.entry target) = a.command target := by
  have hname : ∀ c ∈ a.name, decide (c ≠ equals) = true := by
    intro c hc
    exact decide_eq_true fun heq => a.name_plain.2 (heq ▸ hc)
  have hcommand :
      ∀ w ∈ a.command target, w ≠ [] ∧ ∀ c ∈ w, decide (c = space) = false := by
    intro w hw
    obtain ⟨hne, hplain⟩ := a.command_plain target w hw
    refine ⟨hne, fun c hc => decide_eq_false fun heq => hplain c hc ?_⟩
    simp [heq]
  constructor
  · rw [entryName, OracleArch.entry, List.takeWhile_append_of_pos hname,
      List.takeWhile_cons_of_neg (by simp), List.append_nil]
  · rw [entryCommand, OracleArch.entry, List.dropWhile_append_of_pos hname,
      List.dropWhile_cons_of_neg (by simp),
      List.drop_one, List.tail_cons, words_intercalate rfl hcommand]

end Env

/-! ## What is started -/

/-- A C string. -/
abbrev CStr := { s : List UInt8 // 0 ∉ s }

/-- Where the specification is not in error, its oracles are started in order,
each with the words that `argv` has room for. -/
theorem oracleStart_spec (spec : CStr) :
    ∃ out, oracleStart spec.1 = some out ∧ out.oracles.length ≤ oracleMax ∧
    (out.error = none ↔ (entriesOf spec.1).length ≤ oracleMax ∧
      ∀ e ∈ entriesOf spec.1, EntryOk e) ∧
    (out.error = none → out.launched = (entriesOf spec.1).map entryLaunch) := by
  have hcopy : StrAt (spec.1 ++ [0]) 0 spec.1 := by
    refine ⟨spec.2, fun i hi => ?_⟩
    rw [Nat.zero_add]
    rcases Nat.lt_or_ge i spec.1.length with hlt | hge
    · rw [List.getElem?_append_left hlt, List.getElem?_eq_getElem hlt, Option.getD_some]
    · obtain rfl : i = spec.1.length := by omega
      rw [List.getElem?_concat_length, List.getElem?_eq_none (Nat.le_refl _),
        Option.getD_none]
  have hstart := startLoop_spec (spec.1.length + 1) [] hcopy
    (Nat.lt_succ_of_le (words_length_le spec.1)) (Nat.zero_le oracleMax) .nil
  rw [List.length_nil, Nat.zero_add] at hstart
  exact hstart

theorem entryLaunch_eq_iff (e : List UInt8) :
    entryLaunch e = (entryName e, entryCommand e) ↔
    (entryCommand e).length < argvMax := by
  have hroom : argvMax = 64 := rfl
  rw [entryLaunch, Prod.mk.injEq, eq_self, true_and, List.take_eq_self_iff]
  omega

/-- What the Makefile renders is a C string. -/
theorem zero_notMem_oracleEnv (target : TargetName) (arches : List OracleArch) :
    0 ∉ oracleEnv target arches := by
  intro hmem
  rcases mem_intercalate hmem with h | ⟨w, hw, hzero⟩
  · exact absurd h (by decide)
  · obtain ⟨a, -, rfl⟩ := List.mem_map.mp hw
    rcases List.mem_append.mp hzero with h | h
    · exact OracleArch.mem_entry h (List.mem_cons_self ..)
    · exact absurd h (by decide)

/-- For every specification: nothing is accessed outside its array and at most
16 oracles are started; an error is reported or every entry is started with
its whole command, if and only if no entry of a specification without error
has more than 63 words. One that the Makefile renders of at most 16
architectures gives back their list if and only if no command has more. -/
theorem oracleStart_lossless_iff (spec : CStr) (target : TargetName)
    (arches : List OracleArch) :
    (∃ out, oracleStart spec.1 = some out ∧ out.oracles.length ≤ oracleMax ∧
      (out.error ≠ none ∨
        out.launched = (entriesOf spec.1).map (fun e => (entryName e, entryCommand e)) ↔
        ((entriesOf spec.1).length ≤ oracleMax → (∀ e ∈ entriesOf spec.1, EntryOk e) →
          ∀ e ∈ entriesOf spec.1, (entryCommand e).length < argvMax))) ∧
    (arches.length ≤ oracleMax → ∃ out, oracleStart (oracleEnv target arches) = some out ∧
      out.error = none ∧
      (out.launched = (arches.map fun a => (a.name, a.command target)) ↔
        ∀ a ∈ arches, (a.command target).length < argvMax)) := by
  constructor
  · obtain ⟨out, hstart, hcount, herror, hlaunched⟩ := oracleStart_spec spec
    refine ⟨out, hstart, hcount, ?_⟩
    by_cases hnone : out.error = none
    · obtain ⟨hfit, hok⟩ := herror.mp hnone
      rw [hlaunched hnone, List.map_inj_left]
      constructor
      · intro h _ _ e he
        exact (entryLaunch_eq_iff e).mp (h.resolve_left (not_not_intro hnone) e he)
      · exact fun h => .inr fun e he => (entryLaunch_eq_iff e).mpr (h hfit hok e he)
    · exact iff_of_true (.inl hnone) fun hfit hok => absurd (herror.mpr ⟨hfit, hok⟩) hnone
  · intro hfit
    obtain ⟨out, hstart, -, herror, hlaunched⟩ :=
      oracleStart_spec ⟨_, zero_notMem_oracleEnv target arches⟩
    dsimp only at hstart herror hlaunched
    rw [entriesOf_oracleEnv] at herror hlaunched
    have hnone : out.error = none := by
      rw [herror, List.length_map]
      refine ⟨hfit, List.forall_mem_map.mpr fun a _ => ⟨?_, ?_⟩⟩
      · exact List.mem_append_right _ (List.mem_cons_self ..)
      · rw [(a.entryLaunch_entry target).2, OracleArch.command]
        simp
    refine ⟨out, hstart, hnone, ?_⟩
    rw [hlaunched hnone, List.map_map, List.map_inj_left]
    refine forall₂_congr fun a _ => ?_
    obtain ⟨hname, hcommand⟩ := a.entryLaunch_entry target
    rw [Function.comp_apply, ← hname, ← hcommand]
    exact entryLaunch_eq_iff _

set_option maxRecDepth 4000 in
def armArch : OracleArch where
  name := ascii "arm"
  run := [ascii "qemu-arm", ascii "build/cross/arm/replay"]
  name_plain := ⟨⟨by decide, by decide⟩, by decide⟩
  run_plain := by
    intro w hw
    simp only [List.mem_cons, List.not_mem_nil, or_false] at hw
    rcases hw with rfl | rfl
    · exact ⟨by decide, by decide⟩
    · exact ⟨by decide, by decide⟩

theorem oracleStart_lossless_arm :
    ∃ out, oracleStart (oracleEnv .ecdsa [armArch, armArch]) = some out ∧
      out.error = none ∧
      out.launched = [armArch, armArch].map fun a => (a.name, a.command .ecdsa) := by
  obtain ⟨-, hrendered⟩ :=
    oracleStart_lossless_iff ⟨[], List.not_mem_nil⟩ .ecdsa [armArch, armArch]
  obtain ⟨out, hstart, hnone, hlaunched⟩ := hrendered (by decide)
  exact ⟨out, hstart, hnone, hlaunched.mpr (by decide)⟩

/-- A command of 64 words. -/
def longSpec : List UInt8 := ascii "a=" ++ (List.replicate 64 (ascii "x ")).flatten

theorem oracleStart_truncates :
    ∃ out, oracleStart longSpec = some out ∧ out.error = none ∧
      out.launched ≠ (entriesOf longSpec).map fun e => (entryName e, entryCommand e) := by
  have hrun : (oracleStart longSpec).map (fun out =>
    (out.error.isNone, out.launched.map fun l => l.2.length)) =
      some (true, [63]) := by decide +kernel
  obtain ⟨out, hstart, hout⟩ := Option.map_eq_some_iff.mp hrun
  refine ⟨out, hstart, Option.isNone_iff_eq_none.mp (Prod.ext_iff.mp hout).1,
    fun hwhole => ?_⟩
  have hcounts : out.launched.map (fun l => l.2.length) = [63] := (Prod.ext_iff.mp hout).2
  rw [hwhole, List.map_map] at hcounts
  exact absurd hcounts (by decide +kernel)

end Diffsecp
