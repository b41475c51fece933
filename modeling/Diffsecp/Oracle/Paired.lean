import Mathlib.Data.List.Infix
import Diffsecp.Oracle.Protocol

/-!
# Oracle — Paired

However the processes and the fuzzer interleave, each answer is to the request
it is read for.
-/

namespace Diffsecp

open Interact

variable {n : ℕ} {cfg : Oracles n} {i : Fin n} {file : List UInt8}

/-! ## Lines -/

/-- Bytes that end in the only newline of a line are that line. -/
theorem eq_of_newline {a b s : List UInt8} (h : a ++ newline :: b = s ++ [newline])
    (hs : newline ∉ s) :
    a = s ∧ b = [] := by
  rcases List.eq_nil_or_concat b with rfl | ⟨l, c, rfl⟩
  · obtain ⟨has, -⟩ := List.append_inj' h rfl
    exact ⟨has, rfl⟩
  · have hconcat : (a ++ newline :: l) ++ [c] = s ++ [newline] := by
      rw [← h]
      simp
    obtain ⟨has, -⟩ := List.append_inj' hconcat rfl
    exact absurd (has ▸ List.mem_append_right a (List.mem_cons_self ..)) hs

theorem OraclePath.request_length (p : OraclePath) : p.request.length < pathMax - 1 := by
  have hfits := p.fits
  simp only [OraclePath.request, List.length_append, List.length_singleton, pathMax]
  omega

theorem OraclePath.newline_not_mem (p : OraclePath) : newline ∉ p.text := fun h =>
  p.oneLine _ h (by decide)

/-- The whole request is what opens the file. -/
theorem opens_request (cfg : Oracles n) :
    cfg.opens cfg.path.request = .fread [] ∧ afterLine cfg.path.request = [] := by
  have hplain : ∀ c ∈ cfg.path.text, (decide (c ≠ newline)) = true := by
    intro c hc
    have hne : c ≠ newline := fun heq => cfg.path.newline_not_mem (heq ▸ hc)
    simpa using hne
  have htake : cfg.path.request.take (pathMax - 1) = cfg.path.text ++ [newline] :=
    List.take_of_length_le (le_of_lt cfg.path.request_length)
  have hline : (cfg.path.text ++ [newline]).takeWhile (· ≠ newline) = cfg.path.text := by
    rw [List.takeWhile_append_of_pos hplain]
    simp
  have hpath : cfg.path.text.takeWhile (fun c => c ≠ 0 ∧ c ≠ 13) = cfg.path.text := by
    rw [List.takeWhile_eq_self_iff]
    intro c hc
    have hone := cfg.path.oneLine c hc
    simp only [List.mem_cons, not_or] at hone
    simp [hone.1, hone.2.2.1]
  constructor
  · unfold Oracles.opens
    simp only [htake, hline, hpath]
    simp [cfg.path.nonempty]
  · have hdrop : (cfg.path.text ++ [newline]).dropWhile (· ≠ newline) = [newline] := by
      rw [List.dropWhile_append_of_pos hplain]
      simp
    rw [afterLine, OraclePath.request, hdrop]
    rfl

/-! ## One oracle

How the fuzzer sees an oracle, and what that says of it. -/

/-- No request is out and `count` were answered; or the request still to send
is `left` and `line` was read of the answer; or the request was lost. -/
inductive View where
  | quiet (count : ℕ)
  | outstanding (left line : List UInt8)
  | lost

/-- Nothing is in the pipes, and the process will read a request next. -/
structure Rests (count : ℕ) (o : OracleState) : Prop where
  phase : o.phase = .fgets ∨ o.phase = .fflush []
  requests : o.requests = []
  stdin : o.stdin = []
  count : o.served.length = count

/-- Request `k` is on its way: nothing is answered yet. -/
structure Asked (cfg : Oracles n) (k : ℕ) (left line : List UInt8)
    (o : OracleState) : Prop where
  request : o.stdin ++ o.requests ++ left = cfg.path.request
  answers : o.answers = []
  line : line = []
  count : o.served.length = k

/-- The process reads the file for request `k`. -/
structure Reads (file : List UInt8) (k : ℕ) (left line got : List UInt8)
    (o : OracleState) : Prop where
  left : left = []
  stdin : o.stdin = []
  requests : o.requests = []
  answers : o.answers = []
  line : line = []
  count : o.served.length = k
  got : got <+: file ∧ got.length ≤ inputMax + 1

/-- `line` was read of the answer to request `k`, which is printed less
`out`. -/
def Answered (k : ℕ) (line out : List UInt8) (o : OracleState) : Prop :=
  ∃ v, o.served[k]? = some v ∧ line ++ o.answers ++ out = v.line ++ [newline]

structure Printed (k : ℕ) (left line out : List UInt8) (o : OracleState) : Prop where
  left : left = []
  stdin : o.stdin = []
  requests : o.requests = []
  count : o.served.length = k + 1
  answer : Answered k line out o

/-- Request `k` is outstanding. -/
def Outstanding (cfg : Oracles n) (file : List UInt8) (k : ℕ) (left line : List UInt8)
    (o : OracleState) :
    Prop :=
  match o.phase with
  | .fgets => Asked cfg k left line o ∨ Printed k left line [] o
  | .fread got => Reads file k left line got o
  | .fflush out => out = [] ∧ Asked cfg k left line o ∨ Printed k left line out o
  | .ended => o.answers = [] ∧ line = [] ∨ left = [] ∧ ∃ out, Answered k line out o

/-- What the fuzzer's view of an oracle says during call `k`. -/
def Sees (cfg : Oracles n) (file : List UInt8) (k : ℕ) (o : OracleState) : View → Prop
  | .quiet count => o.answers = [] ∧ (o.Alive → Rests count o)
  | .outstanding left line => Outstanding cfg file k left line o
  | .lost => ¬ o.Alive ∧ o.answers = []

section Oracle

variable {k : ℕ} {left line : List UInt8} {o o' : OracleState}

/-- A process that can read a line got the whole request. -/
theorem Asked.whole (h : Asked cfg k left line o) (hline : gotLine o.stdin) :
    o.stdin = cfg.path.request ∧ o.requests = [] ∧ left = [] := by
  have hlen : o.stdin.length < pathMax - 1 := by
    have hle := congrArg List.length h.request
    have hreq := cfg.path.request_length
    rw [List.length_append, List.length_append] at hle
    omega
  obtain ⟨a, b, hstdin⟩ := List.append_of_mem (hline.resolve_right (not_le.mpr hlen))
  have hrequest :
      a ++ newline :: (b ++ (o.requests ++ left)) = cfg.path.text ++ [newline] := by
    rw [← OraclePath.request, ← h.request, hstdin]
    simp
  obtain ⟨rfl, hnil⟩ := eq_of_newline hrequest cfg.path.newline_not_mem
  obtain ⟨rfl, hrest⟩ := List.append_eq_nil_iff.mp hnil
  obtain ⟨hreq, hleft⟩ := List.append_eq_nil_iff.mp hrest
  exact ⟨hstdin, hreq, hleft⟩

/-! ### Steps of the process -/

theorem ReplayStep.of_ended (hstep : ReplayStep cfg file i o o')
    (hphase : o.phase = .ended) :
    o' = { o with phase := .ended } := by
  cases hstep with
  | die => rfl
  | fill m hp => rw [hphase] at hp; cases hp
  | line hp => rw [hphase] at hp; cases hp
  | read m hp => rw [hphase] at hp; cases hp
  | print hp => rw [hphase] at hp; cases hp
  | flush m hp => rw [hphase] at hp; cases hp
  | flushed hp => rw [hphase] at hp; cases hp

/-- A process that rests goes on resting, or dies. -/
theorem Rests.step {count : ℕ} (h : Rests count o) (hstep : ReplayStep cfg file i o o') :
    o'.answers = o.answers ∧ (o'.Alive → Rests count o') := by
  obtain ⟨hphase, hreq, hstdin, hcount⟩ := h
  cases hstep with
  | fill m hp =>
      refine ⟨rfl, fun _ => ⟨hphase, ?_, ?_, hcount⟩⟩
      · simp [OracleState.fill, hreq]
      · simp [OracleState.fill, hreq, hstdin]
  | line hp hline =>
      rw [hstdin] at hline
      exact absurd hline (by decide)
  | read m hp => rcases hphase with h | h <;> rw [h] at hp <;> cases hp
  | print hp => rcases hphase with h | h <;> rw [h] at hp <;> cases hp
  | @flush out m hp =>
      have hout : out = [] := by
        rcases hphase with h | h <;> rw [h] at hp <;> cases hp
        rfl
      subst hout
      refine ⟨?_, fun _ => ⟨.inr ?_, hreq, hstdin, hcount⟩⟩
      · simp [OracleState.flush]
      · simp [OracleState.flush]
  | flushed hp => exact ⟨rfl, fun _ => ⟨.inl rfl, hreq, hstdin, hcount⟩⟩
  | die => exact ⟨rfl, fun hne => absurd rfl hne⟩

/-- A step of the process of an outstanding request. -/
theorem Outstanding.step (h : Outstanding cfg file k left line o)
    (hstep : ReplayStep cfg file i o o') :
    Outstanding cfg file k left line o' := by
  cases hstep with
  | fill m hphase hline =>
      simp only [Outstanding, OracleState.fill, hphase] at h ⊢
      rcases h with h | h
      · refine .inl ⟨?_, h.answers, h.line, h.count⟩
        rw [List.append_assoc o.stdin, List.take_append_drop]
        exact h.request
      · refine .inr ⟨h.left, ?_, ?_, h.count, h.answer⟩
        · simp [h.stdin, h.requests]
        · simp [h.requests]
  | line hphase hline =>
      simp only [Outstanding, hphase] at h
      rcases h with h | h
      · obtain ⟨hstdin, hreq, hleft⟩ := h.whole hline
        obtain ⟨hopen, hafter⟩ := opens_request cfg
        simp only [Outstanding, hstdin, hopen, hafter]
        exact ⟨hleft, rfl, hreq, h.answers, h.line, h.count, List.nil_prefix,
          Nat.zero_le _⟩
      · rw [h.stdin] at hline
        exact absurd hline (by decide)
  | @read got m hphase =>
      simp only [Outstanding, hphase] at h
      obtain ⟨⟨rest, hrest⟩, hlen⟩ := h.got
      have hdrop : file.drop got.length = rest := by rw [← hrest, List.drop_left]
      refine ⟨h.left, h.stdin, h.requests, h.answers, h.line, h.count, ?_, ?_⟩
      · rw [hdrop, ← hrest]
        exact (List.prefix_append_right_inj got).mpr (List.take_prefix _ _)
      · rw [List.length_append, List.length_take]
        omega
  | @print got hphase hend =>
      simp only [Outstanding, hphase] at h
      refine .inr ⟨h.left, h.stdin, h.requests, ?_, cfg.serve i got, ?_, ?_⟩
      · simp [OracleState.print, h.count]
      · simp [OracleState.print, ← h.count]
      · simp [OracleState.print, h.line, h.answers]
  | @flush out m hphase =>
      simp only [Outstanding, hphase] at h
      rcases h with ⟨rfl, h⟩ | h
      · refine .inl ⟨List.drop_nil, h.request, ?_, h.line, h.count⟩
        simp [OracleState.flush, h.answers]
      · obtain ⟨v, hv, heq⟩ := h.answer
        refine .inr ⟨h.left, h.stdin, h.requests, h.count, v, hv, ?_⟩
        rw [← heq]
        simp [OracleState.flush]
  | flushed hphase =>
      simp only [Outstanding, hphase] at h
      rcases h with ⟨-, h⟩ | h
      · exact .inl ⟨h.request, h.answers, h.line, h.count⟩
      · exact .inr ⟨h.left, h.stdin, h.requests, h.count, h.answer⟩
  | die =>
      show o.answers = [] ∧ line = [] ∨ _
      unfold Outstanding at h
      split at h
      · rcases h with h | h
        · exact .inl ⟨h.answers, h.line⟩
        · exact .inr ⟨h.left, [], h.answer⟩
      · exact .inl ⟨h.answers, h.line⟩
      · rcases h with ⟨-, h⟩ | h
        · exact .inl ⟨h.answers, h.line⟩
        · exact .inr ⟨h.left, _, h.answer⟩
      · exact h

/-- A step of a process, as the fuzzer sees it. -/
theorem Sees.step {v : View} (h : Sees cfg file k o v)
    (hstep : ReplayStep cfg file i o o') :
    Sees cfg file k o' v := by
  cases v with
  | quiet count =>
      obtain ⟨hans, halive⟩ := h
      by_cases hended : o.phase = .ended
      · rw [hstep.of_ended hended]
        exact ⟨hans, fun hne => absurd rfl hne⟩
      · obtain ⟨hans', halive'⟩ := (halive hended).step hstep
        exact ⟨hans'.trans hans, halive'⟩
  | outstanding left line => exact Outstanding.step h hstep
  | lost =>
      obtain ⟨hended, hans⟩ := h
      rw [hstep.of_ended (not_not.mp hended)]
      exact ⟨fun hne => hne rfl, hans⟩

/-- The answers a process adds are of the file, whole unless it is over the
limit. -/
theorem Sees.served {v : View} (h : Sees cfg file k o v)
    (hstep : ReplayStep cfg file i o o') :
    o'.served = o.served ∨ (∃ left line, v = .outstanding left line) ∧
      o.served.length = k ∧
      o'.served = o.served ++ [cfg.serve i (file.take (inputMax + 1))] := by
  cases hstep with
  | @print got hphase hend =>
      right
      cases v with
      | quiet count =>
          have hne : o.Alive := by simp [OracleState.Alive, hphase]
          rcases (h.2 hne).phase with hp | hp <;> rw [hphase] at hp <;> cases hp
      | outstanding left line =>
          simp only [Sees, Outstanding, hphase] at h
          obtain ⟨hpre, hlen⟩ := h.got
          have hgot : got = file.take (inputMax + 1) := by
            rcases hend with hend | hend
            · rw [← hend]
              exact List.prefix_iff_eq_take.mp hpre
            · rw [hpre.eq_of_length_le hend] at hlen ⊢
              exact (List.take_of_length_le hlen).symm
          exact ⟨⟨left, line, rfl⟩, h.count, by rw [← hgot]; rfl⟩
      | lost => exact absurd (not_not.mp h.1) (by simp [hphase])
  | fill m => exact .inl rfl
  | line => exact .inl rfl
  | read m => exact .inl rfl
  | flush m => exact .inl rfl
  | flushed => exact .inl rfl
  | die => exact .inl rfl

/-! ### Steps of the fuzzer -/

theorem Sees.request (h : Sees cfg file k o (.quiet k)) :
    Sees cfg file k o (.outstanding cfg.path.request []) := by
  obtain ⟨hans, halive⟩ := h
  by_cases hended : o.phase = .ended
  · simp only [Sees, Outstanding, hended]
    exact .inl ⟨hans, trivial⟩
  · obtain ⟨hphase, hreq, hstdin, hcount⟩ := halive hended
    have hasked : Asked cfg k cfg.path.request [] o := by
      refine ⟨?_, hans, rfl, hcount⟩
      rw [hstdin, hreq]
      rfl
    rcases hphase with hphase | hphase
    · simp only [Sees, Outstanding, hphase]
      exact .inl hasked
    · simp only [Sees, Outstanding, hphase]
      exact .inl ⟨trivial, hasked⟩

theorem Outstanding.write (h : Outstanding cfg file k left line o) (m : ℕ)
    (halive : o.Alive) :
    Outstanding cfg file k (left.drop m) line (o.request left m) := by
  have hasked : Asked cfg k left line o →
      Asked cfg k (left.drop m) line (o.request left m) := by
    intro h
    refine ⟨?_, h.answers, h.line, h.count⟩
    rw [← h.request]
    simp [OracleState.request]
  have hprinted : ∀ out, Printed k left line out o →
      Printed k (left.drop m) line out (o.request left m) := by
    intro out h
    refine ⟨?_, h.stdin, ?_, h.count, h.answer⟩
    · simp [h.left]
    · simp [OracleState.request, h.left, h.requests]
  unfold Outstanding at h ⊢
  show (match o.phase with
    | .fgets => _ | .fread got => _ | .fflush out => _ | .ended => _)
  cases hphase : o.phase with
  | fgets =>
      rw [hphase] at h
      exact h.imp hasked (hprinted _)
  | fread got =>
      rw [hphase] at h
      refine ⟨?_, h.stdin, ?_, h.answers, h.line, h.count, h.got⟩
      · simp [h.left]
      · simp [OracleState.request, h.left, h.requests]
  | fflush out =>
      rw [hphase] at h
      exact h.imp (And.imp_right hasked) (hprinted _)
  | ended => exact absurd hphase halive

/-- A request that cannot be sent whole is lost. -/
theorem Outstanding.lost (h : Outstanding cfg file k left line o) (hleft : left ≠ [])
    (hended : ¬ o.Alive) :
    Sees cfg file k o .lost := by
  have hphase : o.phase = .ended := not_not.mp hended
  simp only [Outstanding, hphase] at h
  rcases h with h | h
  · exact ⟨hended, h.1⟩
  · exact absurd h.1 hleft

/-- What an outstanding request has in its pipe is of its answer. -/
theorem Outstanding.answered {b : UInt8} {rest : List UInt8}
    (h : Outstanding cfg file k left line o) (hans : o.answers = b :: rest) :
    ∃ out, Answered k line out o ∧
      ∀ line', Answered k line' out { o with answers := rest } →
      Outstanding cfg file k left line' { o with answers := rest } ∧
      (out = [] → o.Alive → Rests (k + 1) { o with answers := rest }) := by
  have hnil : o.answers ≠ [] := by simp [hans]
  unfold Outstanding at h
  split at h
  · rename_i hphase
    rcases h with h | h
    · exact absurd h.answers hnil
    · refine ⟨[], h.answer, fun line' h' =>
        ⟨?_, fun _ _ => ⟨.inl hphase, h.requests, h.stdin, h.count⟩⟩⟩
      simp only [Outstanding, hphase]
      exact .inr ⟨h.left, h.stdin, h.requests, h.count, h'⟩
  · exact absurd h.answers hnil
  · rename_i out hphase
    rcases h with h | h
    · exact absurd h.2.answers hnil
    · refine ⟨out, h.answer, fun line' h' => ⟨?_, fun hout _ => ?_⟩⟩
      · simp only [Outstanding, hphase]
        exact .inr ⟨h.left, h.stdin, h.requests, h.count, h'⟩
      · subst hout
        exact ⟨.inr hphase, h.requests, h.stdin, h.count⟩
  · rename_i hphase
    rcases h with h | ⟨hleft, out, h⟩
    · exact absurd h.1 hnil
    · refine ⟨out, h, fun line' h' => ⟨?_, fun _ halive => absurd hphase halive⟩⟩
      simp only [Outstanding, hphase]
      exact .inr ⟨hleft, out, h'⟩

/-- The fuzzer reads one more byte of an answer that fits. -/
theorem Outstanding.read {b : UInt8} {rest : List UInt8}
    (h : Outstanding cfg file k left line o) (hans : o.answers = b :: rest)
    (hfits : ∀ v, o.served[k]? = some v → v.line.length + 1 < lineMax) :
    Outstanding cfg file k left (putByte lineMax line b) { o with answers := rest } := by
  obtain ⟨out, ⟨v, hv, heq⟩, hnext⟩ := h.answered hans
  rw [hans] at heq
  have hlen : line.length + 1 < lineMax := by
    have hle := congrArg List.length heq
    have hv := hfits v hv
    simp only [List.length_append, List.length_cons, List.length_nil] at hle
    omega
  have hput : putByte lineMax line b = line ++ [b] := if_pos hlen
  rw [hput]
  refine (hnext (line ++ [b]) ⟨v, hv, ?_⟩).1
  rw [← heq]
  simp

/-- At the newline the fuzzer has the answer, and nothing else is left. -/
theorem Outstanding.readLine {rest : List UInt8} (h : Outstanding cfg file k left line o)
    (hans : o.answers = newline :: rest)
    (hone : ∀ v, o.served[k]? = some v → newline ∉ v.line) :
    Sees cfg file k { o with answers := rest } (.quiet (k + 1)) ∧
      ∃ v, o.served[k]? = some v ∧ v.line = line := by
  obtain ⟨out, ⟨v, hv, heq⟩, hnext⟩ := h.answered hans
  have hline : line ++ newline :: (rest ++ out) = v.line ++ [newline] := by
    rw [← heq, hans]
    simp
  obtain ⟨rfl, hnil⟩ := eq_of_newline hline (hone v hv)
  obtain ⟨hrest, hout⟩ := List.append_eq_nil_iff.mp hnil
  have hread : Answered k (v.line ++ [newline]) out { o with answers := rest } := by
    refine ⟨v, hv, ?_⟩
    simp [hrest, hout]
  refine ⟨⟨hrest, fun halive => (hnext _ hread).2 hout halive⟩, v, hv, rfl⟩

end Oracle

end Diffsecp
