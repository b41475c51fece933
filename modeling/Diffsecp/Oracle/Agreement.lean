import Diffsecp.Oracle.Paired

/-!
# Oracle — Agreement

What holds over any number of calls, and of what a call returns.
-/

namespace Diffsecp

open Interact

variable {n : ℕ} {cfg : Oracles n}

/-- How the fuzzer sees oracle `i` in call `k`. -/
def FuzzerPhase.view (f : FuzzerPhase n) (k : ℕ) (i : Fin n) : View :=
  match f with
  | .idle => .quiet k
  | .fwrite _ _ => .quiet k
  | .exited _ => .quiet k
  | .sending c j left =>
      if i.val < j then (if c.sent[i.val]? = some true then .outstanding [] [] else .lost)
      else if i.val = j then .outstanding left [] else .quiet k
  | .reading c j line =>
      if i.val < j then .quiet (k + 1)
      else if c.sent[i.val]? = some true
        then .outstanding [] (if i.val = j then line else []) else .lost

/-! ## The calls -/

/-- An oracle's answer, or that it gave none, is not the reference. -/
def refuses (reference : UInt64) : Option (List UInt8) → Bool
  | none => true
  | some line => !accepts line reference

/-- The calls `cs` are answered in order: the `k`-th answer of a process is to
the input of the `k`-th call, and what the `k`-th call took from it is that
answer. -/
structure Accounted (cfg : Oracles n) (served : Fin n → List Served)
    (cs : List (Call n)) : Prop where
  origin : ∀ (i : Fin n) (k : ℕ) (v : Served), (served i)[k]? = some v →
    ∃ c : Call n, cs[k]? = some c ∧ v = cfg.serve i (c.input.take (inputMax + 1))
  pairing : ∀ (k : ℕ) (c : Call n), cs[k]? = some c → ∀ (i : Fin n) (line : List UInt8),
    c.taken[i.val]? = some (some line) →
    ∃ v : Served, (served i)[k]? = some v ∧ v.line = line
  verdict : ∀ c ∈ cs, c.diverged.map Fin.val = c.taken.findIdx? (refuses c.reference)

section Accounted

variable {served : Fin n → List Served} {cs : List (Call n)} {c c' : Call n}

/-- A new call. -/
theorem Accounted.fresh (h : Accounted cfg served cs) (htaken : c.taken = [])
    (hdiv : c.diverged = none) :
    Accounted cfg served (cs ++ [c]) where
  origin i k v hv := by
    obtain ⟨c', hc', heq⟩ := h.origin i k v hv
    exact ⟨c', by
      rw [List.getElem?_append_left (List.getElem?_eq_some_iff.mp hc').1]; exact hc', heq⟩
  pairing k c' hc' i line hline := by
    rw [List.getElem?_append] at hc'
    split at hc'
    · exact h.pairing k c' hc' i line hline
    · have hcc : c' = c := by simpa using List.mem_of_getElem? hc'
      rw [hcc, htaken] at hline
      cases hline
  verdict c' hc' := by
    rcases List.mem_append.mp hc' with hc' | hc'
    · exact h.verdict c' hc'
    · rw [List.mem_singleton.mp hc', htaken, hdiv]
      rfl

/-- The call going on goes on. -/
theorem Accounted.proceed (h : Accounted cfg served (cs ++ [c]))
    (hinput : c'.input = c.input)
    (htaken : ∀ (i : Fin n) (line : List UInt8), c'.taken[i.val]? = some (some line) →
      ∃ v : Served, (served i)[cs.length]? = some v ∧ v.line = line)
    (hverdict : c'.diverged.map Fin.val = c'.taken.findIdx? (refuses c'.reference)) :
    Accounted cfg served (cs ++ [c']) where
  origin i k v hv := by
    obtain ⟨d, hd, heq⟩ := h.origin i k v hv
    rw [List.getElem?_append] at hd ⊢
    split at hd
    · rename_i hk
      exact ⟨d, by rw [if_pos hk]; exact hd, heq⟩
    · rename_i hk
      rw [if_neg hk]
      have hdc : d = c := by simpa using List.mem_of_getElem? hd
      have hk0 : k - cs.length = 0 := by
        have hlt := (List.getElem?_eq_some_iff.mp hd).1
        rw [List.length_singleton] at hlt
        omega
      rw [hk0, heq, hdc, ← hinput]
      exact ⟨c', rfl, rfl⟩
  pairing k d hd i line hline := by
    rw [List.getElem?_append] at hd
    split at hd
    · rename_i hk
      exact h.pairing k d (by rw [List.getElem?_append_left hk]; exact hd) i line hline
    · rename_i hk
      have hdc : d = c' := by simpa using List.mem_of_getElem? hd
      have hk0 : k = cs.length := by
        have hlt := (List.getElem?_eq_some_iff.mp hd).1
        rw [List.length_singleton] at hlt
        omega
      rw [hdc] at hline
      rw [hk0]
      exact htaken i line hline
  verdict d hd := by
    rcases List.mem_append.mp hd with hd | hd
    · exact h.verdict d (List.mem_append_left _ hd)
    · rw [List.mem_singleton.mp hd]
      exact hverdict

/-- A call reads one oracle's answer. -/
theorem Accounted.judge (h : Accounted cfg served (cs ++ [c])) (i : Fin n)
    (hi : c.taken.length = i) {line : List UInt8} {taken : Option (List UInt8)}
    (hanswer : ∀ l, taken = some l →
      ∃ v : Served, (served i)[cs.length]? = some v ∧ v.line = l)
    (hrefuse : refuses c.reference taken = !accepts line c.reference) :
    Accounted cfg served (cs ++ [c.judge i line taken]) := by
  refine h.proceed rfl ?_ ?_
  · intro j l hl
    have hold : (cs ++ [c])[cs.length]? = some c := by simp
    rw [Call.judge, List.getElem?_append] at hl
    split at hl
    · exact h.pairing cs.length c hold j l hl
    · have hj : j = i := by
        have hlt := (List.getElem?_eq_some_iff.mp hl).1
        rw [List.length_singleton] at hlt
        exact Fin.ext (by omega)
      have htaken : taken = some l := by simpa [eq_comm] using List.mem_of_getElem? hl
      rw [hj]
      exact hanswer l htaken
  · have hverdict := h.verdict c (List.mem_append_right _ (List.mem_singleton_self c))
    show (if c.diverged = none ∧ accepts line c.reference = false then some i
      else c.diverged).map Fin.val = (c.taken ++ [taken]).findIdx? (refuses c.reference)
    rw [List.findIdx?_append, ← hverdict]
    cases hdiv : c.diverged with
    | some j => simp
    | none =>
        cases hacc : accepts line c.reference with
        | true => simp [hrefuse, hacc]
        | false => simp [hrefuse, hacc, hi]

/-- A process answers the call going on. -/
theorem Accounted.serve (h : Accounted cfg served (cs ++ [c]))
    {served' : Fin n → List Served} (i : Fin n) (hcount : (served i).length = cs.length)
    (hi : served' i = served i ++ [cfg.serve i (c.input.take (inputMax + 1))])
    (hother : ∀ j, j ≠ i → served' j = served j) : Accounted cfg served' (cs ++ [c]) where
  origin j k v hv := by
    by_cases hj : j = i
    · subst hj
      rw [hi, List.getElem?_append] at hv
      split at hv
      · exact h.origin j k v hv
      · have hk : k = cs.length := by
          have hlt := (List.getElem?_eq_some_iff.mp hv).1
          rw [List.length_singleton] at hlt
          omega
        have hvs : v = cfg.serve j (c.input.take (inputMax + 1)) := by
          simpa using List.mem_of_getElem? hv
        exact ⟨c, by simp [hk], hvs⟩
    · rw [hother j hj] at hv
      exact h.origin j k v hv
  pairing k d hd j line hline := by
    obtain ⟨v, hv, heq⟩ := h.pairing k d hd j line hline
    refine ⟨v, ?_, heq⟩
    by_cases hj : j = i
    · subst hj
      rw [hi, List.getElem?_append_left (List.getElem?_eq_some_iff.mp hv).1]
      exact hv
    · rw [hother j hj]
      exact hv
  verdict := h.verdict

end Accounted

/-! ## The invariant -/

/-- Where the fuzzer stands in a call. -/
def FuzzerPhase.Good (file : List UInt8) : FuzzerPhase n → Prop
  | .idle => True
  | .fwrite c left => file ++ left = c.input ∧ c.sent = [] ∧ c.taken = []
  | .sending c j _ => file = c.input ∧ c.sent.length = j ∧ c.taken = []
  | .reading c j _ => file = c.input ∧ c.sent.length = n ∧ c.taken.length = j
  | .exited _ => True

structure Paired (cfg : Oracles n) (s : OracleSystem n) : Prop where
  sees : ∀ i, Sees cfg s.file s.calls.length (s.oracle i) (s.fuzzer.view s.calls.length i)
  good : s.fuzzer.Good s.file
  accounted : Accounted cfg (fun i => (s.oracle i).served) s.history
  finished : ∀ c ∈ s.calls, c.taken.length = n

theorem paired_init : Paired cfg (oracleSystem cfg).init where
  sees i := ⟨rfl, fun _ => ⟨.inl rfl, rfl, rfl, rfl⟩⟩
  good := trivial
  accounted := ⟨fun _ _ _ hv => (by cases hv), fun _ _ hc => (by cases hc), fun _ hc =>
    (by cases hc)⟩
  finished c hc := by cases hc

section Steps

variable {s : OracleSystem n} {c : Call n} {left line : List UInt8}

/-- An outstanding request belongs to a call that has written its input. -/
theorem Paired.current_of_outstanding (h : Paired cfg s) {i : Fin n}
    (hview : s.fuzzer.view s.calls.length i = .outstanding left line) :
    ∃ c, s.history = s.calls ++ [c] ∧ s.file = c.input := by
  have hgood := h.good
  cases hf : s.fuzzer with
  | idle => rw [hf] at hview; cases hview
  | fwrite c left => rw [hf] at hview; cases hview
  | exited c => rw [hf] at hview; cases hview
  | sending c j left =>
      rw [hf] at hgood
      exact ⟨c, by rw [OracleSystem.history, hf]; rfl, hgood.1⟩
  | reading c j line =>
      rw [hf] at hgood
      exact ⟨c, by rw [OracleSystem.history, hf]; rfl, hgood.1⟩

theorem served_setOracle (s : OracleSystem n) {i : Fin n} {o : OracleState}
    (hserved : o.served = (s.oracle i).served) :
    (fun j => ((s.setOracle i o).oracle j).served) = fun j => (s.oracle j).served := by
  ext1 j
  show (Function.update s.oracle i o j).served = _
  by_cases hj : j = i
  · subst hj
    rw [Function.update_self, hserved]
  · rw [Function.update_of_ne hj]

theorem Paired.replay (h : Paired cfg s) (i : Fin n) {o : OracleState}
    (hstep : ReplayStep cfg s.file i (s.oracle i) o) : Paired cfg (s.setOracle i o) where
  sees :=
    let P j o := Sees cfg s.file s.calls.length o (s.fuzzer.view s.calls.length j)
    forall_update P P h.sees ((h.sees i).step hstep) fun _ _ hj => hj
  good := h.good
  finished := h.finished
  accounted := by
    rcases (h.sees i).served hstep with hsame | ⟨⟨left, line, hview⟩, hcount, hserved⟩
    · rw [served_setOracle s hsame]
      exact h.accounted
    · show Accounted cfg (fun j => (Function.update s.oracle i o j).served) s.history
      obtain ⟨c, hhist, hfile⟩ := h.current_of_outstanding hview
      have hacc := h.accounted
      rw [hhist] at hacc ⊢
      rw [hfile] at hserved
      refine hacc.serve i hcount ?_ fun j hj => ?_
      · rw [Function.update_self]
        exact hserved
      · rw [Function.update_of_ne hj]

theorem Paired.fopen (h : Paired cfg s) (input : List UInt8) (reference : UInt64)
    (hf : s.fuzzer = .idle) :
    Paired cfg { s with
      file := [], fuzzer := .fwrite ⟨input, reference, [], none, []⟩ input } where
  sees i := by
    have hsees := h.sees i
    rw [hf] at hsees
    exact hsees
  good := ⟨rfl, rfl, rfl⟩
  finished := h.finished
  accounted := by
    have hhist : s.history = s.calls := by
      rw [OracleSystem.history, hf]; simp [FuzzerPhase.current]
    have hacc := h.accounted
    rw [hhist] at hacc
    exact hacc.fresh rfl rfl

theorem Paired.fwrite (h : Paired cfg s) (m : ℕ) (hf : s.fuzzer = .fwrite c left) :
    Paired cfg { s with
      file := s.file ++ left.take m, fuzzer := .fwrite c (left.drop m) } where
  sees i := by
    have hsees := h.sees i
    rw [hf] at hsees
    exact hsees
  good := by
    have hgood := h.good
    rw [hf] at hgood
    refine ⟨?_, hgood.2⟩
    rw [List.append_assoc, List.take_append_drop]
    exact hgood.1
  finished := h.finished
  accounted := by
    have hacc := h.accounted
    rw [OracleSystem.history, hf] at hacc
    exact hacc

/-! ### Sending -/

theorem view_sent {k i : ℕ} {j : Fin n} (hj : j.val < i) :
    (FuzzerPhase.sending c i left).view k j =
      if c.sent[j.val]? = some true then .outstanding [] [] else .lost :=
  if_pos hj

theorem view_sending {k i : ℕ} {j : Fin n} (hj : j.val = i) :
    (FuzzerPhase.sending c i left).view k j = .outstanding left [] := by
  simp [FuzzerPhase.view, hj]

theorem view_unsent {k i : ℕ} {j : Fin n} (hj : i < j.val) :
    (FuzzerPhase.sending c i left).view k j = .quiet k := by
  have hlt : ¬ j.val < i := by omega
  have hne : j.val ≠ i := by omega
  simp [FuzzerPhase.view, hlt, hne]

theorem Paired.fclose (h : Paired cfg s) (hf : s.fuzzer = .fwrite c []) :
    Paired cfg { s with fuzzer := .sending c 0 cfg.path.request } where
  sees j := by
    have hsees := h.sees j
    rw [hf] at hsees
    rcases Nat.eq_zero_or_pos j.val with hj | hj
    · rw [view_sending hj]
      exact Sees.request hsees
    · rw [view_unsent hj]
      exact hsees
  good := by
    have hgood := h.good
    rw [hf, FuzzerPhase.Good, List.append_nil] at hgood
    exact ⟨hgood.1, by rw [hgood.2.1]; rfl, hgood.2.2⟩
  finished := h.finished
  accounted := by
    have hacc := h.accounted
    rw [OracleSystem.history, hf] at hacc
    exact hacc

theorem Paired.fail (h : Paired cfg s) (hf : s.fuzzer = .fwrite c left) :
    Paired cfg { s with fuzzer := .exited c } where
  sees j := by
    have hsees := h.sees j
    rw [hf] at hsees
    exact hsees
  good := trivial
  finished := h.finished
  accounted := by
    have hacc := h.accounted
    rw [OracleSystem.history, hf] at hacc
    exact hacc

theorem Paired.write (h : Paired cfg s) (i : Fin n) (m : ℕ)
    (hf : s.fuzzer = .sending c i left) (halive : (s.oracle i).Alive) :
    Paired cfg { s.setOracle i ((s.oracle i).request left m) with
      fuzzer := .sending c i (left.drop m) } where
  sees := by
    have hi := h.sees i
    rw [hf, view_sending rfl] at hi
    refine forall_update
      (fun j o => Sees cfg s.file s.calls.length o (s.fuzzer.view s.calls.length j))
      (fun j o => Sees cfg s.file s.calls.length o
        ((FuzzerPhase.sending c i (left.drop m)).view s.calls.length j)) h.sees ?_ ?_
    · rw [view_sending rfl]
      exact Outstanding.write hi m halive
    · intro j hj hsees
      rw [hf] at hsees
      rcases lt_or_gt_of_ne (Fin.val_ne_of_ne hj) with hlt | hgt
      · rw [view_sent hlt] at hsees ⊢
        exact hsees
      · rw [view_unsent hgt] at hsees ⊢
        exact hsees
  good := by
    have hgood := h.good
    rw [hf] at hgood
    exact hgood
  finished := h.finished
  accounted := by
    have hacc := h.accounted
    rw [OracleSystem.history, hf,
      ← served_setOracle s (o := (s.oracle i).request left m) rfl] at hacc
    exact hacc

/-- The request to oracle `i` is sent, or lost. -/
theorem Paired.setSent (h : Paired cfg s) (i : Fin n) (sent : Bool)
    (hf : s.fuzzer = .sending c i left) (hi : Sees cfg s.file s.calls.length (s.oracle i)
      (if sent then .outstanding [] [] else .lost)) :
    Paired cfg { s with
      fuzzer := .sending (c.setSent sent) (i + 1) cfg.path.request } where
  sees j := by
    have hsees := h.sees j
    have hgood := h.good
    rw [hf] at hgood
    rw [hf] at hsees
    have hlen : c.sent.length = i.val := hgood.2.1
    rcases lt_trichotomy j.val i.val with hlt | heq | hgt
    · rw [view_sent hlt] at hsees
      rw [view_sent (by omega), Call.setSent, List.getElem?_append_left (by omega)]
      exact hsees
    · rw [view_sent (by omega), Call.setSent, heq, ← hlen, List.getElem?_concat_length]
      rw [Fin.ext heq]
      simpa using hi
    · rw [view_unsent hgt] at hsees
      rcases Nat.eq_or_lt_of_le hgt with heq | hlt
      · rw [view_sending heq.symm]
        exact Sees.request hsees
      · rw [view_unsent hlt]
        exact hsees
  good := by
    have hgood := h.good
    rw [hf] at hgood
    refine ⟨hgood.1, ?_, hgood.2.2⟩
    rw [Call.setSent, List.length_append, hgood.2.1]
    rfl
  finished := h.finished
  accounted := by
    have hacc := h.accounted
    rw [OracleSystem.history, hf] at hacc
    refine hacc.proceed rfl ?_ ?_
    · have hold : (s.calls ++ [c])[s.calls.length]? = some c := by simp
      exact hacc.pairing s.calls.length c hold
    · exact hacc.verdict c (List.mem_append_right _ (List.mem_singleton_self c))

/-! ### Reading -/

theorem view_taken {k i : ℕ} {j : Fin n} (hj : j.val < i) :
    (FuzzerPhase.reading c i line).view k j = .quiet (k + 1) := if_pos hj

theorem view_reading {k i : ℕ} {j : Fin n} (hj : j.val = i) :
    (FuzzerPhase.reading c i line).view k j
      = if c.sent[j.val]? = some true then .outstanding [] line else .lost := by
  simp [FuzzerPhase.view, hj]

theorem view_waiting {k i : ℕ} {j : Fin n} (hj : i < j.val) :
    (FuzzerPhase.reading c i line).view k j
      = if c.sent[j.val]? = some true then .outstanding [] [] else .lost := by
  have hlt : ¬ j.val < i := by omega
  have hne : j.val ≠ i := by omega
  simp [FuzzerPhase.view, hlt, hne]

theorem Paired.sentAll (h : Paired cfg s) (hf : s.fuzzer = .sending c n left) :
    Paired cfg { s with fuzzer := .reading c 0 [] } where
  sees j := by
    have hsees := h.sees j
    rw [hf, view_sent j.isLt] at hsees
    rcases Nat.eq_zero_or_pos j.val with hj | hj
    · rw [view_reading hj]
      exact hsees
    · rw [view_waiting hj]
      exact hsees
  good := by
    have hgood := h.good
    rw [hf] at hgood
    exact ⟨hgood.1, hgood.2.1, by rw [hgood.2.2]; rfl⟩
  finished := h.finished
  accounted := by
    have hacc := h.accounted
    rw [OracleSystem.history, hf] at hacc
    exact hacc

/-- The lines of the process are one line each, and fit. -/
theorem Paired.served_line (h : Paired cfg s) {i : Fin n} {k : ℕ} {v : Served}
    (hv : (s.oracle i).served[k]? = some v) :
    newline ∉ v.line ∧ v.line.length + 1 < lineMax := by
  obtain ⟨c, -, rfl⟩ := h.accounted.origin i k v hv
  exact ⟨replayLine_oneLine _ _ _ _, replayLine_fits _ _ _ _⟩

theorem Paired.read (h : Paired cfg s) (i : Fin n) {b : UInt8} {rest : List UInt8}
    (hf : s.fuzzer = .reading c i line) (hsent : c.sent[i.val]? = some true)
    (hans : (s.oracle i).answers = b :: rest) :
    Paired cfg { s.setOracle i { s.oracle i with answers := rest } with
      fuzzer := .reading c i (putByte lineMax line b) } where
  sees := by
    have hi := h.sees i
    rw [hf, view_reading rfl, if_pos hsent] at hi
    refine forall_update
      (fun j o => Sees cfg s.file s.calls.length o (s.fuzzer.view s.calls.length j))
      (fun j o => Sees cfg s.file s.calls.length o
        ((FuzzerPhase.reading c i (putByte lineMax line b)).view s.calls.length j))
        h.sees ?_ ?_
    · rw [view_reading rfl, if_pos hsent]
      exact Outstanding.read hi hans fun v hv => (h.served_line hv).2
    · intro j hj hsees
      rw [hf] at hsees
      rcases lt_or_gt_of_ne (Fin.val_ne_of_ne hj) with hlt | hgt
      · rw [view_taken hlt] at hsees ⊢
        exact hsees
      · rw [view_waiting hgt] at hsees ⊢
        exact hsees
  good := by
    have hgood := h.good
    rw [hf] at hgood
    exact hgood
  finished := h.finished
  accounted := by
    have hacc := h.accounted
    rw [OracleSystem.history, hf,
      ← served_setOracle s (o := { s.oracle i with answers := rest }) rfl] at hacc
    exact hacc

/-- The call is done with oracle `i`. -/
theorem Paired.judge (h : Paired cfg s) (i : Fin n) {o : OracleState} {l : List UInt8}
    {taken : Option (List UInt8)} (hf : s.fuzzer = .reading c i line)
    (hi : Sees cfg s.file s.calls.length o (.quiet (s.calls.length + 1)))
    (hserved : o.served = (s.oracle i).served)
    (hanswer : ∀ l, taken = some l →
      ∃ v : Served, (s.oracle i).served[s.calls.length]? = some v ∧ v.line = l)
    (hrefuse : refuses c.reference taken = !accepts l c.reference) :
    Paired cfg { s.setOracle i o with
      fuzzer := .reading (c.judge i l taken) (i + 1) [] } where
  sees := by
    refine forall_update
      (fun j o => Sees cfg s.file s.calls.length o (s.fuzzer.view s.calls.length j))
      (fun j o => Sees cfg s.file s.calls.length o
        ((FuzzerPhase.reading (c.judge i l taken) (i + 1) []).view s.calls.length j))
        h.sees ?_ ?_
    · rw [view_taken (Nat.lt_succ_self _)]
      exact hi
    · intro j hj hsees
      rw [hf] at hsees
      rcases lt_or_gt_of_ne (Fin.val_ne_of_ne hj) with hlt | hgt
      · rw [view_taken hlt] at hsees
        rw [view_taken (by omega)]
        exact hsees
      · rw [view_waiting hgt] at hsees
        rcases Nat.eq_or_lt_of_le hgt with heq | hlt
        · rw [view_reading heq.symm]
          exact hsees
        · rw [view_waiting hlt]
          exact hsees
  good := by
    have hgood := h.good
    rw [hf] at hgood
    refine ⟨hgood.1, hgood.2.1, ?_⟩
    rw [Call.judge, List.length_append, hgood.2.2]
    rfl
  finished := h.finished
  accounted := by
    have hgood := h.good
    have hacc := h.accounted
    rw [hf] at hgood
    rw [OracleSystem.history, hf] at hacc
    have hjudged := hacc.judge i hgood.2.2 hanswer hrefuse
    rw [← served_setOracle s hserved] at hjudged
    exact hjudged

theorem Paired.readLine (h : Paired cfg s) (i : Fin n) {rest : List UInt8}
    (hf : s.fuzzer = .reading c i line) (hsent : c.sent[i.val]? = some true)
    (hans : (s.oracle i).answers = newline :: rest) :
    Paired cfg { s.setOracle i { s.oracle i with answers := rest } with
      fuzzer := .reading (c.judge i line (some line)) (i + 1) [] } := by
  have hi := h.sees i
  rw [hf, view_reading rfl, if_pos hsent] at hi
  obtain ⟨hsees, hanswer⟩ := Outstanding.readLine hi hans fun v hv => (h.served_line hv).1
  refine h.judge i hf hsees rfl ?_ rfl
  rintro l ⟨rfl⟩
  exact hanswer

theorem Paired.noAnswer (h : Paired cfg s) (i : Fin n) (e : Ending)
    (hf : s.fuzzer = .reading c i line)
    (hlost : c.sent[i.val]? = some false ∨ (s.oracle i).answers = [])
    (hended : ¬ (s.oracle i).Alive) :
    Paired cfg { s with
      fuzzer := .reading (c.judge i (noAnswerLine lineMax e) none) (i + 1) [] } := by
  have hi := h.sees i
  rw [hf, view_reading rfl] at hi
  have hans : (s.oracle i).answers = [] := by
    rcases hlost with hlost | hans
    · rw [hlost] at hi
      exact hi.2
    · exact hans
  have hrefuse :
      refuses c.reference none = !accepts (noAnswerLine lineMax e) c.reference := by
    rw [accepts_noAnswerLine]
    rfl
  have hjudged :=
    h.judge i (o := s.oracle i) hf ⟨hans, fun halive => absurd halive hended⟩ rfl
    (fun l hl => by cases hl) hrefuse
  have hsame : s.setOracle i (s.oracle i) = s := by
    rw [OracleSystem.setOracle, Function.update_eq_self]
  rw [hsame] at hjudged
  exact hjudged

theorem Paired.ret (h : Paired cfg s) (hf : s.fuzzer = .reading c n line) :
    Paired cfg { s with fuzzer := .idle, calls := s.calls ++ [c] } where
  sees j := by
    have hsees := h.sees j
    rw [hf, view_taken j.isLt] at hsees
    show Sees cfg s.file (s.calls ++ [c]).length (s.oracle j)
      (.quiet (s.calls ++ [c]).length)
    rw [List.length_append]
    exact hsees
  good := trivial
  finished d hd := by
    rcases List.mem_append.mp hd with hd | hd
    · exact h.finished d hd
    · have hgood := h.good
      rw [hf] at hgood
      rw [List.mem_singleton.mp hd]
      exact hgood.2.2
  accounted := by
    have hacc := h.accounted
    rw [OracleSystem.history, hf] at hacc
    show Accounted cfg _ (s.calls ++ [c] ++ [])
    rw [List.append_nil]
    exact hacc

end Steps

theorem Paired.step {s s' : OracleSystem n} (h : Paired cfg s)
    (hstep : OracleStep cfg s s') :
    Paired cfg s' := by
  cases hstep with
  | replay i hr => exact h.replay i hr
  | fopen input reference hf => exact h.fopen input reference hf
  | fwrite m hf => exact h.fwrite m hf
  | fclose hf => exact h.fclose hf
  | fail hf => exact h.fail hf
  | interrupted => exact h
  | write i m hf halive => exact h.write i m hf halive
  | wrote i hf =>
      have hi := h.sees i
      rw [hf, view_sending rfl] at hi
      exact h.setSent i true hf hi
  | epipe i hf hleft hended =>
      have hi := h.sees i
      rw [hf, view_sending rfl] at hi
      exact h.setSent i false hf (Outstanding.lost hi hleft hended)
  | sentAll hf => exact h.sentAll hf
  | read i hf hsent hans _ => exact h.read i hf hsent hans
  | line i hf hsent hans => exact h.readLine i hf hsent hans
  | noAnswer i e hf hlost hended => exact h.noAnswer i e hf hlost hended
  | ret hf => exact h.ret hf

theorem paired {s : OracleSystem n} (h : (oracleSystem cfg).Reachable s) : Paired cfg s :=
  h.invariant paired_init fun _ _ => Paired.step

/-! ## Oracles that gave no answer -/

/-- An oracle that gave a call no answer has ended. -/
def Gone (s : OracleSystem n) : Prop :=
  ∀ c ∈ s.history, ∀ i : Fin n, c.taken[i.val]? = some none → ¬ (s.oracle i).Alive

section Gone

variable {s s' : OracleSystem n} {c c' : Call n}

/-- A step after which the calls took what they had taken, or nothing new from
a living oracle. -/
theorem Gone.mono (h : Gone s)
    (hended : ∀ i, ¬ (s.oracle i).Alive → ¬ (s'.oracle i).Alive)
    (hhist : ∀ c' ∈ s'.history, ∀ i : Fin n, c'.taken[i.val]? = some none →
      (∃ c ∈ s.history, c.taken[i.val]? = some none) ∨ ¬ (s'.oracle i).Alive) :
      Gone s' := by
  intro c' hc' i hi
  rcases hhist c' hc' i hi with ⟨c, hc, hi⟩ | hended'
  · exact hended i (h c hc i hi)
  · exact hended'

/-- The call going on took nothing new. -/
theorem Gone.keep (h : Gone s)
    (hended : ∀ i, ¬ (s.oracle i).Alive → ¬ (s'.oracle i).Alive)
    (hhist : s'.history = s.history) : Gone s' :=
  h.mono hended fun c' hc' _ hi => .inl ⟨c', hhist ▸ hc', hi⟩

/-- The call going on took what it had taken and perhaps more. -/
theorem Gone.proceed (h : Gone s)
    (hended : ∀ i, ¬ (s.oracle i).Alive → ¬ (s'.oracle i).Alive)
    (hs : s.history = s.calls ++ [c]) (hs' : s'.history = s.calls ++ [c'])
    (hnew : ∀ i : Fin n, c'.taken[i.val]? = some none →
      c.taken[i.val]? = some none ∨ ¬ (s'.oracle i).Alive) : Gone s' := by
  apply h.mono hended
  intro d hd i hi
  rw [hs'] at hd
  rcases List.mem_append.mp hd with hd | hd
  · exact .inl ⟨d, hs ▸ List.mem_append_left _ hd, hi⟩
  · rw [List.mem_singleton.mp hd] at hi
    rcases hnew i hi with hold | hnew
    · exact .inl ⟨c, hs ▸ List.mem_append_right _ (List.mem_singleton_self c), hold⟩
    · exact .inr hnew

theorem alive_setOracle {i : Fin n} {o : OracleState}
    (ho : ¬ (s.oracle i).Alive → ¬ o.Alive) (j : Fin n) (hj : ¬ (s.oracle j).Alive) :
    ¬ ((s.setOracle i o).oracle j).Alive := by
  show ¬ (Function.update s.oracle i o j).Alive
  by_cases hji : j = i
  · subst hji
    rw [Function.update_self]
    exact ho hj
  · rw [Function.update_of_ne hji]
    exact hj

/-- What a judged call took. -/
theorem Call.judge_taken {i : Fin n} {line : List UInt8}
    {t : Option (List UInt8)} {j : Fin n} (hlen : c.taken.length = i)
    (h : (c.judge i line t).taken[j.val]? = some none) :
    c.taken[j.val]? = some none ∨ t = none ∧ j = i := by
  rw [Call.judge, List.getElem?_append] at h
  split at h
  · exact .inl h
  · have hlt := (List.getElem?_eq_some_iff.mp h).1
    rw [List.length_singleton] at hlt
    have ht : t = none := by simpa [eq_comm] using List.mem_of_getElem? h
    exact .inr ⟨ht, Fin.ext (by omega)⟩

theorem Gone.step (h : Gone s) (hp : Paired cfg s)
    (hstep : OracleStep cfg s s') : Gone s' := by
  have hgood := hp.good
  cases hstep with
  | @replay i o hr =>
      refine h.keep (alive_setOracle fun hended => ?_) rfl
      rw [hr.of_ended (not_not.mp hended)]
      exact fun hne => hne rfl
  | fopen input reference hf =>
      refine h.mono (fun _ hi => hi) fun d hd i hi => ?_
      rcases List.mem_append.mp hd with hd | hd
      · exact .inl ⟨d, List.mem_append_left _ hd, hi⟩
      · rw [List.mem_singleton.mp hd] at hi
        cases hi
  | fwrite m hf => exact h.keep (fun _ hi => hi) (by
        rw [OracleSystem.history, OracleSystem.history, hf]; rfl)
  | fclose hf => exact h.keep (fun _ hi => hi) (by
        rw [OracleSystem.history, OracleSystem.history, hf]; rfl)
  | fail hf => exact h.keep (fun _ hi => hi) (by
        rw [OracleSystem.history, OracleSystem.history, hf]; rfl)
  | interrupted => exact h
  | write i m hf halive =>
      exact h.keep (alive_setOracle id)
        (by rw [OracleSystem.history, OracleSystem.history, hf]; rfl)
  | @wrote c i hf =>
      refine h.proceed (c := c) (fun _ hi => hi)
        (by rw [OracleSystem.history, hf]; rfl) rfl ?_
      exact fun _ hi => .inl hi
  | @epipe c left i hf hleft hended =>
      refine h.proceed (c := c) (fun _ hi => hi)
        (by rw [OracleSystem.history, hf]; rfl) rfl ?_
      exact fun _ hi => .inl hi
  | sentAll hf => exact h.keep (fun _ hi => hi) (by
        rw [OracleSystem.history, OracleSystem.history, hf]; rfl)
  | read i hf hsent hans hb =>
      exact h.keep (alive_setOracle id)
        (by rw [OracleSystem.history, OracleSystem.history, hf]; rfl)
  | @line c line rest i hf hsent hans =>
      rw [hf] at hgood
      refine h.proceed (c := c) (alive_setOracle id)
        (by rw [OracleSystem.history, hf]; rfl) rfl ?_
      intro j hj
      rcases Call.judge_taken hgood.2.2 hj with hj | ⟨hsome, -⟩
      · exact .inl hj
      · cases hsome
  | @noAnswer c line i e hf hlost hended =>
      rw [hf] at hgood
      refine h.proceed (c := c) (fun _ hi => hi)
        (by rw [OracleSystem.history, hf]; rfl) rfl ?_
      intro j hj
      rcases Call.judge_taken hgood.2.2 hj with hj | ⟨-, rfl⟩
      · exact .inl hj
      · exact .inr hended
  | ret hf =>
      refine h.keep (fun _ hi => hi) ?_
      rw [OracleSystem.history, OracleSystem.history, hf]
      exact List.append_nil _

theorem gone (h : (oracleSystem cfg).Reachable s) : Gone s := by
  have hboth : Paired cfg s ∧ Gone s := by
    refine h.invariant (I := fun s => Paired cfg s ∧ Gone s) ⟨paired_init, ?_⟩ ?_
    · intro c hc
      cases hc
    · intro s s' hs hstep
      exact ⟨hs.1.step hstep, hs.2.step hs.1 hstep⟩
  exact hboth.2

end Gone

/-! ## What a call returns -/

/-- Reading one byte past the limit tells an input over it. -/
theorem serve_take (cfg : Oracles n) (i : Fin n) (input : List UInt8) :
    (cfg.serve i (input.take (inputMax + 1))).line
        = replayLine (cfg.target i) (cfg.fn i) cfg.path.text input ∧
      (input.length ≤ inputMax →
        (cfg.serve i (input.take (inputMax + 1))).bytes = input) := by
  by_cases hlen : input.length ≤ inputMax
  · have htake : input.take (inputMax + 1) = input := List.take_of_length_le (by omega)
    rw [htake]
    exact ⟨rfl, fun _ => rfl⟩
  · have hover : inputMax < (input.take (inputMax + 1)).length := by
      rw [List.length_take]
      omega
    refine ⟨?_, fun hle => absurd hle hlen⟩
    simp only [Oracles.serve, replayLine, if_pos hover, if_pos (not_le.mp hlen)]

/-- An oracle's answer is accepted exactly when it agrees. -/
theorem Paired.agrees_iff {s : OracleSystem n} (h : Paired cfg s) {k : ℕ} {c : Call n}
    (hc : s.history[k]? = some c) {i : Fin n} {t : Option (List UInt8)}
    (ht : c.taken[i.val]? = some t) :
    refuses c.reference t = false ↔ c.Agrees cfg i := by
  cases t with
  | none => simp [refuses, Call.Agrees, ht]
  | some line =>
      obtain ⟨v, hv, rfl⟩ := h.accounted.pairing k c hc i line ht
      obtain ⟨d, hd, rfl⟩ := h.accounted.origin i k v hv
      have hdc : d = c := by
        rw [hc] at hd
        exact (Option.some.inj hd).symm
      subst hdc
      rw [(serve_take cfg i d.input).1] at ht ⊢
      rw [refuses, accepts_replayLine, Call.Agrees, ht]
      simp only [Bool.not_eq_false', decide_eq_true_eq, Option.some.injEq]
      constructor
      · rintro ⟨hlen, hdigest⟩
        rw [replayLine, if_neg (not_lt.mpr hlen), hdigest]
        exact ⟨rfl, hlen, rfl⟩
      · rintro ⟨-, hlen, hdigest⟩
        exact ⟨hlen, hdigest⟩

/-- A call that has returned names the first oracle that does not agree. -/
theorem Paired.diverged_iff {s : OracleSystem n} (h : Paired cfg s) {c : Call n}
    (hc : c ∈ s.calls) : (c.diverged = none ↔ ∀ i, c.Agrees cfg i) ∧
      ∀ i, c.diverged = some i → ¬ c.Agrees cfg i ∧ ∀ j < i, c.Agrees cfg j := by
  obtain ⟨k, hk⟩ := List.mem_iff_getElem?.mp (List.mem_append_left s.fuzzer.current hc)
  have hlen := h.finished c hc
  have hget : ∀ i : Fin n, ∃ t, c.taken[i.val]? = some t := fun i =>
    ⟨_, List.getElem?_eq_getElem (by rw [hlen]; exact i.isLt)⟩
  have hverdict := h.accounted.verdict c (List.mem_append_left _ hc)
  constructor
  · have hnone : c.diverged = none ↔ c.taken.findIdx? (refuses c.reference) = none := by
      rw [← hverdict, Option.map_eq_none_iff]
    rw [hnone, List.findIdx?_eq_none_iff]
    constructor
    · intro hall i
      obtain ⟨t, ht⟩ := hget i
      exact (h.agrees_iff hk ht).mp (hall t (List.mem_of_getElem? ht))
    · intro hall t ht
      obtain ⟨j, hj⟩ := List.mem_iff_getElem?.mp ht
      have hjn : j < n := by
        rw [← hlen]
        exact (List.getElem?_eq_some_iff.mp hj).1
      exact (h.agrees_iff hk (i := ⟨j, hjn⟩) hj).mpr (hall _)
  · intro i hi
    rw [hi, Option.map_some] at hverdict
    obtain ⟨hilen, hbad, hbefore⟩ := List.findIdx?_eq_some_iff_getElem.mp hverdict.symm
    constructor
    · intro hagrees
      rw [(h.agrees_iff hk (List.getElem?_eq_getElem hilen)).mpr hagrees] at hbad
      cases hbad
    · intro j hj
      have hjlen : j.val < c.taken.length := lt_trans hj hilen
      exact (h.agrees_iff hk (List.getElem?_eq_getElem hjlen)).mp
        (by simpa using hbefore j.val hj)

/-- However the fuzzer and the processes interleave, whatever dies and however
little each system call moves: the line the `k`-th call takes from an oracle is
the one printed for the `k`-th request, and between calls the pipes of the
living are empty; the file is only written while no living process is to read
it, so the `k`-th answer is of the `k`-th input; and a call returns the first
oracle that does not answer with the reference, or has ended. -/
theorem oracle_check_paired (cfg : Oracles n) (s : OracleSystem n)
    (h : (oracleSystem cfg).Reachable s) :
    (∀ (k : ℕ) (c : Call n), s.history[k]? = some c → ∀ (i : Fin n) (line : List UInt8),
      c.taken[i.val]? = some (some line) →
        (s.oracle i).served[k]?.map Served.line = some line) ∧
    (s.fuzzer = .idle → ∀ i, (s.oracle i).Alive →
      (s.oracle i).requests = [] ∧ (s.oracle i).answers = [] ∧
        (s.oracle i).served.length = s.calls.length) ∧
    (∀ c left, s.fuzzer = .idle ∨ s.fuzzer = .fwrite c left → ∀ i, (s.oracle i).Alive →
      (s.oracle i).served.length = s.calls.length ∧
        ∀ got, (s.oracle i).phase ≠ .fread got) ∧
    (∀ (i : Fin n) (k : ℕ) (v : Served), (s.oracle i).served[k]? = some v → ∃ c : Call n,
      s.history[k]? = some c ∧
      v.line = replayLine (cfg.target i) (cfg.fn i) cfg.path.text c.input ∧
        (c.input.length ≤ inputMax → v.bytes = c.input)) ∧
    (∀ c ∈ s.calls, (c.returned cfg = none ↔ ∀ i, c.Agrees cfg i) ∧
      (∀ name, c.returned cfg = some name →
        ∃ i, cfg.name i = name ∧ ¬ c.Agrees cfg i ∧ ∀ j < i, c.Agrees cfg j) ∧
      ∀ i : Fin n, (∃ line, c.taken[i.val]? = some (some line)) ∨
        c.taken[i.val]? = some none ∧ ¬ (s.oracle i).Alive) := by
  have hpaired := paired h
  have hrests : ∀ c left, s.fuzzer = .idle ∨ s.fuzzer = .fwrite c left →
      ∀ i, (s.oracle i).Alive →
      (s.oracle i).answers = [] ∧ Rests s.calls.length (s.oracle i) := by
    intro c left hf i halive
    have hsees := hpaired.sees i
    rcases hf with hf | hf
    · rw [hf] at hsees
      exact ⟨hsees.1, hsees.2 halive⟩
    · rw [hf] at hsees
      exact ⟨hsees.1, hsees.2 halive⟩
  refine ⟨?_, ?_, ?_, ?_, ?_⟩
  · intro k c hc i line hline
    obtain ⟨v, hv, rfl⟩ := hpaired.accounted.pairing k c hc i line hline
    rw [hv]
    rfl
  · intro hf i halive
    obtain ⟨hans, hrest⟩ := hrests ⟨[], 0, [], none, []⟩ [] (.inl hf) i halive
    exact ⟨hrest.requests, hans, hrest.count⟩
  · intro c left hf i halive
    obtain ⟨-, hrest⟩ := hrests c left hf i halive
    refine ⟨hrest.count, fun got hphase => ?_⟩
    rcases hrest.phase with hp | hp <;> rw [hphase] at hp <;> cases hp
  · intro i k v hv
    obtain ⟨c, hc, rfl⟩ := hpaired.accounted.origin i k v hv
    exact ⟨c, hc, serve_take cfg i c.input⟩
  · intro c hc
    obtain ⟨hnone, hsome⟩ := hpaired.diverged_iff hc
    refine ⟨?_, ?_, ?_⟩
    · rw [Call.returned, Option.map_eq_none_iff]
      exact hnone
    · intro name hname
      obtain ⟨i, hi, hname⟩ := Option.map_eq_some_iff.mp hname
      exact ⟨i, hname, hsome i hi⟩
    · intro i
      have hlt : i.val < c.taken.length := by
        rw [hpaired.finished c hc]
        exact i.isLt
      have hget := List.getElem?_eq_getElem hlt
      cases ht : c.taken[i.val] with
      | some line => exact .inl ⟨line, by rw [hget, ht]⟩
      | none =>
          rw [ht] at hget
          exact .inr ⟨hget, gone h c (List.mem_append_left _ hc) i hget⟩

def samplePath : OraclePath where
  text := ascii "o/1/input"
  nonempty := by decide
  fits := by decide
  oneLine c hc := by
    have hall : ((ascii "o/1/input").all fun c => c ∉ [0, newline, 13]) =
        true := by decide
    simpa using List.all_eq_true.mp hall c hc

/-- One process, of a build that records the input as it is. -/
def sampleOracles : Oracles 1 where
  name _ := "arm"
  target _ := .keys
  fn _ := id
  path := samplePath

/-- The answer of `sampleOracles` to the input `[7]`. -/
def sampleAnswer : List UInt8 := replayLine .keys id (ascii "o/1/input") [7]

/-- The fuzzer can read an answer in the pipe to its end. -/
theorem reachable_readLine {s : OracleSystem n} {c : Call n} {i : Fin n}
    (rest l : List UInt8) (hl : newline ∉ l) {line : List UInt8}
    (h : (oracleSystem cfg).Reachable s) (hf : s.fuzzer = .reading c i line)
    (hsent : c.sent[i.val]? = some true)
    (hans : (s.oracle i).answers = l ++ newline :: rest)
    (hfits : line.length + l.length < lineMax) :
    ∃ s', (oracleSystem cfg).Reachable s' ∧ s'.calls = s.calls ∧
      s'.fuzzer = .reading (c.judge i (line ++ l) (some (line ++ l))) (i + 1) [] := by
  induction l generalizing s line with
  | nil =>
      rw [List.append_nil]
      exact ⟨_, .step h (.line i hf hsent hans), rfl, rfl⟩
  | cons b l ih =>
      have hb : b ≠ newline := fun heq => hl (heq ▸ List.mem_cons_self ..)
      have hput : putByte lineMax line b = line ++ [b] := by
        rw [List.length_cons] at hfits
        exact if_pos (by omega)
      have hnext := System.Reachable.step h (.read i hf hsent hans hb)
      rw [hput] at hnext
      obtain ⟨s', hs', hcalls, hfuzzer⟩ :=
        ih (fun hmem => hl (List.mem_cons_of_mem _ hmem)) hnext rfl
        (by simp [OracleSystem.setOracle]) (by
          rw [List.length_append, List.length_singleton]
          rw [List.length_cons] at hfits
          omega)
      exact ⟨s', hs', hcalls, by simpa using hfuzzer⟩

theorem sampleOracles_agree :
    ∃ s, (oracleSystem sampleOracles).Reachable s ∧ ∃ c ∈ s.calls, c.input = [7] ∧
      c.returned sampleOracles = none ∧ ∀ i, c.Agrees sampleOracles i := by
  have h0 : (oracleSystem sampleOracles).Reachable _ := .init
  have h1 := System.Reachable.step h0 (.fopen [7] (diffsecpDigest [7]) rfl)
  have h2 := System.Reachable.step h1 (.fwrite 1 rfl)
  have h3 := System.Reachable.step h2 (.fclose rfl)
  have h4 := System.Reachable.step h3 (.write 0 10 rfl fun hended => (by cases hended))
  have h5 := System.Reachable.step h4 (.wrote 0 rfl)
  have h6 := System.Reachable.step h5 (.sentAll rfl)
  have h7 := System.Reachable.step h6 (.replay 0 (.fill 10 rfl (by decide)))
  have h8 := System.Reachable.step h7 (.replay 0 (.line rfl (by decide)))
  have h9 := System.Reachable.step h8 (.replay 0 (.read 1 rfl))
  have h10 := System.Reachable.step h9 (.replay 0 (.print rfl (.inr (by decide))))
  have h11 := System.Reachable.step h10 (.replay 0 (.flush 100 rfl))
  obtain ⟨s, hs, hcalls, hfuzzer⟩ :=
    reachable_readLine (i := 0) [] sampleAnswer (by decide) h11 rfl rfl
    (by decide) (by decide)
  have hret := System.Reachable.step hs (.ret hfuzzer)
  obtain ⟨-, -, -, -, hc⟩ := oracle_check_paired sampleOracles _ hret
  have hlast := (hc _ (List.mem_append_right _ (List.mem_singleton_self _))).1
  have hnone : accepts sampleAnswer (diffsecpDigest [7]) = true := by decide
  have hreturned : Call.returned sampleOracles (Call.judge (n := 1)
      ⟨[7], diffsecpDigest [7], [true], none, []⟩ 0 sampleAnswer (some sampleAnswer)) =
      none := by
    simp [Call.returned, Call.judge, hnone]
  exact ⟨_, hret, _, List.mem_append_right _ (List.mem_singleton_self _), rfl, hreturned,
    hlast.mp hreturned⟩

end Diffsecp
