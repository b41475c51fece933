import Diffsecp.Text.Words

/-!
# Text — Strtok

C strings in a memory of bytes, and `strtok_r`, which cuts one into tokens by
storing terminators in it.
-/

namespace Diffsecp.Text

/-- The string at `p`, up to its terminator. -/
def stringAt (mem : List UInt8) (p : ℕ) : List UInt8 := (mem.drop p).takeWhile (· ≠ 0)

/-- `s` and its terminator stand at `p`. -/
def StrAt (mem : List UInt8) (p : ℕ) (s : List UInt8) : Prop :=
  0 ∉ s ∧ ∀ i ≤ s.length, mem[p + i]? = some ((s[i]?).getD 0)

/-- The memories differ from `lo` up to `hi` at most. -/
def Agree (lo hi : ℕ) (mem mem' : List UInt8) : Prop :=
  ∀ i, i < lo ∨ hi ≤ i → mem'[i]? = mem[i]?

/-- `strtok_r` from `s` on: the memory it leaves, the token and where the next
call goes on. -/
def strtokR (mem : List UInt8) (s : ℕ) (delim : UInt8) : List UInt8 × Option ℕ × ℕ :=
  if stringAt mem s = [] then (mem, none, s)
  else
    let tok := s + ((stringAt mem s).takeWhile (· = delim)).length
    if stringAt mem tok = [] then (mem, none, tok)
    else
      let stop := tok + ((stringAt mem tok).takeWhile (· ≠ delim)).length
      if mem[stop]? = some 0 then (mem, some tok, stop)
      else (mem.set stop 0, some tok, stop + 1)

section Strings

variable {mem mem' mem'' : List UInt8} {p lo hi : ℕ} {s a b : List UInt8} {c : UInt8}

theorem Agree.refl (mem : List UInt8) : Agree lo hi mem mem := fun _ _ => rfl

theorem Agree.trans (h : Agree lo hi mem mem') (h' : Agree lo hi mem' mem'') :
    Agree lo hi mem mem'' :=
  fun i hi' => (h' i hi').trans (h i hi')

theorem Agree.mono {lo' hi' : ℕ} (h : Agree lo hi mem mem') (hlo : lo' ≤ lo)
    (hhi : hi ≤ hi') :
    Agree lo' hi' mem mem' :=
  fun i hi' => h i (by omega)

theorem Agree.set {i : ℕ} (hlo : lo ≤ i) (hhi : i < hi) (c : UInt8) :
    Agree lo hi mem (mem.set i c) :=
  fun j hj => List.getElem?_set_ne (by omega)

theorem StrAt.prefix_drop (h : StrAt mem p s) : s ++ [0] <+: mem.drop p := by
  rw [List.prefix_iff_getElem?]
  intro i hi
  rw [List.length_append, List.length_singleton] at hi
  rw [List.getElem?_drop, h.2 i (by omega)]
  rcases Nat.lt_or_ge i s.length with hlt | hge
  · rw [List.getElem?_eq_getElem hlt, List.getElem_append_left hlt, Option.getD_some]
  · rw [List.getElem?_eq_none hge, List.getElem_append_right hge, List.getElem_singleton,
      Option.getD_none]

theorem StrAt.stringAt_eq (h : StrAt mem p s) : stringAt mem p = s := by
  obtain ⟨rest, hrest⟩ := h.prefix_drop
  have hall : ∀ c ∈ s, decide (c ≠ 0) = true := by
    intro c hc
    exact decide_eq_true fun hzero => h.1 (hzero ▸ hc)
  rw [stringAt, ← hrest, List.append_assoc, List.takeWhile_append_of_pos hall]
  simp

/-- The end of a string is a string. -/
theorem StrAt.right (h : StrAt mem p (a ++ b)) : StrAt mem (p + a.length) b := by
  refine ⟨fun hmem => h.1 (List.mem_append_right a hmem), fun i hi => ?_⟩
  rw [Nat.add_assoc, h.2 (a.length + i) (by rw [List.length_append]; omega),
    List.getElem?_append_right (by omega), Nat.add_sub_cancel_left]

/-- A terminator stored in a string cuts it. -/
theorem StrAt.left (h : StrAt mem p (a ++ c :: b)) :
    StrAt (mem.set (p + a.length) 0) p a := by
  have hlen : p + a.length < mem.length := by
    have hget := h.2 a.length (by rw [List.length_append]; omega)
    exact (List.getElem?_eq_some_iff.mp hget).1
  refine ⟨fun hmem => h.1 (List.mem_append_left _ hmem), fun i hi => ?_⟩
  rcases Nat.lt_or_ge i a.length with hlt | hge
  · rw [List.getElem?_set_ne (by omega), h.2 i (by rw [List.length_append]; omega),
      List.getElem?_append_left hlt]
  · obtain rfl : i = a.length := by omega
    rw [List.getElem?_set_self hlen, List.getElem?_eq_none (Nat.le_refl _),
      Option.getD_none]

/-- A string stays where nothing is stored in it. -/
theorem StrAt.of_agree (h : StrAt mem p s) (hagree : Agree lo hi mem mem')
    (hout : p + s.length < lo ∨ hi ≤ p ∨ hi ≤ lo) : StrAt mem' p s :=
  ⟨h.1, fun i hi => by rw [hagree (p + i) (by omega), h.2 i hi]⟩

theorem StrAt.cut (h : StrAt mem p (a ++ c :: b)) :
    StrAt (mem.set (p + a.length) 0) (p + a.length + 1) b := by
  have hright : StrAt mem (p + (a ++ [c]).length) b := by
    apply StrAt.right
    rwa [List.append_assoc]
  rw [List.length_append, List.length_singleton, ← Nat.add_assoc] at hright
  exact hright.of_agree (Agree.set (Nat.le_refl _) (Nat.lt_succ_self _) 0) (by omega)

end Strings

section Tokens

variable {mem : List UInt8} {s : ℕ} {body w : List UInt8} {ws : List (List UInt8)}
  {delim : UInt8}

/-- A string without words has no token. -/
theorem strtokR_none (h : StrAt mem s body) (hwords : words (· = delim) body = []) :
    strtokR mem s delim = (mem, none, s + body.length) := by
  rw [words_eq_nil] at hwords
  rw [strtokR, h.stringAt_eq]
  by_cases hnil : body = []
  · rw [if_pos hnil, hnil]
    rfl
  · have htake : body.takeWhile (· = delim) = body :=
      List.takeWhile_eq_self_iff.mpr hwords
    have hend : StrAt mem (s + body.length) [] := by
      apply StrAt.right
      rwa [List.append_nil]
    rw [if_neg hnil]
    dsimp only
    rw [htake, hend.stringAt_eq, if_pos rfl]

/-- The first word is the token, which is cut off, and the other words are
those of what the next call goes on with. -/
theorem strtokR_some (h : StrAt mem s body) (hdelim : delim ≠ 0)
    (hwords : words (· = delim) body = w :: ws) :
    ∃ mem' tok save body', strtokR mem s delim = (mem', some tok, save) ∧
      StrAt mem' tok w ∧ s ≤ tok ∧
      StrAt mem' save body' ∧ words (· = delim) body' = ws ∧
      save + body'.length = s + body.length ∧
      (tok + w.length < save ∨ tok + w.length = save ∧ body' = []) ∧
      Agree s (s + body.length) mem mem' := by
  obtain ⟨lead, rest, rfl, hlead, hne, hw, hrest, hws⟩ := words_eq_cons.mp hwords
  obtain ⟨c, w', rfl⟩ := List.exists_cons_of_ne_nil hne
  have hskip : (lead ++ (c :: w' ++ rest)).takeWhile (· = delim) = lead := by
    rw [List.takeWhile_append_of_pos hlead, List.cons_append, List.takeWhile_cons_of_neg,
      List.append_nil]
    rw [hw c (List.mem_cons_self ..)]
    exact Bool.false_ne_true
  have htok := h.right
  have hword : ∀ c' ∈ c :: w', decide (c' ≠ delim) = true := by
    intro c' hc'
    exact decide_eq_true (of_decide_eq_false (hw c' hc'))
  have hnil : lead ++ (c :: w' ++ rest) ≠ [] := by simp
  have hnil' : c :: w' ++ rest ≠ [] := by simp
  rw [strtokR, h.stringAt_eq, if_neg hnil]
  dsimp only
  rw [hskip, htok.stringAt_eq, if_neg hnil', List.takeWhile_append_of_pos hword]
  cases rest with
  | nil =>
      have hend := htok.2 (c :: w').length (by simp)
      rw [List.append_nil] at hend htok
      rw [List.takeWhile_nil, List.append_nil, hend,
        List.getElem?_eq_none (Nat.le_refl _), Option.getD_none, if_pos rfl]
      have hstop : StrAt mem (s + lead.length + (c :: w').length) [] := by
        apply StrAt.right
        rwa [List.append_nil]
      refine ⟨mem, _, _, [], rfl, htok, Nat.le_add_right _ _, hstop, hws, ?_,
        .inr ⟨rfl, rfl⟩, Agree.refl mem⟩
      rw [List.length_append, List.length_nil, Nat.add_zero, Nat.add_assoc]
  | cons d rest =>
      have hlen : (lead ++ (c :: w' ++ d :: rest)).length =
          lead.length + ((c :: w').length + (rest.length + 1)) := by
        rw [List.length_append, List.length_append, List.length_cons (a := d)]
      have hd : d = delim := of_decide_eq_true (hrest d rfl)
      have hstop := htok.2 (c :: w').length (by rw [List.length_append]; omega)
      rw [List.getElem?_append_right (Nat.le_refl _), Nat.sub_self,
        List.getElem?_cons_zero, Option.getD_some] at hstop
      have htake : (d :: rest).takeWhile (· ≠ delim) = [] :=
        List.takeWhile_cons_of_neg (by simp [hd])
      rw [htake, List.append_nil, hstop, if_neg (by rw [hd]; simpa using hdelim)]
      refine ⟨_, _, _, rest, rfl, htok.left, Nat.le_add_right _ _, htok.cut, ?_, ?_,
        .inl (Nat.lt_succ_self _), Agree.set (by omega) ?_ 0⟩
      · rw [← hws, words_sep (by simp [hd])]
      · rw [hlen]
        omega
      · rw [hlen]
        omega

end Tokens

end Diffsecp.Text
