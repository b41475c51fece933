import Mathlib.Data.List.Forall2
import Mathlib.Data.List.OfFn
import Diffsecp.Interact.Lockstep

/-!
# Interact — Twin

Two programs over two interfaces that read the same, put the same blocks and
make calls pair by pair, on values that two implementations may represent
each in its way. Rules say which calls are a pair and what is asked of their
answers. However the implementations answer, either all pairs of answers keep
the rules and the runs put the same, or a first pair breaks them: a difference
in the output always has a pair of calls to blame.
-/

namespace Diffsecp.Interact

universe u u' v v' w

variable {D : Type → Type w} {Q : Type → Type v} {Q' : Type → Type v'} {O ρ σ σ' : Type}
  {α α' β β' : Type}

/-- Which calls are a pair, and what is asked of their answers. -/
structure Rules (Q : Type → Type v) (Q' : Type → Type v') where
  pair : {β β' : Type} → Q β → Q' β' → (β → β' → Prop) → Prop

/-- `p` and `p'` from `r`, with `Post` where both end. -/
inductive Twin (dev : Handler D ρ) (A : Rules Q Q') (Post : α → α' → Prop) :
    Prog D Q O α → Prog D Q' O α' → ρ → Prop where
  | ret {a a' r} (h : Post a a') : Twin dev A Post (.ret a) (.ret a') r
  | read {δ : Type} {e : D δ} {k k' r}
      (h : Twin dev A Post (k (dev.answer e r).1) (k' (dev.answer e r).1)
        (dev.answer e r).2) :
      Twin dev A Post (.read e k) (.read e k') r
  | put {o k k' r} (h : Twin dev A Post k k' r) : Twin dev A Post (.put o k) (.put o k') r
  | call {δ δ' : Type} {q : Q δ} {q' : Q' δ'} {ok k k' r} (hpair : A.pair q q' ok)
      (h : ∀ x x', ok x x' → Twin dev A Post (k x) (k' x') r) :
      Twin dev A Post (.call q k) (.call q' k') r

namespace Twin

variable {dev : Handler D ρ} {A : Rules Q Q'} {Post : α → α' → Prop} {r : ρ}

/-! ## Rules -/

theorem pure {a : α} {a' : α'} (h : Post a a') :
    Twin dev A Post (pure a : Prog D Q O α) (pure a' : Prog D Q' O α') r := .ret h

theorem mono {Post' : α → α' → Prop} {p : Prog D Q O α} {p' : Prog D Q' O α'}
    (h : Twin dev A Post p p' r) (himp : ∀ a a', Post a a' → Post' a a') :
    Twin dev A Post' p p' r := by
  induction h with
  | ret h => exact .ret (himp _ _ h)
  | read _ ih => exact .read ih
  | put _ ih => exact .put ih
  | call hpair _ ih => exact .call hpair ih

/-- The rule of sequence. -/
theorem bind {P : α → α' → Prop} {Post' : β → β' → Prop} {p : Prog D Q O α}
    {p' : Prog D Q' O α'} {f : α → Prog D Q O β} {f' : α' → Prog D Q' O β'}
    (hp : Twin dev A P p p' r)
    (hf : ∀ a a' r, P a a' → Twin dev A Post' (f a) (f' a') r) :
    Twin dev A Post' (p >>= f) (p' >>= f') r := by
  show Twin dev A Post' (p.bind f) (p'.bind f') r
  induction hp with
  | ret h => exact hf _ _ _ h
  | read _ ih => exact .read ih
  | put _ ih => exact .put ih
  | call hpair _ ih => exact .call hpair ih

theorem ask_bind {δ : Type} {e : D δ} {f : δ → Prog D Q O α} {f' : δ → Prog D Q' O α'}
    (h : ∀ x r, Twin dev A Post (f x) (f' x) r) :
    Twin dev A Post (Prog.ask e >>= f) (Prog.ask e >>= f') r :=
  .read (h _ _)

theorem emit_bind {o o' : List O} {f : Unit → Prog D Q O α}
    {f' : Unit → Prog D Q' O α'} (ho : o = o') (h : Twin dev A Post (f ()) (f' ()) r) :
    Twin dev A Post (Prog.emit o >>= f) (Prog.emit o' >>= f') r := by
  subst ho
  exact .put h

theorem emit {Post : Unit → Unit → Prop} {o o' : List O} (ho : o = o') (h : Post () ()) :
    Twin dev A Post (Prog.emit o) (Prog.emit o') r := by
  subst ho
  exact .put (.ret h)

theorem invoke_bind {δ δ' : Type} {q : Q δ} {q' : Q' δ'} {ok : δ → δ' → Prop}
    {f : δ → Prog D Q O α} {f' : δ' → Prog D Q' O α'} (hpair : A.pair q q' ok)
    (h : ∀ x x', ok x x' → Twin dev A Post (f x) (f' x') r) :
    Twin dev A Post (Prog.invoke q >>= f) (Prog.invoke q' >>= f') r := .call hpair h

theorem invoke {δ δ' : Type} {q : Q δ} {q' : Q' δ'} {ok Post : δ → δ' → Prop}
    (hpair : A.pair q q' ok) (h : ∀ x x', ok x x' → Post x x') :
    Twin dev A Post (Prog.invoke q : Prog D Q O δ) (Prog.invoke q' : Prog D Q' O δ') r :=
  .call hpair fun x x' hx => .ret (h x x' hx)

/-- Both sides take the same branch. -/
theorem ite {c : Prop} [Decidable c] {p q : Prog D Q O α} {p' q' : Prog D Q' O α'}
    (hpos : c → Twin dev A Post p p' r) (hneg : ¬ c → Twin dev A Post q q' r) :
    Twin dev A Post (if c then p else q) (if c then p' else q') r := by
  by_cases hc : c
  · rw [if_pos hc, if_pos hc]
    exact hpos hc
  · rw [if_neg hc, if_neg hc]
    exact hneg hc

/-- Loops are twins when their rounds are and their guards agree. -/
theorem loop {more : Prog D Q O Bool} {more' : Prog D Q' O Bool} {step : α → Prog D Q O α}
    {step' : α' → Prog D Q' O α'} (hmore : ∀ r, Twin dev A Eq more more' r)
    (hstep : ∀ a a' r, Post a a' → Twin dev A Post (step a) (step' a') r) (n : Nat)
    {a : α} {a' : α'} (h : Post a a') :
    Twin dev A Post (Prog.loop more step n a) (Prog.loop more' step' n a') r := by
  induction n generalizing a a' r with
  | zero => exact .ret h
  | succ n ih =>
      refine bind (hmore r) ?_
      rintro b _ r' rfl
      cases b with
      | false => exact .ret h
      | true => exact bind (hstep a a' r' h) fun _ _ _ h' => ih h'

/-! ## Lists of pairs -/

theorem forall₂_set {Rel : α → α' → Prop} {l : List α} {l' : List α'}
    (h : List.Forall₂ Rel l l') (i : Nat) {a : α} {a' : α'} (ha : Rel a a') :
    List.Forall₂ Rel (l.set i a) (l'.set i a') := by
  induction h generalizing i with
  | nil => exact .nil
  | cons hb hl ih =>
      cases i with
      | zero => exact .cons ha hl
      | succ i => exact .cons hb (ih i)

theorem forall₂_getElem? {Rel : α → α' → Prop} {l : List α} {l' : List α'}
    (h : List.Forall₂ Rel l l') (i : Nat) :
    Option.Rel Rel l[i]? l'[i]? := by
  induction h generalizing i with
  | nil => exact .none
  | cons hb _ ih =>
      cases i with
      | zero => exact .some hb
      | succ i => exact ih i

theorem forall₂_ofFn {Rel : α → α' → Prop} {n : Nat} {f : Fin n → α} {f' : Fin n → α'}
    (h : ∀ i, Rel (f i) (f' i)) :
    List.Forall₂ Rel (List.ofFn f) (List.ofFn f') := by
  rw [List.forall₂_iff_get]
  refine ⟨by simp, fun i hi _ => ?_⟩
  rw [List.length_ofFn] at hi
  simpa using h ⟨i, hi⟩

theorem forall₂_toList {Rel : α → α' → Prop} {a : Option α} {a' : Option α'}
    (h : Option.Rel Rel a a') :
    List.Forall₂ Rel a.toList a'.toList := by
  cases h with
  | none => exact .nil
  | some h => exact .cons h .nil

/-! ## Runs -/

/-- A pair of calls whose answers keep the rules. -/
def Kept (A : Rules Q Q') (e : Event Q) (e' : Event Q') : Prop :=
  ∃ ok, A.pair e.op e'.op ok ∧ ok e.ans e'.ans

/-- A pair of calls whose answers do not, after pairs whose answers do. -/
def Blames (A : Rules Q Q') (log : List (Event Q)) (log' : List (Event Q')) : Prop :=
  ∃ l e rest l' e' rest', log = l ++ e :: rest ∧ log' = l' ++ e' :: rest' ∧
    List.Forall₂ (Kept A) l l' ∧ ∃ ok, A.pair e.op e'.op ok ∧ ¬ ok e.ans e'.ans

theorem Blames.cons {e : Event Q} {e' : Event Q'} {log : List (Event Q)}
    {log' : List (Event Q')} (he : Kept A e e') (h : Blames A log log') :
    Blames A (e :: log) (e' :: log') := by
  obtain ⟨l, b, rest, l', b', rest', rfl, rfl, hkept, hbroken⟩ := h
  exact ⟨e :: l, b, rest, e' :: l', b', rest', rfl, rfl, .cons he hkept, hbroken⟩

/-- The runs agree, or a pair of calls is to blame. -/
theorem run_or_blames {p : Prog D Q O α} {p' : Prog D Q' O α'}
    (hp : Twin dev A Post p p' r) (h : Handler Q σ) (h' : Handler Q' σ')
    (s : σ) (s' : σ') : ((p.run dev h r s).out = (p'.run dev h' r s').out ∧
      (p.run dev h r s).rest = (p'.run dev h' r s').rest ∧
        Post (p.run dev h r s).val (p'.run dev h' r s').val ∧
        List.Forall₂ (Kept A) (p.run dev h r s).log (p'.run dev h' r s').log) ∨
      Blames A (p.run dev h r s).log (p'.run dev h' r s').log := by
  induction hp generalizing s s' with
  | ret hpost => exact .inl ⟨rfl, rfl, hpost, .nil⟩
  | read _ ih => exact ih s s'
  | put _ ih =>
      rcases ih s s' with ⟨hout, hrest⟩ | hblames
      · exact .inl ⟨congrArg _ hout, hrest⟩
      · exact .inr hblames
  | @call δ δ' q q' ok k k' r hpair _ ih =>
      by_cases hok : ok (h.answer q s).1 (h'.answer q' s').1
      · rcases ih _ _ hok (h.answer q s).2 (h'.answer q' s').2 with ⟨hout, hrest, hpost,
          hlog⟩ | hblames
        · exact .inl ⟨hout, hrest, hpost, .cons ⟨ok, hpair, hok⟩ hlog⟩
        · exact .inr (hblames.cons ⟨ok, hpair, hok⟩)
      · exact .inr ⟨[], _, _, [], _, _, rfl, rfl, .nil, ok, hpair, hok⟩

/-- Implementations whose answers keep the rules. -/
def Agree (A : Rules Q Q') (h : Handler Q σ) (h' : Handler Q' σ') : Prop :=
  ∀ {β β' : Type} (q : Q β) (q' : Q' β') (ok : β → β' → Prop), A.pair q q' ok →
    ∀ s s', ok (h.answer q s).1 (h'.answer q' s').1

/-- Such implementations are never to blame. -/
theorem Agree.run {h : Handler Q σ} {h' : Handler Q' σ'} (hA : Agree A h h')
    {p : Prog D Q O α} {p' : Prog D Q' O α'} (hp : Twin dev A Post p p' r)
    (s : σ) (s' : σ') : (p.run dev h r s).out = (p'.run dev h' r s').out := by
  rcases hp.run_or_blames h h' s s' with ⟨hout, -⟩ | ⟨l, e, rest, l', e', rest', hl, hl',
    -, ok, hpair, hbroken⟩
  · exact hout
  · obtain ⟨t, ht⟩ :=
      Prog.log_answered (hl ▸ List.mem_append_right l (List.mem_cons_self ..))
    obtain ⟨t', ht'⟩ :=
      Prog.log_answered (hl' ▸ List.mem_append_right l' (List.mem_cons_self ..))
    refine absurd ?_ hbroken
    rw [← ht, ← ht']
    exact hA e.op e'.op ok hpair t t'

end Twin

end Diffsecp.Interact
