import Diffsecp.Interact.Prog

/-!
# Interact — Contract

What a caller owes an interface and what it gets back. A `Contract` has a
ghost state, so that a requirement may speak about earlier calls. `Sat` is
the weakest precondition of a program under a contract, with every answer
the contract allows; `Sat.run` turns it into a fact about the run against any
handler that meets the contract.
-/

namespace Diffsecp.Interact

universe u v w

variable {D : Type → Type w} {Q : Type → Type v} {O α β ρ σ : Type} {γ : Type u}

/-- Requirements on calls, promises on answers, and the ghost update. -/
structure Contract (Q : Type → Type v) (γ : Type u) where
  req : γ → {β : Type} → Q β → Prop
  spec : γ → {β : Type} → Q β → β → Prop
  next : γ → {β : Type} → Q β → β → γ

namespace Contract

/-- A contract that does not look at earlier calls. -/
def stateless (req : {β : Type} → Q β → Prop) (spec : {β : Type} → Q β → β → Prop) :
    Contract Q Unit :=
  ⟨fun _ _ => req, fun _ _ => spec, fun _ _ _ _ => ()⟩

/-- A contract whose ghost state is the log of the calls so far. -/
def history (req : List (Event Q) → {β : Type} → Q β → Prop)
    (spec : List (Event Q) → {β : Type} → Q β → β → Prop) : Contract Q (List (Event Q)) :=
  ⟨req, spec, fun l _ q a => l ++ [⟨q, a⟩]⟩

/-- The ghost state after the calls of `l`. -/
def after (C : Contract Q γ) : γ → List (Event Q) → γ
  | g, [] => g
  | g, e :: l => C.after (C.next g e.op e.ans) l

/-- Every call of `l` met its requirement when it was made. -/
def Kept (C : Contract Q γ) : γ → List (Event Q) → Prop
  | _, [] => True
  | g, e :: l => C.req g e.op ∧ C.Kept (C.next g e.op e.ans) l

/-- Every call of `l` that met its requirement was answered as promised. -/
def Answered (C : Contract Q γ) : γ → List (Event Q) → Prop
  | _, [] => True
  | g, e :: l => (C.req g e.op → C.spec g e.op e.ans) ∧ C.Answered (C.next g e.op e.ans) l

theorem Answered.of_append {C : Contract Q γ} {g : γ} {l l' : List (Event Q)}
    (h : C.Answered g (l ++ l')) : C.Answered g l := by
  induction l generalizing g with
  | nil => trivial
  | cons e l ih => exact ⟨h.1, ih h.2⟩

theorem stateless_kept {req : {β : Type} → Q β → Prop}
    {spec : {β : Type} → Q β → β → Prop} {g : Unit} {l : List (Event Q)} :
    (stateless req spec).Kept g l ↔ ∀ e ∈ l, req e.op := by
  induction l with
  | nil => simp [Kept]
  | cons e l ih =>
      simp only [Kept, List.forall_mem_cons, ih]
      exact Iff.rfl

theorem history_after {req : List (Event Q) → {β : Type} → Q β → Prop}
    {spec : List (Event Q) → {β : Type} → Q β → β → Prop} (g l : List (Event Q)) :
    (history req spec).after g l = g ++ l := by
  induction l generalizing g with
  | nil => simp [after]
  | cons e l ih =>
      rw [after, ih]
      simp [history]

theorem history_kept {req : List (Event Q) → {β : Type} → Q β → Prop}
    {spec : List (Event Q) → {β : Type} → Q β → β → Prop} {g l : List (Event Q)} :
    (history req spec).Kept g l ↔ ∀ l₁ e l₂, l = l₁ ++ e :: l₂ → req (g ++ l₁) e.op := by
  induction l generalizing g with
  | nil => simp [Kept]
  | cons e l ih =>
      simp only [Kept, ih]
      constructor
      · rintro ⟨he, hl⟩ l₁ e' l₂ heq
        cases l₁ with
        | nil =>
            cases heq
            rw [List.append_nil]
            exact he
        | cons e₁ l₁ =>
            cases heq
            simpa [history] using hl l₁ e' l₂ rfl
      · intro hall
        refine ⟨by simpa [history] using hall [] e l rfl, fun l₁ e' l₂ heq => ?_⟩
        simpa [history] using hall (e :: l₁) e' l₂ (by rw [heq, List.cons_append])

end Contract

/-- `h` keeps the promises of `C` on every call that meets its requirement. -/
def Handler.Meets (h : Handler Q σ) (C : Contract Q γ) : Prop :=
  ∀ (g : γ) (β : Type) (q : Q β) (s : σ), C.req g q → C.spec g q (h.answer q s).1

/-- Its answers in a run do. -/
theorem Handler.Meets.answered {h : Handler Q σ} {C : Contract Q γ} (hh : h.Meets C)
    (dev : Handler D ρ) (p : Prog D Q O α) (r : ρ) (g : γ) (s : σ) :
    C.Answered g (p.run dev h r s).log := by
  induction p generalizing r g s with
  | ret a => trivial
  | read e k ih => exact ih _ _ g s
  | put o k ih => exact ih r g s
  | call q k ih => exact ⟨hh g _ q s, ih _ r _ _⟩

/-- Every call `p` can make under `C` meets its requirement, and every way it
can end satisfies `Post`, which sees the value, the device state, the ghost
state and the blocks put. -/
def Sat (dev : Handler D ρ) (C : Contract Q γ) :
    Prog D Q O α → ρ → γ → (α → ρ → γ → List (List O) → Prop) → Prop
  | .ret a, r, g, Post => Post a r g []
  | .read e k, r, g, Post => Sat dev C (k (dev.answer e r).1) (dev.answer e r).2 g Post
  | .put o k, r, g, Post => Sat dev C k r g fun a r g os => Post a r g (o :: os)
  | .call q k, r, g, Post =>
      C.req g q ∧ ∀ x, C.spec g q x → Sat dev C (k x) r (C.next g q x) Post

section Sat

variable {dev : Handler D ρ} {C : Contract Q γ} {r : ρ} {g : γ}
  {Post : α → ρ → γ → List (List O) → Prop}

@[simp] theorem sat_pure (a : α) :
    Sat dev C (pure a : Prog D Q O α) r g Post ↔ Post a r g [] :=
  Iff.rfl

@[simp] theorem sat_ask {e : D β} {Post : β → ρ → γ → List (List O) → Prop} :
    Sat dev C (Prog.ask e : Prog D Q O β) r g Post ↔
    Post (dev.answer e r).1 (dev.answer e r).2 g [] := Iff.rfl

@[simp] theorem sat_emit {o : List O} {Post : Unit → ρ → γ → List (List O) → Prop} :
    Sat dev C (Prog.emit o : Prog D Q O Unit) r g Post ↔ Post () r g [o] := Iff.rfl

@[simp] theorem sat_invoke {q : Q β} {Post : β → ρ → γ → List (List O) → Prop} :
    Sat dev C (Prog.invoke q : Prog D Q O β) r g Post ↔
      C.req g q ∧ ∀ x, C.spec g q x → Post x r (C.next g q x) [] := Iff.rfl

theorem Sat.mono {Post' : α → ρ → γ → List (List O) → Prop} {p : Prog D Q O α}
    (h : Sat dev C p r g Post) (himp : ∀ a r g os, Post a r g os → Post' a r g os) :
    Sat dev C p r g Post' := by
  induction p generalizing r g Post Post' with
  | ret a => exact himp _ _ _ _ h
  | read e k ih => exact ih _ h himp
  | put o k ih => exact ih h fun a r g os => himp a r g (o :: os)
  | call q k ih => exact ⟨h.1, fun x hx => ih x (h.2 x hx) himp⟩

/-- The rule of sequence: the blocks of the parts are put one after the
other. -/
@[simp] theorem sat_bind {p : Prog D Q O α} {f : α → Prog D Q O β}
    {Post : β → ρ → γ → List (List O) → Prop} :
    Sat dev C (p >>= f) r g Post ↔
      Sat dev C p r g fun a r g os =>
        Sat dev C (f a) r g fun b r g os' => Post b r g (os ++ os') := by
  show Sat dev C (p.bind f) r g Post ↔ _
  induction p generalizing r g Post with
  | ret a => simp [Prog.bind, Sat]
  | read e k ih => exact ih _
  | put o k ih => exact ih.trans (by simp only [Sat, List.cons_append])
  | call q k ih =>
      simp only [Prog.bind, Sat]
      exact and_congr Iff.rfl (forall_congr' fun x => imp_congr Iff.rfl (ih x))

@[simp] theorem sat_map {f : α → β} {p : Prog D Q O α}
    {Post : β → ρ → γ → List (List O) → Prop} :
    Sat dev C (f <$> p) r g Post ↔ Sat dev C p r g fun a r g os => Post (f a) r g os := by
  rw [← bind_pure_comp, sat_bind]
  simp

/-- Soundness: a run whose calls are answered as promised makes only calls
that meet their requirements, and ends in the postcondition. -/
theorem Sat.run_answered {h : Handler Q σ} {p : Prog D Q O α}
    (hp : Sat dev C p r g Post) (s : σ) (hans : C.Answered g (p.run dev h r s).log) :
    C.Kept g (p.run dev h r s).log ∧
      Post (p.run dev h r s).val (p.run dev h r s).rest (C.after g (p.run dev h r s).log)
        (p.run dev h r s).out := by
  induction p generalizing r g s Post with
  | ret a => exact ⟨trivial, hp⟩
  | read e k ih => exact ih _ hp s hans
  | put o k ih => exact ih hp s hans
  | call q k ih =>
      obtain ⟨hlog, hpost⟩ := ih _ (hp.2 _ (hans.1 hp.1)) (h.answer q s).2 hans.2
      exact ⟨⟨hp.1, hlog⟩, hpost⟩

/-- So does a run against a handler that meets the contract. -/
theorem Sat.run {h : Handler Q σ} {p : Prog D Q O α} (hp : Sat dev C p r g Post)
    (hh : h.Meets C) (s : σ) :
    C.Kept g (p.run dev h r s).log ∧
      Post (p.run dev h r s).val (p.run dev h r s).rest (C.after g (p.run dev h r s).log)
        (p.run dev h r s).out :=
  hp.run_answered s (hh.answered dev p r g s)

/-- A step that keeps an invariant keeps it over a loop. -/
theorem Sat.loop {more : Prog D Q O Bool} {test : ρ → Bool} {step : α → Prog D Q O α}
    {I : α → ρ → γ → Prop}
    (hmore : ∀ r g (Post : Bool → ρ → γ → List (List O) → Prop),
      Post (test r) r g [] → Sat dev C more r g Post)
    (hstep : ∀ a r g, I a r g → Sat dev C (step a) r g fun a r g _ => I a r g)
    (n : Nat) {a : α} (ha : I a r g) :
    Sat dev C (Prog.loop more step n a) r g fun a r g _ => I a r g := by
  induction n generalizing a r g with
  | zero => exact ha
  | succ n ih =>
      rw [Prog.loop, sat_bind]
      apply hmore
      cases test r with
      | false => exact ha
      | true => exact sat_bind.mpr ((hstep a r g ha).mono fun _ _ _ _ h => ih h)

end Sat

end Diffsecp.Interact
