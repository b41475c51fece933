import Diffsecp.Interact.Contract

/-!
# Interact — Refine

A program that calls an interface against a reference program that calls
nothing. The reference is deterministic, so refinement is one-sided: however
the interface answers within its contract, the program reads the same from
the device, puts the same blocks and ends in a related value.
-/

namespace Diffsecp.Interact

universe u v w

variable {D : Type → Type w} {Q : Type → Type v} {O α β α' β' ρ σ : Type} {γ : Type u}

/-- The interface without operations. -/
inductive NoCall : Type → Type

def Handler.none : Handler NoCall Unit where
  answer q _ := nomatch q

/-- The run of a program that calls nothing. -/
def Prog.eval (dev : Handler D ρ) (i : Prog D NoCall O β) (r : ρ) :
    Outcome NoCall O β ρ Unit :=
  i.run dev Handler.none r ()

section Eval

variable (dev : Handler D ρ) (r : ρ)

@[simp] theorem eval_pure (b : β) :
    (pure b : Prog D NoCall O β).eval dev r = ⟨b, r, (), [], []⟩ := rfl

@[simp] theorem eval_ask (e : D β) :
    (Prog.ask e : Prog D NoCall O β).eval dev r
      = ⟨(dev.answer e r).1, (dev.answer e r).2, (), [], []⟩ := rfl

@[simp] theorem eval_emit (o : List O) :
    (Prog.emit o : Prog D NoCall O Unit).eval dev r = ⟨(), r, (), [], [o]⟩ := rfl

@[simp] theorem eval_bind (i : Prog D NoCall O β) (f : β → Prog D NoCall O β') :
    (i >>= f).eval dev r =
      let w := i.eval dev r
      let w' := (f w.val).eval dev w.rest
      { w' with log := w.log ++ w'.log, out := w.out ++ w'.out } :=
  Prog.run_bind dev Handler.none i f r ()

@[simp] theorem eval_map (f : β → β') (i : Prog D NoCall O β) :
    (f <$> i).eval dev r =
      let w := i.eval dev r
      ⟨f w.val, w.rest, w.state, w.log, w.out⟩ :=
  Prog.run_map dev Handler.none f i r ()

end Eval

/-- From `r` and `g`, `p` does what `i` does and ends related by `R`. -/
def Refines (dev : Handler D ρ) (C : Contract Q γ) (p : Prog D Q O α)
    (i : Prog D NoCall O β) (R : α → γ → β → Prop) (r : ρ) (g : γ) : Prop :=
  Sat dev C p r g fun a r' g' os =>
    r' = (i.eval dev r).rest ∧ os = (i.eval dev r).out ∧ R a g' (i.eval dev r).val

section Refines

variable {dev : Handler D ρ} {C : Contract Q γ} {r : ρ} {g : γ}

theorem Refines.pure {R : α → γ → β → Prop} {a : α} {b : β} (h : R a g b) :
    Refines dev C (pure a : Prog D Q O α) (pure b) R r g := ⟨rfl, rfl, h⟩

/-- Both sides read the same. -/
theorem Refines.ask_bind {R : α → γ → β → Prop} {δ : Type} {e : D δ}
    {f : δ → Prog D Q O α} {f' : δ → Prog D NoCall O β}
    (h : Refines dev C (f (dev.answer e r).1) (f' (dev.answer e r).1) R
      (dev.answer e r).2 g) :
    Refines dev C (Prog.ask e >>= f) (Prog.ask e >>= f') R r g := h

/-- Both sides put the same block. -/
theorem Refines.emit {o o' : List O} {R : Unit → γ → Unit → Prop} (ho : o = o')
    (h : R () g ()) :
    Refines dev C (Prog.emit o : Prog D Q O Unit) (Prog.emit o') R r g :=
  ⟨rfl, by rw [ho]; rfl, h⟩

theorem Refines.emit_bind {o o' : List O} {R : α → γ → β → Prop} {f : Unit → Prog D Q O α}
    {f' : Unit → Prog D NoCall O β} (ho : o = o')
    (h : Refines dev C (f ()) (f' ()) R r g) :
    Refines dev C (Prog.emit o >>= f) (Prog.emit o' >>= f') R r g := by
  subst ho
  apply sat_bind.mpr
  apply Sat.mono h
  intro a r' g' os hpost
  obtain ⟨hr, ho, hR⟩ := hpost
  exact ⟨hr, congrArg (o :: ·) ho, hR⟩

theorem Refines.mono {R R' : α → γ → β → Prop} {p : Prog D Q O α} {i : Prog D NoCall O β}
    (h : Refines dev C p i R r g) (himp : ∀ a g b, R a g b → R' a g b) :
    Refines dev C p i R' r g :=
  Sat.mono h fun _ _ _ _ ⟨hr, ho, hR⟩ => ⟨hr, ho, himp _ _ _ hR⟩

theorem Refines.bind {M : α → γ → β → Prop} {R : α' → γ → β' → Prop} {p : Prog D Q O α}
    {i : Prog D NoCall O β} {f : α → Prog D Q O α'} {f' : β → Prog D NoCall O β'}
    (hp : Refines dev C p i M r g)
    (hf : ∀ a g b r, M a g b → Refines dev C (f a) (f' b) R r g) :
    Refines dev C (p >>= f) (i >>= f') R r g := by
  refine sat_bind.mpr (Sat.mono hp fun a r' g' os => ?_)
  rintro ⟨rfl, rfl, hM⟩
  refine Sat.mono (hf a g' _ _ hM) fun b r'' g'' os' => ?_
  rintro ⟨rfl, rfl, hR⟩
  rw [eval_bind]
  exact ⟨rfl, rfl, hR⟩

/-- A call of `p` that the reference does not make. -/
theorem Refines.invoke_bind {R : α → γ → β → Prop} {δ : Type} {q : Q δ}
    {f : δ → Prog D Q O α} {i : Prog D NoCall O β} (hreq : C.req g q)
    (h : ∀ x, C.spec g q x → Refines dev C (f x) i R r (C.next g q x)) :
    Refines dev C (Prog.invoke q >>= f) i R r g := ⟨hreq, h⟩

/-- A part of `p` that reads nothing, puts nothing and has no counterpart in
the reference. -/
theorem Refines.silent_bind {R : α' → γ → β → Prop} {q : Prog D Q O α}
    {f : α → Prog D Q O α'} {i : Prog D NoCall O β}
    (h : Sat dev C q r g fun a r' g' os => r' = r ∧ os = [] ∧
      Refines dev C (f a) i R r g') :
    Refines dev C (q >>= f) i R r g := by
  refine sat_bind.mpr (Sat.mono h fun a r' g' os => ?_)
  rintro ⟨rfl, rfl, hf⟩
  exact hf

/-- Loops refine when their rounds do and their guards agree. -/
theorem Refines.loop {more : Prog D Q O Bool} {more' : Prog D NoCall O Bool}
    {step : α → Prog D Q O α} {step' : β → Prog D NoCall O β} {R : α → γ → β → Prop}
    (hmore : ∀ r g, Refines dev C more more' (fun b g' b' => b = b' ∧ g' = g) r g)
    (hstep : ∀ a g b r, R a g b → Refines dev C (step a) (step' b) R r g)
    (n : Nat) {a : α} {b : β} (h : R a g b) :
    Refines dev C (Prog.loop more step n a) (Prog.loop more' step' n b) R r g := by
  induction n generalizing a b r g with
  | zero => exact Refines.pure h
  | succ n ih =>
      refine Refines.bind (hmore r g) ?_
      rintro c g' _ r' ⟨rfl, rfl⟩
      cases c with
      | false => exact Refines.pure h
      | true => exact Refines.bind (hstep a _ b _ h) fun _ _ _ _ h => ih h

/-- What a refined reference says about a run: the run only makes calls that
meet their requirements, and leaves the device and the blocks as the
reference does. -/
theorem Refines.run {R : α → γ → β → Prop} {p : Prog D Q O α} {i : Prog D NoCall O β}
    {h : Handler Q σ} (hp : Refines dev C p i R r g) (hh : h.Meets C) (s : σ) :
    C.Kept g (p.run dev h r s).log ∧ (p.run dev h r s).rest = (i.eval dev r).rest ∧
      (p.run dev h r s).out = (i.eval dev r).out ∧
      R (p.run dev h r s).val (C.after g (p.run dev h r s).log) (i.eval dev r).val := by
  obtain ⟨hk, hr, ho, hR⟩ := Sat.run hp hh s
  exact ⟨hk, hr, ho, hR⟩

end Refines

end Diffsecp.Interact
