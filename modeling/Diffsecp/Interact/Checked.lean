import Diffsecp.Interact.Contract

/-!
# Interact — Checked

Programs that stop at a step their checks refuse, such as an access outside
an array. `Tracks dev h p q r s R`: from `r` and `s` no check stops `p`, it
does what `q` does, and its value is related by `R` to the value of `q`.
-/

namespace Diffsecp.Interact

universe v w

variable {D : Type → Type w} {Q : Type → Type v} {O α α' β β' ρ σ : Type}

/-- A program that may be stopped. -/
abbrev Checked (D : Type → Type w) (Q : Type → Type v) (O α : Type) :=
  OptionT (Prog D Q O) α

/-- A step that needs no check. -/
def Checked.step (p : Prog D Q O α) : Checked D Q O α := OptionT.lift p

/-- Go on with the value, where the check allows it. -/
def Checked.check (o : Option α) : Checked D Q O α := OptionT.mk (pure o)

def Tracks (dev : Handler D ρ) (h : Handler Q σ) (p : Checked D Q O α) (q : Prog D Q O β)
    (r : ρ) (s : σ) (R : α → β → ρ → Prop) : Prop :=
  ∃ a, p.run.run dev h r s =
      ⟨some a, (q.run dev h r s).rest, (q.run dev h r s).state, (q.run dev h r s).log,
        (q.run dev h r s).out⟩ ∧
    R a (q.run dev h r s).val (q.run dev h r s).rest

namespace Tracks

variable {dev : Handler D ρ} {h : Handler Q σ} {r : ρ} {s : σ} {R : α → β → ρ → Prop}

theorem pure {a : α} {b : β} (hR : R a b r) :
    Tracks dev h (pure a : Checked D Q O α) (pure b : Prog D Q O β) r s R := ⟨a, rfl, hR⟩

/-- The rule of sequence. -/
theorem bind {R' : α' → β' → ρ → Prop} {p : Checked D Q O α} {q : Prog D Q O β}
    {f : α → Checked D Q O α'} {g : β → Prog D Q O β'} (hp : Tracks dev h p q r s R)
    (hf : ∀ a b r' s', R a b r' → Tracks dev h (f a) (g b) r' s' R') :
    Tracks dev h (p >>= f) (q >>= g) r s R' := by
  obtain ⟨a, hrun, hR⟩ := hp
  obtain ⟨a', hrun', hR'⟩ := hf a _ _ (q.run dev h r s).state hR
  refine ⟨a', ?_, by simpa using hR'⟩
  rw [OptionT.run_bind, Option.elimM, Prog.run_bind, hrun]
  dsimp only [Option.elim]
  rw [hrun', Prog.run_bind]

/-- A step both sides take. -/
theorem step {p : Prog D Q O α} {R : α → α → ρ → Prop}
    (hR : R (p.run dev h r s).val (p.run dev h r s).val (p.run dev h r s).rest) :
    Tracks dev h (Checked.step p) p r s R := by
  refine ⟨(p.run dev h r s).val, ?_, hR⟩
  rw [show (Checked.step p : Checked D Q O α).run = some <$> p from rfl, Prog.run_map]

/-- A step both sides take, then the rest. -/
theorem step_bind {R : α' → β' → ρ → Prop} {p : Prog D Q O α} {f : α → Checked D Q O α'}
    {g : α → Prog D Q O β'}
    (hf : ∀ s', Tracks dev h (f (p.run dev h r s).val) (g (p.run dev h r s).val)
      (p.run dev h r s).rest s' R) :
    Tracks dev h (Checked.step p >>= f) (p >>= g) r s R :=
  bind (step (R := fun a b r' => a = (p.run dev h r s).val ∧ b = a ∧
    r' = (p.run dev h r s).rest) ⟨rfl, rfl, rfl⟩) fun a b r' s' hab => by
      obtain ⟨rfl, rfl, rfl⟩ := hab
      exact hf s'

/-- A call both sides make, answered as the contract says. -/
theorem invoke_bind {γ : Type} {C : Contract Q γ} (hh : h.Meets C) (c : γ)
    {R : α' → β' → ρ → Prop} {q : Q β} (hq : C.req c q) {f : β → Checked D Q O α'}
    {g : β → Prog D Q O β'}
    (hf : ∀ x s', C.spec c q x → Tracks dev h (f x) (g x) r s' R) :
    Tracks dev h (Checked.step (Prog.invoke q) >>= f) (Prog.invoke q >>= g) r s R :=
  step_bind fun s' => hf _ s' (hh c β q s hq)

/-- A check that passes. -/
theorem check_bind {R : α' → β' → ρ → Prop} {o : Option α} {a : α}
    {f : α → Checked D Q O α'} {q : Prog D Q O β'} (ho : o = some a)
    (hf : Tracks dev h (f a) q r s R) :
    Tracks dev h (Checked.check o >>= f) q r s R := by
  subst ho
  exact hf

theorem ite {c : Prop} [Decidable c] {p p' : Checked D Q O α} {q q' : Prog D Q O β}
    (hpos : c → Tracks dev h p q r s R) (hneg : ¬ c → Tracks dev h p' q' r s R) :
    Tracks dev h (if c then p else p') (if c then q else q') r s R := by
  by_cases hc : c
  · rw [if_pos hc, if_pos hc]
    exact hpos hc
  · rw [if_neg hc, if_neg hc]
    exact hneg hc

theorem mono {R' : α → β → ρ → Prop} {p : Checked D Q O α} {q : Prog D Q O β}
    (hp : Tracks dev h p q r s R) (himp : ∀ a b r, R a b r → R' a b r) :
    Tracks dev h p q r s R' := by
  obtain ⟨a, hrun, hR⟩ := hp
  exact ⟨a, hrun, himp _ _ _ hR⟩

end Tracks

end Diffsecp.Interact
