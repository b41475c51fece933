import Diffsecp.Interact.Prog

/-!
# Interact — Blind

Programs that cannot tell related device states apart: from two of them they
compute the same value, make the same calls and put the same blocks, and they
leave the device in related states. `Blind` is a class, so that a program
built from blind parts is found to be blind by its structure.
-/

namespace Diffsecp.Interact

universe v w

variable {D : Type → Type w} {Q : Type → Type v} {O α β δ ε ρ σ : Type}

/-- Two runs equal in all but the device states, which are related. -/
structure Same (sim : ρ → ρ → Prop) (w w' : Outcome Q O α ρ σ) : Prop where
  val : w.val = w'.val
  rest : sim w.rest w'.rest
  state : w.state = w'.state
  log : w.log = w'.log
  out : w.out = w'.out

class Blind (dev : Handler D ρ) (sim : ρ → ρ → Prop) (p : Prog D Q O α) : Prop where
  same : ∀ {σ : Type} (h : Handler Q σ) (r r' : ρ) (s : σ), sim r r' →
    Same sim (p.run dev h r s) (p.run dev h r' s)

namespace Blind

variable {dev : Handler D ρ} {sim : ρ → ρ → Prop}

instance pure (a : α) : Blind dev sim (pure a : Prog D Q O α) where
  same _ _ _ _ hr := ⟨rfl, hr, rfl, rfl, rfl⟩

instance emit (o : List O) : Blind dev sim (Prog.emit o : Prog D Q O Unit) where
  same _ _ _ _ hr := ⟨rfl, hr, rfl, rfl, rfl⟩

instance invoke (q : Q β) : Blind dev sim (Prog.invoke q : Prog D Q O β) where
  same _ _ _ _ hr := ⟨rfl, hr, rfl, rfl, rfl⟩

/-- A read is blind where related states answer alike. -/
theorem ask {e : D β} (h : ∀ r r', sim r r' →
    (dev.answer e r).1 = (dev.answer e r').1 ∧
      sim (dev.answer e r).2 (dev.answer e r').2) :
    Blind dev sim (Prog.ask e : Prog D Q O β) where
  same _ r r' _ hr := ⟨(h r r' hr).1, (h r r' hr).2, rfl, rfl, rfl⟩

theorem seq {p : Prog D Q O α} {f : α → Prog D Q O β} (hp : Blind dev sim p)
    (hf : ∀ a, Blind dev sim (f a)) : Blind dev sim (p >>= f) where
  same h r r' s hr := by
    have hfirst := hp.same h r r' s hr
    have hsecond :=
      (hf (p.run dev h r s).val).same h _ _ (p.run dev h r s).state hfirst.rest
    simp only [Prog.run_bind]
    rw [← hfirst.val, ← hfirst.state, ← hfirst.log, ← hfirst.out]
    exact ⟨hsecond.val, hsecond.rest, hsecond.state, congrArg (_ ++ ·) hsecond.log,
      congrArg (_ ++ ·) hsecond.out⟩

instance bind (p : Prog D Q O α) (f : α → Prog D Q O β) [hp : Blind dev sim p]
    [hf : ∀ a, Blind dev sim (f a)] : Blind dev sim (p >>= f) := seq hp hf

/-! A value of a type with one shape or two is taken apart by what follows. -/

instance (priority := high) bindProd (p : Prog D Q O (α × β)) (f : α × β → Prog D Q O δ)
    [hp : Blind dev sim p] [hf : ∀ a b, Blind dev sim (f (a, b))] :
    Blind dev sim (p >>= f) :=
  seq hp fun x => hf x.1 x.2

instance (priority := 10001) bindTriple (p : Prog D Q O (α × β × δ))
    (f : α × β × δ → Prog D Q O ε) [hp : Blind dev sim p]
    [hf : ∀ a b c, Blind dev sim (f (a, b, c))] :
    Blind dev sim (p >>= f) := seq hp fun x => hf x.1 x.2.1 x.2.2

instance (priority := high) bindOption (p : Prog D Q O (Option α))
    (f : Option α → Prog D Q O β) [hp : Blind dev sim p] [hnone : Blind dev sim (f none)]
    [hsome : ∀ a, Blind dev sim (f (some a))] :
    Blind dev sim (p >>= f) := seq hp fun x => match x with
  | none => hnone
  | some a => hsome a

instance ite (c : Prop) [Decidable c] (p q : Prog D Q O α) [hp : Blind dev sim p]
    [hq : Blind dev sim q] :
    Blind dev sim (if c then p else q) := by
  split
  · exact hp
  · exact hq

end Blind

end Diffsecp.Interact
