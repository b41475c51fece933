import Diffsecp.Interact.Prog

/-!
# Interact — Structure

What the structure of a program shows, whatever it runs on. `Gives P p`: the
value of every run has `P`. `Avoids f p`: no run makes a call that `f` picks;
it is a class, so that a program built from parts that avoid such calls is
found to avoid them.
-/

namespace Diffsecp.Interact

universe v w

variable {D : Type → Type w} {Q : Type → Type v} {O α β δ ε κ : Type}

structure Gives (P : α → Prop) (p : Prog D Q O α) : Prop where
  val : ∀ {ρ σ : Type} (dev : Handler D ρ) (h : Handler Q σ) (r : ρ) (s : σ),
    P (p.run dev h r s).val

namespace Gives

theorem pure {P : α → Prop} {a : α} (h : P a) : Gives P (pure a : Prog D Q O α) :=
  ⟨fun _ _ _ _ => h⟩

theorem bind {P : β → Prop} {p : Prog D Q O α} {f : α → Prog D Q O β}
    (h : ∀ a, Gives P (f a)) :
    Gives P (p >>= f) where
  val dev h' r s := by
    rw [Prog.run_bind]
    exact (h _).val dev h' _ _

theorem ite {P : α → Prop} {c : Prop} [Decidable c] {p q : Prog D Q O α} (hp : Gives P p)
    (hq : Gives P q) :
    Gives P (if c then p else q) := by
  split
  · exact hp
  · exact hq

end Gives

class Avoids (f : Event Q → Option κ) (p : Prog D Q O α) : Prop where
  none : ∀ {ρ σ : Type} (dev : Handler D ρ) (h : Handler Q σ) (r : ρ) (s : σ),
    (p.run dev h r s).log.filterMap f = []

namespace Avoids

variable {f : Event Q → Option κ}

instance pure (a : α) : Avoids f (pure a : Prog D Q O α) := ⟨fun _ _ _ _ => rfl⟩

instance emit (o : List O) : Avoids f (Prog.emit o : Prog D Q O Unit) :=
  ⟨fun _ _ _ _ => rfl⟩

instance ask (e : D β) : Avoids f (Prog.ask e : Prog D Q O β) := ⟨fun _ _ _ _ => rfl⟩

/-- A call that is not of the kind, whatever its answer. -/
theorem invoke {q : Q β} (h : ∀ x, f ⟨q, x⟩ = Option.none) :
    Avoids f (Prog.invoke q : Prog D Q O β) where
  none _ _ _ _ := by
    rw [Prog.run_invoke, List.filterMap_cons_none (h _), List.filterMap_nil]

/-- The picked calls of a sequence are those of its parts. -/
theorem filterMap_bind {ρ σ : Type} {dev : Handler D ρ} {h : Handler Q σ} {r : ρ} {s : σ}
    {p : Prog D Q O α} {g : α → Prog D Q O β} {l l' : List κ}
    (hp : (p.run dev h r s).log.filterMap f = l)
    (hg : ∀ a r s, ((g a).run dev h r s).log.filterMap f = l') :
    ((p >>= g).run dev h r s).log.filterMap f = l ++ l' := by
  rw [Prog.run_bind, List.filterMap_append, hp, hg]

theorem skip {ρ σ : Type} {dev : Handler D ρ} {h : Handler Q σ} {r : ρ} {s : σ}
    {p : Prog D Q O α} [hp : Avoids f p] {g : α → Prog D Q O β} {l : List κ}
    (hg : ∀ a r s, ((g a).run dev h r s).log.filterMap f = l) :
    ((p >>= g).run dev h r s).log.filterMap f = l := filterMap_bind (hp.none dev h r s) hg

theorem seq {p : Prog D Q O α} {g : α → Prog D Q O β} (hp : Avoids f p)
    (hg : ∀ a, Avoids f (g a)) :
    Avoids f (p >>= g) where
  none dev h r s := by
    rw [Prog.run_bind, List.filterMap_append, hp.none dev h r s, (hg _).none dev h,
      List.nil_append]

instance bind (p : Prog D Q O α) (g : α → Prog D Q O β) [hp : Avoids f p]
    [hg : ∀ a, Avoids f (g a)] :
    Avoids f (p >>= g) := seq hp hg

/-! A value of a type with one shape or two is taken apart by what follows. -/

instance (priority := high) bindProd (p : Prog D Q O (α × β)) (g : α × β → Prog D Q O δ)
    [hp : Avoids f p] [hg : ∀ a b, Avoids f (g (a, b))] : Avoids f (p >>= g) :=
      seq hp fun x => hg x.1 x.2

instance (priority := 10001) bindTriple (p : Prog D Q O (α × β × δ))
    (g : α × β × δ → Prog D Q O ε) [hp : Avoids f p]
    [hg : ∀ a b c, Avoids f (g (a, b, c))] : Avoids f (p >>= g) :=
  seq hp fun x => hg x.1 x.2.1 x.2.2

instance (priority := high) bindOption (p : Prog D Q O (Option α))
    (g : Option α → Prog D Q O β) [hp : Avoids f p] [hnone : Avoids f (g Option.none)]
    [hsome : ∀ a, Avoids f (g (some a))] :
    Avoids f (p >>= g) := seq hp fun x => match x with
  | Option.none => hnone
  | some a => hsome a

instance ite (c : Prop) [Decidable c] (p q : Prog D Q O α) [hp : Avoids f p]
    [hq : Avoids f q] :
    Avoids f (if c then p else q) := by
  split
  · exact hp
  · exact hq

end Avoids

/-! ## One answer given -/

section First

variable {σ ρ : Type} (h : Handler Q σ) {q : Q β} {x : β}

open Classical in
/-- `h`, but a call of `q` that comes first is answered `x`. -/
noncomputable def Handler.first (h : Handler Q σ) (q : Q β) (x : β) :
    Handler Q (Bool × σ) where
  answer {β'} q' s :=
    if hq : s.1 = true ∧ (⟨β', q'⟩ : Σ β, Q β) = ⟨β, q⟩ then
      (cast (congrArg Sigma.fst hq.2).symm x, (false, s.2))
    else
      let a := h.answer q' s.2
      (a.1, (false, a.2))

theorem Handler.first_call (s : σ) :
    (h.first q x).answer q (true, s) = (x, (false, s)) := by
  rw [Handler.first]
  dsimp only
  rw [dif_pos ⟨rfl, rfl⟩]
  rfl

theorem Handler.first_next {β' : Type} (q' : Q β') (s : σ) :
    (h.first q x).answer q' (false, s) =
      ((h.answer q' s).1, (false, (h.answer q' s).2)) := by
  rw [Handler.first]
  dsimp only
  rw [dif_neg (fun hq => Bool.noConfusion hq.1)]

/-- It answers the rest as `h` does. -/
theorem Prog.run_first_log (dev : Handler D ρ) (p : Prog D Q O α) (r : ρ) (s : σ) :
    (p.run dev (h.first q x) r (false, s)).log = (p.run dev h r s).log := by
  induction p generalizing r s with
  | ret a => rfl
  | read e k ih => exact ih _ _ _
  | put o k ih => exact ih _ _
  | call q' k ih =>
      simp only [Prog.run, Handler.first_next]
      rw [ih]

/-- Where no handler makes a program call what `f` picks, no answer to its
first call makes it. -/
theorem Prog.filterMap_call {f : Event Q → Option κ} {dev : Handler D ρ}
    {k : β → Prog D Q O α} {r : ρ} (hcall : ∀ {σ : Type} (h : Handler Q σ) (s : σ),
      ((Prog.call q k).run dev h r s).log.filterMap f = [])
    (x : β) (s : σ) : f ⟨q, x⟩ = none ∧ ((k x).run dev h r s).log.filterMap f = [] := by
  have hfirst := hcall (h.first q x) (true, s)
  simp only [Prog.run, Handler.first_call, Prog.run_first_log] at hfirst
  cases hf : f ⟨q, x⟩ with
  | none =>
      rw [List.filterMap_cons_none hf] at hfirst
      exact ⟨rfl, hfirst⟩
  | some c =>
      rw [List.filterMap_cons_some hf] at hfirst
      cases hfirst

end First

end Diffsecp.Interact
