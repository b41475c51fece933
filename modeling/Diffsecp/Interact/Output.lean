import Diffsecp.Interact.Contract

/-!
# Interact — Output

How much a program puts. `Puts dev C p n P`: however the calls are answered,
`p` puts at most `n` elements and gives a value with `P`. The bound is a
budget: each rule takes from it what its program former puts, so that the
budget left after a block is what the rest may put. `Wrote dev C p`: `p` puts
at least one element.
-/

namespace Diffsecp.Interact

universe u v w

variable {D : Type → Type w} {Q : Type → Type v} {O α β ρ σ : Type} {γ : Type u}

/-- A contract that asks nothing of a call. -/
def Contract.Free (C : Contract Q γ) : Prop := ∀ g {β : Type} (q : Q β), C.req g q

/-- Nothing is asked, so every run ends somewhere. -/
theorem Sat.free {dev : Handler D ρ} {C : Contract Q γ} (hC : C.Free) (p : Prog D Q O α)
    (r : ρ) (g : γ) :
    Sat dev C p r g fun _ _ _ _ => True := by
  induction p generalizing r g with
  | ret a => trivial
  | read e k ih => exact ih _ _ _
  | put o k ih => exact ih r g
  | call q k ih => exact ⟨hC g q, fun x _ => ih x r _⟩

structure Puts (dev : Handler D ρ) (C : Contract Q γ) (p : Prog D Q O α) (n : ℕ)
    (P : α → Prop) : Prop where
  sat : ∀ r g, Sat dev C p r g fun a _ _ os => P a ∧ os.flatten.length ≤ n

structure Wrote (dev : Handler D ρ) (C : Contract Q γ) (p : Prog D Q O α) : Prop where
  sat : ∀ r g, Sat dev C p r g fun _ _ _ os => os.flatten ≠ []

variable {dev : Handler D ρ} {C : Contract Q γ}

namespace Puts

variable {P : α → Prop} {R : β → Prop} {m n : ℕ}

theorem pure {a : α} (ha : P a) : Puts dev C (pure a : Prog D Q O α) n P where
  sat _ _ := ⟨ha, Nat.zero_le n⟩

theorem mono {P' : α → Prop} {p : Prog D Q O α} (h : Puts dev C p m P) (hmn : m ≤ n)
    (himp : ∀ a, P a → P' a) : Puts dev C p n P' where
  sat r g := (h.sat r g).mono fun a _ _ _ hpost =>
    ⟨himp a hpost.1, Nat.le_trans hpost.2 hmn⟩

theorem weaken {p : Prog D Q O α} (h : Puts dev C p m P) (hmn : m ≤ n) :
    Puts dev C p n P :=
  h.mono hmn fun _ ha => ha

/-- The rule of sequence: the parts share the budget. -/
theorem bind {p : Prog D Q O α} {f : α → Prog D Q O β} (hp : Puts dev C p m P)
    (hf : ∀ a, P a → Puts dev C (f a) n R) : Puts dev C (p >>= f) (n + m) R where
  sat r g := by
    rw [sat_bind]
    refine (hp.sat r g).mono fun a r g os hpost => ?_
    refine ((hf a hpost.1).sat r g).mono fun b _ _ os' hpost' => ⟨hpost'.1, ?_⟩
    have hos := hpost.2
    have hos' := hpost'.2
    simp only [List.flatten_append, List.length_append]
    omega

theorem ask {e : D β} (h : ∀ x, R x) : Puts dev C (Prog.ask e : Prog D Q O β) n R where
  sat _ _ := ⟨h _, Nat.zero_le n⟩

theorem ask_bind {e : D β} {f : β → Prog D Q O α} (h : ∀ x, Puts dev C (f x) n P) :
    Puts dev C (Prog.ask e >>= f) n P where
  sat _ g := (h _).sat _ g

theorem emit {P : Unit → Prop} {o : List O} (ho : o.length ≤ n) (hP : P ()) :
    Puts dev C (Prog.emit o : Prog D Q O Unit) n P where
  sat r g := by
    rw [sat_emit]
    refine ⟨hP, ?_⟩
    simpa using ho

theorem emit_bind {o : List O} {f : Unit → Prog D Q O α} (h : Puts dev C (f ()) n P)
    (ho : o.length ≤ m) :
    Puts dev C (Prog.emit o >>= f) (n + m) P :=
  bind (emit (P := fun _ => True) ho trivial) fun _ _ => h

theorem invoke {q : Q β} (hC : C.Free) (h : ∀ g x, C.spec g q x → R x) :
    Puts dev C (Prog.invoke q : Prog D Q O β) n R where
  sat _ g := ⟨hC g q, fun x hx => ⟨h g x hx, Nat.zero_le n⟩⟩

theorem invoke_bind {q : Q β} {f : β → Prog D Q O α} (hC : C.Free)
    (h : ∀ g x, C.spec g q x → Puts dev C (f x) n P) :
    Puts dev C (Prog.invoke q >>= f) n P where
  sat r g := ⟨hC g q, fun x hx => (h g x hx).sat r _⟩

theorem ite {c : Prop} [Decidable c] {p q : Prog D Q O α} (hpos : c → Puts dev C p n P)
    (hneg : ¬ c → Puts dev C q n P) : Puts dev C (if c then p else q) n P := by
  by_cases hc : c
  · rw [if_pos hc]
    exact hpos hc
  · rw [if_neg hc]
    exact hneg hc

/-- A loop of `k` rounds puts `k` times what a round puts, where its guard
puts nothing. -/
theorem loop {more : Prog D Q O Bool} {step : α → Prog D Q O α} {I : α → Prop}
    (hmore : Puts dev C more 0 fun _ => True) (hstep : ∀ a, I a → Puts dev C (step a) m I)
    (k : ℕ) {a : α} (ha : I a) : Puts dev C (Prog.loop more step k a) (k * m) I := by
  induction k generalizing a with
  | zero => exact pure ha
  | succ k ih =>
      rw [Prog.loop, Nat.succ_mul]
      apply bind hmore
      intro b _
      cases b with
      | false => exact pure ha
      | true => exact bind (hstep a ha) fun a ha => ih ha

/-- Every run ends within the budget. -/
theorem run {h : Handler Q σ} {p : Prog D Q O α} (hp : Puts dev C p n P) (hh : h.Meets C)
    (g : γ) (r : ρ) (s : σ) :
    P (p.run dev h r s).val ∧ (p.run dev h r s).out.flatten.length ≤ n :=
  ((hp.sat r g).run hh s).2

end Puts

namespace Wrote

/-- It is enough that the first part puts something. -/
theorem bind_left {p : Prog D Q O α} {f : α → Prog D Q O β} (hC : C.Free)
    (hp : Wrote dev C p) :
    Wrote dev C (p >>= f) where
  sat r g := by
    rw [sat_bind]
    refine (hp.sat r g).mono fun a r g os hos => ?_
    refine (Sat.free hC (f a) r g).mono fun _ _ _ os' _ hnil => hos ?_
    rw [List.flatten_append, List.append_eq_nil_iff] at hnil
    exact hnil.1

/-- Or that the rest does, however the first part ends. -/
theorem bind_right {P : α → Prop} {n : ℕ} {p : Prog D Q O α} {f : α → Prog D Q O β}
    (hp : Puts dev C p n P) (hf : ∀ a, P a → Wrote dev C (f a)) :
    Wrote dev C (p >>= f) where
  sat r g := by
    rw [sat_bind]
    refine (hp.sat r g).mono fun a r g os hpost => ?_
    refine ((hf a hpost.1).sat r g).mono fun _ _ _ os' hos hnil => hos ?_
    rw [List.flatten_append, List.append_eq_nil_iff] at hnil
    exact hnil.2

theorem emit_bind {o : List O} {f : Unit → Prog D Q O α} (hC : C.Free) (ho : o ≠ []) :
    Wrote dev C (Prog.emit o >>= f) :=
  bind_left hC ⟨fun r g => by rw [sat_emit]; simpa using ho⟩

theorem ask_bind {e : D β} {f : β → Prog D Q O α} (h : ∀ x, Wrote dev C (f x)) :
    Wrote dev C (Prog.ask e >>= f) where
  sat _ g := (h _).sat _ g

theorem invoke_bind {q : Q β} {f : β → Prog D Q O α} (hC : C.Free)
    (h : ∀ x, Wrote dev C (f x)) :
    Wrote dev C (Prog.invoke q >>= f) where
  sat r g := ⟨hC g q, fun x _ => (h x).sat r _⟩

theorem run {h : Handler Q σ} {p : Prog D Q O α} (hp : Wrote dev C p) (hh : h.Meets C)
    (g : γ) (r : ρ) (s : σ) : (p.run dev h r s).out.flatten ≠ [] :=
  ((hp.sat r g).run hh s).2

end Wrote

end Diffsecp.Interact
