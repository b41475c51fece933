import Diffsecp.Interact.Contract

/-!
# Interact — History

Requirements that speak of the calls made before. `Keeps dev req spec p g P`:
after the calls `g`, however the input reads and the calls are answered, `p`
makes only calls that meet `req` when they are made, and its value has `P`
with the log that it leaves. The objects an interface hands out are listed by
`given`, for a call with its answer; `made given l` are those of a log.
-/

namespace Diffsecp.Interact

universe v w

variable {D : Type → Type w} {Q : Type → Type v} {O α β ρ σ X : Type}

/-- A log only grows. -/
theorem Sat.grows {dev : Handler D ρ} {req : List (Event Q) → {β : Type} → Q β → Prop}
    {spec : List (Event Q) → {β : Type} → Q β → β → Prop} {p : Prog D Q O α} {r : ρ}
    {g : List (Event Q)} {Post : α → ρ → List (Event Q) → List (List O) → Prop}
    (h : Sat dev (.history req spec) p r g Post) :
    Sat dev (.history req spec) p r g fun a r g' os => g <+: g' ∧ Post a r g' os := by
  induction p generalizing r g Post with
  | ret a => exact ⟨List.prefix_refl g, h⟩
  | read e k ih => exact ih _ h
  | put o k ih => exact ih h
  | call q k ih =>
      refine ⟨h.1, fun x hx => (ih x (h.2 x hx)).mono fun a r g' os hpost =>
        ⟨?_, hpost.2⟩⟩
      exact (List.prefix_append g _).trans hpost.1

/-- `P` holds of every event of a log, with the events before it, `g`
included. -/
def AtEach (P : List (Event Q) → Event Q → Prop) : List (Event Q) → List (Event Q) → Prop
  | _, [] => True
  | g, e :: l => P g e ∧ AtEach P (g ++ [e]) l

theorem atEach_append {P : List (Event Q) → Event Q → Prop} {g l l' : List (Event Q)} :
    AtEach P g (l ++ l') ↔ AtEach P g l ∧ AtEach P (g ++ l) l' := by
  induction l generalizing g with
  | nil => simp [AtEach]
  | cons e l ih => simp [AtEach, ih, and_assoc]

theorem atEach_iff {P : List (Event Q) → Event Q → Prop} {g l : List (Event Q)} :
    AtEach P g l ↔ ∀ l₁ e l₂, l = l₁ ++ e :: l₂ → P (g ++ l₁) e := by
  constructor
  · rintro h l₁ e l₂ rfl
    exact (atEach_append.mp h).2.1
  · intro h
    induction l generalizing g with
    | nil => trivial
    | cons e l ih =>
        refine ⟨by simpa using h [] e l rfl, ih fun l₁ e' l₂ hl => ?_⟩
        simpa using h (e :: l₁) e' l₂ (by rw [hl, List.cons_append])

def Keeps (dev : Handler D ρ) (req : List (Event Q) → {β : Type} → Q β → Prop)
    (spec : List (Event Q) → {β : Type} → Q β → β → Prop) (p : Prog D Q O α)
    (g : List (Event Q)) (P : α → List (Event Q) → Prop) : Prop :=
  ∀ r, Sat dev (.history req spec) p r g fun a _ g' _ => P a g'

namespace Keeps

variable {dev : Handler D ρ} {req : List (Event Q) → {β : Type} → Q β → Prop}
  {spec : List (Event Q) → {β : Type} → Q β → β → Prop} {g : List (Event Q)}
  {P : α → List (Event Q) → Prop} {R : β → List (Event Q) → Prop}

theorem pure {a : α} (h : P a g) : Keeps dev req spec (pure a : Prog D Q O α) g P :=
  fun _ => h

theorem mono {P' : α → List (Event Q) → Prop} {p : Prog D Q O α}
    (h : Keeps dev req spec p g P) (himp : ∀ a g', g <+: g' → P a g' → P' a g') :
    Keeps dev req spec p g P' :=
  fun r => (h r).grows.mono fun a _ g' _ hpost => himp a g' hpost.1 hpost.2

/-- The rule of sequence. -/
theorem bind {p : Prog D Q O α} {f : α → Prog D Q O β} (hp : Keeps dev req spec p g P)
    (hf : ∀ a g', g <+: g' → P a g' → Keeps dev req spec (f a) g' R) :
    Keeps dev req spec (p >>= f) g R := by
  intro r
  rw [sat_bind]
  exact (hp r).grows.mono fun a r g' _ hpost => hf a g' hpost.1 hpost.2 r

theorem ask_bind {e : D β} {f : β → Prog D Q O α}
    (h : ∀ x, Keeps dev req spec (f x) g P) :
    Keeps dev req spec (Prog.ask e >>= f) g P := fun _ => h _ _

theorem emit {o : List O} {P : Unit → List (Event Q) → Prop} (h : P () g) :
    Keeps dev req spec (Prog.emit o : Prog D Q O Unit) g P := fun _ => h

theorem emit_bind {o : List O} {f : Unit → Prog D Q O α}
    (h : Keeps dev req spec (f ()) g P) :
    Keeps dev req spec (Prog.emit o >>= f) g P := by
  intro r
  rw [sat_bind]
  exact h r

theorem invoke {q : Q β} (hreq : req g q) (h : ∀ x, spec g q x → R x (g ++ [⟨q, x⟩])) :
    Keeps dev req spec (Prog.invoke q : Prog D Q O β) g R := fun _ => ⟨hreq, h⟩

/-- A call, after which the log has one event more. -/
theorem invoke_bind {q : Q β} {f : β → Prog D Q O α} (hreq : req g q)
    (h : ∀ x, spec g q x → Keeps dev req spec (f x) (g ++ [⟨q, x⟩]) P) :
    Keeps dev req spec (Prog.invoke q >>= f) g P := fun r => ⟨hreq, fun x hx => h x hx r⟩

theorem ite {c : Prop} [Decidable c] {p q : Prog D Q O α}
    (hpos : c → Keeps dev req spec p g P) (hneg : ¬ c → Keeps dev req spec q g P) :
    Keeps dev req spec (if c then p else q) g P := by
  by_cases hc : c
  · rw [if_pos hc]
    exact hpos hc
  · rw [if_neg hc]
    exact hneg hc

/-- Where the calls of a run that meet their requirement are answered as
specified, all of them meet it. -/
theorem run {h : Handler Q σ} {p : Prog D Q O α} (hp : Keeps dev req spec p g P)
    (r : ρ) (s : σ)
    (hspec : AtEach (fun l e => req l e.op → spec l e.op e.ans) g (p.run dev h r s).log) :
    AtEach (fun l e => req l e.op) g (p.run dev h r s).log ∧
      P (p.run dev h r s).val (g ++ (p.run dev h r s).log) := by
  replace hp := hp r
  induction p generalizing r s g with
  | ret a => exact ⟨trivial, by rwa [Prog.run, List.append_nil]⟩
  | read e k ih => exact ih _ _ s hspec hp
  | put o k ih => exact ih r s hspec hp
  | call q k ih =>
      obtain ⟨hkept, hpost⟩ := ih _ r (h.answer q s).2 hspec.2 (hp.2 _ (hspec.1 hp.1))
      exact ⟨⟨hp.1, hkept⟩, by rwa [List.append_assoc] at hpost⟩

end Keeps

/-- The objects that the calls of a log gave. -/
def made (given : Event Q → List X) (l : List (Event Q)) : List X := l.flatMap given

section Made

variable {given : Event Q → List X} {l l' : List (Event Q)} {x : X}

theorem made_append : made given (l ++ l') = made given l ++ made given l' :=
  List.flatMap_append

theorem made_concat (e : Event Q) : made given (l ++ [e]) = made given l ++ given e := by
  rw [made_append]
  exact congrArg (_ ++ ·) (List.append_nil _)

theorem mem_made_grows (h : l <+: l') (hx : x ∈ made given l) : x ∈ made given l' := by
  obtain ⟨k, rfl⟩ := h
  rw [made_append]
  exact List.mem_append_left _ hx

/-- What the last call gave. -/
theorem mem_made_last {e : Event Q} (hx : x ∈ given e) : x ∈ made given (l ++ [e]) := by
  rw [made_concat]
  exact List.mem_append_right _ hx

theorem mem_made_of_mem {e : Event Q} (he : e ∈ l) (hx : x ∈ given e) :
    x ∈ made given l :=
  List.mem_flatMap.mpr ⟨e, he, hx⟩

end Made

end Diffsecp.Interact
