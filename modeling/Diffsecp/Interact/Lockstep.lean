import Diffsecp.Interact.Contract
import Diffsecp.Interact.Structure

/-!
# Interact — Lockstep

Two programs over two interfaces, run on the same device. They read the same,
put blocks related by `E` one for one, and may call as they like; what is
shown of the rest may use that the blocks put so far were equal. When related
blocks are always equal, the two runs put the same. When they only have equal
lengths, runs whose whole outputs are equal were equal block by block: the
output determines what the programs did.
-/

namespace Diffsecp.Interact

universe u u' v v' w

variable {D : Type → Type w} {Q : Type → Type v} {Q' : Type → Type v'} {O ρ σ σ' : Type}
  {α α' β β' : Type} {γ : Type u} {γ' : Type u'}

/-- `p` and `p'` from `r`, `g` and `g'`, with `Post` where both end. -/
inductive Lockstep (dev : Handler D ρ) (C : Contract Q γ) (C' : Contract Q' γ')
    (E : List O → List O → Prop) (Post : α → α' → γ → γ' → Prop) :
    Prog D Q O α → Prog D Q' O α' → ρ → γ → γ' → Prop where
  | ret {a a' r g g'} (h : Post a a' g g') :
      Lockstep dev C C' E Post (.ret a) (.ret a') r g g'
  | read {δ : Type} {e : D δ} {k k' r g g'}
      (h : Lockstep dev C C' E Post (k (dev.answer e r).1) (k' (dev.answer e r).1)
        (dev.answer e r).2 g g') :
      Lockstep dev C C' E Post (.read e k) (.read e k') r g g'
  | put {o o' k k' r g g'} (ho : E o o')
      (h : o = o' → Lockstep dev C C' E Post k k' r g g') :
      Lockstep dev C C' E Post (.put o k) (.put o' k') r g g'
  | left {δ : Type} {q : Q δ} {k p' r g g'} (hreq : C.req g q)
      (h : ∀ x, C.spec g q x → Lockstep dev C C' E Post (k x) p' r (C.next g q x) g') :
      Lockstep dev C C' E Post (.call q k) p' r g g'
  | right {δ : Type} {q : Q' δ} {p k r g g'} (hreq : C'.req g' q)
      (h : ∀ x, C'.spec g' q x → Lockstep dev C C' E Post p (k x) r g (C'.next g' q x)) :
      Lockstep dev C C' E Post p (.call q k) r g g'

namespace Lockstep

variable {dev : Handler D ρ} {C : Contract Q γ} {C' : Contract Q' γ'}
  {E : List O → List O → Prop} {Post : α → α' → γ → γ' → Prop} {r : ρ} {g : γ} {g' : γ'}

/-! ## Rules -/

theorem pure {a : α} {a' : α'} (h : Post a a' g g') :
    Lockstep dev C C' E Post (pure a : Prog D Q O α) (pure a' : Prog D Q' O α') r
      g g' := .ret h

theorem mono {Post' : α → α' → γ → γ' → Prop} {p : Prog D Q O α} {p' : Prog D Q' O α'}
    (h : Lockstep dev C C' E Post p p' r g g')
    (himp : ∀ a a' g g', Post a a' g g' → Post' a a' g g') :
    Lockstep dev C C' E Post' p p' r g g' := by
  induction h with
  | ret h => exact .ret (himp _ _ _ _ h)
  | read _ ih => exact .read ih
  | put ho _ ih => exact .put ho ih
  | left hreq _ ih => exact .left hreq ih
  | right hreq _ ih => exact .right hreq ih

/-- The rule of sequence. -/
theorem bind {P : α → α' → γ → γ' → Prop} {Post' : β → β' → γ → γ' → Prop}
    {p : Prog D Q O α} {p' : Prog D Q' O α'} {f : α → Prog D Q O β}
    {f' : α' → Prog D Q' O β'} (hp : Lockstep dev C C' E P p p' r g g')
    (hf : ∀ a a' r g g', P a a' g g' → Lockstep dev C C' E Post' (f a) (f' a') r g g') :
    Lockstep dev C C' E Post' (p >>= f) (p' >>= f') r g g' := by
  show Lockstep dev C C' E Post' (p.bind f) (p'.bind f') r g g'
  induction hp with
  | ret h => exact hf _ _ _ _ _ h
  | read _ ih => exact .read ih
  | put ho _ ih => exact .put ho ih
  | left hreq _ ih => exact .left hreq ih
  | right hreq _ ih => exact .right hreq ih

/-- A ghost log only grows. -/
theorem grows {req spec req' spec'}
    {Post : α → α' → List (Event Q) → List (Event Q') → Prop} {p : Prog D Q O α}
    {p' : Prog D Q' O α'} {g : List (Event Q)} {g' : List (Event Q')}
    (h : Lockstep dev (.history req spec) (.history req' spec') E Post p p' r g g') :
    Lockstep dev (.history req spec) (.history req' spec') E
      (fun a a' k k' => Post a a' k k' ∧ g <+: k ∧ g' <+: k') p p' r g g' := by
  induction h with
  | ret h => exact .ret ⟨h, List.prefix_rfl, List.prefix_rfl⟩
  | read _ ih => exact .read ih
  | put ho _ ih => exact .put ho ih
  | left hreq _ ih =>
      refine .left hreq fun x hx => (ih x hx).mono fun _ _ k k' hpost => ?_
      exact ⟨hpost.1, (List.prefix_append _ _).trans hpost.2.1, hpost.2.2⟩
  | right hreq _ ih =>
      refine .right hreq fun x hx => (ih x hx).mono fun _ _ k k' hpost => ?_
      exact ⟨hpost.1, hpost.2.1, (List.prefix_append _ _).trans hpost.2.2⟩

/-- Programs that make no call `f` picks leave what it picks from a ghost log
as it is. -/
theorem avoids {κ : Type} {f : Event Q → Option κ} {f' : Event Q' → Option κ}
    {req spec req' spec'} {Post : α → α' → List (Event Q) → List (Event Q') → Prop}
    {p : Prog D Q O α} {p' : Prog D Q' O α'} {g : List (Event Q)} {g' : List (Event Q')}
    (answers : Handler Q σ × σ) (answers' : Handler Q' σ' × σ')
    (hlock : Lockstep dev (.history req spec) (.history req' spec') E Post p p' r g g')
    [Avoids f p] [Avoids f' p'] :
    Lockstep dev (.history req spec) (.history req' spec') E
      (fun a a' k k' => Post a a' k k' ∧ k.filterMap f = g.filterMap f ∧
        k'.filterMap f' = g'.filterMap f')
      p p' r g g' := by
  have hp : ∀ {σ : Type} (h : Handler Q σ) (s : σ),
      (p.run dev h r s).log.filterMap f = [] :=
    fun h s => Avoids.none dev h r s
  have hp' : ∀ {σ : Type} (h : Handler Q' σ) (s : σ),
      (p'.run dev h r s).log.filterMap f' = [] :=
    fun h s => Avoids.none dev h r s
  obtain ⟨h, s⟩ := answers
  obtain ⟨h', s'⟩ := answers'
  -- runs from `r` avoid the calls, whatever answers
  induction hlock with
  | ret hpost => exact .ret ⟨hpost, rfl, rfl⟩
  | read _ ih => exact .read (ih hp hp')
  | put ho _ ih => exact .put ho fun heq => ih heq hp hp'
  | @left δ q k p' r g g' hreq _ ih =>
      refine .left hreq fun x hx =>
        (ih x hx (fun h s => (Prog.filterMap_call h hp x s).2) hp').mono ?_
      rintro a a' l l' ⟨hpost, hlog, hlog'⟩
      have hstep : (g ++ [(⟨q, x⟩ : Event Q)]).filterMap f = g.filterMap f := by
        rw [List.filterMap_append,
          List.filterMap_cons_none (Prog.filterMap_call h hp x s).1, List.filterMap_nil,
          List.append_nil]
      exact ⟨hpost, hlog.trans hstep, hlog'⟩
  | @right δ q p k r g g' hreq _ ih =>
      refine .right hreq fun x hx =>
        (ih x hx hp fun h s => (Prog.filterMap_call h hp' x s).2).mono ?_
      rintro a a' l l' ⟨hpost, hlog, hlog'⟩
      have hstep : (g' ++ [(⟨q, x⟩ : Event Q')]).filterMap f' = g'.filterMap f' := by
        rw [List.filterMap_append, List.filterMap_cons_none
          (Prog.filterMap_call h' hp' x s').1, List.filterMap_nil, List.append_nil]
      exact ⟨hpost, hlog, hlog'.trans hstep⟩

theorem ask_bind {δ : Type} {e : D δ} {f : δ → Prog D Q O α} {f' : δ → Prog D Q' O α'}
    (h : Lockstep dev C C' E Post (f (dev.answer e r).1) (f' (dev.answer e r).1)
      (dev.answer e r).2 g g') :
    Lockstep dev C C' E Post (Prog.ask e >>= f) (Prog.ask e >>= f') r g g' := .read h

theorem emit_bind {o o' : List O} {f : Unit → Prog D Q O α} {f' : Unit → Prog D Q' O α'}
    (ho : E o o') (h : o = o' → Lockstep dev C C' E Post (f ()) (f' ()) r g g') :
    Lockstep dev C C' E Post (Prog.emit o >>= f) (Prog.emit o' >>= f') r g g' := .put ho h

theorem emit {Post : Unit → Unit → γ → γ' → Prop} {o o' : List O} (ho : E o o')
    (h : o = o' → Post () () g g') :
    Lockstep dev C C' E Post (Prog.emit o) (Prog.emit o') r g g' :=
      .put ho fun heq => .ret (h heq)

/-- Both sides make a call. -/
theorem invoke_bind {δ δ' : Type} {q : Q δ} {q' : Q' δ'} {f : δ → Prog D Q O α}
    {f' : δ' → Prog D Q' O α'} (hreq : C.req g q) (hreq' : C'.req g' q')
    (h : ∀ x x', C.spec g q x → C'.spec g' q' x' →
      Lockstep dev C C' E Post (f x) (f' x') r (C.next g q x) (C'.next g' q' x')) :
    Lockstep dev C C' E Post (Prog.invoke q >>= f) (Prog.invoke q' >>= f') r g g' :=
  .left hreq fun x hx => .right hreq' fun x' hx' => h x x' hx hx'

/-- Both sides take the same branch. -/
theorem ite {c : Prop} [Decidable c] {p q : Prog D Q O α} {p' q' : Prog D Q' O α'}
    (hpos : c → Lockstep dev C C' E Post p p' r g g')
    (hneg : ¬ c → Lockstep dev C C' E Post q q' r g g') :
    Lockstep dev C C' E Post (if c then p else q) (if c then p' else q') r g g' := by
  by_cases hc : c
  · rw [if_pos hc, if_pos hc]
    exact hpos hc
  · rw [if_neg hc, if_neg hc]
    exact hneg hc

/-- Loops run in lockstep when their rounds do and their guards agree. -/
theorem loop {more : Prog D Q O Bool} {more' : Prog D Q' O Bool} {step : α → Prog D Q O α}
    {step' : α' → Prog D Q' O α'}
    (hmore : ∀ r g g',
      Lockstep dev C C' E (fun b b' h h' => b = b' ∧ h = g ∧ h' = g') more more' r g g')
    (hstep : ∀ a a' r g g', Post a a' g g' →
      Lockstep dev C C' E Post (step a) (step' a') r g g')
    (n : Nat) {a : α} {a' : α'} (h : Post a a' g g') :
    Lockstep dev C C' E Post (Prog.loop more step n a)
      (Prog.loop more' step' n a') r g g' := by
  induction n generalizing a a' r g g' with
  | zero => exact .ret h
  | succ n ih =>
      refine bind (hmore r g g') fun b b' r' h₁ h₁' hb => ?_
      obtain ⟨rfl, rfl, rfl⟩ := hb
      cases b with
      | false => exact .ret h
      | true => exact bind (hstep a a' r' _ _ h) fun _ _ _ _ _ h' => ih h'

/-! ## Soundness -/

section Run

variable {h : Handler Q σ} {h' : Handler Q' σ'} {p : Prog D Q O α} {p' : Prog D Q' O α'}

/-- Where related blocks are equal and the calls are answered as promised, the
runs put the same. -/
theorem run_eq_answered (hp : Lockstep dev C C' E Post p p' r g g')
    (hE : ∀ o o', E o o' → o = o') (s : σ) (s' : σ')
    (hans : C.Answered g (p.run dev h r s).log)
    (hans' : C'.Answered g' (p'.run dev h' r s').log) :
    (p.run dev h r s).out = (p'.run dev h' r s').out ∧
      (p.run dev h r s).rest = (p'.run dev h' r s').rest ∧
      C.Kept g (p.run dev h r s).log ∧ C'.Kept g' (p'.run dev h' r s').log ∧
      Post (p.run dev h r s).val (p'.run dev h' r s').val
        (C.after g (p.run dev h r s).log) (C'.after g' (p'.run dev h' r s').log) := by
  induction hp generalizing s s' with
  | ret h => exact ⟨rfl, rfl, trivial, trivial, h⟩
  | read _ ih => exact ih s s' hans hans'
  | put ho _ ih =>
      obtain rfl := hE _ _ ho
      obtain ⟨hout, hrest⟩ := ih rfl s s' hans hans'
      exact ⟨congrArg _ hout, hrest⟩
  | left hreq _ ih =>
      obtain ⟨hout, hrest, hk, hk', hpost⟩ := ih _ (hans.1 hreq) _ s' hans.2 hans'
      exact ⟨hout, hrest, ⟨hreq, hk⟩, hk', hpost⟩
  | right hreq _ ih =>
      obtain ⟨hout, hrest, hk, hk', hpost⟩ := ih _ (hans'.1 hreq) s _ hans hans'.2
      exact ⟨hout, hrest, hk, ⟨hreq, hk'⟩, hpost⟩

/-- Where related blocks have equal lengths, runs whose outputs agree up to
what follows them put the same blocks, and then all the proof says of equal
blocks holds. -/
theorem run_flatten (hp : Lockstep dev C C' E Post p p' r g g')
    (hE : ∀ o o', E o o' → o.length = o'.length) (hh : h.Meets C) (hh' : h'.Meets C')
    (s : σ) (s' : σ') {x x' : List O}
    (heq : (p.run dev h r s).out.flatten ++ x = (p'.run dev h' r s').out.flatten ++ x') :
    (p.run dev h r s).out = (p'.run dev h' r s').out ∧ x = x' ∧
      (p.run dev h r s).rest = (p'.run dev h' r s').rest ∧
      Post (p.run dev h r s).val (p'.run dev h' r s').val
        (C.after g (p.run dev h r s).log) (C'.after g' (p'.run dev h' r s').log) := by
  induction hp generalizing s s' with
  | ret h => exact ⟨rfl, heq, rfl, h⟩
  | read _ ih => exact ih s s' heq
  | @put o o' k k' r _ _ ho _ ih =>
      have hcons : o ++ ((k.run dev h r s).out.flatten ++ x)
          = o' ++ ((k'.run dev h' r s').out.flatten ++ x') := by
        simpa only [Prog.run, List.flatten_cons, List.append_assoc] using heq
      obtain ⟨rfl, htail⟩ := List.append_inj hcons (hE _ _ ho)
      obtain ⟨hout, hx, hrest⟩ := ih rfl s s' htail
      exact ⟨congrArg _ hout, hx, hrest⟩
  | left hreq _ ih => exact ih _ (hh _ _ _ s hreq) _ s' heq
  | right hreq _ ih => exact ih _ (hh' _ _ _ s' hreq) s _ heq

end Run

/-! ## Loops whose output determines them -/

/-- Two runs that read the same, put the same blocks and end related. -/
def Agree (P : α → α' → Prop) (w : Outcome Q O α ρ σ)
    (w' : Outcome Q' O α' ρ σ') : Prop :=
  w.out = w'.out ∧ w.rest = w'.rest ∧ P w.val w'.val

/-- Runs of every length whose output tells where it ends, and is equal only
where the runs agree: after `k` rounds, on `P k`. -/
def Recorded (P : Nat → α → α' → Prop) (w : Nat → Outcome Q O α ρ σ)
    (w' : Nat → Outcome Q' O α' ρ σ') : Prop :=
  ∀ k x x', (w k).out.flatten ++ x = (w' k).out.flatten ++ x' →
    x = x' ∧ Agree (P k) (w k) (w' k)

/-- Rounds that take `P k` to `P (k + 1)` and put blocks of equal length make
recorded loops; a loop that has stopped keeps what it has. -/
theorem loop_recorded {C : Contract Q Unit} {C' : Contract Q' Unit}
    {P : Nat → α → α' → Prop} {h : Handler Q σ} {h' : Handler Q' σ'}
    {more : Prog D Q O Bool} {more' : Prog D Q' O Bool} {step : α → Prog D Q O α}
    {step' : α' → Prog D Q' O α'} {test : ρ → Bool} (hmore : Prog.Peeks dev h more test)
    (hmore' : Prog.Peeks dev h' more' test) (hE : ∀ o o', E o o' → o.length = o'.length)
    (hh : h.Meets C) (hh' : h'.Meets C') {a : α} {a' : α'} (ha : P 0 a a') (r : ρ)
    (s : σ) (s' : σ') (hstep : ∀ k b b',
      test ((Prog.loop more step k a).run dev h r s).rest = true → P k b b' →
      Lockstep dev C C' E (fun b b' _ _ => P (k + 1) b b') (step b) (step' b')
        ((Prog.loop more step k a).run dev h r s).rest () ())
    (hstop : ∀ k b b', test ((Prog.loop more step k a).run dev h r s).rest = false →
      P k b b' → P (k + 1) b b') :
    Recorded P (fun k => (Prog.loop more step k a).run dev h r s)
      (fun k => (Prog.loop more' step' k a').run dev h' r s') := by
  intro k
  induction k with
  | zero => exact fun x x' heq => ⟨heq, rfl, rfl, ha⟩
  | succ k ih =>
      intro x x' heq
      dsimp only at ih heq ⊢
      specialize hstep k
      specialize hstop k
      rw [Prog.run_loop_add hmore, Prog.run_loop_add hmore', Prog.run_bind, Prog.run_bind]
        at heq ⊢
      set v := (Prog.loop more step k a).run dev h r s
      set v' := (Prog.loop more' step' k a').run dev h' r s'
      dsimp only at heq ⊢
      rw [List.flatten_append, List.flatten_append, List.append_assoc,
        List.append_assoc] at heq
      obtain ⟨htail, hout, hrest, hP⟩ := ih _ _ heq
      rw [Prog.run_loop_succ hmore, Prog.run_loop_succ hmore', ← hrest] at htail ⊢
      cases hr : test v.rest with
      | false =>
          rw [hr, if_neg Bool.false_ne_true, if_neg Bool.false_ne_true] at htail
          rw [if_neg Bool.false_ne_true, if_neg Bool.false_ne_true]
          exact ⟨htail, congrArg (· ++ []) hout, rfl, hstop _ _ hr hP⟩
      | true =>
          rw [hr, if_pos rfl, if_pos rfl] at htail
          rw [if_pos rfl, if_pos rfl]
          have hround : Lockstep dev C C' E (fun b b' _ _ => P (k + 1) b b')
              (step v.val >>= Prog.loop more step 0)
              (step' v'.val >>= Prog.loop more' step' 0) v.rest () () :=
            (hstep _ _ hr hP).bind fun _ _ _ _ _ hpost => .ret hpost
          obtain ⟨hround, hx, hrest', hP'⟩ :=
            hround.run_flatten hE hh hh' v.state v'.state htail
          exact ⟨hx, by rw [hout, hround], hrest', hP'⟩

/-- Recorded runs whose whole outputs are equal agree from the start. -/
theorem Recorded.agree {P : Nat → α → α' → Prop} {w : Nat → Outcome Q O α ρ σ}
    {w' : Nat → Outcome Q' O α' ρ σ'} (hrec : Recorded P w w')
    (hw : ∀ k m, (w k).out <+: (w (k + m)).out)
    (hw' : ∀ k m, (w' k).out <+: (w' (k + m)).out) {n : Nat}
    (heq : (w n).out.flatten = (w' n).out.flatten) {k : Nat} (hk : k ≤ n) :
    Agree (P k) (w k) (w' k) := by
  obtain ⟨m, rfl⟩ := Nat.exists_eq_add_of_le hk
  obtain ⟨os, hos⟩ := hw k m
  obtain ⟨os', hos'⟩ := hw' k m
  rw [← hos, ← hos', List.flatten_append, List.flatten_append] at heq
  exact (hrec k _ _ heq).2

end Lockstep

end Diffsecp.Interact
