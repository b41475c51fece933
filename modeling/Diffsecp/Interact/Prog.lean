import Mathlib.Algebra.Ring.Int.Defs
import Mathlib.Algebra.Ring.Nat
import Mathlib.Data.List.Basic
import Mathlib.Data.Sigma.Basic
import Mathlib.Logic.Function.Basic

/-!
# Interact — Prog

Programs that read from a device, append to an output log and call an
external interface. A signature `Q : Type → Type v` lists the operations with
the type of the answer to each. A program is a tree of what it asks for, and
`Prog.run` gives it a meaning once a `Handler` answers the questions: one
program can so be run against any number of implementations of the interface
it calls, and every call it makes is kept in the log of the run.
-/

namespace Diffsecp.Interact

universe v w

/-- An implementation of `Q`, deterministic and with a hidden state `σ`. -/
structure Handler (Q : Type → Type v) (σ : Type) where
  answer : {β : Type} → Q β → σ → β × σ

/-- One call with the answer it got. -/
structure Event (Q : Type → Type v) where
  {β : Type}
  op : Q β
  ans : β

/-- A program that reads from `D`, puts blocks of `O` and calls `Q`. -/
inductive Prog (D : Type → Type w) (Q : Type → Type v) (O α : Type) where
  | ret (a : α)
  | read {β : Type} (e : D β) (k : β → Prog D Q O α)
  | put (o : List O) (k : Prog D Q O α)
  | call {β : Type} (q : Q β) (k : β → Prog D Q O α)

/-- What a run leaves: the value, the device and handler states, the calls
it made and the blocks it put, both in order. -/
structure Outcome (Q : Type → Type v) (O α ρ σ : Type) where
  val : α
  rest : ρ
  state : σ
  log : List (Event Q)
  out : List (List O)

namespace Prog

variable {D : Type → Type w} {Q : Type → Type v} {O α β γ ρ σ : Type}

def bind : Prog D Q O α → (α → Prog D Q O β) → Prog D Q O β
  | .ret a, f => f a
  | .read e k, f => .read e fun x => (k x).bind f
  | .put o k, f => .put o (k.bind f)
  | .call q k, f => .call q fun x => (k x).bind f

instance : Monad (Prog D Q O) where
  pure := .ret
  bind := .bind

/-- Read from the device. -/
def ask (e : D β) : Prog D Q O β := .read e .ret

/-- Put one block. -/
def emit (o : List O) : Prog D Q O Unit := .put o (.ret ())

/-- Make one call. -/
def invoke (q : Q β) : Prog D Q O β := .call q .ret

theorem bind_ret (p : Prog D Q O α) : p.bind .ret = p := by
  induction p with
  | ret a => rfl
  | read e k ih => simp only [bind, ih]
  | put o k ih => simp only [bind, ih]
  | call q k ih => simp only [bind, ih]

theorem bind_assoc (p : Prog D Q O α) (f : α → Prog D Q O β) (g : β → Prog D Q O γ) :
    (p.bind f).bind g = p.bind fun a => (f a).bind g := by
  induction p with
  | ret a => rfl
  | read e k ih => simp only [bind, ih]
  | put o k ih => simp only [bind, ih]
  | call q k ih => simp only [bind, ih]

instance : LawfulMonad (Prog D Q O) :=
  LawfulMonad.mk' _ (fun p => bind_ret p) (fun _ _ => rfl) bind_assoc

/-- Run a program: `dev` answers its reads and `h` its calls. -/
def run (dev : Handler D ρ) (h : Handler Q σ) : Prog D Q O α → ρ → σ → Outcome Q O α ρ σ
  | .ret a, r, s => ⟨a, r, s, [], []⟩
  | .read e k, r, s => (k (dev.answer e r).1).run dev h (dev.answer e r).2 s
  | .put o k, r, s =>
      let w := k.run dev h r s
      { w with out := o :: w.out }
  | .call q k, r, s =>
      let w := (k (h.answer q s).1).run dev h r (h.answer q s).2
      { w with log := ⟨q, (h.answer q s).1⟩ :: w.log }

section Run

variable (dev : Handler D ρ) (h : Handler Q σ)

@[simp] theorem run_pure (a : α) (r : ρ) (s : σ) :
    (pure a : Prog D Q O α).run dev h r s = ⟨a, r, s, [], []⟩ := rfl

@[simp] theorem run_ask (e : D β) (r : ρ) (s : σ) :
    (ask e : Prog D Q O β).run dev h r s
      = ⟨(dev.answer e r).1, (dev.answer e r).2, s, [], []⟩ := rfl

@[simp] theorem run_emit (o : List O) (r : ρ) (s : σ) :
    (emit o : Prog D Q O Unit).run dev h r s = ⟨(), r, s, [], [o]⟩ := rfl

@[simp] theorem run_invoke (q : Q β) (r : ρ) (s : σ) :
    (invoke q : Prog D Q O β).run dev h r s
      = ⟨(h.answer q s).1, r, (h.answer q s).2, [⟨q, (h.answer q s).1⟩], []⟩ := rfl

/-- A sequence runs its parts one after the other. -/
@[simp] theorem run_bind (p : Prog D Q O α) (f : α → Prog D Q O β) (r : ρ) (s : σ) :
    (p >>= f).run dev h r s =
      let w := p.run dev h r s
      let w' := (f w.val).run dev h w.rest w.state
      { w' with log := w.log ++ w'.log, out := w.out ++ w'.out } := by
  show (p.bind f).run dev h r s = _
  induction p generalizing r s with
  | ret a => rfl
  | read e k ih => simp only [bind, run, ih]
  | put o k ih => simp only [bind, run, ih, List.cons_append]
  | call q k ih => simp only [bind, run, ih, List.cons_append]

@[simp] theorem run_map (f : α → β) (p : Prog D Q O α) (r : ρ) (s : σ) :
    (f <$> p).run dev h r s =
      let w := p.run dev h r s
      ⟨f w.val, w.rest, w.state, w.log, w.out⟩ := by
  rw [← bind_pure_comp, run_bind]
  simp

/-- The calls and blocks of the first part come first. -/
theorem run_bind_prefix (p : Prog D Q O α) (f : α → Prog D Q O β) (r : ρ) (s : σ) :
    (p.run dev h r s).log <+: ((p >>= f).run dev h r s).log ∧
      (p.run dev h r s).out <+: ((p >>= f).run dev h r s).out := by
  rw [run_bind]
  exact ⟨List.prefix_append _ _, List.prefix_append _ _⟩

end Run

/-- The answers in a log are the handler's. -/
theorem log_answered {dev : Handler D ρ} {h : Handler Q σ} {p : Prog D Q O α}
    {r : ρ} {s : σ} {e : Event Q} (he : e ∈ (p.run dev h r s).log) :
    ∃ s', (h.answer e.op s').1 = e.ans := by
  induction p generalizing r s with
  | ret a => exact absurd he List.not_mem_nil
  | read x k ih => exact ih _ he
  | put o k ih => exact ih he
  | call q k ih =>
      rcases List.mem_cons.mp he with rfl | he
      · exact ⟨s, rfl⟩
      · exact ih _ he

/-- At most `n` rounds of `step`, each only while `more` answers yes. -/
def loop (more : Prog D Q O Bool) (step : α → Prog D Q O α) : Nat → α → Prog D Q O α
  | 0, a => pure a
  | n + 1, a => do
      if ← more then
        let a ← step a
        loop more step n a
      else
        pure a

/-- `more` only looks at the device: it answers `test` and changes nothing. -/
def Peeks (dev : Handler D ρ) (h : Handler Q σ) (more : Prog D Q O Bool)
    (test : ρ → Bool) : Prop :=
  ∀ r s, more.run dev h r s = ⟨test r, r, s, [], []⟩

section Loop

variable {dev : Handler D ρ} {h : Handler Q σ} {more : Prog D Q O Bool} {test : ρ → Bool}
  {step : α → Prog D Q O α}

theorem run_loop_succ (hm : Peeks dev h more test) (n : Nat) (a : α) (r : ρ) (s : σ) :
    (loop more step (n + 1) a).run dev h r s =
      if test r then (step a >>= loop more step n).run dev h r s
          else ⟨a, r, s, [], []⟩ := by
  rw [loop, run_bind, hm]
  cases test r <;> simp

/-- A loop whose guard fails at once does nothing. -/
theorem run_loop_stop (hm : Peeks dev h more test) (n : Nat) (a : α) {r : ρ} (s : σ)
    (hr : test r = false) : (loop more step n a).run dev h r s = ⟨a, r, s, [], []⟩ := by
  cases n with
  | zero => rfl
  | succ n => rw [run_loop_succ hm, hr]; rfl

/-- The first `m` rounds of a loop of `m + n` rounds are the loop of `m`
rounds: a run cut after `m` rounds is a prefix of the longer run. -/
theorem run_loop_add (hm : Peeks dev h more test) (m n : Nat) (a : α) (r : ρ) (s : σ) :
    (loop more step (m + n) a).run dev h r s =
      (loop more step m a >>= loop more step n).run dev h r s := by
  induction m generalizing a r s with
  | zero => rw [Nat.zero_add]; rfl
  | succ m ih =>
      rw [Nat.succ_add, run_loop_succ hm, run_bind, run_bind, run_loop_succ hm]
      cases hr : test r with
      | false => simp [run_loop_stop hm n a s hr]
      | true => simp [ih]

end Loop

end Prog

end Diffsecp.Interact
