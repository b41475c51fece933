import Mathlib.Algebra.Module.Basic
import Mathlib.Tactic.Module

/-!
# Musig — Tweaked

A key that is tweaked again and again, in any module: what a sum of secrets
times a generator becomes under plain tweaks and under tweaks that first
negate an odd key, and the tweak that would send it to infinity.
-/

namespace Diffsecp

universe u v

/-- A tweaked key with the tweak and the sign it has gathered. -/
structure TweakedKey (k : Type u) (V : Type v) where
  pk : V
  tweak : k
  parityAcc : Bool

/-- `x`, negated where `b`. -/
def signed {V : Type v} [Neg V] (b : Bool) (x : V) : V := if b then -x else x

namespace TweakedKey

variable {k : Type u} {V : Type v} [CommRing k] [AddCommGroup V] [Module k V]

/-- The key of a sum of secrets, before any tweak. -/
def fresh (S : V) : TweakedKey k V := ⟨S, 0, false⟩

section Tweaks

variable (odd : V → Bool) (G : V)

def plain (c : TweakedKey k V) (t : k) : TweakedKey k V :=
  ⟨c.pk + t • G, c.tweak + t, c.parityAcc⟩

/-- The key negated if it is odd, with its tweak and sign. -/
def even (c : TweakedKey k V) : TweakedKey k V :=
  if odd c.pk then ⟨-c.pk, -c.tweak, !c.parityAcc⟩ else c

def xonly (c : TweakedKey k V) (t : k) : TweakedKey k V := (c.even odd).plain G t

/-- One tweak: its kind and amount. -/
def apply (c : TweakedKey k V) (t : Bool × k) : TweakedKey k V :=
  if t.1 then c.xonly odd G t.2 else c.plain G t.2

/-- The key is the signed sum of secrets and the tweak times the
generator. -/
def Holds (S : V) (c : TweakedKey k V) : Prop := c.pk = signed c.parityAcc S + c.tweak • G

/-- Minus the discrete log of the key a tweak applies to, for a sum of secrets
`d`. -/
def cancel (c : TweakedKey k V) (d : k) (xonly : Bool) : k :=
  if xonly && odd c.pk then signed c.parityAcc d + c.tweak
    else -(signed c.parityAcc d + c.tweak)

end Tweaks

variable {odd : V → Bool} {G S : V} {c : TweakedKey k V}

theorem holds_fresh : Holds G S (fresh S : TweakedKey k V) := by
  simp only [Holds, fresh, signed, zero_smul, add_zero]
  rfl

theorem Holds.plain (h : Holds G S c) (t : k) : Holds G S (c.plain G t) := by
  simp only [Holds, TweakedKey.plain] at h ⊢
  rw [h, add_smul, add_assoc]

theorem Holds.even (h : Holds G S c) : Holds G S (c.even odd) := by
  rw [TweakedKey.even]
  split
  · simp only [Holds] at h ⊢
    rw [h]
    cases c.parityAcc with
    | true =>
        simp only [signed, Bool.not_true, if_true, if_neg Bool.false_ne_true, neg_smul,
          neg_add, neg_neg]
    | false =>
        simp only [signed, Bool.not_false, if_true, neg_smul]
        exact neg_add S _
  · exact h

theorem Holds.xonly (h : Holds G S c) (t : k) : Holds G S (c.xonly odd G t) :=
  h.even.plain t

/-- The invariant holds after any sequence of tweaks. -/
theorem Holds.run (h : Holds G S c) (ts : List (Bool × k)) :
    Holds G S (ts.foldl (apply odd G) c) := by
  induction ts generalizing c with
  | nil => exact h
  | cons t ts ih =>
      apply ih
      rw [apply]
      split
      · exact h.xonly t.2
      · exact h.plain t.2

theorem signed_smul (b : Bool) (d : k) : signed b (d • G) = signed b d • G := by
  cases b with
  | false => rfl
  | true => exact (neg_smul d G).symm

/-- The cancelling tweak sends the key it applies to to infinity. -/
theorem Holds.cancel (odd : V → Bool) {d : k} (h : Holds G (d • G) c) (x : Bool) :
    (if x then (c.even odd).pk else c.pk) + c.cancel odd d x • G = 0 := by
  have hpk : c.pk = (signed c.parityAcc d + c.tweak) • G := by
    rw [h, signed_smul, add_smul]
  cases x with
  | false =>
      simp only [TweakedKey.cancel, Bool.false_and, if_neg Bool.false_ne_true, neg_smul]
      rw [← hpk, add_neg_cancel]
  | true =>
      cases hodd : odd c.pk with
      | false =>
          simp only [TweakedKey.cancel, TweakedKey.even, hodd, Bool.and_false,
            if_neg Bool.false_ne_true, neg_smul, if_true]
          rw [← hpk, add_neg_cancel]
      | true =>
          simp only [TweakedKey.cancel, TweakedKey.even, hodd, Bool.and_true, if_true]
          rw [← hpk, neg_add_cancel]

end TweakedKey

end Diffsecp
