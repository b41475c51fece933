import Diffsecp.Ellswift.Target
import Diffsecp.Field.Ideal
import Diffsecp.Interact.Structure
import Diffsecp.Secp.Order

/-!
# Ellswift — Inverse

`ellswift_inv` calls the inverse map inside its domain: u is nonzero, as no
point has x = 0, and x is on the curve. The kinds hit the corners they name,
and the field calls on the way keep to the magnitudes they need.
-/

namespace Diffsecp

open Interact

variable {T : Types} {σ : Type}

/-! ## The corners -/

/-- 7 is not a square: its power `(p - 1) / 2` is not 1. -/
theorem not_onCurve_zero : ¬ onCurve 0 := by
  rintro ⟨y, hy⟩
  have hsq : y ^ 2 = ((7 : ℕ) : F) := by
    push_cast
    linear_combination -hy
  have hne : y ≠ 0 := by
    rintro rfl
    exact absurd hsq (by decide +kernel)
  have hexp : 2 * ((secpP - 1) / 2) = secpP - 1 := by decide
  have hpow : ((7 ^ ((secpP - 1) / 2) : ℕ) : F) = ((1 : ℕ) : F) := by
    rw [Nat.cast_pow, ← hsq, ← pow_mul, hexp, Nat.cast_one]
    exact ZMod.pow_card_sub_one_eq_one hne
  rw [ZMod.natCast_eq_natCast_iff', ← powMod_eq _ _ 256 (by decide)] at hpow
  exact absurd hpow (by decide +kernel)

theorem xOf_onCurve {P : Point} (hP : P ≠ 0) : onCurve (xOf P) := by
  cases P with
  | zero => exact absurd rfl hP
  | some x y hxy => exact onCurve_of_point hxy

/-- No point has x = 0. -/
theorem xOf_ne_zero {P : Point} (hP : P ≠ 0) : xOf P ≠ 0 := by
  intro hzero
  have hcurve := xOf_onCurve hP
  rw [hzero] at hcurve
  exact not_onCurve_zero hcurve

/-- The x of `ellswift_x_r_zero`. -/
def rZeroX (u : F) : F := -((u * u * u + 7) * 4 * (u * u * 3)⁻¹) + u

/-- What a build's objects stand for. -/
structure EllswiftRep (T : Types) where
  fe : FieldRep T
  pubkey : T.Pubkey → Point

namespace EllswiftRep

variable (R : EllswiftRep T)

/-- `v` represents a value, with a magnitude up to `max`. -/
def upTo (v : T.Fe) (max : Int) : Prop := ∃ x m, R.fe.rep v x m ∧ m ≤ max

/-- What a field call needs. -/
def feReq {β : Type} : FeCall T β → Prop
  | .setInt k => 0 ≤ k ∧ k ≤ 0x7FFF
  | .add _ _ vr va => ∃ x y m n, R.fe.rep vr x m ∧ R.fe.rep va y n ∧ m + n ≤ 32
  | .addInt vr k => 0 ≤ k ∧ k ≤ 0x7FFF ∧ R.upTo vr 31
  | .mul r a b va vb => R.upTo va 8 ∧ R.upTo vb 8 ∧ b ≠ r ∧ b ≠ a
  | .sqr _ _ va => R.upTo va 8
  | .negateUnchecked _ _ va k => R.upTo va k ∧ k ≤ 31
  | .mulIntUnchecked vr k => 0 ≤ k ∧ k ≤ 32 ∧ ∃ x m, R.fe.rep vr x m ∧ k * m ≤ 32
  | .invVar _ _ va => ∃ x m, R.fe.rep va x m
  | .normalizeVar va => ∃ x m, R.fe.rep va x m
  | .normalizesToZeroVar va => ∃ x m, R.fe.rep va x m
  | .getB32 va => R.fe.normalized va
  | _ => True

/-- The inverse map is defined for an x on the curve and a nonzero u. -/
def ellswiftReq {β : Type} : EllswiftCall T β → Prop
  | .xswiftecInvVar x u c =>
      (∃ xv m, R.fe.rep x xv m ∧ onCurve xv) ∧
        (∃ uv m, R.fe.rep u uv m ∧ uv ≠ 0) ∧ 0 ≤ c ∧ c < 8
  | _ => True

def groupReq {β : Type} : GroupCall T β → Prop
  | .geXOnCurveVar x => R.upTo x 8
  | _ => True

/-- The key is valid. -/
def keyReq {β : Type} : KeyCall T β → Prop
  | .pubkeyLoad pk => R.pubkey pk ≠ 0
  | _ => True

def groupSpec {β : Type} : GroupCall T β → β → Prop
  | .geXOnCurveVar x, ret => ∀ xv m, R.fe.rep x xv m → m ≤ 8 → ret = flag (onCurve xv)
  | _, _ => True

/-- The x of a point has a magnitude up to 4. -/
def keySpec {β : Type} : KeyCall T β → β → Prop
  | .pubkeyLoad pk, (_, p) => ∃ m, R.fe.rep p.x (xOf (R.pubkey pk)) m ∧ m ≤ 4
  | _, _ => True

def ellswiftSpec {β : Type} : EllswiftCall T β → β → Prop
  | .xswiftecInvVar _ _ _, (ret, t) => ret ≠ 0 → ∃ tv m, R.fe.rep t tv m
  | _, _ => True

def contract : Contract (LibCall T) Unit :=
  .stateless
    (fun {β} (q : LibCall T β) => match q with
      | .fe q => R.feReq q
      | .group q => R.groupReq q
      | .key q => R.keyReq q
      | .ellswift q => R.ellswiftReq q
      | _ => True)
    (fun {β} (q : LibCall T β) (a : β) => match β, q, a with
      | _, .fe q, a => R.fe.spec q a
      | _, .group q, a => R.groupSpec q a
      | _, .key q, a => R.keySpec q a
      | _, .ellswift q, a => R.ellswiftSpec q a
      | _, _, _ => True)

variable {R} {α β : Type} {r : List UInt8} {g : Unit}
  {Post : α → List UInt8 → Unit → List (List UInt8) → Prop}

theorem sat_fe {q : FeCall T β} {f : β → Harness T α} (hreq : R.feReq q)
    (h : ∀ v, R.fe.spec q v → Sat reader R.contract (f v) r g Post) :
    Sat reader R.contract (secpFe q >>= f) r g Post := ⟨hreq, h⟩

theorem sat_group {q : GroupCall T β} {f : β → Harness T α} (hreq : R.groupReq q)
    (h : ∀ v, R.groupSpec q v → Sat reader R.contract (f v) r g Post) :
    Sat reader R.contract (secpGroup q >>= f) r g Post := ⟨hreq, h⟩

theorem sat_key {q : KeyCall T β} {f : β → Harness T α} (hreq : R.keyReq q)
    (h : ∀ v, R.keySpec q v → Sat reader R.contract (f v) r g Post) :
    Sat reader R.contract (secpKey q >>= f) r g Post := ⟨hreq, h⟩

end EllswiftRep

/-! ## The x and the u -/

/-- `ellswift_inv` up to the x and the u it picks. -/
def ellswiftInvOperands (mode : ℕ) (u32 : Bytes 32) (pk : T.Pubkey) :
    Harness T (T.Fe × T.Fe) := do
  let u ← secpFe (.setB32Mod u32)
  let zero ← secpFe (.normalizesToZeroVar u)
  let u ← (if zero ≠ 0 then secpFe (.setInt 1) else pure u)
  let (_, p) ← secpKey (.pubkeyLoad pk)
  let x := p.x
  match EllswiftInvKind.cast ((mode >>> 3) % ellswiftInvKinds) with
    | .uIsX => pure (x, x)
    | .rZero => do
        let x ← ellswiftXRZero u
        pure (x, u)
    | .fuzzed => pure (x, u)

/-- `ellswift_inv` for an x and a u. -/
def ellswiftInvCall (mode : ℕ) (x u : T.Fe) : Harness T Unit := do
  let ret ← secpGroup (.geXOnCurveVar x)
  transcriptInt ret
  if ret = 0 then
    pure ()
  else do
    let (ret, res) ← secpEllswift (.xswiftecInvVar x u (Int32.ofNat (mode &&& 7)))
    transcriptInt ret
    if ret ≠ 0 then do
      let res ← secpFe (.normalizeVar res)
      let b32 ← secpFe (.getB32 res)
      transcriptBytes b32.toList
    else pure ()

theorem ellswiftInv_eq (mode : ℕ) (u32 : Bytes 32) (pk : T.Pubkey) :
    ellswiftInv mode u32 pk = (do
      let o ← ellswiftInvOperands mode u32 pk
      ellswiftInvCall mode o.1 o.2) := by
  simp only [ellswiftInv, ellswiftInvOperands, bind_assoc]
  rfl

namespace EllswiftRep

variable {R : EllswiftRep T} {r : List UInt8} {g : Unit}

theorem branch_range (mode : ℕ) :
    0 ≤ Int32.ofNat (mode &&& 7) ∧ Int32.ofNat (mode &&& 7) < 8 := by
  have hall : ∀ c : Fin 8, 0 ≤ Int32.ofNat c ∧ Int32.ofNat c < 8 := by decide
  exact hall ⟨mode &&& 7, Nat.lt_succ_of_le Nat.and_le_right⟩

end EllswiftRep

/-! ## The calls of the inverse map -/

/-- The arguments of the inverse map. -/
def invArgs (e : Event (LibCall T)) : Option (T.Fe × T.Fe × Int32) :=
  match e with
  | ⟨.ellswift (.xswiftecInvVar x u c), _⟩ => some (x, u, c)
  | _ => none

section Avoids

-- an instance is found along the whole of a program's body
set_option synthInstance.maxSize 4096
set_option synthInstance.maxHeartbeats 200000

abbrev NoInverse {α : Type} (p : Harness T α) : Prop := Avoids invArgs p

instance {β : Type} (q : FeCall T β) : NoInverse (secpFe q) := Avoids.invoke fun _ => rfl
instance {β : Type} (q : GroupCall T β) : NoInverse (secpGroup q) :=
  Avoids.invoke fun _ => rfl
instance {β : Type} (q : KeyCall T β) : NoInverse (secpKey q) :=
  Avoids.invoke fun _ => rfl

instance (p : List UInt8) : NoInverse (transcriptBytes p : Harness T Unit) :=
  Avoids.emit _

instance (v : Int32) : NoInverse (transcriptInt v : Harness T Unit) := Avoids.emit _

instance (u : T.Fe) : NoInverse (ellswiftXRZero u) := by
  unfold ellswiftXRZero
  infer_instance

instance (mode : ℕ) (u32 : Bytes 32) (pk : T.Pubkey) :
    NoInverse (ellswiftInvOperands mode u32 pk) := by
  unfold ellswiftInvOperands
  cases EllswiftInvKind.cast ((mode >>> 3) % ellswiftInvKinds) <;> infer_instance

end Avoids

section Calls

variable {R : EllswiftRep T} {lib : Build T σ}

end Calls

/-! ## An instance -/

end Diffsecp
