import Mathlib.Tactic.Module
import Diffsecp.Ecdsa.Target
import Diffsecp.Secp.KeyReference

/-!
# Ecdsa — Constructed

The key the ecdsa target constructs makes verification recompute the chosen
R. Verification of (r, s) on a message z under P recomputes
`(z / s) * G + (r / s) * P`.
-/

namespace Diffsecp

open Interact

set_option linter.constructorNameAsVariable false

variable {T : Types} {σ : Type}

/-! ## What is asked for -/

/-- The x coordinate asked for: for `aboveOrder`, n plus the low 128 bits. -/
def requestedX (kind : EcdsaR) (x32 : Bytes 32) : ℕ :=
  if kind = .aboveOrder then secpN + natOfBytes (x32.toList.drop 16)
    else natOfBytes x32.toList

/-- The R asked for: infinity, or the point of that x and parity. -/
def requestedR (kind : EcdsaR) (odd : Bool) (x32 : Bytes 32) : Option Point :=
  if kind = .infinity then some 0
  else if requestedX kind x32 < secpP then liftX (requestedX kind x32 : F) odd
  else none

/-- The r of the signature: x(R) mod n unless R is infinity. -/
def constructedR (kind : EcdsaR) (sig64 : Bytes 64) (x32 : Bytes 32) : Zn :=
  if kind = .infinity then scalarOf (sig64.extract 0 32) else (requestedX kind x32 : Zn)

/-- P = r^-1 (s*R - z*G). -/
def constructedP (G R : Point) (r s z : Zn) : Point := r⁻¹ • (s • R - z • G)

/-- The serialization of a finite point, compressed or not. -/
def serializePoint (compressed : Bool) : Point → List UInt8
  | .zero => []
  | .some x y _ =>
      if compressed then (if y.val % 2 = 1 then 3 else 2) :: (bytesOfNat 32 x.val).toList
      else 4 :: ((bytesOfNat 32 x.val).toList ++ (bytesOfNat 32 y.val).toList)

/-- A zero r has the inverse 0. -/
theorem constructedP_zero (G R : Point) (s z : Zn) : constructedP G R 0 s z = 0 := by
  rw [constructedP, inv_zero]
  exact zero_smul Zn (s • R - z • G)

/-- Verification recomputes R. -/
theorem verify_constructedP {G R : Point} {r s z : Zn} (hr : r ≠ 0) :
    s • R = z • G + r • constructedP G R r s z := by
  rw [constructedP, smul_smul, mul_inv_cancel₀ hr, one_smul]
  abel

theorem verify_recomputes {G R P : Point} {r s z : Zn} (hs : s ≠ 0)
    (h : s • R = z • G + r • P) : (z / s) • G + (r / s) • P = R := by
  calc (z / s) • G + (r / s) • P = s⁻¹ • (z • G + r • P) := by
        rw [smul_add, smul_smul, smul_smul, div_eq_inv_mul, div_eq_inv_mul]
    _ = R := by rw [← h, smul_smul, inv_mul_cancel₀ hs, one_smul]

/-- A point of the asked x and parity. -/
theorem liftX_eq_some {x : F} {odd : Bool} {P : Point} (h : liftX x odd = some P) :
    P ≠ 0 ∧ xOf P = x ∧ yOdd P = odd := by
  rw [liftX] at h
  split at h
  · rename_i hx
    cases h
    refine ⟨WeierstrassCurve.Affine.Point.some_ne_zero _, rfl, ?_⟩
    have hsq := liftY_sq hx odd
    have hroot : feRoot (x * x * x + 7) ≠ 0 := by
      intro hzero
      have hne := cube_ne x
      rw [← feRoot_sq hx, hzero, zero_mul] at hne
      exact hne rfl
    rw [yOdd, liftY]
    split
    · rename_i hodd
      exact hodd
    · rename_i hodd
      rw [decide_eq_decide.mpr (val_neg_odd hroot)]
      cases odd with
      | false =>
          exact decide_eq_false
            (not_not_intro (of_decide_eq_true (Bool.eq_true_of_not_eq_false hodd)))
      | true => exact decide_eq_true fun h => hodd (decide_eq_true h)
  · cases h

theorem liftX_eq_none {x : F} {odd : Bool} : liftX x odd = none ↔ ¬ onCurve x := by
  rw [liftX]
  split <;> simp_all

/-- n plus 128 bits stays below p. -/
theorem requestedX_aboveOrder (x32 : Bytes 32) :
    secpN ≤ requestedX .aboveOrder x32 ∧ requestedX .aboveOrder x32 < secpP ∧
      (requestedX .aboveOrder x32 : Zn).val = requestedX .aboveOrder x32 - secpN := by
  have hlow : natOfBytes (x32.toList.drop 16) < 256 ^ 16 := by
    have hlt := natOfBytes_lt (x32.toList.drop 16)
    rwa [List.length_drop, Vector.length_toList] at hlt
  have hroom : secpN + 256 ^ 16 ≤ secpP := by decide
  have hsmall : 256 ^ 16 ≤ secpN := by decide
  rw [requestedX, if_pos rfl]
  refine ⟨Nat.le_add_right _ _, by omega, ?_⟩
  rw [Nat.cast_add, ZMod.natCast_self, zero_add, ZMod.val_natCast,
    Nat.mod_eq_of_lt (by omega)]
  omega

/-! ## The library -/

/-- What a build's objects stand for: `fe v x m` says that `v` stands for `x`
with magnitude `m`. -/
structure ConstructRep (T : Types) where
  gen : Point
  fe : T.Fe → F → Int → Prop
  normalized : T.Fe → Prop
  sc : T.Scalar → Zn → Prop
  ge : Ge T → Point → Prop
  gej : Gej T → Point → Prop
  pubkey : T.Pubkey → Point → Prop

namespace ConstructRep

variable (R : ConstructRep T)

/-- Magnitudes add up to at most 32, and normalized elements are written. -/
def feReq {β : Type} : FeCall T β → Prop
  | .add _ _ a b => ∃ x y m n, R.fe a x m ∧ R.fe b y n ∧ m + n ≤ 32
  | .getB32 a => R.normalized a ∧ ∃ x m, R.fe a x m
  | _ => True

def feSpec {β : Type} : FeCall T β → β → Prop
  | .setB32Mod b32, v => R.fe v (natOfBytes b32.toList) 1
  | .setB32Limit b32, (ret, v) =>
      ret = flag (natOfBytes b32.toList < secpP) ∧
        (ret ≠ 0 → R.fe v (natOfBytes b32.toList) 1 ∧ R.normalized v)
  | .add _ _ a b, v =>
      ∀ x y m n, R.fe a x m → R.fe b y n → m + n ≤ 32 → R.fe v (x + y) (m + n)
  | .normalizeVar a, v => ∀ x m, R.fe a x m → R.fe v x 1 ∧ R.normalized v
  | .getB32 a, b32 => ∀ x m, R.fe a x m → R.normalized a → b32 = bytesOfNat 32 x.val
  | _, _ => True

/-- Scalars mod n; the inverse of 0 is 0. -/
def scalarSpec {β : Type} : ScalarCall T β → β → Prop
  | .setB32 b32, (v, _) => R.sc v (scalarOf b32)
  | .inverseVar _ _ a, v => ∀ x, R.sc a x → R.sc v x⁻¹
  | .mul _ _ _ a b, v => ∀ x y, R.sc a x → R.sc b y → R.sc v (x * y)
  | .negate _ _ a, v => ∀ x, R.sc a x → R.sc v (-x)
  | .getB32 a, b32 => ∀ x, R.sc a x → b32 = bytesOfNat 32 x.val
  | _, _ => True

/-- `secp256k1_ge_set_xo_var` squares its x, so the magnitude is at most 8. -/
def groupReq {β : Type} : GroupCall T β → Prop
  | .geSetXoVar x odd => (∃ u m, R.fe x u m ∧ m ≤ 8) ∧ (odd = 0 ∨ odd = 1)
  | _ => True

def groupSpec {β : Type} : GroupCall T β → β → Prop
  | .gejSetInfinity, r => R.gej r 0
  | .geSetXoVar x odd, (ret, r) =>
      ∀ u m, R.fe x u m → m ≤ 8 → (odd = 0 ∨ odd = 1) →
        ret = flag (liftX u (odd = 1)).isSome ∧ ∀ P, liftX u (odd = 1) = some P → R.ge r P
  | .gejSetGe a, r => ∀ P, R.ge a P → R.gej r P
  | .ecmult a na (some ng), r =>
      ∀ P k l, R.gej a P → R.sc na k → R.sc ng l → R.gej r (k • P + l • R.gen)
  | .gejIsInfinity a, ret => ∀ P, R.gej a P → ret = flag (P = 0)
  | .geSetGej a, (r, _) => ∀ P, R.gej a P → R.ge r P
  | _, _ => True

/-- Finite points are saved and serialized. -/
def keySpec {β : Type} : KeyCall T β → β → Prop
  | .pubkeySave a, pk => ∀ P, R.ge a P → P ≠ 0 → R.pubkey pk P
  | .ecPubkeySerialize pk compressed, (_, ser) =>
      ∀ P, R.pubkey pk P → P ≠ 0 → ser = serializePoint compressed P
  | _, _ => True

def ecdsaSpec {β : Type} : EcdsaCall T β → β → Prop
  | .constOrderAsFe, v => R.fe v secpN 1
  | _, _ => True

def contract : Contract (LibCall T) Unit :=
  .stateless
    (fun {β} (q : LibCall T β) => match q with
      | .fe q => R.feReq q
      | .group q => R.groupReq q
      | _ => True)
    (fun {β} (q : LibCall T β) (a : β) => match β, q, a with
      | _, .fe q, a => R.feSpec q a
      | _, .scalar q, a => R.scalarSpec q a
      | _, .group q, a => R.groupSpec q a
      | _, .key q, a => R.keySpec q a
      | _, .ecdsa q, a => R.ecdsaSpec q a
      | _, _, _ => True)

section Sat

variable {R : ConstructRep T} {α β : Type} {r : List UInt8} {g : Unit}
  {Post : α → List UInt8 → Unit → List (List UInt8) → Prop}

theorem sat_fe {q : FeCall T β} {f : β → Harness T α} (hreq : R.feReq q)
    (h : ∀ x, R.feSpec q x → Sat reader R.contract (f x) r g Post) :
    Sat reader R.contract (secpFe q >>= f) r g Post := ⟨hreq, h⟩

theorem sat_scalar {q : ScalarCall T β} {f : β → Harness T α}
    (h : ∀ x, R.scalarSpec q x → Sat reader R.contract (f x) r g Post) :
    Sat reader R.contract (secpScalar q >>= f) r g Post := ⟨trivial, h⟩

theorem sat_group {q : GroupCall T β} {f : β → Harness T α} (hreq : R.groupReq q)
    (h : ∀ x, R.groupSpec q x → Sat reader R.contract (f x) r g Post) :
    Sat reader R.contract (secpGroup q >>= f) r g Post := ⟨hreq, h⟩

theorem sat_key {q : KeyCall T β} {f : β → Harness T α}
    (h : ∀ x, R.keySpec q x → Sat reader R.contract (f x) r g Post) :
    Sat reader R.contract (secpKey q >>= f) r g Post := ⟨trivial, h⟩

theorem sat_ecdsa {q : EcdsaCall T β} {f : β → Harness T α}
    (h : ∀ x, R.ecdsaSpec q x → Sat reader R.contract (f x) r g Post) :
    Sat reader R.contract (secpEcdsa q >>= f) r g Post := ⟨trivial, h⟩

end Sat

variable {R : ConstructRep T} {r : List UInt8} {g : Unit}

/-! ## R -/

theorem drop_low_bytes (x32 : Bytes 32) :
    natOfBytes (Vector.ofFn fun i : Fin 32 => if i.val < 16 then 0 else x32.get i).toList
      = natOfBytes (x32.toList.drop 16) := by
  have hsplit : (Vector.ofFn fun i : Fin 32 => if i.val < 16 then 0 else x32.get i).toList
      = List.replicate 16 0 ++ x32.toList.drop 16 := by
    apply List.ext_getElem
    · simp
    · intro i hi hi'
      rw [Vector.getElem_toList, Vector.getElem_ofFn]
      by_cases hlow : i < 16
      · rw [List.getElem_append_left (by simpa using hlow), List.getElem_replicate]
        exact if_pos hlow
      · rw [List.getElem_append_right (by simpa using hlow)]
        simp only [List.length_replicate, List.getElem_drop,
          Nat.add_sub_cancel' (Nat.not_lt.mp hlow)]
        exact if_neg hlow
  have hzeros : natOfBytes (List.replicate 16 0) = 0 := by decide
  rw [hsplit, natOfBytes_append, hzeros, Nat.zero_mul, Nat.zero_add]

theorem sat_ecdsaRx (kind : EcdsaR) (x32 : Bytes 32) :
    Sat reader R.contract (ecdsaRx kind x32 : Harness T _) r g fun o _ _ _ =>
      (o = none ↔ secpP ≤ requestedX kind x32) ∧
      ∀ x, o = some x → R.fe x (requestedX kind x32) 1 ∧ R.normalized x := by
  rw [ecdsaRx]
  split
  · rename_i habove
    refine sat_fe trivial ?_
    intro x0 (hx0 : R.fe x0 _ 1)
    apply sat_ecdsa
    intro order (horder : R.fe order _ 1)
    refine sat_fe ⟨_, _, 1, 1, hx0, horder, by decide⟩ ?_
    intro x1 hx1
    have hx1 : R.fe x1 _ (1 + 1) := hx1 _ _ _ _ hx0 horder (by decide)
    refine sat_fe trivial ?_
    intro x2 hx2
    obtain ⟨hfe, hnorm⟩ : R.fe x2 _ 1 ∧ R.normalized x2 := hx2 _ _ hx1
    refine ⟨⟨fun h => absurd h (Option.some_ne_none _), fun hle => ?_⟩, fun x hx => ?_⟩
    · have := (requestedX_aboveOrder x32).2.1
      rw [habove] at hle
      omega
    · cases hx
      refine ⟨?_, hnorm⟩
      have hlow : natOfBytes (Vector.ofFn fun i : Fin 32 =>
        if i.val < 16 then 0 else x32[i]).toList
          = natOfBytes (x32.toList.drop 16) := drop_low_bytes x32
      rw [hlow] at hfe
      rw [requestedX, if_pos habove, Nat.cast_add, add_comm]
      exact hfe
  · rename_i habove
    refine sat_fe trivial ?_
    rintro ⟨ret, x⟩ ⟨hret, hx⟩
    rw [requestedX, if_neg habove]
    dsimp only at hret ⊢
    rw [sat_pure]
    by_cases hlt : natOfBytes x32.toList < secpP
    · have hne : ret ≠ 0 := by
        rw [hret, flag_ne_zero]
        exact decide_eq_true hlt
      rw [if_pos hne]
      refine ⟨⟨fun h => absurd h (Option.some_ne_none _), fun hle => ?_⟩,
        fun x' hx' => ?_⟩
      · omega
      · cases hx'
        exact hx hne
    · have heq : ret = 0 := by
        rw [hret, decide_eq_false hlt]
        rfl
      rw [if_neg (not_not_intro heq)]
      exact ⟨⟨fun _ => by omega, fun _ => rfl⟩, by simp⟩

theorem sat_ecdsaRPoint (kind : EcdsaR) (odd : Bool) (x32 : Bytes 32) (sig64 : Bytes 64)
    {r0 : T.Scalar} (hr0 : R.sc r0 (scalarOf (sig64.extract 0 32))) :
    Sat reader R.contract (ecdsaRPoint kind (flag odd) x32 r0) r g fun o _ _ _ =>
      (o = none → requestedR kind odd x32 = none) ∧
      ∀ rj rs, o = some (rj, rs) → ∃ Q, requestedR kind odd x32 = some Q ∧ R.gej rj Q ∧
        R.sc rs (constructedR kind sig64 x32) := by
  rw [ecdsaRPoint, requestedR, constructedR]
  split
  · refine sat_group trivial ?_
    intro rj hrj
    refine ⟨nofun, fun rj' rs heq => ?_⟩
    cases heq
    exact ⟨0, rfl, hrj, hr0⟩
  · rw [sat_bind]
    refine (sat_ecdsaRx kind x32).mono fun o r g _ ⟨hnone, hsome⟩ => ?_
    cases o with
    | none =>
        have hge := hnone.mp rfl
        rw [if_neg (by omega)]
        exact ⟨fun _ => rfl, nofun⟩
    | some x =>
        obtain ⟨hx, hnorm⟩ := hsome x rfl
        have hlt : requestedX kind x32 < secpP := by
          by_contra hge
          exact nomatch hnone.mpr (by omega)
        rw [if_pos hlt]
        refine sat_group ⟨⟨_, 1, hx, by decide⟩, flag_zero_or_one odd⟩ ?_
        intro ⟨ret, ge⟩ hset
        obtain ⟨hret, hge⟩ := hset _ 1 hx (by decide) (flag_zero_or_one odd)
        have hodd : decide (flag odd = 1) = odd := by cases odd <;> rfl
        simp only [hodd] at hret hge
        dsimp only
        cases hlift : liftX (requestedX kind x32 : F) odd with
        | none =>
            have hzero : ret = 0 := by
              rw [hret, hlift]
              rfl
            rw [if_pos hzero]
            exact ⟨fun _ => rfl, nofun⟩
        | some P =>
            have hne : ret ≠ 0 := by
              rw [hret, hlift]
              exact nofun
            rw [if_neg hne]
            refine sat_group trivial ?_
            intro rj hrj
            refine sat_fe ⟨hnorm, _, 1, hx⟩ ?_
            intro b32 hb32
            have hb32 : b32 = bytesOfNat 32 (requestedX kind x32 : F).val :=
              hb32 _ 1 hx hnorm
            apply sat_scalar
            intro ⟨rs, _⟩ (hrs : R.sc rs (scalarOf b32))
            refine ⟨nofun, fun rj' rs' heq => ?_⟩
            cases heq
            refine ⟨P, rfl, hrj P (hge P hlift), ?_⟩
            rw [hb32, scalarOf, natOfBytes_bytesOfNat, ZMod.val_natCast,
              Nat.mod_eq_of_lt hlt] at hrs
            · exact hrs
            · exact (ZMod.val_lt _).trans (by decide)

/-! ## P -/

/-- Failure leaves the buffers, and happens where there is no R or P is
infinity. -/
def Failed (G : Point) (pkser : List UInt8) (sig64 : Bytes 64) (msg : Bytes 32)
    (kind : EcdsaR) (odd : Bool) (x32 : Bytes 32)
    (w : Int32 × List UInt8 × Bytes 64) : Prop :=
  w = (0, pkser, sig64) ∧ ∀ P, requestedR kind odd x32 = some P →
    constructedP G P (constructedR kind sig64 x32) (scalarOf (sig64.extract 32 64))
      (scalarOf msg) = 0

/-- Success writes P and the reduced signature. -/
def Succeeded (G : Point) (pklen : ℕ) (sig64 : Bytes 64) (msg : Bytes 32)
    (kind : EcdsaR) (odd : Bool) (x32 : Bytes 32)
    (w : Int32 × List UInt8 × Bytes 64) : Prop :=
  ∃ P Q, requestedR kind odd x32 = some P ∧
    Q = constructedP G P (constructedR kind sig64 x32) (scalarOf (sig64.extract 32 64))
      (scalarOf msg) ∧ Q ≠ 0 ∧
    w = (1, serializePoint (pklen = 33) Q,
      bytesOfNat 32 (constructedR kind sig64 x32).val ++
      bytesOfNat 32 (scalarOf (sig64.extract 32 64)).val)

theorem sat_ecdsaConstruct (pkser : List UInt8) (pklen : ℕ) (sig64 : Bytes 64)
    (msg : Bytes 32) (kind : EcdsaR) (odd : Bool) (x32 : Bytes 32) :
    Sat reader R.contract (ecdsaConstruct pkser pklen sig64 msg kind (flag odd) x32) r g
      fun w _ _ _ =>
      Failed R.gen pkser sig64 msg kind odd x32 w ∨
      Succeeded R.gen pklen sig64 msg kind odd x32 w := by
  rw [ecdsaConstruct]
  apply sat_scalar
  intro ⟨r0, _⟩ hr0
  apply sat_scalar
  intro ⟨s, _⟩ (hs : R.sc s (scalarOf (sig64.extract 32 64)))
  apply sat_scalar
  intro ⟨z, _⟩ (hz : R.sc z (scalarOf msg))
  dsimp only
  rw [sat_bind]
  refine (sat_ecdsaRPoint kind odd x32 sig64 hr0).mono fun o r g _ ⟨hnone, hsome⟩ => ?_
  cases o with
  | none =>
      left
      refine ⟨rfl, fun P hP => ?_⟩
      rw [hnone rfl] at hP
      cases hP
  | some p =>
      obtain ⟨rj, rs⟩ := p
      obtain ⟨Q, hQ, hrj, hrs⟩ := hsome rj rs rfl
      apply sat_scalar
      intro rinv hrinv
      apply sat_scalar
      intro na hna
      apply sat_scalar
      intro zr hzr
      apply sat_scalar
      intro ng hng
      refine sat_group trivial ?_
      intro pj hpj
      refine sat_group trivial ?_
      intro inf hinf
      have hrinv : R.sc rinv _ := hrinv _ hrs
      have hna : R.sc na _ := hna _ _ hs hrinv
      have hng : R.sc ng _ := hng _ (hzr _ _ hz hrinv)
      set P := constructedP R.gen Q (constructedR kind sig64 x32)
        (scalarOf (sig64.extract 32 64)) (scalarOf msg)
        with hP
      have hpj : R.gej pj P := by
        have hsum : R.gej pj _ := hpj _ _ _ hrj hna hng
        convert hsum using 1
        rw [hP, constructedP]
        module
      have hinf : inf = flag (P = 0) := hinf P hpj
      by_cases hzero : P = 0
      · have hne : inf ≠ 0 := by
          rw [hinf, flag_ne_zero]
          exact decide_eq_true hzero
        rw [if_pos hne]
        left
        refine ⟨rfl, fun P' hreq => ?_⟩
        rw [hQ] at hreq
        cases hreq
        exact hzero
      · have heq : inf = 0 := by
          rw [hinf, decide_eq_false hzero]
          rfl
        rw [if_neg (not_not_intro heq)]
        refine sat_group trivial ?_
        intro ⟨ge, _⟩ hge
        have hge : R.ge ge P := hge P hpj
        apply sat_key
        intro pk hpk
        have hpk : R.pubkey pk P := hpk P hge hzero
        apply sat_key
        intro ⟨_, ser⟩ hser
        have hser : ser = serializePoint (pklen = 33) P := hser P hpk hzero
        apply sat_scalar
        intro r32 hr32
        apply sat_scalar
        intro s32 hs32
        right
        refine ⟨Q, P, hQ, hP, hzero, ?_⟩
        rw [hser, show r32 = _ from hr32 _ hrs, show s32 = _ from hs32 _ hs]

end ConstructRep

theorem requestedR_eq_none {kind : EcdsaR} {odd : Bool} {x32 : Bytes 32} :
    requestedR kind odd x32 = none ↔
      kind ≠ .infinity ∧
      (secpP ≤ requestedX kind x32 ∨ ¬ onCurve (requestedX kind x32 : F)) := by
  rw [requestedR]
  split
  · simp_all
  · split
    · rw [liftX_eq_none]
      simp_all
    · simp_all

/-- A finite R has the x and the parity asked for. -/
theorem requestedR_eq_some {kind : EcdsaR} {odd : Bool} {x32 : Bytes 32} {Q : Point}
    (hkind : kind ≠ .infinity) (h : requestedR kind odd x32 = some Q) :
    Q ≠ 0 ∧ (xOf Q).val = requestedX kind x32 ∧ yOdd Q = odd := by
  rw [requestedR, if_neg hkind] at h
  split at h
  · rename_i hlt
    obtain ⟨hne, hx, hodd⟩ := liftX_eq_some h
    refine ⟨hne, ?_, hodd⟩
    rw [hx, ZMod.val_natCast, Nat.mod_eq_of_lt hlt]
  · cases h

/-- For every signature, message, kind, parity and x: 0 is returned exactly
when there is no such R or P is infinity, and leaves the buffers; otherwise
`pkser` encodes a finite P, the signature holds the reduced (r', s), and
verification recomputes R. -/
theorem ecdsaConstruct_recomputes (R : ConstructRep T) (lib : Build T σ)
    (hlib : lib.Meets R.contract) (st : σ) (inp pkser : List UInt8) (pklen : ℕ)
    (sig64 : Bytes 64) (msg : Bytes 32) (kind : EcdsaR) (odd : Bool) (x32 : Bytes 32) :
    let G := R.gen
    let r := constructedR kind sig64 x32
    let s := scalarOf (sig64.extract 32 64)
    let z := scalarOf msg
    let x := requestedX kind x32
    let w := ((ecdsaConstruct pkser pklen sig64 msg kind (flag odd) x32).run reader
      lib inp st).val
    (w.1 = 0 ∨ w.1 = 1) ∧
    (w.1 = 0 ↔ (kind ≠ .infinity ∧ (secpP ≤ x ∨ ¬ onCurve (x : F))) ∨
      ∃ Q, requestedR kind odd x32 = some Q ∧ constructedP G Q r s z = 0) ∧
    (r = 0 → w.1 = 0) ∧
    (w.1 = 0 → w.2 = (pkser, sig64)) ∧
    (w.1 = 1 → ∃ Q P, requestedR kind odd x32 = some Q ∧ P ≠ 0 ∧
      w.2.1 = serializePoint (pklen = 33) P ∧
      natOfBytes (w.2.2.extract 0 32 : Bytes 32).toList = r.val ∧
      natOfBytes (w.2.2.extract 32 64 : Bytes 32).toList = s.val ∧ r.val < secpN ∧
      s.val < secpN ∧
      s • Q = z • G + r • P ∧ (s ≠ 0 → (z / s) • G + (r / s) • P = Q) ∧
      (kind = .infinity → Q = 0) ∧
      (kind ≠ .infinity → Q ≠ 0 ∧ (xOf Q).val = x ∧ yOdd Q = odd ∧
        r = ((xOf Q).val : Zn))) ∧
    (kind = .aboveOrder →
      x = secpN + natOfBytes (x32.toList.drop 16) ∧ secpN ≤ x ∧ x < secpP ∧
        r.val = x - secpN) := by
  intro G r s z x w
  have hw : ConstructRep.Failed G pkser sig64 msg kind odd x32 w ∨
      ConstructRep.Succeeded G pklen sig64 msg kind odd x32 w :=
    ((ConstructRep.sat_ecdsaConstruct (g := ()) pkser pklen sig64 msg kind odd x32).run
      hlib st).2
  have hfailed : w.1 = 0 → ConstructRep.Failed G pkser sig64 msg kind odd x32 w := by
    intro hzero
    rcases hw with hfail | ⟨_, _, _, _, _, hsucc⟩
    · exact hfail
    · rw [hsucc] at hzero
      cases hzero
  have hiff : w.1 = 0 ↔ ∀ Q, requestedR kind odd x32 = some Q →
      constructedP G Q r s z = 0 := by
    refine ⟨fun hzero => (hfailed hzero).2, fun hall => ?_⟩
    rcases hw with ⟨hfail, -⟩ | ⟨Q, P, hQ, hP, hne, -⟩
    · rw [hfail]
    · exact absurd (hP.trans (hall Q hQ)) hne
  refine ⟨?_, ?_, ?_, fun hzero => congrArg Prod.snd (hfailed hzero).1, ?_, ?_⟩
  · rcases hw with ⟨hfail, -⟩ | ⟨_, _, _, _, _, hsucc⟩
    · exact .inl (congrArg Prod.fst hfail)
    · exact .inr (congrArg Prod.fst hsucc)
  · rw [hiff, ← requestedR_eq_none]
    cases hreq : requestedR kind odd x32 with
    | none => simp
    | some Q => simp
  · intro hr
    rw [hiff]
    intro Q _
    rw [hr, constructedP_zero]
  · intro hone
    rcases hw with ⟨hfail, -⟩ | ⟨Q, P, hQ, hP, hne, hsucc⟩
    · rw [hfail] at hone
      cases hone
    · have hr : r ≠ 0 := by
        intro hzero
        have hr : constructedR kind sig64 x32 = 0 := hzero
        exact hne (by rw [hP, hr, constructedP_zero])
      have heq : s • Q = z • G + r • P := by
        rw [hP]
        exact verify_constructedP hr
      refine ⟨Q, P, hQ, hne, congrArg (·.2.1) hsucc, ?_, ?_, r.val_lt, s.val_lt, heq,
        fun hs => verify_recomputes hs heq, fun hkind => ?_, fun hkind => ?_⟩
      · rw [hsucc, extract_append_left]
        exact natOfBytes_bytesOfNat (r.val_lt.trans (by decide))
      · rw [hsucc, extract_append_right]
        exact natOfBytes_bytesOfNat (s.val_lt.trans (by decide))
      · rw [requestedR, if_pos hkind] at hQ
        exact (Option.some.inj hQ).symm
      · obtain ⟨hfinite, hx, hodd⟩ := requestedR_eq_some hkind hQ
        refine ⟨hfinite, hx, hodd, ?_⟩
        rw [hx]
        exact if_neg hkind
  · intro hkind
    obtain ⟨hge, hlt, hval⟩ := requestedX_aboveOrder x32
    have hx : x = requestedX .aboveOrder x32 := congrArg (requestedX · x32) hkind
    have hr : r = (requestedX .aboveOrder x32 : Zn) := by
      rw [← hx]
      exact if_neg (by rw [hkind]; exact nofun)
    rw [hr, hx]
    exact ⟨if_pos rfl, hge, hlt, hval⟩

/-! ## A build with points -/

/-- Jacobian points keep the coordinate 1. -/
def keyConstruct (G : Point) : ConstructRep keyTypes where
  gen := G
  fe v x _ := (v : F) = x
  normalized _ := True
  sc v x := (v : Zn) = x
  ge a P := geKey a = P
  gej a P := geKey ⟨a.x, a.y, a.infinity⟩ = P
  pubkey pk P := (pk : Point) = P

def keyGej (P : Point) : Gej keyTypes :=
  ⟨(keyGe P).x, (keyGe P).y, (1 : F), (keyGe P).infinity⟩

theorem geKey_keyGe (P : Point) : geKey (keyGe P) = P := by
  cases P with
  | zero => rfl
  | some x y hxy =>
      rw [geKey, if_neg (by exact nofun), keyGe, pointOf, dif_pos hxy]

def constructFe {β : Type} : FeCall keyTypes β → β
  | .setB32Mod b32 => (natOfBytes b32.toList : F)
  | .setB32Limit b32 =>
      (flag (natOfBytes b32.toList < secpP), (natOfBytes b32.toList : F))
  | .add _ _ (a : F) (b : F) => a + b
  | .normalizeVar a => a
  | .getB32 (a : F) => bytesOfNat 32 a.val
  | q => keyIdle (.fe q)

def constructScalar {β : Type} : ScalarCall keyTypes β → β
  | .setB32 b32 => (scalarOf b32, 0)
  | .inverseVar _ _ (a : Zn) => a⁻¹
  | .mul _ _ _ (a : Zn) (b : Zn) => a * b
  | .negate _ _ (a : Zn) => -a
  | .getB32 (a : Zn) => bytesOfNat 32 a.val
  | q => keyIdle (.scalar q)

def constructGroup (G : Point) {β : Type} : GroupCall keyTypes β → β
  | .gejSetInfinity => keyGej 0
  | .geSetXoVar (x : F) odd =>
      (flag (liftX x (odd = 1)).isSome, keyGe ((liftX x (odd = 1)).getD 0))
  | .gejSetGe a => keyGej (geKey a)
  | .ecmult a (na : Zn) (some (ng : Zn)) =>
      keyGej (na • geKey ⟨a.x, a.y, a.infinity⟩ + ng • G)
  | .gejIsInfinity a => flag (geKey ⟨a.x, a.y, a.infinity⟩ = 0)
  | .geSetGej a => (keyGe (geKey ⟨a.x, a.y, a.infinity⟩), a)
  | q => keyIdle (.group q)

def constructKey {β : Type} : KeyCall keyTypes β → β
  | .pubkeySave a => geKey a
  | .ecPubkeySerialize P compressed => (1, serializePoint compressed P)
  | q => keyIdle (.key q)

def constructEcdsa {β : Type} : EcdsaCall keyTypes β → β
  | .constOrderAsFe => (secpN : F)
  | q => keyIdle (.ecdsa q)

def constructLib (G : Point) : Build keyTypes Unit where
  answer
    | .fe q, s => (constructFe q, s)
    | .scalar q, s => (constructScalar q, s)
    | .group q, s => (constructGroup G q, s)
    | .key q, s => (constructKey q, s)
    | .ecdsa q, s => (constructEcdsa q, s)
    | q, s => (keyIdle q, s)

theorem setXo_point {x : F} {odd : Bool} {P : Point} (h : liftX x odd = some P) :
    geKey (keyGe ((liftX x odd).getD 0)) = P := by
  rw [h]
  exact geKey_keyGe P

theorem constructGroup_spec (G : Point) {β : Type} (q : GroupCall keyTypes β) :
    (keyConstruct G).groupSpec q (constructGroup G q) := by
  cases q with
  | gejSetInfinity => exact geKey_keyGe 0
  | geSetXoVar x odd =>
      rintro u m rfl - -
      exact ⟨rfl, fun P hP => setXo_point hP⟩
  | gejSetGe a =>
      rintro P rfl
      exact geKey_keyGe (geKey a)
  | ecmult a na ng =>
      cases ng with
      | none => trivial
      | some ng =>
          rintro P k l rfl rfl rfl
          exact geKey_keyGe _
  | gejIsInfinity a =>
      rintro P rfl
      rfl
  | geSetGej a =>
      rintro P rfl
      exact geKey_keyGe _
  | _ => trivial

theorem constructScalar_spec (G : Point) {β : Type} (q : ScalarCall keyTypes β) :
    (keyConstruct G).scalarSpec q (constructScalar q) := by
  cases q with
  | setB32 b32 => exact rfl
  | inverseVar r a va =>
      rintro x rfl
      rfl
  | mul r a b va vb =>
      rintro x y rfl rfl
      rfl
  | negate r a va =>
      rintro x rfl
      rfl
  | getB32 a =>
      rintro x rfl
      rfl
  | _ => trivial

theorem constructFe_spec (G : Point) {β : Type} (q : FeCall keyTypes β) :
    (keyConstruct G).feSpec q (constructFe q) := by
  cases q with
  | setB32Mod b32 => exact rfl
  | setB32Limit b32 => exact ⟨rfl, fun _ => ⟨rfl, trivial⟩⟩
  | add r a va vb =>
      rintro x y m n rfl rfl -
      rfl
  | normalizeVar a =>
      rintro x m rfl
      exact ⟨rfl, trivial⟩
  | getB32 a =>
      rintro x m rfl -
      rfl
  | _ => trivial

theorem constructKey_spec (G : Point) {β : Type} (q : KeyCall keyTypes β) :
    (keyConstruct G).keySpec q (constructKey q) := by
  cases q with
  | pubkeySave a => exact fun P h _ => h
  | ecPubkeySerialize pk compressed =>
      rintro P rfl -
      rfl
  | _ => trivial

theorem constructEcdsa_spec (G : Point) {β : Type} (q : EcdsaCall keyTypes β) :
    (keyConstruct G).ecdsaSpec q (constructEcdsa q) := by
  cases q with
  | constOrderAsFe => exact Eq.refl (secpN : F)
  | _ => trivial

theorem constructLib_meets (G : Point) :
    (constructLib G).Meets (keyConstruct G).contract := by
  intro g β q s _
  cases q with
  | fe q => exact constructFe_spec G q
  | scalar q => exact constructScalar_spec G q
  | group q => exact constructGroup_spec G q
  | key q => exact constructKey_spec G q
  | ecdsa q => exact constructEcdsa_spec G q
  | _ => trivial

/-- The point of the generator's x and an even y is the generator. -/
theorem requestedR_secpG :
    requestedR .fromX false (bytesOfNat 32 secpGx.val) = some secpG := by
  have hx : requestedX .fromX (bytesOfNat 32 secpGx.val) = secpGx.val :=
    natOfBytes_bytesOfNat (secpGx.val_lt.trans (by decide))
  have hcurve : onCurve secpGx := onCurve_of_point secpG_nonsingular
  rw [requestedR, if_neg nofun, hx, if_pos secpGx.val_lt, ZMod.natCast_zmod_val]
  cases hlift : liftX secpGx false with
  | none => exact absurd hcurve (liftX_eq_none.mp hlift)
  | some P =>
      obtain ⟨hne, hPx, hPodd⟩ := liftX_eq_some hlift
      cases P with
      | zero => exact absurd rfl hne
      | some x y hxy =>
          have hcode : pointCode (.some x y hxy) = pointCode secpG := by
            have hGodd : yOdd secpG = false := by decide +kernel
            exact congrArg some (Prod.ext hPx (hPodd.trans hGodd.symm))
          rw [pointCode_injective hcode]

/-- The key for R the generator, s = 1 and the message of zeros: it is made,
and verification recomputes the generator. -/
theorem ecdsaConstruct_secpG :
    let sig64 : Bytes 64 := bytesOfNat 32 0 ++ bytesOfNat 32 1
    let w := ((ecdsaConstruct [] 33 sig64 (bytesOfNat 32 0) .fromX (flag false)
      (bytesOfNat 32 secpGx.val)).run reader (constructLib secpG) [] ()).val
    w.1 = 1 ∧ ∃ P, w.2.1 = serializePoint true P ∧
      ((0 : Zn) / 1) • secpG + ((secpGx.val : Zn) / 1) • P = secpG := by
  intro sig64
  dsimp only
  obtain ⟨hcode, hzero, -, -, hone, -⟩ :=
    ecdsaConstruct_recomputes (keyConstruct secpG) (constructLib secpG)
    (constructLib_meets secpG) () [] [] 33 sig64 (bytesOfNat 32 0) .fromX false
    (bytesOfNat 32 secpGx.val)
  have hs : scalarOf (sig64.extract 32 64) = 1 := by
    have hhalf : (sig64.extract 32 64 : Bytes 32) = bytesOfNat 32 1 :=
      extract_append_right _ _
    rw [hhalf]
    decide +kernel
  have hz : scalarOf (bytesOfNat 32 0) = 0 := by decide +kernel
  have hr : constructedR .fromX sig64 (bytesOfNat 32 secpGx.val) = (secpGx.val : Zn) := by
    rw [constructedR, if_neg nofun, requestedX, if_neg nofun,
      natOfBytes_bytesOfNat (secpGx.val_lt.trans (by decide))]
  have hP : constructedP secpG secpG (secpGx.val : Zn) 1 0 ≠ 0 := by
    rw [constructedP, one_smul, zero_smul Zn secpG, sub_zero]
    exact smul_secpG_ne (inv_ne_zero (by decide +kernel))
  have hcurve : onCurve ((requestedX .fromX (bytesOfNat 32 secpGx.val) : ℕ) : F) := by
    rw [requestedX, if_neg nofun, natOfBytes_bytesOfNat (secpGx.val_lt.trans (by decide)),
      ZMod.natCast_zmod_val]
    exact onCurve_of_point secpG_nonsingular
  have hw := hcode.resolve_left fun hw => by
    rcases hzero.mp hw with ⟨-, hlarge | hoff⟩ | ⟨Q, hQ, hinf⟩
    · rw [requestedX, if_neg nofun,
        natOfBytes_bytesOfNat (secpGx.val_lt.trans (by decide))] at hlarge
      exact absurd secpGx.val_lt (Nat.not_lt.mpr hlarge)
    · exact hoff hcurve
    · rw [requestedR_secpG] at hQ
      cases hQ
      rw [hr, hs, hz] at hinf
      exact hP hinf
  refine ⟨hw, ?_⟩
  obtain ⟨Q, P, hQ, -, hser, -, -, -, -, -, hverify, -⟩ := hone hw
  rw [requestedR_secpG] at hQ
  cases hQ
  have hverify := hverify (by rw [hs]; exact one_ne_zero)
  rw [hr, hs, hz] at hverify
  rw [decide_eq_true rfl] at hser
  exact ⟨P, hser, hverify⟩

end Diffsecp
