import Diffsecp.Ellswift.Inverse
import Diffsecp.Secp.Pairing

/-!
# Ellswift — Paired

Two builds under the ElligatorSwift target make calls pair by pair. The
inverse map is called for an x on the curve and a nonzero u, and the field
calls on the way to it keep to their magnitudes.
-/

namespace Diffsecp

open Interact

variable {T T' : Types} {R : Pairing T T'} {r : List UInt8}

/-! ## The inverse map -/

theorem twin_ellswiftXRZero {u : T.Fe} {u' : T'.Fe} {uv : F} (hu : R.fe u u' uv 1) :
    Twins R (fun x x' => R.fe x x' (rZeroX uv) 1) (ellswiftXRZero u)
      (ellswiftXRZero u') r := by
  refine twin_fe (.sqr hu (by decide)) fun u2 u2' hu2 => ?_
  refine twin_fe (.mul hu2 hu (by decide) (by decide) (by decide) (by decide))
    fun num num' hnum => ?_
  refine twin_fe (.addInt secpB hnum (by decide) (by decide) (by decide))
    fun num num' hnum => ?_
  refine twin_fe (.mulIntUnchecked 4 hnum (by decide) (by decide) (by decide))
    fun num num' hnum => ?_
  refine twin_fe (.mulIntUnchecked 3 hu2 (by decide) (by decide) (by decide))
    fun den den' hden => ?_
  refine twin_fe (.invVar hden) fun den den' hden => ?_
  refine twin_fe (.mul hnum hden (by decide) (by decide) (by decide) (by decide))
    fun x x' hx => ?_
  refine twin_fe (.negateUnchecked 1 hx (by decide) (by decide)) fun x x' hx => ?_
  refine twin_fe (.add hx hu (by decide)) fun x x' hx => ?_
  refine Twin.invoke (.fe (.normalizeVar hx)) fun y y' hy => ?_
  have hval :
      -((uv * uv * uv + (secpB : F)) * ((4 : ℤ) : F) * (uv * uv * ((3 : ℤ) : F))⁻¹) + uv =
      rZeroX uv := by
    rw [rZeroX, secpB]
    push_cast
    rfl
  rw [← hval]
  exact hy.1

/-- Both sides hold an x and a nonzero u. -/
structure InvTwins (R : Pairing T T') (o : T.Fe × T.Fe) (o' : T'.Fe × T'.Fe) : Prop where
  x : ∃ xv m, R.fe o.1 o'.1 xv m ∧ m ≤ 8
  u : ∃ uv m, R.fe o.2 o'.2 uv m ∧ uv ≠ 0

/-- A zero u is replaced by one on both sides. -/
theorem twin_nonzeroU {u : T.Fe} {u' : T'.Fe} {uv : F} (hu : R.fe u u' uv 1)
    {zero zero' : Int32} (hzero : zero = flag (uv = 0) ∧ zero' = flag (uv = 0)) :
    Twins R (fun v v' => ∃ vv, R.fe v v' vv 1 ∧ vv ≠ 0)
      (if zero ≠ 0 then secpFe (.setInt 1) else pure u)
      (if zero' ≠ 0 then secpFe (.setInt 1) else pure u') r := by
  obtain ⟨rfl, rfl⟩ := hzero
  by_cases hne : uv = 0
  · have hflag : flag (decide (uv = 0)) ≠ 0 := (flag_ne_zero _).mpr (decide_eq_true hne)
    rw [if_pos hflag, if_pos hflag]
    refine Twin.invoke (.fe (.setInt 1 (by decide) (by decide))) fun v v' hv =>
      ⟨1, ?_, one_ne_zero⟩
    simpa using hv
  · have hflag : ¬ flag (decide (uv = 0)) ≠ 0 :=
      fun h => hne (of_decide_eq_true ((flag_ne_zero _).mp h))
    rw [if_neg hflag, if_neg hflag]
    exact Twin.pure ⟨uv, hu, hne⟩

theorem twin_ellswiftInvOperands (mode : ℕ) (u32 : Bytes 32) {pk : T.Pubkey}
    {pk' : T'.Pubkey} (hpk : R.pubkey pk pk') :
    Twins R (InvTwins R) (ellswiftInvOperands mode u32 pk)
      (ellswiftInvOperands mode u32 pk') r := by
  refine twin_fe (.setB32Mod u32) fun u u' hu => ?_
  refine twin_fe (.normalizesToZeroVar hu) fun zero zero' hzero => ?_
  refine Twin.bind (twin_nonzeroU hu hzero) ?_
  rintro u u' _ ⟨uv, hu, hne⟩
  refine twin_key (.pubkeyLoad hpk) fun _ _ h => h.cases ?_
  rintro _ p p' ⟨P, hP, hp⟩
  have hx : R.fe p.x p'.x (xOf P) 4 := by
    cases P with
    | zero => exact absurd rfl hP
    | some x y hxy => exact hp.2.2.1
  cases EllswiftInvKind.cast ((mode >>> 3) % ellswiftInvKinds) with
  | fuzzed => exact Twin.pure ⟨⟨_, 4, hx, by decide⟩, ⟨uv, 1, hu, hne⟩⟩
  -- the x of a point is a u that is not zero
  | uIsX => exact Twin.pure ⟨⟨_, 4, hx, by decide⟩, ⟨_, 4, hx, xOf_ne_zero hP⟩⟩
  | rZero =>
      refine Twin.bind (twin_ellswiftXRZero hu) fun x x' _ hx => Twin.pure ?_
      exact ⟨⟨_, 1, hx, by decide⟩, ⟨uv, 1, hu, hne⟩⟩

theorem twin_ellswiftInvCall (mode : ℕ) {o : T.Fe × T.Fe} {o' : T'.Fe × T'.Fe}
    (ho : InvTwins R o o') :
    Twins R Eq (ellswiftInvCall mode o.1 o.2) (ellswiftInvCall mode o'.1 o'.2) r := by
  obtain ⟨⟨xv, m, hx, hm⟩, ⟨uv, n, hu, hne⟩⟩ := ho
  refine twin_group (.geXOnCurveVar hx hm) ?_
  intro ret ret' ⟨hret, hret'⟩
  obtain rfl : ret = ret' := hret.trans hret'.symm
  refine twin_int rfl (Twin.ite (fun _ => Twin.pure rfl) fun hone => ?_)
  have hcurve : onCurve xv := of_decide_eq_true ((flag_ne_zero _).mp (hret ▸ hone))
  obtain ⟨hmin, hmax⟩ := EllswiftRep.branch_range mode
  refine twin_ellswift (.xswiftecInvVar _ hx hu hcurve hne hmin hmax) fun _ _ h =>
    h.cases ?_
  intro ret res res' hres
  refine twin_int rfl (Twin.ite (fun hret => ?_) fun _ => Twin.pure rfl)
  obtain ⟨tv, k, hres⟩ := hres hret
  refine twin_fe (.normalizeVar hres) ?_
  rintro res res' ⟨hres, hnorm⟩
  refine twin_fe (.getB32 hres hnorm) ?_
  rintro b32 _ rfl
  exact twin_bytes_end rfl

theorem twin_ellswiftInv (mode : ℕ) (u32 : Bytes 32) {pk : T.Pubkey} {pk' : T'.Pubkey}
    (hpk : R.pubkey pk pk') :
    Twins R Eq (ellswiftInv mode u32 pk) (ellswiftInv mode u32 pk') r := by
  rw [ellswiftInv_eq, ellswiftInv_eq]
  exact Twin.bind (twin_ellswiftInvOperands mode u32 hpk) fun _ _ _ ho =>
    twin_ellswiftInvCall mode ho

/-! ## The target -/

theorem twin_ellswiftRawX (ellA64 ellB64 : Bytes 64) (seckey : Bytes 32)
    (hashfp : EllswiftXdhHashFn) (data : Bytes 64) :
    Twins R Eq (ellswiftRawX ellA64 ellB64 seckey hashfp data)
      (ellswiftRawX ellA64 ellB64 seckey hashfp data) r := by
  refine twin_ellswift (.xdh ellA64 ellB64 seckey 0 (.harness ellswiftXdhRaw) none)
    fun _ _ h => h.cases ?_
  intro ret x x' hx
  refine twin_int rfl (Twin.ite (fun hret => ?_) fun _ => Twin.pure rfl)
  obtain rfl := hx hret
  refine twin_bytes rfl (twin_ellswift
    (.xdhHashFunction hashfp x ellA64 ellB64 (some data)) fun _ _ h => h.cases ?_)
  rintro ret shared _ rfl
  exact twin_int rfl (twin_bytes_end rfl)

theorem twin_ellswiftOwnEncoding (seckey : Bytes 32) (aux : Option (Bytes 32))
    (fallback : Bytes 64) :
    Twins R Eq (ellswiftOwnEncoding seckey aux fallback)
      (ellswiftOwnEncoding seckey aux fallback) r := by
  refine twin_ellswift (.create seckey aux) fun _ _ h => h.cases ?_
  intro ret ell64 ell64' hell
  refine twin_int rfl (Twin.ite (fun hret => ?_) fun _ => Twin.pure rfl)
  obtain rfl := hell hret
  exact twin_bytes rfl (Twin.pure rfl)

theorem twin_ellswiftSecret (ellA64 ellB64 : Bytes 64) (seckey : Bytes 32) (party : Int32)
    (hashfp : EllswiftXdhHashFn) (data : Bytes 64) :
    Twins R Eq (ellswiftSecret ellA64 ellB64 seckey party hashfp data)
      (ellswiftSecret ellA64 ellB64 seckey party hashfp data) r := by
  refine twin_ellswift (.xdh ellA64 ellB64 seckey party hashfp (some data)) fun _ _ h =>
    h.cases ?_
  intro ret shared shared' hshared
  refine twin_int rfl (Twin.ite (fun hret => ?_) fun _ => Twin.pure rfl)
  obtain rfl := hshared hret
  exact twin_bytes_end rfl

theorem twin_targetEllswift : Twins R Eq targetEllswift targetEllswift r := by
  refine twin_readerU8 fun flags _ => twin_readerTake fun ell _ =>
    twin_readerTake fun rnd _ => ?_
  refine twin_readerTake fun seckey0 _ => twin_readerTake fun aux0 _ =>
    twin_readerTake fun seckey1 _ => ?_
  refine twin_readerTake fun aux1 _ => twin_readerTake fun data _ =>
    twin_readerU8 fun invMode _ => ?_
  refine twin_readerTake fun invU _ => twin_ellswift (.decode ell) fun _ _ h => h.cases ?_
  intro ret pk pk' hpk
  refine twin_int rfl (Twin.bind (twin_recordPubkey true hpk) fun _ _ _ _ => ?_)
  refine Twin.bind (Twin.ite (fun _ => twin_ellswiftInv invMode invU hpk) fun _ =>
    Twin.pure rfl) fun _ _ _ _ => ?_
  refine Twin.bind (P := Eq) (Twin.ite (fun _ => ?_) fun _ => Twin.pure rfl)
    fun _ _ _ _ => ?_
  · refine twin_ellswift (.encode rnd hpk) fun _ _ h => h.cases ?_
    rintro ret ours0 _ rfl
    refine twin_int rfl
      (twin_bytes rfl (twin_ellswift (.decode ours0) fun _ _ h => h.cases ?_))
    intro ret pk pk' hpk
    exact twin_int rfl (twin_recordPubkey true hpk)
  refine Twin.bind (twin_ellswiftOwnEncoding seckey0 _ ell) ?_
  rintro ours0 _ _ rfl
  refine Twin.bind (P := Eq)
    (Twin.ite (fun _ => Twin.pure rfl) fun _ => twin_ellswiftOwnEncoding seckey1 _ ell) ?_
  rintro ours1 _ _ rfl
  refine Twin.bind (twin_ellswiftSecret ours0 ours1 seckey0 0 _ data) fun _ _ _ _ => ?_
  refine Twin.bind (twin_ellswiftSecret ours0 ours1 seckey1 1 _ data) fun _ _ _ _ => ?_
  exact Twin.ite (fun _ => twin_ellswiftRawX ours0 ours1 seckey0 _ data) fun _ =>
    Twin.pure rfl

/-- No result is used where a call reports none, the inverse map stays inside
its domain, and the transcript tells nothing of how a build represents keys
and field elements. -/
theorem targetEllswift_accounts (R : Pairing T T') (inp : List UInt8) :
    R.Accounts targetEllswift targetEllswift inp :=
  Pairing.accounts_of_twins twin_targetEllswift

end Diffsecp
