import Diffsecp.Interact.Output
import Diffsecp.Musig.Target
import Diffsecp.Musig.Tweaked
import Diffsecp.Secp.KeyReference

/-!
# Musig — Cancel

The cancelling tweak of the musig target is minus the discrete log of the key
it is applied to, whatever tweaks the cache went through, so tweaking must
reject it.
-/

namespace Diffsecp

open Interact

variable {T : Types} {σ : Type}

/-! ## Caches -/

/-- What a cache stands for: the key with its tweaks, and what the
coefficients depend on. -/
structure CacheValue extends TweakedKey Zn Point where
  secondPk : Point
  pksHash : Bytes 32

/-- What a build's objects stand for: `coef` gives the coefficient of a key in
an aggregate. -/
structure MusigRep (T : Types) where
  gen : Point
  fe : T.Fe → F
  normalized : T.Fe → Prop
  sc : T.Scalar → Zn
  secret : T.Keypair → Zn
  pubkey : T.Pubkey → Point
  value : T.KeyaggCache → CacheValue
  coef : Bytes 32 → Point → Point → Zn

namespace MusigRep

variable (R : MusigRep T)

/-- An affine representation of a point. -/
def affine (a : Ge T) : Point → Prop
  | .zero => a.infinity = true
  | .some x y _ => a.infinity = false ∧ R.fe a.x = x ∧ R.fe a.y = y

/-- The loaded form of a cache. -/
structure Loaded (ci : KeyaggCacheInternal T) (v : CacheValue) : Prop where
  pk : R.affine ci.pk v.pk
  secondPk : R.affine ci.secondPk v.secondPk
  pksHash : ci.pksHash = v.pksHash
  tweak : R.sc ci.tweak = v.tweak
  parityAcc : ci.parityAcc ≠ 0 ↔ v.parityAcc = true

/-- The aggregate of some keys under the coefficients of a cache. -/
def aggregate (v : CacheValue) (Ps : List Point) : Point :=
  (Ps.map fun P => R.coef v.pksHash v.secondPk P • P).sum

def feSpec {β : Type} : FeCall T β → β → Prop
  | .normalizeVar v, n => R.fe n = R.fe v ∧ R.normalized n
  | .isOdd v, ret => R.normalized v → (ret ≠ 0 ↔ (R.fe v).val % 2 = 1)
  | _, _ => True

/-- Scalars mod n, over any aliases. -/
def scalarSpec {β : Type} : ScalarCall T β → β → Prop
  | .setInt k, v => R.sc v = k
  | .setB32 b32, (v, _) => R.sc v = scalarOf b32
  | .add _ _ _ a b, (_, v) => R.sc v = R.sc a + R.sc b
  | .mul _ _ _ a b, v => R.sc v = R.sc a * R.sc b
  | .negate _ _ a, v => R.sc v = -R.sc a
  | .getB32 a, b32 => scalarOf b32 = R.sc a
  | _, _ => True

def keySpec {β : Type} : KeyCall T β → β → Prop
  | .keypairCreate seckey, (ret, keypair) => Done ret (R.secret keypair = scalarOf seckey)
  | .keypairPub keypair, (_, pk) => R.pubkey pk = R.secret keypair • R.gen
  | .ecPubkeySort pks, (_, sorted) => (List.ofFn sorted).Perm (List.ofFn pks)
  | .pubkeyLoad pk, (_, a) => R.affine a (R.pubkey pk)
  | _, _ => True

/-- A tweak that leads to infinity fails; one that succeeds moves the key. -/
def musigSpec {β : Type} : MusigCall T β → β → Prop
  | .pubkeyAgg _ pks, (ret, _, cache) =>
      Done ret ((R.value cache).toTweakedKey =
        .fresh (R.aggregate (R.value cache) (pks.map R.pubkey)))
  | .pubkeyEcTweakAdd _ cache t, (ret, _, cache') =>
      Done ret (R.value cache' =
        { R.value cache with toTweakedKey := (R.value cache).plain R.gen (scalarOf t) }) ∧
      ((R.value cache).pk + scalarOf t • R.gen = 0 → ret = 0)
  | .pubkeyXonlyTweakAdd _ cache t, (ret, _, cache') =>
      Done ret (R.value cache' =
        { R.value cache with
          toTweakedKey := (R.value cache).xonly yOdd R.gen (scalarOf t) }) ∧
      (evenPoint (R.value cache).pk + scalarOf t • R.gen = 0 → ret = 0)
  | .keyaggCacheLoad cache, (_, ci) => R.Loaded ci (R.value cache)
  | .keyaggcoef ci pk, a =>
      ∀ v P, R.Loaded ci v → R.affine pk P → R.sc a = R.coef v.pksHash v.secondPk P
  | _, _ => True

def contract : Contract (LibCall T) Unit :=
  .stateless (fun _ => True)
    (fun {β} (q : LibCall T β) (a : β) => match β, q, a with
      | _, .fe q, a => R.feSpec q a
      | _, .scalar q, a => R.scalarSpec q a
      | _, .key q, a => R.keySpec q a
      | _, .musig q, a => R.musigSpec q a
      | _, _, _ => True)

/-- The pubkeys are those of the secret keys. -/
def OwnKeys (keys : List (MusigKeys T)) : Prop :=
  ∀ key ∈ keys, R.pubkey key.pubkey = scalarOf key.seckey • R.gen

/-- The caches of some keys: their aggregate in any order, and what successful
tweaks make of it. -/
inductive Reached (keys : List (MusigKeys T)) : T.KeyaggCache → Prop
  | agg {output : Bool} {pks : List T.Pubkey} {xonly : T.XonlyPubkey}
      {cache : T.KeyaggCache} (hperm : pks.Perm (keys.map (·.pubkey)))
      (hagg : R.musigSpec (.pubkeyAgg output pks) (1, xonly, cache)) : Reached keys cache
  | ecTweak {output : Bool} {cache cache' : T.KeyaggCache} {t : Bytes 32} {pk : T.Pubkey}
      (hcache : Reached keys cache)
      (htweak : R.musigSpec (.pubkeyEcTweakAdd output cache t) (1, pk, cache')) :
      Reached keys cache'
  | xonlyTweak {output : Bool} {cache cache' : T.KeyaggCache} {t : Bytes 32}
      {pk : T.Pubkey} (hcache : Reached keys cache)
      (htweak : R.musigSpec (.pubkeyXonlyTweakAdd output cache t) (1, pk, cache')) :
      Reached keys cache'

/-- The sum of the coefficients times the secret keys. -/
def secretSum (v : CacheValue) (keys : List (MusigKeys T)) : Zn :=
  (keys.map fun key =>
    R.coef v.pksHash v.secondPk (R.pubkey key.pubkey) * scalarOf key.seckey).sum

theorem aggregate_secretSum {keys : List (MusigKeys T)} (hkeys : R.OwnKeys keys)
    (v : CacheValue) :
    R.aggregate v ((keys.map (·.pubkey)).map R.pubkey) = R.secretSum v keys • R.gen := by
  induction keys with
  | nil => exact (zero_smul Zn R.gen).symm
  | cons key keys ih =>
      have hkey := hkeys key List.mem_cons_self
      have ih := ih fun key' hmem => hkeys key' (List.mem_cons_of_mem key hmem)
      simp only [aggregate, secretSum, List.map_cons, List.sum_cons] at ih ⊢
      rw [ih, add_smul, mul_smul, ← hkey]

/-- The cache invariant: the key is the signed sum of the secrets plus the
tweak, times the generator. -/
theorem Reached.holds {R : MusigRep T} {keys : List (MusigKeys T)} {cache : T.KeyaggCache}
    (hkeys : R.OwnKeys keys) (h : R.Reached keys cache) :
    TweakedKey.Holds R.gen (R.secretSum (R.value cache) keys • R.gen)
      (R.value cache).toTweakedKey := by
  induction h with
  | @agg output pks xonly cache hperm hagg =>
      have hsum : R.aggregate (R.value cache) (pks.map R.pubkey) =
          R.secretSum (R.value cache) keys • R.gen := by
        rw [← R.aggregate_secretSum hkeys]
        exact ((hperm.map _).map _).sum_eq
      rw [hagg.2 rfl, hsum]
      exact TweakedKey.holds_fresh
  | @ecTweak output cache cache' t pk _ htweak ih =>
      rw [htweak.1.2 rfl]
      exact ih.plain (scalarOf t)
  | @xonlyTweak output cache cache' t pk _ htweak ih =>
      rw [htweak.1.2 rfl]
      exact ih.xonly (scalarOf t)

/-! ## The cancelling tweak -/

section Sat

variable {R : MusigRep T} {α β : Type} {r : List UInt8} {g : Unit}
  {Post : α → List UInt8 → Unit → List (List UInt8) → Prop}

theorem sat_fe {q : FeCall T β} {f : β → Harness T α}
    (h : ∀ x, R.feSpec q x → Sat reader R.contract (f x) r g Post) :
    Sat reader R.contract (secpFe q >>= f) r g Post := ⟨trivial, h⟩

theorem sat_scalar {q : ScalarCall T β} {f : β → Harness T α}
    (h : ∀ x, R.scalarSpec q x → Sat reader R.contract (f x) r g Post) :
    Sat reader R.contract (secpScalar q >>= f) r g Post := ⟨trivial, h⟩

theorem sat_key {q : KeyCall T β} {f : β → Harness T α}
    (h : ∀ x, R.keySpec q x → Sat reader R.contract (f x) r g Post) :
    Sat reader R.contract (secpKey q >>= f) r g Post := ⟨trivial, h⟩

theorem sat_musig {q : MusigCall T β} {f : β → Harness T α}
    (h : ∀ x, R.musigSpec q x → Sat reader R.contract (f x) r g Post) :
    Sat reader R.contract (secpMusig q >>= f) r g Post := ⟨trivial, h⟩

end Sat

variable {R : MusigRep T} {r : List UInt8} {g : Unit}

theorem sat_musigSecretSum {ci : KeyaggCacheInternal T} {v : CacheValue}
    (hci : R.Loaded ci v) (keys : List (MusigKeys T)) (d : T.Scalar) :
    Sat reader R.contract (musigSecretSum ci keys d) r g fun d' _ _ _ =>
      R.sc d' = R.sc d + R.secretSum v keys := by
  induction keys generalizing d r g with
  | nil => exact (add_zero (R.sc d)).symm
  | cons key keys ih =>
      apply sat_key
      intro ⟨_, pk⟩ hpk
      apply sat_musig
      intro a ha
      apply sat_scalar
      intro ⟨x, _⟩ hx
      apply sat_scalar
      intro ax hax
      apply sat_scalar
      intro ⟨_, d'⟩ hd
      refine (ih d').mono fun d'' _ _ _ hd'' => ?_
      have hax : R.sc ax = R.sc a * R.sc x := hax
      have hd : R.sc d' = R.sc d + R.sc ax := hd
      rw [hd'', hd, hax, ha v _ hci hpk, show R.sc x = _ from hx, secretSum, secretSum,
        List.map_cons, List.sum_cons, add_assoc]

/-- The oddness of the loaded y negates the key as `evenPoint` does; infinity
has no y, and is its own negation. -/
theorem even_loaded {ci : KeyaggCacheInternal T} {v : CacheValue} (hci : R.Loaded ci v) :
    (v.even fun _ => (R.fe ci.pk.y).val % 2 = 1).pk = evenPoint v.pk := by
  have hpk := hci.pk
  rw [TweakedKey.even, evenPoint]
  cases hv : v.pk with
  | zero =>
      have hneg : -(.zero : Point) = .zero := neg_zero
      split <;> simp [yOdd, hv, hneg]
  | some x y hxy =>
      rw [hv] at hpk
      rw [hpk.2.2, yOdd]
      split <;> simp [hv]

theorem sat_negateIf (c : Prop) [Decidable c] (d : T.Scalar) :
    Sat reader R.contract (if c then secpScalar (.negate .d .d d) else pure d) r g
      fun d' _ _ _ =>
      R.sc d' = if c then -R.sc d else R.sc d := by
  split
  · exact ⟨trivial, fun _ hneg => hneg⟩
  · exact rfl

/-- The last negation: it is left out where an x-only tweak negates the
key. -/
theorem sat_negateEven {y : T.Fe} (hy : R.normalized y) (xonly : Bool) (d : T.Scalar) :
    Sat reader R.contract
      (if xonly then do
          let odd ← secpFe (.isOdd y)
          (if odd = 0 then secpScalar (.negate .d .d d) else pure d)
        else secpScalar (.negate .d .d d)) r g fun d' _ _ _ =>
      R.sc d' = if xonly && (R.fe y).val % 2 = 1 then R.sc d else -R.sc d := by
  cases xonly with
  | false => exact ⟨trivial, fun _ hneg => hneg⟩
  | true =>
      apply sat_fe
      intro odd hodd
      refine (sat_negateIf (odd = 0) d).mono fun d' _ _ _ hd' => ?_
      have hodd : odd ≠ 0 ↔ (R.fe y).val % 2 = 1 := hodd hy
      rw [hd']
      by_cases hzero : odd = 0
      · have heven : ¬ (R.fe y).val % 2 = 1 := by
          rw [← hodd]
          exact not_not_intro hzero
        simp [hzero, heven]
      · simp [hzero, hodd.mp hzero]

/-- What the tweak is added to: the key, or the even one for an x-only
tweak. -/
def tweakBase (P : Point) (xonly : Bool) : Point := if xonly then evenPoint P else P

theorem sat_musigCancelTweak {keys : List (MusigKeys T)} {cache : T.KeyaggCache}
    (hkeys : R.OwnKeys keys) (hcache : R.Reached keys cache) (xonly : Bool) :
    Sat reader R.contract (musigCancelTweak cache keys xonly) r g fun t _ _ _ =>
      tweakBase (R.value cache).pk xonly + scalarOf t • R.gen = 0 := by
  have hholds := hcache.holds hkeys
  apply sat_musig
  intro ⟨_, ci⟩ hci
  have hci : R.Loaded ci (R.value cache) := hci
  apply sat_scalar
  intro d0 hd0
  rw [sat_bind]
  refine (sat_musigSecretSum hci keys d0).mono fun d1 r g _ hd1 => ?_
  have hd1 : R.sc d1 = R.secretSum (R.value cache) keys := by
    rw [hd1, show R.sc d0 = _ from hd0, Nat.cast_zero, zero_add]
  rw [sat_bind]
  refine (sat_negateIf (ci.parityAcc ≠ 0) d1).mono fun d2 r g _ hd2 => ?_
  apply sat_scalar
  intro ⟨_, d3⟩ hd3
  apply sat_fe
  intro y ⟨hfe, hnorm⟩
  rw [sat_bind]
  refine (sat_negateEven hnorm xonly d3).mono fun d4 r g _ hd4 => ?_
  refine ⟨trivial, fun t ht => ?_⟩
  -- the scalar is the cancelling one, for the oddness of the loaded y
  have hsum : R.sc d3 = signed (R.value cache).parityAcc
      (R.secretSum (R.value cache) keys) + (R.value cache).tweak := by
    rw [show R.sc d3 = _ from hd3, hd2, hd1, hci.tweak, signed]
    simp only [hci.parityAcc]
  have ht : scalarOf t = (R.value cache).cancel (fun _ => (R.fe ci.pk.y).val % 2 = 1)
      (R.secretSum (R.value cache) keys) xonly := by
    rw [show scalarOf t = _ from ht, hd4, hsum, hfe, TweakedKey.cancel]
  have hcancel := hholds.cancel (fun _ => (R.fe ci.pk.y).val % 2 = 1) xonly
  rw [even_loaded hci, ← ht] at hcancel
  exact hcancel

/-! ## In the target -/

theorem sat_musigKeys (signers : List MusigSigner) :
    Sat reader R.contract (musigKeys signers : Harness T _) r g fun o _ _ _ =>
      ∀ keys, o = some keys → R.OwnKeys keys := by
  induction signers generalizing r g with
  | nil =>
      intro keys hkeys
      cases hkeys
      exact nofun
  | cons signer signers ih =>
      apply sat_key
      intro ⟨ok, keypair⟩ hcreate
      apply sat_int
      dsimp only
      split
      · exact nofun
      · apply sat_key
        intro ⟨_, pubkey⟩ hpub
        rw [sat_bind]
        refine ih.mono fun o _ _ _ hrest => ?_
        cases o with
        | none => exact nofun
        | some keys =>
            intro keys' hkeys'
            cases hkeys'
            have hsecret : R.secret keypair = scalarOf signer.seckey := hcreate.of_ne ‹_›
            have hpubkey : R.pubkey pubkey = R.secret keypair • R.gen := hpub
            intro key hmem
            rcases List.mem_cons.mp hmem with rfl | hmem
            · exact hpubkey.trans (by rw [hsecret])
            · exact hrest keys rfl key hmem

/-- Reading the key back leaves the cache. -/
theorem sat_musigRecordTweaked (cache : T.KeyaggCache) :
    Sat reader R.contract (musigRecordTweaked cache) r g fun st _ _ _ =>
      st.cache = cache := by
  apply sat_musig
  intro ⟨ret, agg⟩ _
  apply sat_int
  rw [sat_bind]
  exact (Sat.free (fun _ _ _ => trivial) _ _ _).mono fun _ _ _ _ _ => rfl

theorem sat_musigAggregate (flags : ℕ) (keys : List (MusigKeys T)) :
    Sat reader R.contract (musigAggregate flags keys) r g fun o _ _ _ =>
      ∀ st, o = some st → R.Reached keys st.cache := by
  rw [musigAggregate, sat_bind]
  have hptrs : Sat reader R.contract (if flags &&& MusigFlag.sort ≠ 0 then do
        let (ret, sorted) ← secpKey (.ecPubkeySort (keys.map (·.pubkey)).get)
        transcriptInt ret
        pure (List.ofFn sorted)
      else pure (keys.map (·.pubkey)) : Harness T _) r g fun ptrs _ _ _ =>
      ptrs.Perm (keys.map (·.pubkey)) := by
    split
    · apply sat_key
      intro ⟨ret, sorted⟩ hsort
      have hsort : (List.ofFn sorted).Perm (List.ofFn (keys.map (·.pubkey)).get) := hsort
      rw [List.ofFn_get] at hsort
      exact hsort
    · exact List.Perm.refl _
  refine hptrs.mono fun ptrs r g _ hperm => ?_
  apply sat_musig
  intro ⟨ok, aggXonly, cache⟩ hagg
  apply sat_int
  dsimp only
  split
  · exact nofun
  · have hok : ok = 1 := hagg.eq_one ‹_›
    subst hok
    apply sat_key
    intro ⟨_, ser⟩ _
    apply sat_bytes
    rw [sat_bind]
    refine (sat_musigRecordTweaked cache).mono fun st r g _ hst => ?_
    apply sat_musig
    intro ⟨ret, _⟩ _
    apply sat_int
    intro st' hst'
    cases hst'
    rw [hst]
    exact .agg hperm hagg

/-- A tweak keeps the cache among those reached, and the cancelling tweak is
rejected. -/
theorem sat_musigTweak {keys : List (MusigKeys T)} {st : MusigAgg T}
    (hkeys : R.OwnKeys keys) (hst : R.Reached keys st.cache) (xonly cancel output : Bool)
    (tweak32 : Bytes 32) :
    Sat reader R.contract (musigTweak xonly cancel output tweak32 keys st) r g
      fun o _ _ _ =>
      (cancel = true → o = none) ∧ ∀ st', o = some st' → R.Reached keys st'.cache := by
  rw [musigTweak, sat_bind]
  have htweak : Sat reader R.contract
      (if cancel then musigCancelTweak st.cache keys xonly else pure tweak32) r g
        fun t _ _ _ =>
      cancel = true → tweakBase (R.value st.cache).pk xonly + scalarOf t • R.gen = 0 := by
    cases cancel with
    | false => exact nofun
    | true => exact (sat_musigCancelTweak hkeys hst xonly).mono fun _ _ _ _ h _ => h
  refine htweak.mono fun t r g _ ht => ?_
  cases xonly with
  | false =>
      apply sat_musig
      intro ⟨ok, pk, cache⟩ hadd
      apply sat_int
      split
      · exact ⟨fun _ => rfl, nofun⟩
      · have hok : ok = 1 := hadd.1.eq_one ‹_›
        subst hok
        rw [sat_bind]
        refine (sat_musigRecordTweaked cache).mono fun st' r g _ hst' => ?_
        refine ⟨fun hcancel => absurd (hadd.2 (ht hcancel)) (by decide),
          fun st'' hst'' => ?_⟩
        cases hst''
        rw [hst']
        exact .ecTweak hst hadd
  | true =>
      apply sat_musig
      intro ⟨ok, pk, cache⟩ hadd
      apply sat_int
      split
      · exact ⟨fun _ => rfl, nofun⟩
      · have hok : ok = 1 := hadd.1.eq_one ‹_›
        subst hok
        rw [sat_bind]
        refine (sat_musigRecordTweaked cache).mono fun st' r g _ hst' => ?_
        refine ⟨fun hcancel => absurd (hadd.2 (ht hcancel)) (by decide),
          fun st'' hst'' => ?_⟩
        cases hst''
        rw [hst']
        exact .xonlyTweak hst hadd

end MusigRep

/-- For every cache that some signers' keys reach by aggregation, in any
order, and any successful tweaks, the tweak computed sends the key, or its even
form, to infinity. The keys and caches of the target are such, and its
cancelling tweaks are rejected. -/
theorem musig_cancels (R : MusigRep T) (lib : Build T σ)
    (hlib : lib.Meets R.contract) (s : σ) (inp : List UInt8) :
    (∀ (keys : List (MusigKeys T)) (cache : T.KeyaggCache), R.OwnKeys keys →
      R.Reached keys cache →
      let Q := (R.value cache).pk
      let tweak32 :=
        fun xonly => ((musigCancelTweak cache keys xonly).run reader lib inp s).val
      Q + scalarOf (tweak32 false) • R.gen = 0 ∧
        evenPoint Q + scalarOf (tweak32 true) • R.gen = 0) ∧
    (∀ (signers : List MusigSigner) (keys : List (MusigKeys T)),
      ((musigKeys signers).run reader lib inp s).val = some keys → R.OwnKeys keys) ∧
    (∀ (flags : ℕ) (keys : List (MusigKeys T)) (st : MusigAgg T),
      ((musigAggregate flags keys).run reader lib inp s).val = some st →
        R.Reached keys st.cache) ∧
    ∀ (keys : List (MusigKeys T)) (st : MusigAgg T) (xonly cancel output : Bool)
        (tweak32 : Bytes 32),
      R.OwnKeys keys → R.Reached keys st.cache →
      let w := ((musigTweak xonly cancel output tweak32 keys st).run reader lib inp s).val
      (cancel = true → w = none) ∧ ∀ st', w = some st' → R.Reached keys st'.cache := by
  refine ⟨?_, ?_, ?_, ?_⟩
  · intro keys cache hkeys hcache Q tweak32
    have hplain := ((MusigRep.sat_musigCancelTweak (r := inp) (g := ()) hkeys hcache
      false).run hlib s).2
    have hxonly := ((MusigRep.sat_musigCancelTweak (r := inp) (g := ()) hkeys hcache
      true).run hlib s).2
    exact ⟨hplain, hxonly⟩
  · intro signers keys hkeys
    exact ((MusigRep.sat_musigKeys (g := ()) signers).run hlib s).2 keys hkeys
  · intro flags keys st hst
    exact ((MusigRep.sat_musigAggregate (g := ()) flags keys).run hlib s).2 st hst
  · intro keys st xonly cancel output tweak32 hkeys hst
    exact ((MusigRep.sat_musigTweak (g := ()) hkeys hst xonly cancel output tweak32).run
      hlib s).2

/-! ## Two signers -/

/-- The coefficient of the second distinct key is 1, as BIP327 has it. That of
the other is the one of the generator in the list of the generator and its
double. -/
def keyCoef (_pksHash : Bytes 32) (secondPk P : Point) : Zn :=
  if P = secondPk then 1
    else 0x4e8142abe72fc84a1b08db6308525a90ebc47e08bfb8c27d08846fbc4e93ad8d

def cacheValue (c : KeyCache) : CacheValue :=
  ⟨⟨c.pk, c.tweak, c.parityAcc⟩, c.secondPk, c.pksHash⟩

def keyMusig (G : Point) : MusigRep keyTypes where
  gen := G
  fe := id
  normalized _ := True
  sc := id
  secret := id
  pubkey := id
  value := cacheValue
  coef := keyCoef

/-- The hash of the list of the generator and its double. -/
def keyListHash : Bytes 32 :=
  bytesOfNat 32 0x8629891a1bce347249baba32bc19bc2594e562a24f44bd1245e4f69655d58c04

/-- The first key that is not the first. -/
def secondKey : List Point → Point
  | [] => 0
  | P :: Ps => (Ps.find? (· ≠ P)).getD 0

def tweakedCache (c : KeyCache) (v : TweakedKey Zn Point) : KeyCache :=
  { c with pk := v.pk, tweak := v.tweak, parityAcc := v.parityAcc }

/-- Caches that compute with points. -/
def musigAnswer (G : Point) {β : Type} : MusigCall keyTypes β → β
  | .pubkeyAgg _ pks =>
      (1, (0 : Point), (⟨(pks.map fun P =>
        keyCoef keyListHash (secondKey pks) P • (P : Point)).sum, secondKey pks,
        keyListHash, 0, false⟩ : KeyCache))
  | .pubkeyEcTweakAdd _ c t =>
      (if (cacheValue c).pk + scalarOf t • G = 0 then 0 else 1, (0 : Point),
        tweakedCache c ((cacheValue c).plain G (scalarOf t)))
  | .pubkeyXonlyTweakAdd _ c t =>
      (if evenPoint (cacheValue c).pk + scalarOf t • G = 0 then 0 else 1, (0 : Point),
        tweakedCache c ((cacheValue c).xonly yOdd G (scalarOf t)))
  | .keyaggCacheLoad (c : KeyCache) =>
      (1, ⟨keyGe c.pk, keyGe c.secondPk, c.pksHash, c.tweak, flag c.parityAcc⟩)
  | .keyaggcoef ci P => keyCoef ci.pksHash (geKey ci.secondPk) (geKey P)
  | q => keyIdle (.musig q)

def musigFe {β : Type} : FeCall keyTypes β → β
  | .normalizeVar v => v
  | .isOdd (v : F) => flag (v.val % 2 = 1)
  | q => keyIdle (.fe q)

def musigScalar {β : Type} : ScalarCall keyTypes β → β
  | .setInt k => (k : Zn)
  | .setB32 b32 => (scalarOf b32, 0)
  | .add _ _ _ (a : Zn) (b : Zn) => (0, a + b)
  | .mul _ _ _ (a : Zn) (b : Zn) => a * b
  | .negate _ _ (a : Zn) => -a
  | .getB32 (a : Zn) => bytesOfNat 32 a.val
  | q => keyIdle (.scalar q)

def musigKey (G : Point) {β : Type} : KeyCall keyTypes β → β
  | .keypairCreate seckey => (1, scalarOf seckey)
  | .keypairPub (k : Zn) => (1, k • G)
  | .ecPubkeySort pks => (1, pks)
  | .pubkeyLoad P => (1, keyGe P)
  | q => keyIdle (.key q)

def musigLib (G : Point) : Build keyTypes Unit where
  answer
    | .fe q, s => (musigFe q, s)
    | .scalar q, s => (musigScalar q, s)
    | .key q, s => (musigKey G q, s)
    | .musig q, s => (musigAnswer G q, s)
    | q, s => (keyIdle q, s)

theorem geKey_affine (G : Point) {a : Ge keyTypes} {P : Point}
    (h : (keyMusig G).affine a P) : geKey a = P := by
  cases P with
  | zero =>
      have hinf : a.infinity = true := h
      rw [geKey, if_pos hinf]
      rfl
  | some x y hxy =>
      obtain ⟨hinf, hx, hy⟩ := h
      have hx : a.x = x := hx
      have hy : a.y = y := hy
      rw [geKey, if_neg (by rw [hinf]; exact nofun), hx, hy, pointOf, dif_pos hxy]

theorem keyGe_affine (G P : Point) : (keyMusig G).affine (keyGe P) P := by
  cases P with
  | zero => exact rfl
  | some x y hxy => exact ⟨rfl, rfl, rfl⟩

theorem keyGe_loaded (G : Point) (c : KeyCache) :
    (keyMusig G).Loaded ⟨keyGe c.pk, keyGe c.secondPk, c.pksHash, c.tweak,
      flag c.parityAcc⟩ (cacheValue c) :=
  ⟨keyGe_affine G c.pk, keyGe_affine G c.secondPk, rfl, rfl, flag_ne_zero c.parityAcc⟩

theorem musigAnswer_spec (G : Point) {β : Type} (q : MusigCall keyTypes β) :
    (keyMusig G).musigSpec q (musigAnswer G q) := by
  cases q with
  | pubkeyAgg output pks =>
      refine ⟨.inr rfl, fun _ => ?_⟩
      show TweakedKey.mk _ (0 : Zn) false = TweakedKey.mk ((pks.map id).map _).sum 0 false
      rw [List.map_id]
      rfl
  | pubkeyEcTweakAdd output c t =>
      refine ⟨⟨?_, fun _ => rfl⟩, fun h => if_pos h⟩
      show (if _ then (0 : Int32) else 1) = 0 ∨ (if _ then (0 : Int32) else 1) = 1
      split
      · exact .inl rfl
      · exact .inr rfl
  | pubkeyXonlyTweakAdd output c t =>
      refine ⟨⟨?_, fun _ => ?_⟩, fun h => if_pos h⟩
      · show (if _ then (0 : Int32) else 1) = 0 ∨ (if _ then (0 : Int32) else 1) = 1
        split
        · exact .inl rfl
        · exact .inr rfl
      · rfl
  | keyaggCacheLoad c => exact keyGe_loaded G c
  | keyaggcoef ci P =>
      intro v Q hci hP
      show keyCoef ci.pksHash (geKey ci.secondPk) (geKey P) =
        keyCoef v.pksHash v.secondPk Q
      rw [geKey_affine G hci.secondPk, geKey_affine G hP, hci.pksHash]
  | _ => trivial

theorem musigLib_meets (G : Point) : (musigLib G).Meets (keyMusig G).contract := by
  intro g β q s _
  cases q with
  | fe q =>
      cases q with
      | normalizeVar v => exact ⟨rfl, trivial⟩
      | isOdd v => exact fun _ => (flag_ne_zero _).trans decide_eq_true_iff
      | _ => trivial
  | scalar q =>
      cases q with
      | getB32 a => exact scalarOf_bytes a
      | setInt | setB32 | add | mul | negate => exact rfl
      | _ => trivial
  | key q =>
      cases q with
      | keypairCreate seckey => exact ⟨.inr rfl, fun _ => rfl⟩
      | keypairPub k => exact rfl
      | ecPubkeySort pks => exact List.Perm.refl _
      | pubkeyLoad P => exact keyGe_affine G P
      | _ => trivial
  | musig q => exact musigAnswer_spec G q
  | _ => trivial

/-- The signers with the keys 1 and 2. -/
def twoKeys : List (MusigKeys keyTypes) :=
  [⟨⟨0, bytesOfNat 32 1, zeroBytes 32⟩, (1 : Zn), (1 : Zn) • secpG⟩,
   ⟨⟨1, bytesOfNat 32 2, zeroBytes 32⟩, (2 : Zn), (2 : Zn) • secpG⟩]

/-- Their aggregate, and the same tweaked by 5. -/
def twoAgg : KeyCache :=
  (musigAnswer secpG (.pubkeyAgg true (twoKeys.map (·.pubkey)))).2.2

def twoTweaked : KeyCache :=
  (musigAnswer secpG (.pubkeyEcTweakAdd true twoAgg (bytesOfNat 32 5))).2.2

theorem scalarOf_one : scalarOf (bytesOfNat 32 1) = 1 := by decide +kernel

theorem scalarOf_two : scalarOf (bytesOfNat 32 2) = 2 := by decide +kernel

theorem scalarOf_five : scalarOf (bytesOfNat 32 5) = 5 := by decide +kernel

theorem two_smul_ne : (2 : Zn) • secpG ≠ (1 : Zn) • secpG := by
  intro heq
  have hdiff : ((2 : Zn) - 1) • secpG = 0 := by rw [sub_smul, heq, sub_self]
  exact smul_secpG_ne (by decide +kernel) hdiff

theorem twoKeys_own : (keyMusig secpG).OwnKeys twoKeys := by
  intro key hmem
  simp only [twoKeys, List.mem_cons, List.not_mem_nil, or_false] at hmem
  rcases hmem with rfl | rfl
  · exact congrArg (· • secpG) scalarOf_one.symm
  · exact congrArg (· • secpG) scalarOf_two.symm

theorem twoAgg_reached : (keyMusig secpG).Reached twoKeys twoAgg := by
  have hagg : (keyMusig secpG).musigSpec (.pubkeyAgg true (twoKeys.map (·.pubkey))) (1,
        (0 : Point), twoAgg) :=
    musigAnswer_spec secpG _
  exact .agg (List.Perm.refl _) hagg

theorem twoAgg_tweak : twoAgg.tweak = 0 := rfl

theorem twoAgg_parityAcc : twoAgg.parityAcc = false := rfl

theorem twoAgg_secondPk : twoAgg.secondPk = (2 : Zn) • secpG := by
  show ([(1 : Zn) • secpG, (2 : Zn) • secpG].find? (· ≠ (1 : Zn) • secpG)).getD 0 = _
  have hne : decide ((2 : Zn) • secpG ≠ (1 : Zn) • secpG) = true :=
    decide_eq_true two_smul_ne
  rw [List.find?_cons_of_neg (by simp), List.find?_cons, hne]
  rfl

/-- The aggregate plus 5 times the generator is finite, so that tweak
succeeds. -/
theorem twoAgg_tweak_ne :
    (cacheValue twoAgg).pk + scalarOf (bytesOfNat 32 5) • secpG ≠ 0 := by
  have hpk : (cacheValue twoAgg).pk =
      (keyMusig secpG).secretSum (cacheValue twoAgg) twoKeys • secpG := by
    have hholds : (cacheValue twoAgg).pk
        = signed twoAgg.parityAcc
          ((keyMusig secpG).secretSum (cacheValue twoAgg) twoKeys • secpG)
          + twoAgg.tweak • secpG := twoAgg_reached.holds twoKeys_own
    rw [hholds, twoAgg_parityAcc, twoAgg_tweak, zero_smul Zn secpG, add_zero, signed,
      if_neg Bool.false_ne_true]
  have hsecond : (cacheValue twoAgg).secondPk = (2 : Zn) • secpG := twoAgg_secondPk
  have hfirst : (keyMusig secpG).coef (cacheValue twoAgg).pksHash
      (cacheValue twoAgg).secondPk ((1 : Zn) • secpG)
      = 0x4e8142abe72fc84a1b08db6308525a90ebc47e08bfb8c27d08846fbc4e93ad8d := by
    rw [hsecond]
    exact if_neg two_smul_ne.symm
  have hlast : (keyMusig secpG).coef (cacheValue twoAgg).pksHash
      (cacheValue twoAgg).secondPk ((2 : Zn) • secpG) = 1 := by
    rw [hsecond]
    exact if_pos rfl
  have hsum : (keyMusig secpG).secretSum (cacheValue twoAgg) twoKeys
      = 0x4e8142abe72fc84a1b08db6308525a90ebc47e08bfb8c27d08846fbc4e93ad8d *
        1 + 1 * 2 := by
    simp only [MusigRep.secretSum, twoKeys, List.map_cons, List.map_nil, List.sum_cons,
      List.sum_nil, add_zero, scalarOf_one, scalarOf_two]
    exact congrArg₂ (fun a b : Zn => a * 1 + b * 2) hfirst hlast
  have hne : (keyMusig secpG).secretSum (cacheValue twoAgg) twoKeys +
      scalarOf (bytesOfNat 32 5) ≠ 0 := by
    rw [hsum, scalarOf_five]
    decide +kernel
  rw [hpk, ← add_smul]
  exact smul_secpG_ne hne

theorem twoTweaked_reached : (keyMusig secpG).Reached twoKeys twoTweaked := by
  have hspec := musigAnswer_spec secpG (.pubkeyEcTweakAdd true twoAgg (bytesOfNat 32 5))
  have hanswer : musigAnswer secpG (.pubkeyEcTweakAdd true twoAgg (bytesOfNat 32 5)) =
      (1, (0 : Point), twoTweaked) :=
    Prod.ext (if_neg twoAgg_tweak_ne) rfl
  rw [hanswer] at hspec
  exact .ecTweak twoAgg_reached hspec

/-- Both kinds of cancelling tweak, for two signers whose key was tweaked by
5. -/
theorem musig_cancels_two :
    let Q := twoTweaked.pk
    let tweak32 := fun xonly =>
      ((musigCancelTweak twoTweaked twoKeys xonly).run reader (musigLib secpG) [] ()).val
    Q + scalarOf (tweak32 false) • secpG = 0 ∧
    evenPoint Q + scalarOf (tweak32 true) • secpG = 0 :=
  (musig_cancels (keyMusig secpG) (musigLib secpG) (musigLib_meets secpG) () []).1
    twoKeys twoTweaked twoKeys_own twoTweaked_reached

end Diffsecp
