import Diffsecp.Musig.Target
import Diffsecp.Secp.Objects

/-!
# Musig — Stages

What `target_musig` hands to libsecp: objects that a successful call of the
run gave, a secret nonce once, nothing after a call the protocol stops at, and
to the final check the key of the cache that was signed for. Here the stages
up to the tweaked key.
-/

namespace Diffsecp

open Interact

variable {T : Types} {α β : Type}

/-! ## What the calls are handed -/

/-- A failure that ends the protocol. -/
def MusigFailed (e : Event (LibCall T)) : Prop :=
  match e with
  | ⟨.key (.keypairCreate _), (ret, _)⟩ => ret = 0
  | ⟨.musig (.pubkeyAgg true _), (ret, _)⟩ => ret = 0
  | ⟨.musig (.pubkeyEcTweakAdd _ _ _), (ret, _)⟩ => ret = 0
  | ⟨.musig (.pubkeyXonlyTweakAdd _ _ _), (ret, _)⟩ => ret = 0
  | ⟨.musig (.nonceGen _ _ _ _ _ _ _), (ret, _)⟩ => ret = 0
  | ⟨.musig (.nonceGenCounter _ _ _ _ _ _), (ret, _)⟩ => ret = 0
  | ⟨.musig (.nonceAgg _), (ret, _)⟩ => ret = 0
  | ⟨.musig (.nonceProcess _ _ _), (ret, _)⟩ => ret = 0
  | ⟨.musig (.partialSign _ _ _ _ _), (ret, _)⟩ => ret = 0
  | ⟨.musig (.partialSigAgg _ _), (ret, _)⟩ => ret = 0
  | _ => False

/-- The cache as a call leaves it: an aggregation makes it and a tweak
overwrites it. -/
def MusigCall.cacheOf : {β : Type} → MusigCall T β → β → Option T.KeyaggCache
  | _, .pubkeyAgg true _, (ret, _, cache) => if ret ≠ 0 then some cache else none
  | _, .pubkeyEcTweakAdd _ _ _, (ret, _, cache) => if ret ≠ 0 then some cache else none
  | _, .pubkeyXonlyTweakAdd _ _ _, (ret, _, cache) => if ret ≠ 0 then some cache else none
  | _, _, _ => none

def musigCacheOf (e : Event (LibCall T)) : Option T.KeyaggCache :=
  match e with
  | ⟨.musig q, a⟩ => q.cacheOf a
  | _ => none

/-- The cache after the calls of `l`. -/
def musigCurrent (l : List (Event (LibCall T))) : Option T.KeyaggCache :=
  (l.filterMap musigCacheOf).getLast?

/-- The secret nonce a partial signature uses up, and what it signs for. -/
def musigSignOf (e : Event (LibCall T)) : Option (Fin 3 × T.KeyaggCache × T.Session) :=
  match e with
  | ⟨.musig (.partialSign slot _ _ cache session), _⟩ => some (slot, cache, session)
  | _ => none

/-- `agg` was read from `cache`. -/
def AggOf (l : List (Event (LibCall T))) (cache : T.KeyaggCache)
    (agg : T.Pubkey) : Prop :=
  ∃ ret, ret ≠ 0 ∧ ⟨.musig (.pubkeyGet cache), (ret, agg)⟩ ∈ l

/-- `session` signs `msg` for the key of `cache`. -/
def SessionOf (l : List (Event (LibCall T))) (msg : Bytes 32) (cache : T.KeyaggCache)
    (session : T.Session) : Prop :=
  ∃ aggnonce ret, ret ≠ 0 ∧
    ⟨.musig (.nonceProcess aggnonce msg cache), (ret, session)⟩ ∈ l

/-- The final signature is checked against the aggregate key of the current
cache, for which every partial signature was made. -/
def MusigChecked (l : List (Event (LibCall T))) (sig64 : Bytes 64) (msg : List UInt8)
    (pk : T.XonlyPubkey) : Prop :=
  ∃ (agg : T.Pubkey) (cache : T.KeyaggCache) (session : T.Session) (msg32 : Bytes 32),
    musigCurrent l = some cache ∧ AggOf l cache agg ∧
    (∃ ret parity, ret ≠ 0 ∧ ⟨.key (.xonlyPubkeyFromPubkey agg), (ret, pk, parity)⟩ ∈ l) ∧
    msg = msg32.toList ∧ SessionOf l msg32 cache session ∧
    (∀ x ∈ l.filterMap musigSignOf, x.2 = (cache, session)) ∧
    ∃ psigs ret, ret ≠ 0 ∧ ⟨.musig (.partialSigAgg session psigs), (ret, sig64)⟩ ∈ l

/-- What each call needs of the calls before it. -/
def MusigNeeds (l : List (Event (LibCall T))) {β : Type} (q : LibCall T β) : Prop :=
  (∀ x ∈ q.handed, x ∈ made libGiven l) ∧ (∀ e ∈ l, ¬ MusigFailed e) ∧
    match β, q with
    | _, .musig (.partialSign slot _ _ cache _) =>
        musigCurrent l = some cache ∧ slot ∉ (l.filterMap musigSignOf).map (·.1)
    | _, .musig (.keyaggcoef cacheI pk) =>
        (∃ cache ret, ret ≠ 0 ∧ ⟨.musig (.keyaggCacheLoad cache), (ret, cacheI)⟩ ∈ l) ∧
          ∃ pubkey ret, ret ≠ 0 ∧ ⟨.key (.pubkeyLoad pubkey), (ret, pk)⟩ ∈ l
    | _, .schnorrsig (.verify sig64 msg pk) => MusigChecked l sig64 msg pk
    | _, _ => True

/-- What libsecp documents: these calls always succeed, and sorting only
permutes. -/
def MusigDocumented {β : Type} (q : LibCall T β) (a : β) : Prop :=
  match β, q, a with
  | _, .key (.keypairPub _), (ret, _) => ret = 1
  | _, .key (.xonlyPubkeyFromPubkey _), (ret, _, _) => ret = 1
  | _, .key (.ecPubkeySort pks), (_, sorted) => (List.ofFn sorted).Perm (List.ofFn pks)
  | _, .key (.pubkeyLoad _), (ret, _) => ret = 1
  | _, .musig (.pubkeyGet _), (ret, _) => ret = 1
  | _, .musig (.keyaggCacheLoad _), (ret, _) => ret = 1
  | _, _, _ => True

section Stages

variable {g g' : List (Event (LibCall T))}

/-- `p` meets the needs of its calls after those of `g`. -/
abbrev MusigKeeps (p : Harness T α) (g : List (Event (LibCall T)))
    (P : α → List (Event (LibCall T)) → Prop) : Prop :=
  Keeps reader MusigNeeds (fun _ => MusigDocumented) p g P

/-- The protocol goes on. -/
def MusigGoing (l : List (Event (LibCall T))) : Prop := ∀ e ∈ l, ¬ MusigFailed e

theorem MusigGoing.nil : MusigGoing ([] : List (Event (LibCall T))) :=
  fun _ hmem => absurd hmem List.not_mem_nil

theorem MusigGoing.concat {e : Event (LibCall T)} (h : MusigGoing g)
    (he : ¬ MusigFailed e) :
    MusigGoing (g ++ [e]) := by
  intro e' hmem
  rcases List.mem_append.mp hmem with hmem | hmem
  · exact h e' hmem
  · rw [List.mem_singleton.mp hmem]
    exact he

/-- Between the two logs nothing failed, the cache did not change and nothing
was signed. -/
structure MusigQuiet (g g' : List (Event (LibCall T))) : Prop where
  going : MusigGoing g → MusigGoing g'
  caches : g'.filterMap musigCacheOf = g.filterMap musigCacheOf
  signs : g'.filterMap musigSignOf = g.filterMap musigSignOf

theorem MusigQuiet.refl (g : List (Event (LibCall T))) : MusigQuiet g g := ⟨id, rfl, rfl⟩

theorem MusigQuiet.trans {g'' : List (Event (LibCall T))} (h : MusigQuiet g g')
    (h' : MusigQuiet g' g'') :
    MusigQuiet g g'' :=
  ⟨fun hgo => h'.going (h.going hgo), h'.caches.trans h.caches, h'.signs.trans h.signs⟩

theorem filterMap_concat_none {γ : Type} {f : Event (LibCall T) → Option γ}
    {e : Event (LibCall T)} (he : f e = none) :
    (g ++ [e]).filterMap f = g.filterMap f := by
  rw [List.filterMap_append, List.filterMap_cons_none he, List.filterMap_nil,
    List.append_nil]

theorem MusigQuiet.concat {e : Event (LibCall T)} (hfailed : ¬ MusigFailed e)
    (hcache : musigCacheOf e = none) (hsign : musigSignOf e = none) :
    MusigQuiet g (g ++ [e]) :=
  ⟨fun hgo => hgo.concat hfailed, filterMap_concat_none hcache,
    filterMap_concat_none hsign⟩

/-- A recorded public key. -/
theorem keeps_musigRecordPubkey {pk : T.Pubkey} (hgo : MusigGoing g)
    (hpk : .pubkey pk ∈ made libGiven g) :
    MusigKeeps (musigRecordPubkey pk) g fun _ g' => MusigQuiet g g' := by
  apply Keeps.invoke_bind
  · exact ⟨by simpa [LibCall.handed, KeyCall.handed] using hpk, hgo, trivial⟩
  · rintro ⟨_, ser⟩ -
    exact Keeps.emit (MusigQuiet.concat not_false rfl rfl)

/-! ## The keys -/

theorem keeps_musigReadSigners (slots : List (Fin 3)) :
    MusigKeeps (musigReadSigners slots) g fun signers g' => g' = g ∧
      signers.map (·.slot) = slots := by
  induction slots with
  | nil => exact Keeps.pure ⟨rfl, rfl⟩
  | cons slot slots ih =>
      apply keeps_readerTake
      intro seckey
      apply keeps_readerTake
      intro secrand
      apply Keeps.bind ih
      rintro signers _ - ⟨rfl, hslots⟩
      exact Keeps.pure ⟨rfl, by rw [List.map_cons, hslots]⟩

/-- The signers have slots of their own. -/
theorem keeps_musigRead : MusigKeeps (musigRead (T := T)) g fun mi g' => g' = g ∧
    (mi.signers.map (·.slot)).Nodup := by
  apply keeps_readerU8; intro flags
  apply keeps_readerU8; intro n
  apply keeps_readerU8; intro victim
  apply keeps_readerTake; intro msg
  apply keeps_readerTake; intro extra
  apply keeps_readerTake; intro tweak0
  apply keeps_readerTake; intro tweak1
  apply Keeps.bind (keeps_musigReadSigners _)
  rintro signers _ - ⟨rfl, hslots⟩
  apply keeps_readerTake; intro pubnonce
  apply keeps_readerTake; intro aggnonce
  apply keeps_readerTake; intro partialSig
  apply keeps_readerU8; intro late
  refine Keeps.pure ⟨rfl, ?_⟩
  dsimp only
  rw [hslots]
  exact (List.nodup_finRange 3).sublist (List.take_sublist _ _)

/-- The keys were given. -/
def KeysMade (l : List (Event (LibCall T))) (keys : List (MusigKeys T)) : Prop :=
  ∀ key ∈ keys, .keypair key.keypair ∈ made libGiven l ∧
    .pubkey key.pubkey ∈ made libGiven l

theorem KeysMade.mono (hgrows : g <+: g') {keys : List (MusigKeys T)}
    (h : KeysMade g keys) : KeysMade g' keys :=
  fun key hmem =>
    ⟨mem_made_grows hgrows (h key hmem).1, mem_made_grows hgrows (h key hmem).2⟩

theorem keeps_musigKeys {signers : List MusigSigner} (hgo : MusigGoing g) :
    MusigKeeps (musigKeys (T := T) signers) g fun keys g' => ∀ ks, keys = some ks →
      KeysMade g' ks ∧ ks.map (·.slot) = signers.map (·.slot) ∧ MusigQuiet g g' := by
  induction signers generalizing g with
  | nil =>
      apply Keeps.pure
      rintro _ ⟨⟩
      exact ⟨nofun, rfl, MusigQuiet.refl g⟩
  | cons signer signers ih =>
      apply Keeps.invoke_bind ⟨by simp [LibCall.handed, KeyCall.handed], hgo, trivial⟩
      rintro ⟨ok, keypair⟩ -
      apply Keeps.emit_bind
      apply Keeps.ite
      · intro _
        exact Keeps.pure nofun
      intro hok
      have hkp : LibObject.keypair keypair ∈
          made libGiven (g ++ [⟨.key (.keypairCreate signer.seckey), (ok, keypair)⟩]) :=
        mem_made_last (mem_ifOk_self hok _)
      have hquiet :
          MusigQuiet g (g ++ [⟨.key (.keypairCreate signer.seckey), (ok, keypair)⟩]) :=
        MusigQuiet.concat hok rfl rfl
      apply Keeps.invoke_bind
      · exact ⟨by simpa [LibCall.handed, KeyCall.handed] using hkp,
          hquiet.going hgo, trivial⟩
      rintro ⟨ret, pubkey⟩ (rfl : ret = 1)
      have hquiet' := hquiet.trans (MusigQuiet.concat
        (e := ⟨.key (.keypairPub keypair), (1, pubkey)⟩) not_false rfl rfl)
      apply Keeps.bind (ih (hquiet'.going hgo))
      intro keys g₁ hgrows hkeys
      cases keys with
      | none => exact Keeps.pure nofun
      | some keys =>
          obtain ⟨hmade, hslots, hquiet₁⟩ := hkeys keys rfl
          apply Keeps.pure
          rintro _ ⟨⟩
          refine ⟨?_, by rw [List.map_cons, hslots, List.map_cons], hquiet'.trans hquiet₁⟩
          rw [KeysMade, List.forall_mem_cons]
          refine ⟨⟨mem_made_grows ((List.prefix_append _ _).trans hgrows) hkp, ?_⟩, hmade⟩
          exact mem_made_grows hgrows (mem_made_last (mem_ifOk_one _))

/-! ## The aggregate key -/

/-- The cache is the current one, and the key was read from it. -/
structure AggMade (l : List (Event (LibCall T))) (st : MusigAgg T) : Prop where
  current : musigCurrent l = some st.cache
  got : AggOf l st.cache st.agg

/-- A cache that a call left was given. -/
theorem MusigCall.given_of_cacheOf {β : Type} {q : MusigCall T β} {a : β}
    {cache : T.KeyaggCache} (h : q.cacheOf a = some cache) :
    .keyaggCache cache ∈ q.given a := by
  have hite {ret : Int32} {cache' : T.KeyaggCache}
      (h : (if ret ≠ 0 then some cache' else none) = some cache) :
      ret ≠ 0 ∧ cache' = cache := by
    split at h
    next hret => exact ⟨hret, Option.some.inj h⟩
    next => nomatch h
  cases q with
  | pubkeyAgg output pks =>
      cases output with
      | true =>
          obtain ⟨hret, rfl⟩ := hite h
          exact mem_ifOk.mpr ⟨hret, List.mem_cons_of_mem _ (List.mem_cons_self ..)⟩
      | false => nomatch h
  | pubkeyEcTweakAdd output cache' tweak32 =>
      obtain ⟨hret, rfl⟩ := hite h
      exact mem_ifOk.mpr ⟨hret, List.mem_cons_self ..⟩
  | pubkeyXonlyTweakAdd output cache' tweak32 =>
      obtain ⟨hret, rfl⟩ := hite h
      exact mem_ifOk.mpr ⟨hret, List.mem_cons_self ..⟩
  | _ => nomatch h

theorem current_made {cache : T.KeyaggCache} (h : musigCurrent g = some cache) :
    .keyaggCache cache ∈ made libGiven g := by
  obtain ⟨⟨op, ans⟩, he, hcache⟩ := List.mem_filterMap.mp (List.mem_of_getLast? h)
  cases op with
  | musig q => exact mem_made_of_mem he (MusigCall.given_of_cacheOf hcache)
  | _ => nomatch hcache

theorem current_concat {e : Event (LibCall T)} {cache : T.KeyaggCache}
    (he : musigCacheOf e = some cache) :
    musigCurrent (g ++ [e]) = some cache := by
  rw [musigCurrent, List.filterMap_append, List.filterMap_cons_some he,
    List.filterMap_nil]
  exact List.getLast?_concat

theorem MusigQuiet.current (h : MusigQuiet g g') : musigCurrent g' = musigCurrent g := by
  rw [musigCurrent, h.caches, musigCurrent]

theorem AggMade.mono (hgrows : g <+: g') (hquiet : MusigQuiet g g') {st : MusigAgg T}
    (h : AggMade g st) :
    AggMade g' st := by
  obtain ⟨ret, hret, hmem⟩ := h.got
  exact ⟨hquiet.current.trans h.current, ret, hret, hgrows.subset hmem⟩

/-- Nothing was signed in between. -/
structure MusigUnsigned (g g' : List (Event (LibCall T))) : Prop where
  going : MusigGoing g'
  signs : g'.filterMap musigSignOf = g.filterMap musigSignOf

theorem MusigQuiet.unsigned (h : MusigQuiet g g') (hgo : MusigGoing g) :
    MusigUnsigned g g' :=
  ⟨h.going hgo, h.signs⟩

theorem MusigUnsigned.trans {g'' : List (Event (LibCall T))} (h : MusigUnsigned g g')
    (h' : MusigUnsigned g' g'') :
    MusigUnsigned g g'' := ⟨h'.going, h'.signs.trans h.signs⟩

theorem keeps_musigRecordTweaked {cache : T.KeyaggCache} (hgo : MusigGoing g)
    (hcurrent : musigCurrent g = some cache) :
    MusigKeeps (musigRecordTweaked cache) g fun st g' => AggMade g' st ∧
      MusigQuiet g g' := by
  apply Keeps.invoke_bind
  · exact ⟨by simpa [LibCall.handed, MusigCall.handed] using current_made hcurrent, hgo,
      trivial⟩
  rintro ⟨ret, agg⟩ (rfl : ret = 1)
  apply Keeps.emit_bind
  have hquiet : MusigQuiet g (g ++ [⟨.musig (.pubkeyGet cache), (1, agg)⟩]) :=
    MusigQuiet.concat not_false rfl rfl
  have hmade : AggMade (g ++ [⟨.musig (.pubkeyGet cache), (1, agg)⟩]) ⟨agg, cache⟩ :=
    ⟨hquiet.current.trans hcurrent, 1, by decide,
      List.mem_append_right _ (List.mem_singleton.mpr rfl)⟩
  apply Keeps.bind
    (keeps_musigRecordPubkey (hquiet.going hgo) (mem_made_last (mem_ifOk_one _)))
  intro _ g₁ hgrows hquiet₁
  exact Keeps.pure ⟨hmade.mono hgrows hquiet₁, hquiet.trans hquiet₁⟩

/-- The public keys, in the order they are aggregated in. -/
theorem keeps_musigSort (flags : ℕ) {pks : List T.Pubkey} (hgo : MusigGoing g)
    (hpks : ∀ pk ∈ pks, .pubkey pk ∈ made libGiven g) :
    MusigKeeps (if flags &&& MusigFlag.sort ≠ 0 then do
        let (ret, sorted) ← secpKey (.ecPubkeySort pks.get)
        transcriptInt ret
        pure (List.ofFn sorted)
      else pure pks) g fun ptrs g' => (∀ pk ∈ ptrs, .pubkey pk ∈ made libGiven g') ∧
      MusigQuiet g g' := by
  apply Keeps.ite
  · intro _
    apply Keeps.invoke_bind
    · refine ⟨?_, hgo, trivial⟩
      intro x hx
      obtain ⟨i, rfl⟩ := List.mem_ofFn.mp hx
      exact hpks _ (List.get_mem pks i)
    rintro ⟨ret, sorted⟩ (hperm : (List.ofFn sorted).Perm (List.ofFn pks.get))
    apply Keeps.emit_bind
    refine Keeps.pure ⟨fun pk hpk => ?_, MusigQuiet.concat not_false rfl rfl⟩
    have hmem := hperm.mem_iff.mp hpk
    rw [List.ofFn_get] at hmem
    exact mem_made_grows (List.prefix_append _ _) (hpks pk hmem)
  · intro _
    exact Keeps.pure ⟨hpks, MusigQuiet.refl g⟩

theorem keeps_musigAggregate (flags : ℕ) {keys : List (MusigKeys T)} (hgo : MusigGoing g)
    (hkeys : KeysMade g keys) :
    MusigKeeps (musigAggregate flags keys) g fun st g' => ∀ st', st = some st' →
      AggMade g' st' ∧ MusigUnsigned g g' := by
  apply Keeps.bind (keeps_musigSort flags hgo ?_)
  · intro ptrs g₁ hgrows ⟨hptrs, hquiet⟩
    have hhanded (output : Bool) {g₂ : List (Event (LibCall T))} (hgrows' : g₁ <+: g₂) :
        ∀ x ∈ (LibCall.musig (.pubkeyAgg output ptrs)).handed, x ∈ made libGiven g₂ := by
      intro x hx
      obtain ⟨pk, hpk, rfl⟩ := List.mem_map.mp hx
      exact mem_made_grows hgrows' (hptrs pk hpk)
    have hgo₁ := hquiet.going hgo
    apply Keeps.invoke_bind ⟨hhanded true (List.prefix_refl g₁), hgo₁, trivial⟩
    rintro ⟨ok, aggXonly, cache⟩ -
    apply Keeps.emit_bind
    apply Keeps.ite
    · intro _
      exact Keeps.pure nofun
    intro hok
    have hgo₂ :
        MusigGoing (g₁ ++ [⟨.musig (.pubkeyAgg true ptrs), (ok, aggXonly, cache)⟩]) :=
      hgo₁.concat hok
    have hcurrent : musigCurrent
        (g₁ ++ [⟨.musig (.pubkeyAgg true ptrs), (ok, aggXonly, cache)⟩]) = some cache :=
      current_concat (if_pos hok)
    have hxonly : LibObject.xonly aggXonly ∈
        made libGiven (g₁ ++ [⟨.musig (.pubkeyAgg true ptrs), (ok, aggXonly, cache)⟩]) :=
      mem_made_last (mem_ifOk.mpr ⟨hok, List.mem_cons_self ..⟩)
    apply Keeps.invoke_bind
    · exact ⟨by simpa [LibCall.handed, KeyCall.handed] using hxonly, hgo₂, trivial⟩
    rintro ⟨ret, ser⟩ -
    apply Keeps.emit_bind
    have hquiet₂ :
        MusigQuiet (g₁ ++ [⟨.musig (.pubkeyAgg true ptrs), (ok, aggXonly, cache)⟩]) _ :=
      MusigQuiet.concat (e := ⟨.key (.xonlyPubkeySerialize aggXonly), (ret, ser)⟩)
        not_false rfl rfl
    apply Keeps.bind
      (keeps_musigRecordTweaked (hquiet₂.going hgo₂) (hquiet₂.current.trans hcurrent))
    rintro st g₃ hgrows₃ ⟨hmade, hquiet₃⟩
    have hgo₃ := hquiet₃.going (hquiet₂.going hgo₂)
    apply Keeps.invoke_bind
    · refine ⟨hhanded false ?_, hgo₃, trivial⟩
      exact ((List.prefix_append _ _).trans (List.prefix_append _ _)).trans hgrows₃
    rintro ⟨ret, unset⟩ -
    apply Keeps.emit_bind
    have hquiet₄ :
        MusigQuiet g₃ (g₃ ++ [⟨.musig (.pubkeyAgg false ptrs), (ret, unset)⟩]) :=
      MusigQuiet.concat not_false rfl rfl
    apply Keeps.pure
    rintro _ ⟨⟩
    refine ⟨hmade.mono (List.prefix_append _ _) hquiet₄, hquiet₄.going hgo₃, ?_⟩
    rw [hquiet₄.signs, hquiet₃.signs, hquiet₂.signs,
      filterMap_concat_none rfl, hquiet.signs]
  · intro pk hpk
    obtain ⟨key, hmem, rfl⟩ := List.mem_map.mp hpk
    exact (hkeys key hmem).2

/-! ## Tweaks -/

theorem mem_concat_self (e : Event (LibCall T)) : e ∈ g ++ [e] :=
  List.mem_append_right _ (List.mem_singleton.mpr rfl)

/-- Scalar calls are handed no objects. -/
theorem keeps_scalar {q : ScalarCall T β} (hgo : MusigGoing g) :
    MusigKeeps (secpScalar q) g fun _ g' => MusigQuiet g g' :=
  Keeps.invoke ⟨nofun, hgo, trivial⟩ fun _ _ => MusigQuiet.concat not_false rfl rfl

theorem keeps_musigSecretSum {cacheI : KeyaggCacheInternal T} {keys : List (MusigKeys T)}
    {d : T.Scalar} (hgo : MusigGoing g) (hkeys : KeysMade g keys)
    (hcache : ∃ cache ret,
      ret ≠ 0 ∧ ⟨.musig (.keyaggCacheLoad cache), (ret, cacheI)⟩ ∈ g) :
    MusigKeeps (musigSecretSum cacheI keys d) g fun _ g' => MusigQuiet g g' := by
  induction keys generalizing g d with
  | nil => exact Keeps.pure (MusigQuiet.refl g)
  | cons key keys ih =>
      have hpk := (hkeys key (List.mem_cons_self ..)).2
      apply Keeps.invoke_bind
      · exact ⟨by simpa [LibCall.handed, KeyCall.handed] using hpk, hgo, trivial⟩
      rintro ⟨ret, pk⟩ (rfl : ret = 1)
      have hquiet₁ : MusigQuiet g (g ++ [⟨.key (.pubkeyLoad key.pubkey), (1, pk)⟩]) :=
        MusigQuiet.concat not_false rfl rfl
      have hgo₁ := hquiet₁.going hgo
      apply Keeps.invoke_bind
      · obtain ⟨cache, ret, hret, hmem⟩ := hcache
        refine ⟨nofun, hgo₁, ⟨cache, ret, hret, List.mem_append_left _ hmem⟩, ?_⟩
        exact ⟨key.pubkey, 1, by decide, mem_concat_self _⟩
      intro a _
      have hquiet₂ := hquiet₁.trans
        (MusigQuiet.concat (e := ⟨.musig (.keyaggcoef cacheI pk), a⟩) not_false rfl rfl)
      apply Keeps.bind (keeps_scalar (hquiet₂.going hgo))
      rintro ⟨x, _⟩ g₃ hgrows₃ hquiet₃
      have hgo₃ := hquiet₃.going (hquiet₂.going hgo)
      apply Keeps.bind (keeps_scalar hgo₃)
      intro a g₄ hgrows₄ hquiet₄
      have hgo₄ := hquiet₄.going hgo₃
      apply Keeps.bind (keeps_scalar hgo₄)
      rintro ⟨_, d⟩ g₅ hgrows₅ hquiet₅
      have hgrows : g <+: g₅ :=
        ((((List.prefix_append _ _).trans (List.prefix_append _ _)).trans hgrows₃).trans
          hgrows₄).trans hgrows₅
      have hquiet := ((hquiet₂.trans hquiet₃).trans hquiet₄).trans hquiet₅
      obtain ⟨cache, ret, hret, hmem⟩ := hcache
      apply (ih (hquiet.going hgo) _ ⟨cache, ret, hret, hgrows.subset hmem⟩).mono
      · intro _ g' _ hquiet'
        exact hquiet.trans hquiet'
      · exact KeysMade.mono hgrows fun key hmem => hkeys key (List.mem_cons_of_mem _ hmem)

theorem keeps_musigCancelTweak {cache : T.KeyaggCache} {keys : List (MusigKeys T)}
    (xonly : Bool) (hgo : MusigGoing g) (hkeys : KeysMade g keys)
    (hcurrent : musigCurrent g = some cache) :
    MusigKeeps (musigCancelTweak cache keys xonly) g fun _ g' => MusigQuiet g g' := by
  apply Keeps.invoke_bind
  · exact ⟨by simpa [LibCall.handed, MusigCall.handed] using current_made hcurrent, hgo,
      trivial⟩
  rintro ⟨ret, cacheI⟩ (rfl : ret = 1)
  have hquiet₁ : MusigQuiet g (g ++ [⟨.musig (.keyaggCacheLoad cache), (1, cacheI)⟩]) :=
    MusigQuiet.concat not_false rfl rfl
  have hgo₁ := hquiet₁.going hgo
  apply Keeps.bind (keeps_scalar hgo₁)
  intro d g₂ hgrows₂ hquiet₂
  have hgo₂ := hquiet₂.going hgo₁
  apply Keeps.bind
    (keeps_musigSecretSum hgo₂ (hkeys.mono ((List.prefix_append _ _).trans hgrows₂))
      ⟨cache, 1, by decide, hgrows₂.subset (mem_concat_self _)⟩)
  intro d g₃ _ hquiet₃
  have hgo₃ := hquiet₃.going hgo₂
  apply Keeps.bind (P := fun _ g' => MusigQuiet g₃ g')
  · apply Keeps.ite
    · intro _
      exact keeps_scalar hgo₃
    · intro _
      exact Keeps.pure (MusigQuiet.refl g₃)
  intro d g₄ _ hquiet₄
  have hgo₄ := hquiet₄.going hgo₃
  apply Keeps.bind (keeps_scalar hgo₄)
  rintro ⟨_, d⟩ g₅ - hquiet₅
  have hgo₅ := hquiet₅.going hgo₄
  apply Keeps.invoke_bind ⟨nofun, hgo₅, trivial⟩
  intro y _
  have hquiet₆ : MusigQuiet g₅ (g₅ ++ [⟨.fe (.normalizeVar cacheI.pk.y), y⟩]) :=
    MusigQuiet.concat not_false rfl rfl
  have hgo₆ := hquiet₆.going hgo₅
  apply Keeps.bind (P := fun _ g' =>
    MusigQuiet (g₅ ++ [⟨.fe (.normalizeVar cacheI.pk.y), y⟩]) g')
  · apply Keeps.ite
    · intro _
      apply Keeps.invoke_bind ⟨nofun, hgo₆, trivial⟩
      intro odd _
      have hquiet₇ :=
        MusigQuiet.concat (g := g₅ ++ [⟨.fe (.normalizeVar cacheI.pk.y), y⟩])
        (e := ⟨.fe (.isOdd y), odd⟩) not_false rfl rfl
      apply Keeps.ite
      · intro _
        exact (keeps_scalar (hquiet₇.going hgo₆)).mono fun _ _ _ hquiet =>
          hquiet₇.trans hquiet
      · intro _
        exact Keeps.pure hquiet₇
    · intro _
      exact keeps_scalar hgo₆
  intro d g₇ _ hquiet₇
  apply (keeps_scalar (hquiet₇.going hgo₆)).mono
  intro _ g₈ _ hquiet₈
  exact (((((((hquiet₁.trans hquiet₂).trans hquiet₃).trans hquiet₄).trans hquiet₅).trans
    hquiet₆).trans hquiet₇).trans hquiet₈)

/-- A tweak of either kind, whether it leaves its output out or not: the key
is read back from the cache it left. -/
theorem keeps_musigTweakCall {cache : T.KeyaggCache}
    {q : MusigCall T (Int32 × T.Pubkey × T.KeyaggCache)} (hgo : MusigGoing g)
    (hcurrent : musigCurrent g = some cache)
    (hhanded : (LibCall.musig q).handed = [.keyaggCache cache])
    (hneeds : MusigNeeds g (LibCall.musig q) ↔
      (∀ x ∈ (LibCall.musig q).handed, x ∈ made libGiven g) ∧ MusigGoing g)
    (hfailed : ∀ a, ¬ MusigFailed ⟨.musig q, a⟩ ↔ a.1 ≠ 0)
    (hcache : ∀ a, a.1 ≠ 0 → musigCacheOf ⟨.musig q, a⟩ = some a.2.2)
    (hsign : ∀ a, musigSignOf ⟨.musig q, a⟩ = none) :
    MusigKeeps (do
      let (ok, _, cache) ← secpMusig q
      transcriptInt ok
      if ok = 0 then
        pure none
      else do
        let st ← musigRecordTweaked cache
        pure (some st)) g fun st g' => ∀ st', st = some st' → AggMade g' st' ∧
        MusigUnsigned g g' := by
  apply Keeps.invoke_bind
  · refine hneeds.mpr ⟨?_, hgo⟩
    rw [hhanded]
    simpa using current_made hcurrent
  rintro ⟨ok, pk, cache'⟩ -
  apply Keeps.emit_bind
  apply Keeps.ite
  · intro _
    exact Keeps.pure nofun
  intro hok
  have hgo' : MusigGoing (g ++ [⟨.musig q, (ok, pk, cache')⟩]) :=
    hgo.concat ((hfailed _).mpr hok)
  apply Keeps.bind (keeps_musigRecordTweaked hgo' (current_concat (hcache _ hok)))
  rintro st g₁ hgrows ⟨hmade, hquiet⟩
  apply Keeps.pure
  rintro _ ⟨⟩
  exact ⟨hmade, hquiet.going hgo', hquiet.signs.trans (filterMap_concat_none (hsign _))⟩

theorem keeps_musigTweak (xonly cancel output : Bool) (tweak32 : Bytes 32)
    {keys : List (MusigKeys T)} {st : MusigAgg T} (hgo : MusigGoing g)
    (hkeys : KeysMade g keys) (hst : AggMade g st) :
    MusigKeeps (musigTweak xonly cancel output tweak32 keys st) g fun st g' =>
      ∀ st', st = some st' → AggMade g' st' ∧ MusigUnsigned g g' := by
  apply Keeps.bind (P := fun _ g' => MusigQuiet g g')
  · apply Keeps.ite
    · intro _
      exact keeps_musigCancelTweak xonly hgo hkeys hst.current
    · intro _
      exact Keeps.pure (MusigQuiet.refl g)
  intro tweak32 g₁ hgrows hquiet
  have hgo₁ := hquiet.going hgo
  have hcurrent := hquiet.current.trans hst.current
  apply Keeps.mono (P := fun st g' => ∀ st', st = some st' → AggMade g' st' ∧
    MusigUnsigned g₁ g')
  · cases xonly with
    | false =>
        exact keeps_musigTweakCall (q := .pubkeyEcTweakAdd output st.cache tweak32)
          hgo₁ hcurrent rfl
          ⟨fun h => ⟨h.1, h.2.1⟩, fun h => ⟨h.1, h.2, trivial⟩⟩ (fun _ => Iff.rfl)
          (fun _ hok => if_pos hok)
          (fun _ => rfl)
    | true =>
        exact keeps_musigTweakCall (q := .pubkeyXonlyTweakAdd output st.cache tweak32)
          hgo₁ hcurrent rfl
          ⟨fun h => ⟨h.1, h.2.1⟩, fun h => ⟨h.1, h.2, trivial⟩⟩ (fun _ => Iff.rfl)
          (fun _ hok => if_pos hok)
          (fun _ => rfl)
  · intro st g' _ h st' hst'
    exact ⟨(h st' hst').1, (hquiet.unsigned hgo).trans (h st' hst').2⟩

theorem keeps_musigTweaks (mi : MusigInput) {keys : List (MusigKeys T)} {st : MusigAgg T}
    (hgo : MusigGoing g) (hkeys : KeysMade g keys) (hst : AggMade g st) :
    MusigKeeps (musigTweaks mi keys st) g fun st g' => ∀ st', st = some st' →
      AggMade g' st' ∧ MusigUnsigned g g' := by
  have hskip {g₁ : List (Event (LibCall T))} {st₁ : MusigAgg T} (hgo : MusigGoing g₁)
      (hst : AggMade g₁ st₁) :
      MusigKeeps (pure (some st₁)) g₁ fun st g' => ∀ st', st = some st' → AggMade g' st' ∧
        MusigUnsigned g₁ g' := by
    apply Keeps.pure
    rintro _ ⟨⟩
    exact ⟨hst, hgo, rfl⟩
  apply Keeps.bind (P := fun st g' => ∀ st', st = some st' → AggMade g' st' ∧
    MusigUnsigned g g')
  · apply Keeps.ite
    · intro _
      exact keeps_musigTweak _ _ _ _ hgo hkeys hst
    · intro _
      exact hskip hgo hst
  intro st₁ g₁ hgrows h
  cases st₁ with
  | none => exact Keeps.pure nofun
  | some st₁ =>
      obtain ⟨hst₁, hunsigned⟩ := h st₁ rfl
      apply Keeps.mono (P := fun st g' => ∀ st', st = some st' → AggMade g' st' ∧
        MusigUnsigned g₁ g')
      · apply Keeps.ite
        · intro _
          exact keeps_musigTweak _ _ _ _ hunsigned.going (hkeys.mono hgrows) hst₁
        · intro _
          exact hskip hunsigned.going hst₁
      · intro st g' _ h st' hst'
        exact ⟨(h st' hst').1, hunsigned.trans (h st' hst').2⟩

end Stages

end Diffsecp
