import Diffsecp.Musig.Stages

/-!
# Musig — Signing

What the stages after the tweaked key hand to libsecp: the nonces of the
signers, the partial signatures and the final one.
-/

namespace Diffsecp

open Interact

variable {T : Types}

section Signing

variable {g g' : List (Event (LibCall T))}

/-! ## Nonces -/

/-- The keys and the nonces of a signer were given. -/
structure NonceMade (l : List (Event (LibCall T))) (nonce : MusigNonces T) : Prop where
  keypair : .keypair nonce.keypair ∈ made libGiven l
  pubkey : .pubkey nonce.pubkey ∈ made libGiven l
  secnonce : .secnonce nonce.slot nonce.secnonce ∈ made libGiven l
  pubnonce : .pubnonce nonce.pubnonce ∈ made libGiven l

theorem NonceMade.mono (hgrows : g <+: g') {nonce : MusigNonces T}
    (h : NonceMade g nonce) : NonceMade g' nonce :=
  ⟨mem_made_grows hgrows h.keypair, mem_made_grows hgrows h.pubkey,
    mem_made_grows hgrows h.secnonce, mem_made_grows hgrows h.pubnonce⟩

theorem keeps_musigNonceGen (mi : MusigInput) {cache : T.KeyaggCache} {key : MusigKeys T}
    (hgo : MusigGoing g) (hkp : .keypair key.keypair ∈ made libGiven g)
    (hpk : .pubkey key.pubkey ∈ made libGiven g)
    (hcache : .keyaggCache cache ∈ made libGiven g) :
    MusigKeeps (musigNonceGen mi cache key) g fun x g' => x.1 ≠ 0 →
      NonceMade g' ⟨key, x.2.1, x.2.2⟩ ∧ MusigQuiet g g' := by
  have hoptional (c : Prop) [Decidable c] :
      ∀ x ∈ (if c then some cache else none).toList.map LibObject.keyaggCache,
        x ∈ made libGiven g := by
    intro x hx
    split at hx
    · rw [List.mem_singleton.mp hx]
      exact hcache
    · nomatch hx
  apply Keeps.ite
  · intro _
    apply Keeps.invoke ⟨List.forall_mem_cons.mpr ⟨hkp, hoptional _⟩, hgo, trivial⟩
    rintro ⟨ok, secnonce, pubnonce⟩ - hok
    refine ⟨⟨?_, ?_, ?_, ?_⟩, MusigQuiet.concat hok rfl rfl⟩
    · exact mem_made_grows (List.prefix_append _ _) hkp
    · exact mem_made_grows (List.prefix_append _ _) hpk
    · exact mem_made_last (mem_ifOk.mpr ⟨hok, List.mem_cons_self ..⟩)
    · exact mem_made_last
        (mem_ifOk.mpr ⟨hok, List.mem_cons_of_mem _ (List.mem_cons_self ..)⟩)
  · intro _
    apply Keeps.invoke ⟨List.forall_mem_cons.mpr ⟨hpk, hoptional _⟩, hgo, trivial⟩
    rintro ⟨ok, secnonce, pubnonce⟩ - hok
    refine ⟨⟨?_, ?_, ?_, ?_⟩, MusigQuiet.concat hok rfl rfl⟩
    · exact mem_made_grows (List.prefix_append _ _) hkp
    · exact mem_made_grows (List.prefix_append _ _) hpk
    · exact mem_made_last (mem_ifOk.mpr ⟨hok, List.mem_cons_self ..⟩)
    · exact mem_made_last
        (mem_ifOk.mpr ⟨hok, List.mem_cons_of_mem _ (List.mem_cons_self ..)⟩)

theorem keeps_musigNonces (mi : MusigInput) {cache : T.KeyaggCache}
    {keys : List (MusigKeys T)} (hgo : MusigGoing g) (hkeys : KeysMade g keys)
    (hcache : .keyaggCache cache ∈ made libGiven g) :
    MusigKeeps (musigNonces mi cache keys) g fun nonces g' => ∀ ns, nonces = some ns →
      (∀ nonce ∈ ns, NonceMade g' nonce) ∧ ns.map (·.slot) = keys.map (·.slot) ∧
        MusigQuiet g g' := by
  induction keys generalizing g with
  | nil =>
      apply Keeps.pure
      rintro _ ⟨⟩
      exact ⟨nofun, rfl, MusigQuiet.refl g⟩
  | cons key keys ih =>
      obtain ⟨⟨hkp, hpk⟩, hrest⟩ := List.forall_mem_cons.mp hkeys
      apply Keeps.bind (keeps_musigNonceGen mi hgo hkp hpk hcache)
      rintro ⟨ok, secnonce, pubnonce⟩ g₁ hgrows₁ hnonce
      apply Keeps.emit_bind
      apply Keeps.ite
      · intro _
        exact Keeps.pure nofun
      intro hok
      obtain ⟨hmade, hquiet₁⟩ := hnonce hok
      have hgo₁ := hquiet₁.going hgo
      apply Keeps.invoke_bind
      · exact ⟨by simpa [LibCall.handed, MusigCall.handed] using hmade.pubnonce,
          hgo₁, trivial⟩
      rintro ⟨ret, ser⟩ -
      apply Keeps.emit_bind
      have hquiet₂ := hquiet₁.trans
        (MusigQuiet.concat (e := ⟨.musig (.pubnonceSerialize pubnonce), (ret, ser)⟩)
          not_false rfl rfl)
      have hgrows₂ := hgrows₁.trans
        (List.prefix_append g₁ [⟨.musig (.pubnonceSerialize pubnonce), (ret, ser)⟩])
      apply Keeps.bind (ih (hquiet₂.going hgo) (KeysMade.mono hgrows₂ hrest)
        (mem_made_grows hgrows₂ hcache))
      intro nonces g₃ hgrows₃ h
      cases nonces with
      | none => exact Keeps.pure nofun
      | some nonces =>
          obtain ⟨hmades, hslots, hquiet₃⟩ := h nonces rfl
          apply Keeps.pure
          rintro _ ⟨⟩
          refine ⟨?_, by rw [List.map_cons, hslots, List.map_cons], hquiet₂.trans hquiet₃⟩
          rw [List.forall_mem_cons]
          exact ⟨hmade.mono ((List.prefix_append _ _).trans hgrows₃), hmades⟩

theorem keeps_musigPubnonces (mi : MusigInput) {nonces : List (MusigNonces T)}
    (hgo : MusigGoing g) (hnonces : ∀ nonce ∈ nonces, NonceMade g nonce) :
    MusigKeeps (musigPubnonces mi nonces) g fun ptrs g' =>
      (∀ nonce ∈ ptrs, .pubnonce nonce ∈ made libGiven g') ∧ MusigQuiet g g' := by
  have hptrs : ∀ nonce ∈ nonces.map (·.pubnonce),
      LibObject.pubnonce nonce ∈ made libGiven g := by
    intro nonce hmem
    obtain ⟨n, hn, rfl⟩ := List.mem_map.mp hmem
    exact (hnonces n hn).pubnonce
  apply Keeps.ite
  · intro _
    apply Keeps.invoke_bind ⟨nofun, hgo, trivial⟩
    rintro ⟨ok, fuzzed⟩ -
    apply Keeps.emit_bind
    refine Keeps.pure ⟨?_, MusigQuiet.concat not_false rfl rfl⟩
    split
    next hok =>
      intro nonce hmem
      rcases List.mem_or_eq_of_mem_set hmem with hmem | rfl
      · exact mem_made_grows (List.prefix_append _ _) (hptrs nonce hmem)
      · exact mem_made_last (mem_ifOk_self hok _)
    next => exact fun nonce hmem =>
      mem_made_grows (List.prefix_append _ _) (hptrs nonce hmem)
  · intro _
    exact Keeps.pure ⟨hptrs, MusigQuiet.refl g⟩

/-- The honest aggregate, or the fuzzed one where it parses. -/
theorem keeps_musigAggnonce (mi : MusigInput) {aggnonce : T.Aggnonce} (hgo : MusigGoing g)
    (hnonce : .aggnonce aggnonce ∈ made libGiven g) :
    MusigKeeps (if mi.flags &&& MusigFlag.fuzzAggnonce ≠ 0 then do
        let (ok, fuzzed) ← secpMusig (.aggnonceParse mi.aggnonce)
        transcriptInt ok
        pure (if ok ≠ 0 then fuzzed else aggnonce)
      else pure aggnonce) g fun nonce g' => .aggnonce nonce ∈ made libGiven g' ∧
      MusigQuiet g g' := by
  apply Keeps.ite
  · intro _
    apply Keeps.invoke_bind ⟨nofun, hgo, trivial⟩
    rintro ⟨ok, fuzzed⟩ -
    apply Keeps.emit_bind
    refine Keeps.pure ⟨?_, MusigQuiet.concat not_false rfl rfl⟩
    split
    next hok => exact mem_made_last (mem_ifOk_self hok _)
    next => exact mem_made_grows (List.prefix_append _ _) hnonce
  · intro _
    exact Keeps.pure ⟨hnonce, MusigQuiet.refl g⟩

theorem SessionOf.made {msg : Bytes 32} {cache : T.KeyaggCache} {session : T.Session}
    (h : SessionOf g msg cache session) : .session session ∈ made libGiven g := by
  obtain ⟨aggnonce, ret, hret, hmem⟩ := h
  exact mem_made_of_mem hmem (mem_ifOk_self hret _)

theorem SessionOf.mono (hgrows : g <+: g') {msg : Bytes 32} {cache : T.KeyaggCache}
    {session : T.Session} (h : SessionOf g msg cache session) :
    SessionOf g' msg cache session := by
  obtain ⟨aggnonce, ret, hret, hmem⟩ := h
  exact ⟨aggnonce, ret, hret, hgrows.subset hmem⟩

theorem keeps_musigSession (mi : MusigInput) {cache : T.KeyaggCache}
    {pubnonces : List T.Pubnonce} (hgo : MusigGoing g)
    (hcache : .keyaggCache cache ∈ made libGiven g)
    (hnonces : ∀ nonce ∈ pubnonces, .pubnonce nonce ∈ made libGiven g) :
    MusigKeeps (musigSession mi cache pubnonces) g fun session g' =>
      ∀ se, session = some se → SessionOf g' mi.msg cache se ∧ MusigQuiet g g' := by
  apply Keeps.invoke_bind
  · refine ⟨?_, hgo, trivial⟩
    intro x hx
    obtain ⟨nonce, hmem, rfl⟩ := List.mem_map.mp hx
    exact hnonces nonce hmem
  rintro ⟨ok, aggnonce⟩ -
  apply Keeps.emit_bind
  apply Keeps.ite
  · intro _
    exact Keeps.pure (by simp)
  intro hok
  have hquiet₁ : MusigQuiet g (g ++ [⟨.musig (.nonceAgg pubnonces), (ok, aggnonce)⟩]) :=
    MusigQuiet.concat hok rfl rfl
  apply Keeps.bind
    (keeps_musigAggnonce mi (hquiet₁.going hgo) (mem_made_last (mem_ifOk_self hok _)))
  rintro aggnonce g₂ hgrows₂ ⟨hmade, hquiet₂⟩
  have hgo₂ := hquiet₂.going (hquiet₁.going hgo)
  apply Keeps.invoke_bind
  · exact ⟨by simpa [LibCall.handed, MusigCall.handed] using hmade, hgo₂, trivial⟩
  rintro ⟨ret, ser⟩ -
  apply Keeps.emit_bind
  have hgrows₃ :=
    List.prefix_append g₂ [⟨.musig (.aggnonceSerialize aggnonce), (ret, ser)⟩]
  have hquiet₃ :
      MusigQuiet g₂ (g₂ ++ [⟨.musig (.aggnonceSerialize aggnonce), (ret, ser)⟩]) :=
    MusigQuiet.concat not_false rfl rfl
  apply Keeps.invoke_bind
  · refine ⟨?_, hquiet₃.going hgo₂, trivial⟩
    simp only [LibCall.handed, MusigCall.handed, List.forall_mem_cons]
    refine ⟨mem_made_grows hgrows₃ hmade, mem_made_grows ?_ hcache, List.forall_mem_nil _⟩
    exact ((List.prefix_append _ _).trans hgrows₂).trans hgrows₃
  rintro ⟨ok', session⟩ -
  apply Keeps.emit_bind
  apply Keeps.pure
  intro se hse
  split at hse
  · cases hse
  next hok' =>
    obtain rfl := Option.some.inj hse
    refine ⟨⟨aggnonce, ok', hok', mem_concat_self _⟩, ?_⟩
    exact ((hquiet₁.trans hquiet₂).trans hquiet₃).trans (MusigQuiet.concat hok' rfl rfl)

/-! ## Signatures -/

/-- Every partial signature so far was made for `cache` and `session`. -/
def SignedFor (l : List (Event (LibCall T))) (cache : T.KeyaggCache)
    (session : T.Session) : Prop :=
  ∀ x ∈ l.filterMap musigSignOf, x.2 = (cache, session)

/-- The secret nonce of the slot was used up. -/
def SlotUsed (l : List (Event (LibCall T))) (slot : Fin 3) : Prop :=
  slot ∈ (l.filterMap musigSignOf).map (·.1)

/-- The signature of a signer was given, with what it was made of. -/
structure SigMade (l : List (Event (LibCall T))) (sig : MusigSigs T) : Prop where
  nonce : NonceMade l sig.toMusigNonces
  psig : .partialSig sig.psig ∈ made libGiven l

theorem SigMade.mono (hgrows : g <+: g') {sig : MusigSigs T} (h : SigMade g sig) :
    SigMade g' sig :=
  ⟨h.nonce.mono hgrows, mem_made_grows hgrows h.psig⟩

/-- What the signing loop leaves: the cache as it was, and signatures for it
alone. -/
structure MusigSigning (g g' : List (Event (LibCall T))) (cache : T.KeyaggCache)
    (session : T.Session) : Prop where
  going : MusigGoing g'
  current : musigCurrent g' = musigCurrent g
  signed : SignedFor g' cache session

theorem MusigSigning.quiet {g'' : List (Event (LibCall T))} {cache : T.KeyaggCache}
    {session : T.Session} (h : MusigSigning g g' cache session)
    (hquiet : MusigQuiet g' g'') : MusigSigning g g'' cache session :=
  ⟨hquiet.going h.going, hquiet.current.trans h.current, by
    rw [SignedFor, hquiet.signs]; exact h.signed⟩

theorem keeps_musigPartialSigns {cache : T.KeyaggCache} {session : T.Session}
    {nonces : List (MusigNonces T)} (hgo : MusigGoing g)
    (hcurrent : musigCurrent g = some cache)
    (hsession : .session session ∈ made libGiven g) (hsigned : SignedFor g cache session)
    (hnonces : ∀ nonce ∈ nonces, NonceMade g nonce) (hslots : (nonces.map (·.slot)).Nodup)
    (hfresh : ∀ nonce ∈ nonces, ¬ SlotUsed g nonce.slot) :
    MusigKeeps (musigPartialSigns cache session nonces) g fun sigs g' =>
      ∀ ss, sigs = some ss →
      (∀ sig ∈ ss, SigMade g' sig) ∧ MusigSigning g g' cache session := by
  induction nonces generalizing g with
  | nil =>
      apply Keeps.pure
      rintro _ ⟨⟩
      exact ⟨List.forall_mem_nil _, hgo, rfl, hsigned⟩
  | cons nonce nonces ih =>
      obtain ⟨hmade, hmades⟩ := List.forall_mem_cons.mp hnonces
      obtain ⟨hunused, hfreshes⟩ := List.forall_mem_cons.mp hfresh
      obtain ⟨hother, hslots'⟩ := List.nodup_cons.mp hslots
      apply Keeps.invoke_bind
      · refine ⟨?_, hgo, hcurrent, hunused⟩
        simp only [LibCall.handed, MusigCall.handed, List.forall_mem_cons]
        exact ⟨hmade.secnonce, hmade.keypair, current_made hcurrent, hsession,
          List.forall_mem_nil _⟩
      rintro ⟨ok, psig, secnonce⟩ -
      apply Keeps.emit_bind
      apply Keeps.ite
      · intro _
        exact Keeps.pure (by simp)
      intro hok
      generalize hsign :
        (⟨.musig (.partialSign nonce.slot nonce.secnonce nonce.keypair cache session),
        (ok, psig, secnonce)⟩ : Event (LibCall T)) = sign
      have hsignOf : musigSignOf sign = some (nonce.slot, cache, session) := by
        rw [← hsign]; rfl
      have hpsig : LibObject.partialSig psig ∈ made libGiven (g ++ [sign]) := by
        rw [← hsign]
        exact mem_made_last (mem_ifOk_self hok _)
      have hgo₁ : MusigGoing (g ++ [sign]) := hgo.concat (by rw [← hsign]; exact hok)
      have hcurrent₁ : musigCurrent (g ++ [sign]) = some cache := by
        rw [musigCurrent, filterMap_concat_none (by rw [← hsign]; rfl)]
        exact hcurrent
      have hsigns : (g ++ [sign]).filterMap musigSignOf =
          g.filterMap musigSignOf ++ [(nonce.slot, cache, session)] := by
        rw [List.filterMap_append, List.filterMap_cons_some hsignOf, List.filterMap_nil]
      apply Keeps.invoke_bind
      · exact ⟨by simpa [LibCall.handed, MusigCall.handed] using hpsig, hgo₁, trivial⟩
      rintro ⟨ret, ser⟩ -
      apply Keeps.emit_bind
      have hquiet : MusigQuiet (g ++ [sign])
          (g ++ [sign] ++ [⟨.musig (.partialSigSerialize psig), (ret, ser)⟩]) :=
        MusigQuiet.concat not_false rfl rfl
      have hgrows :
          g <+: g ++ [sign] ++ [⟨.musig (.partialSigSerialize psig), (ret, ser)⟩] :=
        (List.prefix_append _ _).trans (List.prefix_append _ _)
      have hsigned₂ :
          SignedFor (g ++ [sign] ++ [⟨.musig (.partialSigSerialize psig), (ret, ser)⟩])
          cache session := by
        rw [SignedFor, hquiet.signs, hsigns]
        intro x hx
        rcases List.mem_append.mp hx with hx | hx
        · exact hsigned x hx
        · rw [List.mem_singleton.mp hx]
      have hfresh₂ : ∀ n ∈ nonces,
          ¬ SlotUsed (g ++ [sign] ++ [⟨.musig (.partialSigSerialize psig), (ret, ser)⟩])
            n.slot := by
        intro n hn hused
        rw [SlotUsed, hquiet.signs, hsigns, List.map_append, List.mem_append] at hused
        rcases hused with hused | hused
        · exact hfreshes n hn hused
        · apply hother
          rw [← List.mem_singleton.mp hused]
          exact List.mem_map_of_mem hn
      apply Keeps.bind (ih (hquiet.going hgo₁) (hquiet.current.trans hcurrent₁)
        (mem_made_grows hgrows hsession)
        hsigned₂ (fun n hn => (hmades n hn).mono hgrows) hslots' hfresh₂)
      intro sigs g₃ hgrows₃ h
      cases sigs with
      | none => exact Keeps.pure (by simp)
      | some sigs =>
          obtain ⟨hsigs, hsigning⟩ := h sigs rfl
          apply Keeps.pure
          rintro _ ⟨⟩
          refine ⟨?_, hsigning.going, ?_, hsigning.signed⟩
          · rw [List.forall_mem_cons]
            refine ⟨⟨hmade.mono (hgrows.trans hgrows₃), ?_⟩, hsigs⟩
            exact mem_made_grows ((List.prefix_append _ _).trans hgrows₃) hpsig
          · rw [hsigning.current, hquiet.current, hcurrent₁, hcurrent]

/-- The objects a verification is handed were given. -/
theorem handed_partialSigVerify {cache : T.KeyaggCache} {session : T.Session}
    {psig : T.PartialSig} {nonce : MusigNonces T}
    (hcache : .keyaggCache cache ∈ made libGiven g)
    (hsession : .session session ∈ made libGiven g)
    (hpsig : .partialSig psig ∈ made libGiven g) (hnonce : NonceMade g nonce) :
    ∀ x ∈ (LibCall.musig
        (.partialSigVerify psig nonce.pubnonce nonce.pubkey cache session)).handed,
      x ∈ made libGiven g := by
  simp only [LibCall.handed, MusigCall.handed, List.forall_mem_cons]
  exact ⟨hpsig, hnonce.pubnonce, hnonce.pubkey, hcache, hsession, List.forall_mem_nil _⟩

theorem keeps_musigPartialVerifies {cache : T.KeyaggCache} {session : T.Session}
    {sigs : List (MusigSigs T)} (hgo : MusigGoing g)
    (hcache : .keyaggCache cache ∈ made libGiven g)
    (hsession : .session session ∈ made libGiven g)
    (hsigs : ∀ sig ∈ sigs, SigMade g sig) :
    MusigKeeps (musigPartialVerifies cache session sigs) g fun _ g' =>
      MusigQuiet g g' := by
  induction sigs generalizing g with
  | nil => exact Keeps.pure (MusigQuiet.refl g)
  | cons sig sigs ih =>
      obtain ⟨hsig, hrest⟩ := List.forall_mem_cons.mp hsigs
      apply Keeps.invoke_bind
        ⟨handed_partialSigVerify hcache hsession hsig.psig hsig.nonce, hgo, trivial⟩
      intro ret _
      apply Keeps.emit_bind
      have hquiet := MusigQuiet.concat (g := g)
        (e := ⟨.musig (.partialSigVerify sig.psig sig.pubnonce sig.pubkey cache session),
          ret⟩) not_false rfl rfl
      apply (ih (hquiet.going hgo) (mem_made_grows (List.prefix_append _ _) hcache)
        (mem_made_grows (List.prefix_append _ _) hsession)
        fun s hs => (hrest s hs).mono (List.prefix_append _ _)).mono
      intro _ g' _ hquiet'
      exact hquiet.trans hquiet'

theorem keeps_musigPartialSigs (mi : MusigInput) {cache : T.KeyaggCache}
    {session : T.Session} {sigs : List (MusigSigs T)} (hgo : MusigGoing g)
    (hcache : .keyaggCache cache ∈ made libGiven g)
    (hsession : .session session ∈ made libGiven g)
    (hsigs : ∀ sig ∈ sigs, SigMade g sig) :
    MusigKeeps (musigPartialSigs mi cache session sigs) g fun ptrs g' =>
      (∀ psig ∈ ptrs, .partialSig psig ∈ made libGiven g') ∧ MusigQuiet g g' := by
  have hptrs :
      ∀ psig ∈ sigs.map (·.psig), LibObject.partialSig psig ∈ made libGiven g := by
    intro psig hmem
    obtain ⟨s, hs, rfl⟩ := List.mem_map.mp hmem
    exact (hsigs s hs).psig
  apply Keeps.ite
  · intro _
    apply Keeps.invoke_bind ⟨nofun, hgo, trivial⟩
    rintro ⟨ok, fuzzed⟩ -
    apply Keeps.emit_bind
    have hgrows :=
      List.prefix_append g [⟨.musig (.partialSigParse mi.partialSig), (ok, fuzzed)⟩]
    have hquiet :
        MusigQuiet g (g ++ [⟨.musig (.partialSigParse mi.partialSig), (ok, fuzzed)⟩]) :=
      MusigQuiet.concat not_false rfl rfl
    have hsame {g₁ : List (Event (LibCall T))} (hgrows₁ : g <+: g₁) :
        ∀ psig ∈ sigs.map (·.psig), LibObject.partialSig psig ∈ made libGiven g₁ :=
      fun psig hmem => mem_made_grows hgrows₁ (hptrs psig hmem)
    apply Keeps.ite
    · intro hok
      have hfuzzed : LibObject.partialSig fuzzed ∈
          made libGiven
            (g ++ [⟨.musig (.partialSigParse mi.partialSig), (ok, fuzzed)⟩]) :=
        mem_made_last (mem_ifOk_self hok _)
      cases hvictim : sigs[mi.victim]? with
      | none => exact Keeps.pure ⟨hsame hgrows, hquiet⟩
      | some victim =>
          have hmade := (hsigs victim (List.mem_of_getElem? hvictim)).mono hgrows
          apply Keeps.invoke_bind
          · exact ⟨handed_partialSigVerify (mem_made_grows hgrows hcache)
              (mem_made_grows hgrows hsession) hfuzzed
              hmade.nonce, hquiet.going hgo, trivial⟩
          intro ret _
          apply Keeps.emit_bind
          refine Keeps.pure ⟨?_, hquiet.trans (MusigQuiet.concat not_false rfl rfl)⟩
          intro psig hmem
          rcases List.mem_or_eq_of_mem_set hmem with hmem | rfl
          · exact hsame (hgrows.trans (List.prefix_append _ _)) psig hmem
          · exact mem_made_grows (List.prefix_append _ _) hfuzzed
    · intro _
      exact Keeps.pure ⟨hsame hgrows, hquiet⟩
  · intro _
    exact Keeps.pure ⟨hptrs, MusigQuiet.refl g⟩

/-- The final signature is checked against the key of the cache that was
signed for. -/
theorem keeps_musigFinish (mi : MusigInput) {st : MusigAgg T} {session : T.Session}
    {psigs : List T.PartialSig} (hgo : MusigGoing g) (hst : AggMade g st)
    (hsession : SessionOf g mi.msg st.cache session)
    (hsigned : SignedFor g st.cache session)
    (hpsigs : ∀ psig ∈ psigs, .partialSig psig ∈ made libGiven g) :
    MusigKeeps (musigFinish mi st.agg session psigs) g fun _ _ => True := by
  apply Keeps.invoke_bind
  · refine ⟨?_, hgo, trivial⟩
    simp only [LibCall.handed, MusigCall.handed, List.forall_mem_cons,
      List.forall_mem_map]
    exact ⟨hsession.made, hpsigs⟩
  rintro ⟨ok, sig64⟩ -
  apply Keeps.emit_bind
  apply Keeps.ite
  · intro hok
    apply Keeps.emit_bind
    have hquiet₁ :
        MusigQuiet g (g ++ [⟨.musig (.partialSigAgg session psigs), (ok, sig64)⟩]) :=
      MusigQuiet.concat hok rfl rfl
    have hst₁ := hst.mono (List.prefix_append _ _) hquiet₁
    obtain ⟨got, hgot, hmem⟩ := hst₁.got
    apply Keeps.invoke_bind
    · refine ⟨?_, hquiet₁.going hgo, trivial⟩
      simpa [LibCall.handed, KeyCall.handed]
        using mem_made_of_mem hmem (mem_ifOk_self hgot (.pubkey st.agg))
    rintro ⟨ret, aggXonly, parity⟩ (rfl : ret = 1)
    apply Keeps.emit_bind
    have hquiet₂ := hquiet₁.trans
      (MusigQuiet.concat (e :=
        ⟨.key (.xonlyPubkeyFromPubkey st.agg), (1, aggXonly, parity)⟩) not_false rfl rfl)
    have hgrows₂ : g <+: g ++ [⟨.musig (.partialSigAgg session psigs), (ok, sig64)⟩] ++
        [⟨.key (.xonlyPubkeyFromPubkey st.agg), (1, aggXonly, parity)⟩] :=
      (List.prefix_append _ _).trans (List.prefix_append _ _)
    have hst₂ := hst.mono hgrows₂ hquiet₂
    apply Keeps.invoke_bind
    · refine ⟨?_, hquiet₂.going hgo, ?_⟩
      · have hxonly : LibObject.xonly aggXonly ∈ made libGiven (g ++
            [⟨.musig (.partialSigAgg session psigs), (ok, sig64)⟩] ++
            [⟨.key (.xonlyPubkeyFromPubkey st.agg), (1, aggXonly, parity)⟩]) :=
            mem_made_last (mem_ifOk_one _)
        simpa only [LibCall.handed, SchnorrsigCall.handed, List.mem_singleton, forall_eq]
          using hxonly
      · refine ⟨st.agg, st.cache, session, mi.msg, hst₂.current, hst₂.got, ?_, rfl,
          hsession.mono hgrows₂, ?_, ?_⟩
        · exact ⟨1, parity, by decide, mem_concat_self _⟩
        · rw [hquiet₂.signs]
          exact hsigned
        · exact ⟨psigs, ok, hok, List.mem_append_left _ (mem_concat_self _)⟩
    · intro ret _
      exact Keeps.emit trivial
  · intro _
    exact Keeps.pure trivial

end Signing

end Diffsecp
