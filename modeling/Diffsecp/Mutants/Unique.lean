import Diffsecp.Mutants.Parsed
import Diffsecp.Mutants.Rewritten

/-!
# Mutants — Unique

When `mutate` accepts a record: what it looks for may still stand twice, where
the second place begins inside the first.
-/

namespace Diffsecp

open Text

/-- `p` is the only place of `w` in the part of the text. -/
def Sole (t w : Str) (a b p : ℕ) : Prop :=
  OccursIn t w a b p ∧ ∀ q, OccursIn t w a b q → q = p

/-- The function is defined once, and the anchor in its body and the original
after it stand at one place, as `stands` counts places. -/
def FoundBy (stands : Str → Str → ℕ → ℕ → ℕ → Prop) (cls : CharClasses) (text : Str)
    (r : Record) : Prop :=
  ∃ brace stop start p, DefinedOnce cls text r.function brace ∧ ClosedAt text brace stop ∧
    StartsAt (stands text) r brace stop start ∧ stands text r.original start stop p

/-- The site of a record is unique. -/
abbrev Unique : CharClasses → Str → Record → Prop := FoundBy Sole

/-- What is looked for stands at a second place, which begins inside the one
the scan finds: the scan goes on from that one's end. -/
def Hidden (cls : CharClasses) (text : Str) (r : Record) : Prop :=
  ∃ brace stop start p, DefinedOnce cls text r.function brace ∧ ClosedAt text brace stop ∧
    StartsAt (Lone text) r brace stop start ∧ Lone text r.original start stop p ∧
    ((∃ anchor ∈ r.anchor, ∃ q q', q ≠ q' ∧ OccursIn text anchor (brace + 1) stop q ∧
        OccursIn text anchor (brace + 1) stop q') ∨
      ∃ q ≠ p, OccursIn text r.original start stop q)

section Accept

variable {cls : CharClasses} {text : Str} {r : Record}

theorem ClosedAt.unique {brace stop stop' : ℕ} (h : ClosedAt text brace stop)
    (h' : ClosedAt text brace stop') :
    stop = stop' := by
  rcases Nat.lt_trichotomy stop stop' with hlt | heq | hgt
  · exact absurd h.2.1 (h'.2.2 stop h.1 hlt)
  · exact heq
  · exact absurd h'.2.1 (h.2.2 stop' h'.1 hgt)

/-- Where the scan for the original starts. -/
theorem anchored_eq_ok (hanchor : ∀ anchor ∈ r.anchor, anchor ≠ [])
    {span : ℕ × ℕ} {brace : ℕ} (hbrace : span.1 = brace + 1) {from' : ℕ × ℕ} :
    anchored text r span = .ok from' ↔ StartsAt (Lone text) r brace span.2 from'.1 ∧
    from'.2 = span.2 := by
  rw [anchored, StartsAt]
  cases hsome : r.anchor with
  | none =>
      constructor
      · intro h
        obtain rfl := Except.ok.inj h
        exact ⟨hbrace, rfl⟩
      · rintro ⟨hstart, hstop⟩
        exact congrArg Except.ok (Prod.ext (hbrace.trans hstart.symm) hstop.symm)
  | some anchor =>
      have hne := hanchor anchor hsome
      dsimp only
      constructor
      · intro h
        split at h
        next m hm =>
          obtain rfl := Except.ok.inj h
          obtain ⟨hlen, hlone⟩ := (finditer_word_eq_singleton hne).mp hm
          exact ⟨⟨span.1 + m.1, by rwa [← hbrace], by dsimp only; omega⟩, rfl⟩
        next => cases h
      · rintro ⟨⟨p, hlone, hstart⟩, hstop⟩
        have hle := hlone.1.1
        have hm : finditer (slice text span.1 span.2) (Regex.word anchor) =
            [(p - span.1, p - span.1 + anchor.length)] := by
          rw [finditer_word_eq_singleton hne]
          refine ⟨rfl, ?_⟩
          dsimp only
          rw [Nat.add_sub_cancel' (by omega), hbrace]
          exact hlone
        rw [hm]
        exact congrArg Except.ok (Prod.ext (by dsimp only; omega) hstop.symm)

/-- What `mutate` accepts a record by. -/
theorem site_ok_iff (hfun : '\n' ∉ r.function)
    (hanchor : ∀ anchor ∈ r.anchor, anchor ≠ []) (horiginal : r.original ≠ []) (k : ℕ) :
    (∃ s, site cls text k r = .ok s) ↔ FoundBy Lone cls text r := by
  have hin (span : ℕ × ℕ) : (∃ s, siteIn text k r span = .ok s) ↔
      ∃ p, Lone text r.original span.1 span.2 p := by
    rw [siteIn]
    constructor
    · rintro ⟨s, hs⟩
      split at hs
      next m hm => exact ⟨span.1 + m.1, ((finditer_word_eq_singleton horiginal).mp hm).2⟩
      next => cases hs
    · rintro ⟨p, hlone⟩
      have hm : finditer (slice text span.1 span.2) (Regex.word r.original) =
          [(p - span.1, p - span.1 + r.original.length)] := by
        rw [finditer_word_eq_singleton horiginal]
        refine ⟨rfl, ?_⟩
        dsimp only
        rw [Nat.add_sub_cancel' hlone.1.1]
        exact hlone
      rw [hm]
      exact ⟨_, rfl⟩
  rw [site]
  constructor
  · rintro ⟨s, hs⟩
    split at hs
    next => cases hs
    next span hbody =>
      obtain ⟨brace, hbrace, honce, hclosed⟩ := (body_eq_some hfun).mp hbody
      obtain ⟨from', hfrom, hsite⟩ := bind_eq_ok.mp hs
      obtain ⟨hstarts, hstop⟩ := (anchored_eq_ok hanchor hbrace).mp hfrom
      obtain ⟨p, hlone⟩ := (hin from').mp ⟨s, hsite⟩
      exact ⟨brace, span.2, from'.1, p, honce, hclosed, hstarts, hstop ▸ hlone⟩
  · rintro ⟨brace, stop, start, p, honce, hclosed, hstarts, hlone⟩
    have hbody : body cls text r.function = some (brace + 1, stop) :=
      (body_eq_some hfun).mpr ⟨brace, rfl, honce, hclosed⟩
    have hfrom : anchored text r (brace + 1, stop) = .ok (start, stop) :=
      (anchored_eq_ok hanchor rfl).mpr ⟨hstarts, rfl⟩
    obtain ⟨s, hs⟩ := (hin (start, stop)).mpr ⟨p, hlone⟩
    rw [hbody]
    exact ⟨s, bind_eq_ok.mpr ⟨_, hfrom, hs⟩⟩

/-- What is accepted is unique unless a second place hides. -/
theorem accepted_unique_iff :
    (FoundBy Lone cls text r → Unique cls text r) ↔ ¬ Hidden cls text r := by
  constructor
  · rintro hunique ⟨brace, stop, start, p, honce, hclosed, hstarts, hlone, hsecond⟩
    obtain ⟨brace', stop', start', p', honce', hclosed', hstarts', hsole⟩ :=
      hunique ⟨brace, stop, start, p, honce, hclosed, hstarts, hlone⟩
    obtain ⟨i, hdef⟩ := honce.1
    obtain rfl := honce'.2 i brace hdef
    obtain rfl := hclosed.unique hclosed'
    rw [StartsAt] at hstarts hstarts'
    rcases hsecond with ⟨anchor, hsome, q, q', hne, hq, hq'⟩ | ⟨q, hne, hq⟩
    · rw [Option.mem_def.mp hsome] at hstarts'
      obtain ⟨a, ha, -⟩ := hstarts'
      exact hne ((ha.2 q hq).trans (ha.2 q' hq').symm)
    · have hstart : start' = start := by
        cases hsome : r.anchor with
        | none =>
            rw [hsome] at hstarts hstarts'
            exact hstarts'.trans hstarts.symm
        | some anchor =>
            rw [hsome] at hstarts hstarts'
            obtain ⟨a, ha, hstart⟩ := hstarts
            obtain ⟨a', ha', hstart'⟩ := hstarts'
            rw [hstart, hstart', ha'.2 a ha.1]
      obtain rfl := hstart
      exact hne ((hsole.2 q hq).trans (hsole.2 p hlone.1).symm)
  · rintro hhidden ⟨brace, stop, start, p, honce, hclosed, hstarts, hlone⟩
    refine ⟨brace, stop, start, p, honce, hclosed, ?_, hlone.1, fun q hq => ?_⟩
    · rw [StartsAt]
      cases hsome : r.anchor with
      | none => rwa [StartsAt, hsome] at hstarts
      | some anchor =>
          have hstarts' := hstarts
          rw [StartsAt, hsome] at hstarts'
          obtain ⟨a, ha, hstart⟩ := hstarts'
          refine ⟨a, ⟨ha.1, fun q hq => ?_⟩, hstart⟩
          by_contra hne
          exact hhidden
            ⟨brace, stop, start, p, honce, hclosed, hstarts, hlone,
              .inl ⟨anchor, hsome, q, a, hne, hq, ha.1⟩⟩
    · by_contra hne
      exact hhidden ⟨brace, stop, start, p, honce, hclosed, hstarts, hlone,
        .inr ⟨q, hne, hq⟩⟩

end Accept

section Mutate

variable {cls : CharClasses} {openFile : Str → Option (List UInt8)}
  {records : List Record} {r : Record} {bytes : List UInt8} {text : Str}

/-- Every record's site was found. -/
theorem site_of_mutate (hmutate : ∃ out, mutate cls openFile records = .ok out)
    (hr : r ∈ records) (hbytes : openFile r.path = some bytes)
    (htext : readText bytes = some text) :
    ∃ k s, site cls text k r = .ok s := by
  obtain ⟨out, hout⟩ := hmutate
  obtain ⟨sites, hcollected, -⟩ := mutate_collected hout
  obtain ⟨k, hk⟩ := List.mem_iff_getElem?.mp hr
  have hmem : (r, k) ∈ records.zipIdx := List.mem_zipIdx_iff_getElem?.mpr hk
  obtain ⟨f, hf, hpath⟩ :=
    List.mem_map.mp ((hcollected.mem_paths r.path).mpr ⟨_, hmem, rfl⟩)
  obtain ⟨bytes', hbytes', htext'⟩ := hcollected.opened f hf
  rw [hpath, hbytes] at hbytes'
  obtain rfl := Option.some.inj hbytes'
  rw [htext] at htext'
  obtain rfl := Option.some.inj htext'
  have hin : (r, k) ∈ records.zipIdx.filter (·.1.path = f.path) :=
    List.mem_filter.mpr ⟨hmem, decide_eq_true hpath.symm⟩
  obtain ⟨s, -, hs⟩ := exists_of_forall₂ (hcollected.located f hf).flip hin
  exact ⟨k, s, hs⟩

/-- A record alone is accepted where its site is found. -/
theorem mutate_singleton {s : Splice} (hbytes : openFile r.path = some bytes)
    (htext : readText bytes = some text) (hs : site cls text 0 r = .ok s) :
    ∃ out, mutate cls openFile [r] = .ok out := by
  have hopen : openSites openFile [] r = .ok ⟨r.path, text, []⟩ := by
    rw [openSites, List.find?_nil]
    dsimp only
    rw [hbytes]
    dsimp only
    rw [htext]
    rfl
  have hrecord : mutateRecord cls openFile [] 0 r = .ok [⟨r.path, text, [s]⟩] :=
    bind_eq_ok.mpr ⟨_, hopen, bind_eq_ok.mpr ⟨s, hs, rfl⟩⟩
  have hrecords : mutateRecords cls openFile [] 0 [r] = .ok [⟨r.path, text, [s]⟩] :=
    bind_eq_ok.mpr ⟨_, hrecord, rfl⟩
  exact ⟨_, bind_eq_ok.mpr ⟨_, hrecords, rfl⟩⟩

end Mutate

/-- For every text and every record of a list that was read: in every list
`mutate` takes, the record's site is unique, if and only if no second place
hides. -/
theorem mutate_unique_iff (cls : CharClasses)
    (openFile : Str → Option (List UInt8)) (list : Str) (records : List Record)
    (hparse : parse cls list = .ok records) (r : Record) (hr : r ∈ records)
    (bytes : List UInt8) (text : Str) (hbytes : openFile r.path = some bytes)
    (htext : readText bytes = some text) :
    (∀ taken, r ∈ taken → (∃ out, mutate cls openFile taken = .ok out) →
      Unique cls text r) ↔ ¬ Hidden cls text r := by
  have hvalid := parse_valid hparse hr
  have hfun : '\n' ∉ r.function := by
    intro hmem
    have hspace := hvalid.function.2 '\n' hmem
    rw [cls.space_newline] at hspace
    nomatch hspace
  have horiginal : r.original ≠ [] := (hvalid.exprs r.original (by simp)).1
  have hanchor : ∀ anchor ∈ r.anchor, anchor ≠ [] := by
    intro anchor hsome
    exact (hvalid.exprs anchor (by simp [Option.mem_def.mp hsome])).1
  rw [← accepted_unique_iff]
  constructor
  · intro h hfound
    obtain ⟨s, hs⟩ := (site_ok_iff hfun hanchor horiginal 0).mpr hfound
    exact h [r] (List.mem_singleton_self r) (mutate_singleton hbytes htext hs)
  · intro h taken htaken hmutate
    obtain ⟨k, s, hs⟩ := site_of_mutate hmutate htaken hbytes htext
    exact h ((site_ok_iff hfun hanchor horiginal k).mp ⟨s, hs⟩)

def thriceList : Str := "f.c f\n  x+x\n  x-x\n".toList

def thriceRecord : Record :=
  ⟨"f.c".toList, "f".toList, none, "x+x".toList, "x-x".toList, 1⟩

/-- The original stands twice, the second place beginning inside the first. -/
def thriceText : Str := "int f(int x) \x7b\n  return x+x+x;\n\x7d\n".toList

theorem parse_thriceList : parse asciiClasses thriceList = .ok [thriceRecord] :=
  ok_of_toOption (by decide +kernel)

theorem mutate_unique_iff_thrice :
    (∀ taken, thriceRecord ∈ taken →
      (∃ out,
        mutate asciiClasses (fun _ => some (encodeUtf8 thriceText)) taken = .ok out) →
        Unique asciiClasses thriceText thriceRecord) ↔
        ¬ Hidden asciiClasses thriceText thriceRecord :=
  mutate_unique_iff asciiClasses (fun _ => some (encodeUtf8 thriceText)) thriceList
    [thriceRecord] parse_thriceList
    thriceRecord (List.mem_singleton_self _) (encodeUtf8 thriceText) thriceText rfl
      (by decide +kernel)

/-- `mutate` takes a record whose original stands at two places. -/
theorem mutate_accepts_overlapping :
    parse asciiClasses thriceList = .ok [thriceRecord] ∧
      (∃ out, mutate asciiClasses (fun _ => some (encodeUtf8 thriceText)) [thriceRecord] =
        .ok out) ∧ ¬ Unique asciiClasses thriceText thriceRecord := by
  have hbody : body asciiClasses thriceText thriceRecord.function = some (14, 30) := by
    decide +kernel
  obtain ⟨brace, hbrace, honce, hclosed⟩ := (body_eq_some (by decide +kernel)).mp hbody
  refine ⟨parse_thriceList, ?_, ?_⟩
  · have hsite : (site asciiClasses thriceText 0 thriceRecord).toOption.isSome =
        true := by decide +kernel
    obtain ⟨s, hs⟩ := Option.isSome_iff_exists.mp hsite
    exact mutate_singleton rfl (by decide +kernel) (ok_of_toOption hs)
  · rintro ⟨brace', stop, start, p, honce', hclosed', hstart, hsole⟩
    obtain ⟨i, hdef⟩ := honce.1
    obtain rfl := honce'.2 i brace hdef
    obtain rfl := hclosed.unique hclosed'
    obtain rfl : start = 14 := hstart.trans hbrace.symm
    have hfirst := hsole.2 24 (by decide +kernel)
    have hsecond := hsole.2 26 (by decide +kernel)
    omega

end Diffsecp
