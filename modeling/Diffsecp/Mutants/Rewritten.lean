import Mathlib.Data.List.Perm.Basic
import Diffsecp.Mutants.Sited

/-!
# Mutants — Rewritten

What `mutate` returns: every file's text with a switch at the site of each of
its records, each record's once, and nothing else changed.
-/

namespace Diffsecp

open Text

/-! ## What rewriting is to do -/

/-- What the site of record `k` reads in the text. -/
def originalOf (records : List Record) (k : ℕ) : Str :=
  (records[k]?).elim [] Record.original

/-- What the site of record `k` reads in the rewritten text. -/
def switchOf (records : List Record) (k : ℕ) : Str :=
  (records[k]?).elim [] (Record.switch k)

/-- The records of the file at `path`, with their numbers. -/
def recordsOf (records : List Record) (path : Str) : List (Record × ℕ) :=
  records.zipIdx.filter (·.1.path = path)

/-- `rewritten` is `text` after the prelude, with a switch in place of the
original at the site of each record of the file. -/
def Rewrites (cls : CharClasses) (records : List Record)
    (path text rewritten : Str) : Prop :=
  ∃ pieces : List (Piece ℕ Char),
    rewritten = preludeText ++ render (switchOf records) pieces ∧
    render (originalOf records) pieces = text ∧
    (keys pieces).Perm ((recordsOf records path).map Prod.snd) ∧
    ∀ ps k qs, pieces = ps ++ .site k :: qs → ∃ r, records[k]? = some r ∧ r.path = path ∧
      SitedAt cls text r (render (originalOf records) ps).length ∧
      ∀ m, render (Function.update (originalOf records) k m) pieces =
        spliceAt text (render (originalOf records) ps).length r.original.length m

theorem mem_recordsOf {records : List Record} {path : Str} {rk : Record × ℕ} :
    rk ∈ recordsOf records path ↔ records[rk.2]? = some rk.1 ∧ rk.1.path = path := by
  rw [recordsOf, List.mem_filter, List.mem_zipIdx_iff_getElem?, decide_eq_true_eq]

theorem nodup_recordsOf (records : List Record) (path : Str) :
    ((recordsOf records path).map Prod.snd).Nodup := by
  have hsub :
      ((recordsOf records path).map Prod.snd).Sublist (records.zipIdx.map Prod.snd) :=
    List.filter_sublist.map _
  rw [List.zipIdx_map_snd] at hsub
  exact (List.nodup_range' ).sublist hsub

/-! ## The sites of one file -/

section File

variable {cls : CharClasses} {text : Str} {rks : List (Record × ℕ)} {found : List Splice}

/-- The sites found are those of the records, in their order. -/
def Located (cls : CharClasses) (text : Str) : List (Record × ℕ) → List Splice → Prop :=
  List.Forall₂ fun rk s => site cls text rk.2 rk.1 = .ok s

/-- The sites by the numbers of their records. -/
def sitesOf (rks : List (Record × ℕ)) (found : List Splice) : List (Site ℕ) :=
  List.zipWith (fun rk s => ⟨rk.2, s.start, s.length⟩) rks found

@[simp] theorem sitesOf_cons (rk : Record × ℕ) (s : Splice) :
    sitesOf (rk :: rks) (s :: found) =
      ⟨rk.2, s.start, s.length⟩ :: sitesOf rks found := rfl

theorem Located.keys (h : Located cls text rks found) :
    (sitesOf rks found).map (·.key) = rks.map Prod.snd := by
  induction h with
  | nil => rfl
  | cons _ _ ih => exact congrArg (_ :: ·) ih

theorem Located.exists_site (h : Located cls text rks found) {s : Site ℕ}
    (hs : s ∈ sitesOf rks found) :
    ∃ rk ∈ rks, ∃ sp, site cls text rk.2 rk.1 = .ok sp ∧
      s = ⟨rk.2, sp.start, sp.length⟩ := by
  induction h with
  | nil => nomatch hs
  | @cons rk sp rks found hsite _ ih =>
      rcases List.mem_cons.mp hs with rfl | hs
      · exact ⟨rk, List.mem_cons_self .., sp, hsite, rfl⟩
      · obtain ⟨rk', hrk', sp', h⟩ := ih hs
        exact ⟨rk', List.mem_cons_of_mem _ hrk', sp', h⟩

theorem Located.mem (h : Located cls text rks found) {rk : Record × ℕ}
    (hrk : rk ∈ rks) {sp : Splice} (hsp : site cls text rk.2 rk.1 = .ok sp) :
    ⟨rk.2, sp.start, sp.length⟩ ∈ sitesOf rks found := by
  induction h with
  | nil => nomatch hrk
  | @cons rk' sp' rks found hsite _ ih =>
      rcases List.mem_cons.mp hrk with rfl | hrk
      · rw [hsite] at hsp
        obtain rfl := Except.ok.inj hsp
        exact List.mem_cons_self ..
      · exact List.mem_cons_of_mem _ (ih hrk)

/-- Where no neighbours share a character, each site ends before the one
before it starts. -/
theorem Located.descends (h : Located cls text rks found)
    (hover : overlaps found = false) {hi : ℕ}
    (hhi : ∀ s ∈ found.head?, s.start + s.length ≤ hi) :
    Descends hi (sitesOf rks found) := by
  induction h generalizing hi with
  | nil => trivial
  | @cons rk sp rks found _ hrest ih =>
      refine ⟨hhi sp rfl, ?_⟩
      cases hrest with
      | nil => trivial
      | cons _ _ =>
          rw [overlaps, Bool.or_eq_false_iff, decide_eq_false_iff_not, Nat.not_lt]
            at hover
          apply ih hover.2
          intro s hs
          obtain rfl := Option.some.inj hs
          exact hover.1

/-- The splices put the switches in. -/
theorem Located.foldl {records : List Record} (h : Located cls text rks found)
    (hrks : ∀ rk ∈ rks, records[rk.2]? = some rk.1) (t : Str) :
    found.foldl (fun text s => spliceAt text s.start s.length s.replacement) t =
      (sitesOf rks found).foldl
        (fun text s => spliceAt text s.start s.length (switchOf records s.key)) t := by
  induction h generalizing t with
  | nil => rfl
  | @cons rk sp rks found hsite _ ih =>
      obtain ⟨hrk, hrks⟩ := List.forall_mem_cons.mp hrks
      have hswitch : switchOf records rk.2 = sp.replacement := by
        rw [switchOf, hrk, (sitedAt_of_site hsite).2.1]
        rfl
      rw [List.foldl_cons, ih hrks, sitesOf_cons, List.foldl_cons, hswitch]

/-- A site reads the original, inside the text. -/
theorem SitedAt.occurs {r : Record} {p : ℕ} (h : SitedAt cls text r p) :
    p + r.original.length ≤ text.length ∧
    (text.drop p).take r.original.length = r.original := by
  obtain ⟨head, brace, stop, start, hdef, ⟨-, hclosed, -⟩, -, -, hle, hoccurs⟩ := h
  have hlen := hclosed.length_le
  rw [List.length_drop, List.length_cons] at hlen
  exact ⟨by omega, (List.prefix_iff_eq_take.mp hoccurs).symm⟩

/-- The sites in the order they are rewritten in. -/
theorem Located.sorted (h : Located cls text rks found) :
    ∃ rks', rks'.Perm rks ∧ Located cls text rks' (sortFound found) := by
  have hperm : (sortFound found).Perm found := List.perm_insertionSort _ found
  have hflip : List.Forall₂ (fun s (rk : Record × ℕ) => site cls text rk.2 rk.1 = .ok s)
      found rks := h.flip
  obtain ⟨rks', hsites, hrks⟩ : Relation.Comp (List.Forall₂ _) List.Perm
      (sortFound found) rks :=
    List.perm_comp_forall₂ hperm hflip
  exact ⟨rks', hrks, hsites.flip⟩

/-- A file is rewritten where its sites, in that order, share no character. -/
theorem Located.of_rewrite {file : FileSites} {out : Str × Str}
    (h : Located cls file.text rks file.found) (hout : rewrite file = .ok out) :
    out = (file.path, preludeText ++
      (sortFound file.found).foldl
        (fun text s => spliceAt text s.start s.length s.replacement) file.text) ∧
      ∃ rks', rks'.Perm rks ∧ Located cls file.text rks' (sortFound file.found) ∧
        Descends file.text.length (sitesOf rks' (sortFound file.found)) := by
  rw [rewrite] at hout
  split at hout
  next => nomatch hout
  next hover =>
    obtain ⟨rks', hperm, hsorted⟩ := h.sorted
    refine ⟨(Except.ok.inj hout).symm, rks', hperm, hsorted,
      hsorted.descends (Bool.eq_false_iff.mpr hover) ?_⟩
    intro s hs
    obtain ⟨found, hfound⟩ := List.head?_eq_some_iff.mp hs
    rw [hfound] at hsorted
    obtain ⟨rk, rks'', hsite, -, -⟩ := List.forall₂_cons_right_iff.mp hsorted
    obtain ⟨hlen, -, hsited⟩ := sitedAt_of_site hsite
    rw [hlen]
    exact hsited.occurs.1

theorem path_of_rewrite {file : FileSites} {o : Str × Str} (h : rewrite file = .ok o) :
    o.1 = file.path := by
  rw [rewrite] at h
  split at h
  next => nomatch h
  next =>
    obtain rfl := Except.ok.inj h
    rfl

/-- What sites that share no character are spliced to. -/
theorem rewrite_spec (records : List Record) {file : FileSites} {out : Str × Str}
    (h : Located cls file.text (recordsOf records file.path) file.found)
    (hout : rewrite file = .ok out) :
    out.1 = file.path ∧ Rewrites cls records file.path file.text out.2 := by
  obtain ⟨rfl, rks, hperm, hsorted, hdesc⟩ := h.of_rewrite hout
  have hmem {rk : Record × ℕ} (hrk : rk ∈ rks) :
      records[rk.2]? = some rk.1 ∧ rk.1.path = file.path :=
    mem_recordsOf.mp (hperm.mem_iff.mp hrk)
  have hreads : ∀ s ∈ sitesOf rks (sortFound file.found),
      (file.text.drop s.start).take s.length = originalOf records s.key := by
    intro s hs
    obtain ⟨rk, hrk, sp, hsite, rfl⟩ := hsorted.exists_site hs
    obtain ⟨hlen, -, hsited⟩ := sitedAt_of_site hsite
    dsimp only
    rw [originalOf, (hmem hrk).1, hlen, hsited.occurs.2]
    rfl
  have hself : render (originalOf records)
      (cut file.text file.text.length (sitesOf rks (sortFound file.found))) =
      file.text := by
    rw [render_cut_self (Nat.le_refl _) hdesc hreads, List.take_length]
  refine ⟨rfl, cut file.text file.text.length (sitesOf rks (sortFound file.found)), ?_,
    hself, ?_, ?_⟩
  · have hsplice := foldl_spliceAt (f := switchOf records) [] (Nat.le_refl _) hdesc
    rw [List.take_length, List.append_nil, List.append_nil] at hsplice
    dsimp only
    rw [hsorted.foldl fun rk hrk => (hmem hrk).1, hsplice]
  · rw [keys_cut, hsorted.keys]
    exact (List.reverse_perm _).trans (hperm.map _)
  · intro ps k qs hpieces
    obtain ⟨s, hs, hkey, hstart⟩ := site_of_cut (Nat.le_refl _) hdesc hreads hpieces
    obtain ⟨rk, hrk, sp, hsite, rfl⟩ := hsorted.exists_site hs
    obtain ⟨-, -, hsited⟩ := sitedAt_of_site hsite
    obtain ⟨hrecord, hpath⟩ := hmem hrk
    dsimp only at hkey hstart
    subst hkey
    refine ⟨rk.1, hrecord, hpath, hstart ▸ hsited, fun m => ?_⟩
    have hnodup : (keys (ps ++ .site rk.2 :: qs : List (Piece ℕ Char))).Nodup := by
      rw [← hpieces, keys_cut, hsorted.keys, List.nodup_reverse, (hperm.map _).nodup_iff]
      exact nodup_recordsOf records file.path
    have horiginal : originalOf records rk.2 = rk.1.original := by
      rw [originalOf, hrecord]
      rfl
    rw [hpieces, render_update hnodup, ← hpieces, hself, horiginal]

end File

/-! ## The sites of all files -/

section Collect

variable {cls : CharClasses} {openFile : Str → Option (List UInt8)}
  {records done : List (Record × ℕ)} {sites sites' : List FileSites} {r : Record} {k : ℕ}

theorem mem_putSites {file f : FileSites} :
    f ∈ putSites sites file ↔ f = file ∨ f ∈ sites ∧ f.path ≠ file.path := by
  rw [putSites]
  split
  next hany =>
    obtain ⟨f', hf', hpath⟩ := List.any_eq_true.mp hany
    rw [List.mem_map]
    constructor
    · rintro ⟨g, hg, rfl⟩
      split
      next => exact .inl rfl
      next hne => exact .inr ⟨hg, hne⟩
    · rintro (rfl | ⟨hf, hne⟩)
      · exact ⟨f', hf', if_pos (of_decide_eq_true hpath)⟩
      · exact ⟨f, hf, if_neg hne⟩
  next hany =>
    rw [List.mem_append, List.mem_singleton, or_comm]
    refine or_congr_right ⟨fun hf => ⟨hf, fun heq => hany ?_⟩, And.left⟩
    exact List.any_eq_true.mpr ⟨f, hf, decide_eq_true heq⟩

theorem nodup_putSites {file : FileSites} (h : (sites.map (·.path)).Nodup) :
    ((putSites sites file).map (·.path)).Nodup := by
  rw [putSites]
  split
  next =>
    have hsame : (sites.map fun f => if f.path = file.path then file else f).map
        (·.path) = sites.map (·.path) := by
      rw [List.map_map]
      apply List.map_congr_left
      intro f _
      by_cases heq : f.path = file.path
      · simp [heq]
      · simp [heq]
    rwa [hsame]
  next hany =>
    rw [List.map_append, List.nodup_append_comm]
    refine List.nodup_cons.mpr ⟨fun hmem => hany ?_, h⟩
    obtain ⟨f, hf, hpath⟩ := List.mem_map.mp hmem
    exact List.any_eq_true.mpr ⟨f, hf, decide_eq_true hpath⟩

/-- What `mutate` has after the records `done`. -/
structure Collected (cls : CharClasses) (openFile : Str → Option (List UInt8))
    (done : List (Record × ℕ)) (sites : List FileSites) : Prop where
  nodup : (sites.map (·.path)).Nodup
  mem_paths : ∀ path, path ∈ sites.map (·.path) ↔ ∃ rk ∈ done, rk.1.path = path
  opened : ∀ f ∈ sites, ∃ bytes, openFile f.path = some bytes ∧
    readText bytes = some f.text
  located : ∀ f ∈ sites, Located cls f.text (done.filter (·.1.path = f.path)) f.found

/-- The entry a record's site goes to. -/
theorem Collected.entry (h : Collected cls openFile done sites) {file : FileSites}
    (hfile : openSites openFile sites r = .ok file) :
    file.path = r.path ∧
    (∃ bytes, openFile file.path = some bytes ∧ readText bytes = some file.text) ∧
      Located cls file.text (done.filter (·.1.path = file.path)) file.found := by
  rw [openSites] at hfile
  split at hfile
  next f hf =>
    obtain rfl := Except.ok.inj hfile
    have hmem := List.mem_of_find?_eq_some hf
    have hpath : f.path = r.path := by simpa using List.find?_some hf
    exact ⟨hpath, h.opened f hmem, h.located f hmem⟩
  next hnone =>
    split at hfile
    next => nomatch hfile
    next bytes hbytes =>
      split at hfile
      next => nomatch hfile
      next text htext =>
        obtain rfl := Except.ok.inj hfile
        refine ⟨rfl, ⟨bytes, hbytes, htext⟩, ?_⟩
        have hnil : done.filter (·.1.path = r.path) = [] := by
          rw [List.filter_eq_nil_iff]
          intro rk hrk heq
          obtain ⟨f, hf, hpath⟩ :=
            List.mem_map.mp ((h.mem_paths r.path).mpr ⟨rk, hrk, of_decide_eq_true heq⟩)
          exact List.find?_eq_none.mp hnone f hf (decide_eq_true hpath)
        rw [hnil]
        exact List.Forall₂.nil

theorem Collected.step (h : Collected cls openFile done sites)
    (hstep : mutateRecord cls openFile sites k r = .ok sites') :
    Collected cls openFile (done ++ [(r, k)]) sites' := by
  obtain ⟨file, hfile, hrest⟩ := bind_eq_ok.mp hstep
  obtain ⟨sp, hsite, hput⟩ := bind_eq_ok.mp hrest
  obtain rfl := Except.ok.inj hput
  obtain ⟨hpath, hopened, hlocated⟩ := h.entry hfile
  refine ⟨nodup_putSites h.nodup, fun path => ?_, fun f hf => ?_, fun f hf => ?_⟩
  · simp only [List.mem_map, mem_putSites, List.mem_append, List.mem_singleton]
    have hmem := h.mem_paths path
    rw [List.mem_map] at hmem
    constructor
    · rintro ⟨f, rfl | ⟨hf, -⟩, rfl⟩
      · exact ⟨(r, k), .inr rfl, hpath.symm⟩
      · obtain ⟨rk, hrk, heq⟩ := hmem.mp ⟨f, hf, rfl⟩
        exact ⟨rk, .inl hrk, heq⟩
    · rintro ⟨rk, hrk | rfl, heq⟩
      · obtain ⟨f, hf, hfpath⟩ := hmem.mpr ⟨rk, hrk, heq⟩
        by_cases hsame : f.path = file.path
        · exact ⟨_, .inl rfl, hsame ▸ hfpath⟩
        · exact ⟨f, .inr ⟨hf, hsame⟩, hfpath⟩
      · exact ⟨_, .inl rfl, hpath.trans heq⟩
  · rcases mem_putSites.mp hf with rfl | ⟨hf, -⟩
    · exact hopened
    · exact h.opened f hf
  · rw [List.filter_append]
    rcases mem_putSites.mp hf with rfl | ⟨hf, hne⟩
    · have hself : [(r, k)].filter (fun rk => rk.1.path = file.path) = [(r, k)] := by
        simp [hpath]
      rw [hself]
      exact List.rel_append hlocated (.cons hsite .nil)
    · have hother : [(r, k)].filter (fun rk => rk.1.path = f.path) = [] := by
        have hne' : r.path ≠ f.path := fun heq => hne (heq ▸ hpath.symm)
        simp [hne']
      rw [hother, List.append_nil]
      exact h.located f hf

theorem Collected.run {rs : List Record} (h : Collected cls openFile done sites)
    (hrun : mutateRecords cls openFile sites k rs = .ok sites') :
    Collected cls openFile (done ++ rs.zipIdx k) sites' := by
  induction rs generalizing sites k done with
  | nil =>
      obtain rfl := Except.ok.inj hrun
      rwa [List.zipIdx_nil, List.append_nil]
  | cons r rs ih =>
      obtain ⟨sites₁, hstep, hrest⟩ := bind_eq_ok.mp hrun
      have hnext := ih (h.step hstep) hrest
      rwa [List.append_assoc] at hnext

theorem Collected.nil : Collected cls openFile [] [] :=
  ⟨List.nodup_nil, fun path => by simp, nofun, nofun⟩

end Collect

section Mutate

variable {cls : CharClasses} {openFile : Str → Option (List UInt8)}
  {records : List Record} {out : List (Str × Str)}

/-- What `mutate` has before it rewrites. -/
theorem mutate_collected (h : mutate cls openFile records = .ok out) :
    ∃ sites, Collected cls openFile records.zipIdx sites ∧
      List.Forall₂ (fun f o => rewrite f = .ok o) sites out := by
  obtain ⟨sites, hsites, hout⟩ := bind_eq_ok.mp h
  exact ⟨sites, Collected.nil.run hsites, mapM_eq_ok.mp hout⟩

/-- The files `mutate` returns are those of the records, each rewritten. -/
theorem mutate_spec (h : mutate cls openFile records = .ok out) :
    (out.map Prod.fst).Nodup ∧
    (∀ path, path ∈ out.map Prod.fst ↔ ∃ r ∈ records, r.path = path) ∧
      ∀ file ∈ out, ∃ bytes text, openFile file.1 = some bytes ∧
        readText bytes = some text ∧ Rewrites cls records file.1 text file.2 := by
  obtain ⟨sites, hcollected, hrewrite⟩ := mutate_collected h
  have hpaths : sites.map (·.path) = out.map Prod.fst := by
    rw [← List.forall₂_eq_eq_eq, List.forall₂_map_left_iff, List.forall₂_map_right_iff]
    exact hrewrite.imp fun f o ho => (path_of_rewrite ho).symm
  refine ⟨hpaths ▸ hcollected.nodup, fun path => ?_, fun file hfile => ?_⟩
  · rw [← hpaths, hcollected.mem_paths]
    constructor
    · rintro ⟨rk, hrk, hpath⟩
      exact ⟨rk.1, List.fst_mem_of_mem_zipIdx hrk, hpath⟩
    · rintro ⟨r, hr, hpath⟩
      obtain ⟨k, hk⟩ := List.mem_iff_getElem?.mp hr
      exact ⟨(r, k), List.mem_zipIdx_iff_getElem?.mpr hk, hpath⟩
  · obtain ⟨f, hf, hout⟩ := exists_of_forall₂ hrewrite hfile
    obtain ⟨bytes, hbytes, htext⟩ := hcollected.opened f hf
    obtain ⟨hpath, hrewrites⟩ := rewrite_spec records (hcollected.located f hf) hout
    rw [hpath]
    exact ⟨bytes, f.text, hbytes, htext, hrewrites⟩

/-- Sites of one file that share a character fail. -/
theorem mutate_shared {j k : ℕ} {r s : Record} (hr : records[j]? = some r)
    (hs : records[k]? = some s) (hne : j ≠ k) (hpath : r.path = s.path)
    {bytes : List UInt8} {text : Str} (hbytes : openFile r.path = some bytes)
    (htext : readText bytes = some text) {a b : Splice} (ha : site cls text j r = .ok a)
    (hb : site cls text k s = .ok b) {x : ℕ} (hxa : a.start ≤ x ∧ x < a.start + a.length)
    (hxb : b.start ≤ x ∧ x < b.start + b.length) :
    ∃ e, mutate cls openFile records = .error e := by
  cases hmutate : mutate cls openFile records with
  | error e => exact ⟨e, rfl⟩
  | ok out =>
      exfalso
      obtain ⟨sites, hcollected, hrewrite⟩ := mutate_collected hmutate
      have hmem : (r, j) ∈ records.zipIdx := List.mem_zipIdx_iff_getElem?.mpr hr
      obtain ⟨f, hf, hfpath⟩ :=
        List.mem_map.mp ((hcollected.mem_paths r.path).mpr ⟨_, hmem, rfl⟩)
      obtain ⟨o, -, ho⟩ := exists_of_forall₂ hrewrite.flip hf
      obtain ⟨bytes', hbytes', htext'⟩ := hcollected.opened f hf
      rw [hfpath, hbytes] at hbytes'
      obtain rfl := Option.some.inj hbytes'
      rw [htext] at htext'
      obtain rfl := Option.some.inj htext'
      have hlocated := hcollected.located f hf
      obtain ⟨-, rks, hperm, hsorted, hdesc⟩ := hlocated.of_rewrite ho
      have hin {i : ℕ} {q : Record} (hq : records[i]? = some q)
          (hqpath : q.path = f.path) : (q, i) ∈ rks :=
        hperm.mem_iff.mpr (mem_recordsOf.mpr ⟨hq, hqpath⟩)
      have hdisjoint := hdesc.disjoint (hsorted.mem (hin hr hfpath.symm) ha)
        (hsorted.mem (hin hs (hpath ▸ hfpath.symm)) hb) hne
      simp only [Site.stop] at hdisjoint
      omega

end Mutate

/-- For every tree and list of records: what `mutate` returns are the files of
the records, each the text read with switches in place of the originals and
nothing else changed, which is the file byte for byte where it has no `\r`;
and sites of one file that share a character fail. -/
theorem mutate_faithful (cls : CharClasses) (openFile : Str → Option (List UInt8))
    (records : List Record) : (∀ out, mutate cls openFile records = .ok out →
      (out.map Prod.fst).Nodup ∧
      (∀ path, path ∈ out.map Prod.fst ↔ ∃ r ∈ records, r.path = path) ∧
        ∀ file ∈ out, ∃ bytes text, openFile file.1 = some bytes ∧
          readText bytes = some text ∧
          ((∀ cs, decodeUtf8 bytes = some cs → '\r' ∉ cs) → encodeUtf8 text = bytes) ∧
          Rewrites cls records file.1 text file.2) ∧
    ∀ j k r s, records[j]? = some r → records[k]? = some s → j ≠ k → r.path = s.path →
      ∀ bytes text, openFile r.path = some bytes → readText bytes = some text →
        ∀ a b, site cls text j r = .ok a → site cls text k s = .ok b →
          ∀ x, a.start ≤ x ∧ x < a.start + a.length → b.start ≤ x ∧
            x < b.start + b.length → ∃ e, mutate cls openFile records = .error e := by
  constructor
  · intro out hout
    obtain ⟨hnodup, hpaths, hfiles⟩ := mutate_spec hout
    refine ⟨hnodup, hpaths, fun file hfile => ?_⟩
    obtain ⟨bytes, text, hbytes, htext, hrewrites⟩ := hfiles file hfile
    exact ⟨bytes, text, hbytes, htext, encodeUtf8_readText htext, hrewrites⟩
  · intro j k r s hr hs hne hpath bytes text hbytes htext a b ha hb x hxa hxb
    exact mutate_shared hr hs hne hpath hbytes htext ha hb hxa hxb

def pairText : Str :=
  "int f(int a) \x7b\n  if (a == 1) a++;\n  return a == 2;\n\x7d\n".toList

/-- Two sites, the later one first. -/
def pairRecords : List Record :=
  [⟨"f.c".toList, "f".toList, none, "a == 2".toList, "a == 3".toList, 1⟩,
    ⟨"f.c".toList, "f".toList, some "if (".toList, "a == 1".toList, "a == 4".toList, 4⟩]

theorem mutate_faithful_pair :
    ∃ out,
      mutate asciiClasses (fun _ => some (encodeUtf8 pairText)) pairRecords = .ok out ∧
      out.map Prod.fst = ["f.c".toList] ∧
      ∀ file ∈ out, Rewrites asciiClasses pairRecords file.1 pairText file.2 := by
  have hrun :
      (mutate asciiClasses (fun _ => some (encodeUtf8 pairText)) pairRecords).toOption.map
      (List.map Prod.fst) = some ["f.c".toList] := by decide +kernel
  obtain ⟨out, hsome, hpaths⟩ := Option.map_eq_some_iff.mp hrun
  have hout := ok_of_toOption hsome
  refine ⟨out, hout, hpaths, fun file hfile => ?_⟩
  obtain ⟨-, -, hfiles⟩ := (mutate_faithful _ _ _).1 out hout
  obtain ⟨bytes, text, hbytes, htext, -, hrewrites⟩ := hfiles file hfile
  obtain rfl := Option.some.inj hbytes
  have hpair : readText (encodeUtf8 pairText) = some pairText := by decide +kernel
  rw [hpair] at htext
  obtain rfl := Option.some.inj htext
  exact hrewrites

def crlfText : Str := "int f(int a) \x7b\r\n  return a == 2;\r\n\x7d\r\n".toList

def crlfRecords : List Record :=
  [⟨"f.c".toList, "f".toList, none, "a == 2".toList, "a == 3".toList, 1⟩]

/-- A file whose lines end in `\r\n` does not come back byte for byte. -/
theorem mutate_not_bytewise :
    ∃ out,
      mutate asciiClasses (fun _ => some (encodeUtf8 crlfText)) crlfRecords = .ok out ∧
      ∃ file ∈ out, ∀ pieces,
        file.2 = preludeText ++ render (switchOf crlfRecords) pieces →
        encodeUtf8 (render (originalOf crlfRecords) pieces) ≠ encodeUtf8 crlfText := by
  have hrun :
      (mutate asciiClasses (fun _ => some (encodeUtf8 crlfText)) crlfRecords).toOption.map
      (List.map Prod.fst) = some ["f.c".toList] := by decide +kernel
  obtain ⟨out, hsome, hpaths⟩ := Option.map_eq_some_iff.mp hrun
  have hout := ok_of_toOption hsome
  obtain ⟨file, rest, rfl, -, -⟩ := List.map_eq_cons_iff.mp hpaths
  obtain ⟨bytes, text, hbytes, htext, written, hwritten, hself, -⟩ :=
    (mutate_spec hout).2.2 file (List.mem_cons_self ..)
  have hno (k : ℕ) : '\r' ∉ originalOf crlfRecords k ∧ '\r' ∉ switchOf crlfRecords k := by
    cases k with
    | zero => decide +kernel
    | succ k => exact ⟨nofun, nofun⟩
  -- what was read has no \r, and nothing brings one in
  have hfile : '\r' ∉ file.2 := by
    rw [hwritten, List.mem_append, not_or]
    refine ⟨not_mem_preludeText, fun hmem => ?_⟩
    rcases mem_render (o := originalOf crlfRecords) hmem with hrun | ⟨k, -, hk⟩
    · obtain ⟨cs, -, rfl⟩ := Option.map_eq_some_iff.mp htext
      rw [hself] at hrun
      exact not_mem_universalNewlines cs hrun
    · exact (hno k).2 hk
  refine ⟨_, hout, file, List.mem_cons_self .., fun pieces hpieces heq => hfile ?_⟩
  have hmem : '\r' ∈ render (originalOf crlfRecords) pieces := by
    rw [encodeUtf8_injective heq]
    decide +kernel
  rcases mem_render (o := switchOf crlfRecords) hmem with hrun | ⟨k, -, hk⟩
  · exact hpieces ▸ List.mem_append_right _ hrun
  · exact absurd hk (hno k).1

end Diffsecp
