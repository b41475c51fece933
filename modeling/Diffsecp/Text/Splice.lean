import Mathlib.Algebra.Ring.Nat
import Mathlib.Data.Char
import Mathlib.Data.List.Basic
import Mathlib.Data.List.Lex
import Mathlib.Data.List.Nodup
import Mathlib.Logic.Function.Basic

/-!
# Text — Splice

Replacing sites of a text from the last to the first, so that earlier
positions stay valid. A text is cut into pieces, runs of it and sites, and
what the splices leave is the pieces with every site replaced.
-/

namespace Diffsecp.Text

variable {α ι : Type}

/-- A piece of a text: a run of it, or the site of a key. -/
inductive Piece (ι α : Type) where
  | run (s : List α)
  | site (k : ι)

/-- A piece where the site of `k` reads `f k`. -/
def Piece.text (f : ι → List α) : Piece ι α → List α
  | .run s => s
  | .site k => f k

def Piece.key? : Piece ι α → Option ι
  | .run _ => none
  | .site k => some k

/-- The pieces put together, where the site of `k` reads `f k`. -/
def render (f : ι → List α) (ps : List (Piece ι α)) : List α := ps.flatMap (Piece.text f)

/-- The keys of the sites, in order. -/
def keys (ps : List (Piece ι α)) : List ι := ps.filterMap Piece.key?

/-- A part of a text that is to be replaced. -/
structure Site (ι : Type) where
  key : ι
  start : ℕ
  length : ℕ

def Site.stop (s : Site ι) : ℕ := s.start + s.length

/-- A text with a part of it replaced. -/
def spliceAt (t : List α) (start length : ℕ) (replacement : List α) : List α :=
  t.take start ++ replacement ++ t.drop (start + length)

/-- The sites come from the last to the first below `hi`, each ending before
the one before it starts. -/
def Descends : ℕ → List (Site ι) → Prop
  | _, [] => True
  | hi, s :: ss => s.stop ≤ hi ∧ Descends s.start ss

/-- The text below `hi`, cut at the sites. -/
def cut (t : List α) : ℕ → List (Site ι) → List (Piece ι α)
  | hi, [] => [.run (t.take hi)]
  | hi, s :: ss => cut t s.start ss ++ [.site s.key, .run ((t.take hi).drop s.stop)]

section Render

variable {f o : ι → List α} {ps qs : List (Piece ι α)}

@[simp] theorem render_nil : render f ([] : List (Piece ι α)) = [] := rfl

@[simp] theorem render_append : render f (ps ++ qs) = render f ps ++ render f qs :=
  List.flatMap_append

@[simp] theorem render_run (s : List α) :
    render f (.run s :: ps) = s ++ render f ps := rfl

@[simp] theorem render_site (k : ι) : render f (.site k :: ps) = f k ++ render f ps := rfl

@[simp] theorem keys_append : keys (ps ++ qs) = keys ps ++ keys qs :=
  List.filterMap_append

@[simp] theorem keys_run (s : List α) : keys (.run s :: ps) = keys ps := rfl

@[simp] theorem keys_site (k : ι) : keys (.site k :: ps) = k :: keys ps := rfl

/-- Only the sites that are there are replaced. -/
theorem render_congr (h : ∀ k ∈ keys ps, f k = o k) : render f ps = render o ps := by
  induction ps with
  | nil => rfl
  | cons p ps ih =>
      cases p with
      | run s => rw [render_run, render_run, ih h]
      | site k =>
          rw [keys_site, List.forall_mem_cons] at h
          rw [render_site, render_site, h.1, ih h.2]

/-- A character of the pieces is one of a run or of a site. -/
theorem mem_render {c : α} (hc : c ∈ render f ps) :
    c ∈ render o ps ∨ ∃ k ∈ keys ps, c ∈ f k := by
  induction ps with
  | nil => exact .inl hc
  | cons p ps ih =>
      cases p with
      | run s =>
          rw [render_run, List.mem_append] at hc ⊢
          rcases hc with hc | hc
          · exact .inl (.inl hc)
          · exact (ih hc).imp_left .inr
      | site k =>
          rw [render_site, List.mem_append] at hc ⊢
          rw [keys_site, List.exists_mem_cons_iff]
          rcases hc with hc | hc
          · exact .inr (.inl hc)
          · exact (ih hc).imp .inr .inr

/-- What is counted in the pieces, against what is counted in the text. -/
theorem countP_render {p : α → Bool} {g : ι → ℕ}
    (h : ∀ k ∈ keys ps, (f k).countP p = (o k).countP p + g k) :
    (render f ps).countP p = (render o ps).countP p + ((keys ps).map g).sum := by
  induction ps with
  | nil => rfl
  | cons q ps ih =>
      cases q with
      | run s => rw [render_run, render_run, List.countP_append, List.countP_append, ih h,
            keys_run, Nat.add_assoc]
      | site k =>
          rw [keys_site, List.forall_mem_cons] at h
          rw [render_site, render_site, List.countP_append, List.countP_append, ih h.2,
            h.1, keys_site, List.map_cons, List.sum_cons]
          omega

/-- Changing one site only replaces the part of the text that the site is. -/
theorem render_update [DecidableEq ι] {k : ι} {m : List α}
    (hnodup : (keys (ps ++ .site k :: qs)).Nodup) :
    render (Function.update o k m) (ps ++ .site k :: qs) =
      spliceAt (render o (ps ++ .site k :: qs)) (render o ps).length (o k).length m := by
  rw [keys_append, keys_site, List.nodup_middle, List.nodup_cons, List.mem_append,
    not_or] at hnodup
  have hsame {rs : List (Piece ι α)} (hk : k ∉ keys rs) :
      render (Function.update o k m) rs = render o rs := by
    apply render_congr
    intro j hj
    have hne : j ≠ k := fun h => hk (by rwa [← h])
    exact Function.update_of_ne hne _ _
  rw [render_append, render_site, hsame hnodup.1.1, hsame hnodup.1.2,
    Function.update_self, spliceAt, render_append,
    render_site, List.take_left, ← List.append_assoc, ← List.append_assoc,
    ← List.length_append, List.drop_left]

end Render

section Cut

variable {t : List α} {f o : ι → List α} {ss : List (Site ι)} {hi : ℕ}

theorem Descends.stop_le (hss : Descends hi ss) {s : Site ι} (hs : s ∈ ss) :
    s.stop ≤ hi := by
  induction ss generalizing hi with
  | nil => nomatch hs
  | cons a ss ih =>
      have hstart : a.start ≤ hi := Nat.le_trans (Nat.le_add_right _ _) hss.1
      rcases List.mem_cons.mp hs with rfl | hs
      · exact hss.1
      · exact Nat.le_trans (ih hss.2 hs) hstart

/-- Two sites share nothing. -/
theorem Descends.disjoint (hss : Descends hi ss) {a b : Site ι} (ha : a ∈ ss)
    (hb : b ∈ ss) (hne : a.key ≠ b.key) :
    a.stop ≤ b.start ∨ b.stop ≤ a.start := by
  induction ss generalizing hi with
  | nil => nomatch ha
  | cons s ss ih =>
      rcases List.mem_cons.mp ha with rfl | ha'
      · rcases List.mem_cons.mp hb with rfl | hb'
        · exact absurd rfl hne
        · exact .inr (hss.2.stop_le hb')
      · rcases List.mem_cons.mp hb with rfl | hb'
        · exact .inl (hss.2.stop_le ha')
        · exact ih hss.2 ha' hb'

/-- Splicing the sites from the last to the first leaves the pieces with the
sites replaced. -/
theorem foldl_spliceAt (w : List α) (hle : hi ≤ t.length) (hss : Descends hi ss) :
    ss.foldl (fun u s => spliceAt u s.start s.length (f s.key)) (t.take hi ++ w) =
      render f (cut t hi ss) ++ w := by
  induction ss generalizing hi w with
  | nil => rw [List.foldl_nil, cut, render_run, render_nil, List.append_nil]
  | cons s ss ih =>
      obtain ⟨hstop, hrest⟩ := hss
      have hstart : s.start ≤ hi := Nat.le_trans (Nat.le_add_right _ _) hstop
      have hlen : (t.take hi).length = hi := List.length_take_of_le hle
      have hsplice : spliceAt (t.take hi ++ w) s.start s.length (f s.key) =
          t.take s.start ++ (f s.key ++ ((t.take hi).drop s.stop ++ w)) := by
        rw [spliceAt, List.take_append_of_le_length (by omega), List.take_take,
          Nat.min_eq_left hstart,
          List.drop_append_of_le_length (by rw [hlen]; exact hstop), List.append_assoc]
        rfl
      rw [List.foldl_cons, hsplice, ih _ (Nat.le_trans hstart hle) hrest, cut,
        render_append, render_site, render_run, render_nil, List.append_nil]
      simp only [List.append_assoc]

/-- Where the sites read what is there, the pieces are the text. -/
theorem render_cut_self (hle : hi ≤ t.length) (hss : Descends hi ss)
    (ho : ∀ s ∈ ss, (t.drop s.start).take s.length = o s.key) :
    render o (cut t hi ss) = t.take hi := by
  induction ss generalizing hi with
  | nil => rw [cut, render_run, render_nil, List.append_nil]
  | cons s ss ih =>
      obtain ⟨hstop, hrest⟩ := hss
      obtain ⟨hs, ho'⟩ := List.forall_mem_cons.mp ho
      have hstart : s.start ≤ hi := Nat.le_trans (Nat.le_add_right _ _) hstop
      rw [cut, render_append, render_site, render_run, render_nil, List.append_nil,
        ih (Nat.le_trans hstart hle) hrest ho', ← hs, ← List.append_assoc,
        ← List.take_add]
      have htake : t.take (s.start + s.length) = (t.take hi).take s.stop := by
        rw [List.take_take, Nat.min_eq_left hstop]
        rfl
      rw [htake, List.take_append_drop]

theorem keys_cut : keys (cut t hi ss) = (ss.map (·.key)).reverse := by
  induction ss generalizing hi with
  | nil => rfl
  | cons s ss ih => rw [cut, keys_append, ih, keys_site, keys_run, List.map_cons,
        List.reverse_cons]; rfl

/-- A site stands where it was to be replaced. -/
theorem site_of_cut {ps qs : List (Piece ι α)} {k : ι} (hle : hi ≤ t.length)
    (hss : Descends hi ss) (ho : ∀ s ∈ ss, (t.drop s.start).take s.length = o s.key)
    (hcut : cut t hi ss = ps ++ .site k :: qs) :
    ∃ s ∈ ss, s.key = k ∧ s.start = (render o ps).length := by
  induction ss generalizing hi qs with
  | nil => simp [cut, List.singleton_eq_append_iff] at hcut
  | cons s ss ih =>
      obtain ⟨hstop, hrest⟩ := hss
      obtain ⟨hs, ho'⟩ := List.forall_mem_cons.mp ho
      have hstart : s.start ≤ t.length :=
        Nat.le_trans (Nat.le_add_right _ _) (Nat.le_trans hstop hle)
      rw [cut, List.append_eq_append_iff] at hcut
      rcases hcut with ⟨rs, rfl, hrs⟩ | ⟨rs, hrs, hqs⟩
      · cases rs with
        | nil =>
            obtain ⟨hkey, -⟩ := List.cons.inj hrs
            refine ⟨s, List.mem_cons_self .., (Piece.site.inj hkey), ?_⟩
            rw [List.append_nil, render_cut_self hstart hrest ho',
              List.length_take_of_le hstart]
        | cons r rs =>
            obtain ⟨-, hrs⟩ := List.cons.inj hrs
            cases rs with
            | nil => nomatch hrs
            | cons r' rs => simp at hrs
      · cases rs with
        | nil =>
            obtain ⟨hkey, -⟩ := List.cons.inj hqs
            refine ⟨s, List.mem_cons_self .., (Piece.site.inj hkey).symm, ?_⟩
            rw [List.append_nil] at hrs
            rw [← hrs, render_cut_self hstart hrest ho', List.length_take_of_le hstart]
        | cons r rs =>
            obtain ⟨rfl, -⟩ := List.cons.inj hqs
            obtain ⟨s', hs', hkey, hpos⟩ := ih hstart hrest ho' hrs
            exact ⟨s', List.mem_cons_of_mem _ hs', hkey, hpos⟩

end Cut

end Diffsecp.Text
