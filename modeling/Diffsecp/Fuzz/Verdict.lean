import Mathlib.Order.Bounds.Basic
import Mathlib.Order.Lattice
import Mathlib.Order.MinMax
import Diffsecp.Fuzz.Driver

/-!
# Fuzz — Verdict

What the driver says of an input is a function of the input: the first build
that differs from the reference, whatever earlier inputs left in the static
variables.
-/

namespace Diffsecp

variable {n : ℕ}

/-! ## Buffers -/

/-- The first `len` bytes of `buf` are `t`. -/
def Holds (buf : List UInt8) (len : ℕ) (t : List UInt8) : Prop :=
  len = t.length ∧ buf.take t.length = t

theorem holds_overwrite (buf t : List UInt8) : Holds (overwrite buf t) t.length t := by
  refine ⟨rfl, ?_⟩
  rw [overwrite, List.take_left']
  rfl

theorem Holds.getD {buf t : List UInt8} {len : ℕ} (h : Holds buf len t) {i : ℕ}
    (hi : i < t.length) :
    buf.getD i 0 = t.getD i 0 := by
  have hget : (buf.take t.length).getD i 0 = t.getD i 0 := by rw [h.2]
  rw [List.getD_eq_getElem?_getD, List.getElem?_take_of_lt hi] at hget
  rw [List.getD_eq_getElem?_getD]
  exact hget

/-- `memcmp` over the reported lengths compares the transcripts. -/
theorem matchesReference_eq {st : FuzzState n} {ref buf t : List UInt8} {len : ℕ}
    (href : Holds (st.transcripts 0) (st.lengths 0) ref) (h : Holds buf len t) :
    matchesReference st buf len = decide (t = ref) := by
  obtain ⟨hlen₀, htake₀⟩ := href
  obtain ⟨rfl, htake⟩ := h
  unfold matchesReference
  rw [hlen₀, htake]
  apply decide_eq_decide.mpr
  constructor
  · rintro ⟨hlen, heq⟩
    rw [heq, hlen, htake₀]
  · intro heq
    subst heq
    exact ⟨rfl, htake₀.symm⟩

/-! ## The offset -/

/-- The scan reads below the bound only. -/
theorem scan_congr {a a' b b' : List UInt8} {m pos : ℕ}
    (ha : ∀ i < pos + m, a.getD i 0 = a'.getD i 0)
    (hb : ∀ i < pos + m, b.getD i 0 = b'.getD i 0) :
    scan a b m pos = scan a' b' m pos := by
  induction m generalizing pos with
  | zero => rfl
  | succ m ih =>
      unfold scan
      rw [ha pos (by omega), hb pos (by omega)]
      rw [ih (fun i hi => ha i (by omega)) (fun i hi => hb i (by omega))]

/-- The scan stops at the bound or at the first difference. -/
theorem scan_spec (a b : List UInt8) (m pos : ℕ) :
    pos ≤ scan a b m pos ∧ scan a b m pos ≤ pos + m ∧
      (∀ i, pos ≤ i → i < scan a b m pos → a.getD i 0 = b.getD i 0) ∧
      (scan a b m pos < pos + m →
        a.getD (scan a b m pos) 0 ≠ b.getD (scan a b m pos) 0) := by
  induction m generalizing pos with
  | zero =>
      refine ⟨le_rfl, le_rfl, fun i hi hlt => ?_, fun hlt => absurd hlt (lt_irrefl _)⟩
      exact absurd hlt (not_lt.mpr hi)
  | succ m ih =>
      unfold scan
      by_cases heq : a.getD pos 0 = b.getD pos 0
      · rw [if_pos heq]
        obtain ⟨hlo, hhi, hsame, hdiff⟩ := ih (pos + 1)
        refine ⟨by omega, by omega, fun i hi hlt => ?_, fun hlt => hdiff (by omega)⟩
        by_cases hip : i = pos
        · rw [hip]
          exact heq
        · exact hsame i (by omega) hlt
      · rw [if_neg heq]
        refine ⟨le_rfl, by omega, fun i hi hlt => ?_, fun _ => heq⟩
        exact absurd hlt (not_lt.mpr hi)

theorem take_eq_iff_getD {a b : List UInt8} {m : ℕ} (ha : m ≤ a.length)
    (hb : m ≤ b.length) :
    a.take m = b.take m ↔ ∀ i < m, a.getD i 0 = b.getD i 0 := by
  constructor
  · intro heq i hi
    have hget : (a.take m)[i]? = (b.take m)[i]? := by rw [heq]
    rw [List.getElem?_take_of_lt hi, List.getElem?_take_of_lt hi] at hget
    rw [List.getD_eq_getElem?_getD, List.getD_eq_getElem?_getD, hget]
  · intro hall
    apply List.ext_getElem
    · rw [List.length_take, List.length_take]
      omega
    · intro i hi hi'
      rw [List.length_take] at hi hi'
      have hia : i < a.length := by omega
      have hib : i < b.length := by omega
      have hget := hall i (by omega)
      simp only [List.getD_eq_getElem?_getD, List.getElem?_eq_getElem hia,
        List.getElem?_eq_getElem hib, Option.getD_some] at hget
      rw [List.getElem_take, List.getElem_take, hget]

/-- The reported offset is the length of the longest common prefix. -/
theorem scan_isGreatest (a b : List UInt8) :
    IsGreatest {m | m ≤ a.length ∧ m ≤ b.length ∧ a.take m = b.take m}
      (scan a b (min a.length b.length) 0) := by
  obtain ⟨-, hhi, hsame, hdiff⟩ := scan_spec a b (min a.length b.length) 0
  rw [Nat.zero_add] at hhi hdiff
  have hle : scan a b (min a.length b.length) 0 ≤ a.length ∧
      scan a b (min a.length b.length) 0 ≤ b.length := by
    omega
  constructor
  · refine ⟨hle.1, hle.2, (take_eq_iff_getD hle.1 hle.2).mpr fun i hi => ?_⟩
    exact hsame i (Nat.zero_le i) hi
  · rintro m ⟨hma, hmb, htake⟩
    by_contra hlt
    rw [not_le] at hlt
    exact hdiff (lt_of_lt_of_le hlt (le_min hma hmb))
      ((take_eq_iff_getD hma hmb).mp htake _ hlt)

/-- `dump` reads below the length of the transcript. -/
theorem dumpIndices_lt {len pos i : ℕ} (h : i ∈ dumpIndices len pos) : i < len := by
  simp only [dumpIndices, List.mem_range'_1] at h
  split at h <;> split at h <;> omega

theorem dump_eq {buf t : List UInt8} {len : ℕ} (h : Holds buf len t)
    (name : String) (pos : ℕ) :
    dump name buf len pos = dump name t t.length pos := by
  obtain ⟨rfl, htake⟩ := h
  have hbytes : (dumpIndices t.length pos).map (fun i => buf.getD i 0)
      = (dumpIndices t.length pos).map fun i => t.getD i 0 := by
    apply List.map_congr_left
    intro i hi
    exact Holds.getD ⟨rfl, htake⟩ (dumpIndices_lt hi)
  simp only [dump, hbytes]

/-! ## The verdict -/

/-- Every build's target is a function of its input. -/
structure Driver.Total (d : Driver n) : Prop where
  variant : ∀ v ∈ d.reference :: d.others, ∀ inp, ∃ t, v.target inp = some t
  build : ∀ b ∈ d.mutantBuilds, ∀ mutant inp, ∃ w, b.target mutant inp = some w

def Variant.transcript (v : Variant) (inp : List UInt8) : List UInt8 :=
  (v.target inp).getD []

/-- The run of a schemata build with no mutant on. -/
def MutantBuild.clean (b : MutantBuild n) (inp : List UInt8) : SchemataRun n :=
  (b.target mutantDetect inp).getD ⟨[], false, fun _ => false⟩

/-- The divergence of the transcript `t` from the reference `ref`. -/
def Driver.divergence (d : Driver n) (ref : List UInt8) (name : String)
    (t : List UInt8) : Divergence :=
  let pos := scan ref t (min ref.length t.length) 0
  { target := d.target
    reference := d.reference.name
    name := name
    pos := pos
    referenceLen := ref.length
    len := t.length
    referenceDump := dump d.reference.name ref ref.length pos
    dump := dump name t t.length pos }

/-- What is wrong with a transcript. -/
def Driver.check (d : Driver n) (ref : List UInt8) (name : String) (t : List UInt8) :
    Option Abort :=
  if t = ref then none else some (.divergence (d.divergence ref name t))

/-- What is wrong with a schemata build with no mutant on. -/
def Driver.checkBuild (d : Driver n) (ref inp : List UInt8) (b : MutantBuild n) :
    Option Abort :=
  if (b.clean inp).illegal then some (.illegal d.target b.name)
  else d.check ref b.name (b.clean inp).transcript

/-- Why the driver aborts on an input, if it does. -/
def Driver.verdict (d : Driver n) (inp : List UInt8) : Option Abort :=
  let ref := d.reference.transcript inp
  (d.others.findSome? fun v => d.check ref v.name (v.transcript inp)).or
    (if d.mutantsOff then none else d.mutantBuilds.findSome? (d.checkBuild ref inp))

/-- A report reads the transcripts of this input only. -/
theorem reportDivergence_eq {d : Driver n} {st : FuzzState n}
    {ref buf t : List UInt8} {len : ℕ}
    (href : Holds (st.transcripts 0) (st.lengths 0) ref) (h : Holds buf len t)
    (name : String) :
    reportDivergence d st name buf len = d.divergence ref name t := by
  have hlen₀ : st.lengths 0 = ref.length := href.1
  have hlen : len = t.length := h.1
  have hmin : (if ref.length < t.length then ref.length else t.length) =
      min ref.length t.length := by
    rw [Nat.min_def]
    split <;> split <;> omega
  have hscan : scan (st.transcripts 0) buf (min ref.length t.length) 0
      = scan ref t (min ref.length t.length) 0 := by
    apply scan_congr
    · intro i hi
      exact href.getD (by omega)
    · intro i hi
      exact h.getD (by omega)
  simp only [reportDivergence, Driver.divergence, dump_eq href, dump_eq h]
  rw [hlen₀, hlen, hmin, hscan]

/-! ## The loops -/

/-- The variants leave their transcripts in their own buffers and the rest
alone. -/
theorem runVariants_ok {inp : List UInt8} {vs : List Variant} {i : ℕ}
    {st st' : FuzzState n} (h : runVariants inp vs i st = .ok st') :
    (∀ j v, vs[j]? = some v → ∃ t, v.target inp = some t ∧
      Holds (st'.transcripts (i + j)) (st'.lengths (i + j)) t) ∧
    (∀ j < i, st'.transcripts j = st.transcripts j ∧ st'.lengths j = st.lengths j) ∧
    st' = { st with transcripts := st'.transcripts, lengths := st'.lengths } := by
  induction vs generalizing i st with
  | nil =>
      cases h
      exact ⟨fun j v hv => absurd hv (by simp), fun j _ => ⟨rfl, rfl⟩, rfl⟩
  | cons v vs ih =>
      unfold runVariants at h
      split at h
      · cases h
      · rename_i t ht
        obtain ⟨hholds, hbelow, hrest⟩ := ih h
        refine ⟨fun j v' hv' => ?_, fun j hj => ?_, hrest⟩
        · cases j with
          | zero =>
              have hv : v = v' := by simpa using hv'
              obtain ⟨hbuf, hlen⟩ := hbelow i (by omega)
              refine ⟨t, hv ▸ ht, ?_⟩
              rw [Nat.add_zero, hbuf, hlen]
              simp only [FuzzState.setTranscript, Function.update_self]
              exact holds_overwrite _ t
          | succ j =>
              have hv : vs[j]? = some v' := by simpa using hv'
              obtain ⟨t', ht', hh⟩ := hholds j v' hv
              refine ⟨t', ht', ?_⟩
              rw [show i + (j + 1) = i + 1 + j by omega]
              exact hh
        · obtain ⟨hbuf, hlen⟩ := hbelow j (by omega)
          have hji : j ≠ i := by omega
          rw [hbuf, hlen]
          simp [FuzzState.setTranscript, Function.update_of_ne hji]

theorem runVariants_total {inp : List UInt8} {vs : List Variant} {i : ℕ}
    {st : FuzzState n} (h : ∀ v ∈ vs, ∃ t, v.target inp = some t) :
    ∃ st', runVariants inp vs i st = .ok st' := by
  induction vs generalizing i st with
  | nil => exact ⟨st, rfl⟩
  | cons v vs ih =>
      obtain ⟨t, ht⟩ := h v (List.mem_cons_self ..)
      unfold runVariants
      rw [ht]
      exact ih fun v hv => h v (List.mem_cons_of_mem _ hv)

/-- The check of the variants finds the first that differs. -/
theorem checkVariants_eq {d : Driver n} {st : FuzzState n} {ref : List UInt8}
    (href : Holds (st.transcripts 0) (st.lengths 0) ref) (inp : List UInt8)
    {vs : List Variant} {i : ℕ} (h : ∀ j v, vs[j]? = some v →
      Holds (st.transcripts (i + j)) (st.lengths (i + j)) (v.transcript inp)) :
    checkVariants d st vs i
      = match vs.findSome? fun v => d.check ref v.name (v.transcript inp) with
        | some e => .error e
        | none => .ok () := by
  induction vs generalizing i with
  | nil => rfl
  | cons v vs ih =>
      have hv := h 0 v rfl
      rw [Nat.add_zero] at hv
      have htail : ∀ j v', vs[j]? = some v' →
          Holds (st.transcripts (i + 1 + j)) (st.lengths (i + 1 + j))
            (v'.transcript inp) := by
        intro j v' hv'
        rw [show i + 1 + j = i + (j + 1) by omega]
        exact h (j + 1) v' (by simpa using hv')
      unfold checkVariants
      rw [matchesReference_eq href hv, reportDivergence_eq href hv,
        List.findSome?_cons, ih htail]
      by_cases heq : v.transcript inp = ref
      · simp [Driver.check, heq]
      · simp [Driver.check, heq]

/-- The state a schemata run starts from. -/
def FuzzState.start (st : FuzzState n) (mutant : Int) : FuzzState n :=
  { st with mutant := mutant, illegal := false }

theorem runSchemata_some {b : MutantBuild n} {mutant : Int} {inp : List UInt8}
    {st : FuzzState n} {w : SchemataRun n} (h : b.target mutant inp = some w) :
    runSchemata b mutant inp st = .ok (w.transcript.length, (st.start mutant).ran w) := by
  unfold runSchemata
  dsimp only
  rw [h]
  rfl

/-- Trying mutants never aborts and leaves the transcripts of the variants
alone. -/
theorem tryMutants_total {b : MutantBuild n} {inp : List UInt8}
    (hb : ∀ mutant, ∃ w, b.target mutant inp = some w) (ks : List (Fin n))
    (infected : Fin n → Bool) (st : FuzzState n) :
    ∃ infected' st', tryMutants b inp ks infected st = .ok (infected', st') ∧
      st'.transcripts = st.transcripts ∧ st'.lengths = st.lengths := by
  induction ks generalizing infected st with
  | nil => exact ⟨infected, st, rfl, rfl, rfl⟩
  | cons k ks ih =>
      obtain ⟨w, hw⟩ := hb k
      unfold tryMutants
      split
      · exact ih _ _
      · dsimp only
        split
        · exact ih _ (st.reach k)
        · rw [runSchemata_some hw]
          dsimp only [bind, Except.bind]
          split
          · exact ih _ ((((st.reach k).start k).ran w).kill k)
          · exact ih _ (((st.reach k).start k).ran w)

/-- The schemata builds are checked in order, whatever mutants the runs in
between kill. -/
theorem runBuilds_eq {d : Driver n} {ref inp : List UInt8} {bs : List (MutantBuild n)}
    (hbs : ∀ b ∈ bs, ∀ mutant, ∃ w, b.target mutant inp = some w)
    (infected : Fin n → Bool) (st : FuzzState n)
    (href : Holds (st.transcripts 0) (st.lengths 0) ref) :
    (∀ e, bs.findSome? (d.checkBuild ref inp) = some e →
      runBuilds d inp bs infected st = .error e) ∧
    (bs.findSome? (d.checkBuild ref inp) = none →
      ∃ infected' st', runBuilds d inp bs infected st = .ok (infected', st')) := by
  induction bs generalizing infected st with
  | nil => exact ⟨fun e he => absurd he (by simp), fun _ => ⟨infected, st, rfl⟩⟩
  | cons b bs ih =>
      have hb := hbs b (List.mem_cons_self ..)
      obtain ⟨w, hw⟩ := hb mutantDetect
      have hclean : b.clean inp = w := by rw [MutantBuild.clean, hw, Option.getD_some]
      have hholds := holds_overwrite st.mutantTranscript w.transcript
      let st₁ := (st.clearInfected.start mutantDetect).ran w
      have href₁ : Holds (st₁.transcripts 0) (st₁.lengths 0) ref := href
      have hill : st₁.illegal = w.illegal := Bool.false_or _
      have hmatch := matchesReference_eq href₁ hholds
      have hreport := reportDivergence_eq (d := d) href₁ hholds b.name
      have hrun : runBuilds d inp (b :: bs) infected st
          = if w.illegal then .error (.illegal d.target b.name)
            else if decide (w.transcript = ref) = false then
              .error (.divergence (d.divergence ref b.name w.transcript))
            else tryMutants b inp (List.finRange n) infected st₁ >>= fun s =>
              runBuilds d inp bs s.1 s.2 := by
        rw [← hmatch, ← hreport, ← hill]
        conv_lhs => unfold runBuilds
        rw [runSchemata_some hw]
        rfl
      rw [hrun, List.findSome?_cons, Driver.checkBuild, hclean]
      by_cases hw' : w.illegal = true
      · simp [hw']
      · by_cases heq : w.transcript = ref
        · obtain ⟨infected', st', htry, htr, hln⟩ :=
            tryMutants_total hb (List.finRange n) infected st₁
          have href' : Holds (st'.transcripts 0) (st'.lengths 0) ref := by
            rw [htr, hln]
            exact href
          have hrec :=
            ih (fun b hb => hbs b (List.mem_cons_of_mem _ hb)) infected' st' href'
          rw [htry]
          simpa [hw', heq, Driver.check, bind, Except.bind] using hrec
        · simp [hw', heq, Driver.check]

/-! ## One input -/

/-- The static variables an input finds do not show in what the driver says
of it. -/
theorem llvmFuzzerTestOneInput_eq {d : Driver n} (hd : d.Total) {inp : List UInt8}
    (hlen : inp.length ≤ inputMax) (st : FuzzState n) :
    (∀ e, d.verdict inp = some e → llvmFuzzerTestOneInput d inp st = .error e) ∧
    (d.verdict inp = none → ∃ st', llvmFuzzerTestOneInput d inp st = .ok (0, st')) := by
  obtain ⟨st₁, hrun⟩ : ∃ st₁, runVariants inp (d.reference :: d.others) 0 st = .ok st₁ :=
    runVariants_total fun v hv => hd.variant v hv inp
  obtain ⟨hholds, -, -⟩ := runVariants_ok hrun
  have hall : ∀ j v, (d.reference :: d.others)[j]? = some v →
      Holds (st₁.transcripts j) (st₁.lengths j) (v.transcript inp) := by
    intro j v hv
    obtain ⟨t, ht, hh⟩ := hholds j v hv
    rw [Nat.zero_add] at hh
    rw [Variant.transcript, ht, Option.getD_some]
    exact hh
  have href := hall 0 d.reference rfl
  have htail : ∀ j v, d.others[j]? = some v →
      Holds (st₁.transcripts (1 + j)) (st₁.lengths (1 + j)) (v.transcript inp) := by
    intro j v hv
    rw [Nat.add_comm]
    exact hall (j + 1) v (by simpa using hv)
  have hcheck := checkVariants_eq (d := d) href inp htail
  have hbuilds := runBuilds_eq (d := d) (fun b hb mutant => hd.build b hb mutant inp)
    (fun _ => false) st₁ href
  unfold llvmFuzzerTestOneInput
  rw [if_neg (not_lt.mpr hlen), hrun]
  dsimp only [bind, Except.bind]
  rw [hcheck, Driver.verdict]
  cases d.others.findSome? fun v =>
    d.check (d.reference.transcript inp) v.name (v.transcript inp) with
  | some e =>
      refine ⟨fun e' he => ?_, fun hnone => absurd hnone (by simp)⟩
      have hee : e = e' := by simpa using he
      rw [hee]
  | none =>
      by_cases hoff : d.mutantsOff = true
      · refine ⟨fun e he => absurd he (by simp [hoff]), fun _ => ⟨st₁, ?_⟩⟩
        simp [hoff]
      · simp only [Option.none_or, hoff]
        constructor
        · intro e he
          simp [runMutants, hbuilds.1 e he, bind, Except.bind]
        · intro hnone
          obtain ⟨infected, st₂, hst₂⟩ := hbuilds.2 hnone
          exact ⟨{ st₂ with infected := infected }, by
            simp [runMutants, hst₂, bind, Except.bind]⟩

/-- The builds in the order the driver compares them, with the transcript each
has of the input. -/
def Driver.running (d : Driver n) (inp : List UInt8) : List (String × List UInt8) :=
  d.others.map (fun v => (v.name, v.transcript inp)) ++
    if d.mutantsOff then [] else d.mutantBuilds.map fun b =>
      (b.name, (b.clean inp).transcript)

/-- Some build differs from the reference, or calls the API illegally. -/
def Driver.Rejects (d : Driver n) (inp : List UInt8) : Prop :=
  (∃ p ∈ d.running inp, p.2 ≠ d.reference.transcript inp) ∨
    (d.mutantsOff = false ∧ ∃ b ∈ d.mutantBuilds, (b.clean inp).illegal = true)

/-- `r` reports the first build that differs from the reference, where they
first differ. -/
structure Driver.Reports (d : Driver n) (inp : List UInt8) (r : Divergence)
    (t : List UInt8) : Prop where
  first : ∃ before, before ++ [(r.name, t)] <+: d.running inp ∧
    ∀ p ∈ before, p.2 = d.reference.transcript inp
  differs : t ≠ d.reference.transcript inp
  pos : IsGreatest {m | m ≤ (d.reference.transcript inp).length ∧ m ≤ t.length ∧
    (d.reference.transcript inp).take m = t.take m} r.pos
  lengths : r.referenceLen = (d.reference.transcript inp).length ∧ r.len = t.length
  dumps : r.referenceDump =
    dump d.reference.name (d.reference.transcript inp) r.referenceLen r.pos ∧
    r.dump = dump r.name t r.len r.pos
  below :
    (∀ i ∈ dumpIndices r.referenceLen r.pos, i < (d.reference.transcript inp).length) ∧
    ∀ i ∈ dumpIndices r.len r.pos, i < t.length

theorem Driver.check_eq_some {d : Driver n} {ref t : List UInt8}
    {name : String} {e : Abort} :
    d.check ref name t = some e ↔
    t ≠ ref ∧ e = .divergence (d.divergence ref name t) := by
  unfold Driver.check
  split
  · rename_i heq
    exact ⟨fun h => absurd h (by simp), fun h => absurd heq h.1⟩
  · rename_i hne
    constructor
    · intro h
      exact ⟨hne, (Option.some.inj h).symm⟩
    · rintro ⟨-, rfl⟩
      rfl

theorem Driver.check_eq_none {d : Driver n} {ref t : List UInt8} {name : String} :
    d.check ref name t = none ↔ t = ref := by
  unfold Driver.check
  split <;> simp [*]

theorem Driver.checkBuild_eq_none {d : Driver n} {ref inp : List UInt8}
    {b : MutantBuild n} :
    d.checkBuild ref inp b = none ↔ (b.clean inp).illegal = false ∧
    (b.clean inp).transcript = ref := by
  unfold Driver.checkBuild
  split
  · rename_i hill
    simp [hill]
  · rename_i hill
    simp [hill, Driver.check_eq_none]

theorem Driver.running_agree {d : Driver n} {inp ref : List UInt8} :
    (∀ p ∈ d.running inp, p.2 = ref) ↔ (∀ v ∈ d.others, v.transcript inp = ref) ∧
      (d.mutantsOff = false → ∀ b ∈ d.mutantBuilds, (b.clean inp).transcript = ref) := by
  unfold Driver.running
  rw [List.forall_mem_append, List.forall_mem_map]
  cases d.mutantsOff with
  | true => simp
  | false => simp

/-- The driver finds fault with exactly the inputs on which a build does. -/
theorem Driver.verdict_eq_none {d : Driver n} {inp : List UInt8} :
    d.verdict inp = none ↔ ¬ d.Rejects inp := by
  have hnot : ¬ d.Rejects inp ↔ (∀ p ∈ d.running inp, p.2 = d.reference.transcript inp) ∧
      (d.mutantsOff = false → ∀ b ∈ d.mutantBuilds, (b.clean inp).illegal = false) := by
    simp [Driver.Rejects]
  rw [hnot, Driver.running_agree, Driver.verdict, Option.or_eq_none_iff,
    List.findSome?_eq_none_iff]
  simp only [Driver.check_eq_none]
  cases d.mutantsOff with
  | true => simp
  | false =>
      simp only [Bool.false_eq_true, if_false, List.findSome?_eq_none_iff,
        Driver.checkBuild_eq_none]
      grind

theorem Driver.divergence_reports {d : Driver n} {inp t : List UInt8} {name : String}
    (hfirst : ∃ before, before ++ [(name, t)] <+: d.running inp ∧
      ∀ p ∈ before, p.2 = d.reference.transcript inp)
    (hne : t ≠ d.reference.transcript inp) :
    d.Reports inp (d.divergence (d.reference.transcript inp) name t) t where
  first := hfirst
  differs := hne
  pos := scan_isGreatest _ _
  lengths := ⟨rfl, rfl⟩
  dumps := ⟨rfl, rfl⟩
  below := ⟨fun _ hi => dumpIndices_lt hi, fun _ hi => dumpIndices_lt hi⟩

/-- A divergence the driver reports is of the first build that differs. -/
theorem Driver.verdict_reports {d : Driver n} {inp : List UInt8} {r : Divergence}
    (h : d.verdict inp = some (.divergence r)) : ∃ t, d.Reports inp r t := by
  unfold Driver.verdict at h
  rw [Option.or_eq_some_iff] at h
  rcases h with h | ⟨hothers, h⟩
  · obtain ⟨vs, v, vs', hvs, hv, hearlier⟩ := List.findSome?_eq_some_iff.mp h
    obtain ⟨hne, he⟩ := Driver.check_eq_some.mp hv
    cases he
    refine ⟨v.transcript inp, Driver.divergence_reports
      ⟨vs.map fun v => (v.name, v.transcript inp), ?_, ?_⟩ hne⟩
    · rw [Driver.running, hvs]
      simp
    · intro p hp
      obtain ⟨u, hu, rfl⟩ := List.mem_map.mp hp
      exact Driver.check_eq_none.mp (hearlier u hu)
  · by_cases hoff : d.mutantsOff = true
    · simp [hoff] at h
    · rw [if_neg hoff] at h
      obtain ⟨bs, b, bs', hbs, hb, hearlier⟩ := List.findSome?_eq_some_iff.mp h
      unfold Driver.checkBuild at hb
      split at hb
      · cases hb
      · obtain ⟨hne, he⟩ := Driver.check_eq_some.mp hb
        cases he
        refine ⟨(b.clean inp).transcript, Driver.divergence_reports
          ⟨d.others.map (fun v => (v.name, v.transcript inp)) ++
            bs.map fun b => (b.name, (b.clean inp).transcript), ?_, ?_⟩ hne⟩
        · rw [Driver.running, if_neg hoff, hbs]
          simp
        · intro p hp
          rcases List.mem_append.mp hp with hp | hp
          · obtain ⟨v, hv, rfl⟩ := List.mem_map.mp hp
            exact Driver.check_eq_none.mp (List.findSome?_eq_none_iff.mp hothers v hv)
          · obtain ⟨u, hu, rfl⟩ := List.mem_map.mp hp
            exact (Driver.checkBuild_eq_none.mp (hearlier u hu)).2

/-- The driver aborts on an input exactly when a build differs from the
reference or calls the API illegally, says the same whatever the static
variables hold, and reports the first build that differs. An input that is too
long changes nothing. -/
theorem llvmFuzzerTestOneInput_verdict (d : Driver n) (hd : d.Total) (inp : List UInt8)
    (st : FuzzState n) :
    (inp.length ≤ inputMax →
      ((∃ e, llvmFuzzerTestOneInput d inp st = .error e) ↔ d.Rejects inp) ∧
      (∀ st' e, llvmFuzzerTestOneInput d inp st = .error e ↔
        llvmFuzzerTestOneInput d inp st' = .error e) ∧
      ∀ r, llvmFuzzerTestOneInput d inp st = .error (.divergence r) →
        ∃ t, d.Reports inp r t) ∧
    (inputMax < inp.length → llvmFuzzerTestOneInput d inp st = .ok (-1, st)) := by
  constructor
  · intro hlen
    -- the abort is the verdict, from any state
    have herror : ∀ st e, llvmFuzzerTestOneInput d inp st = .error e ↔
        d.verdict inp = some e := by
      intro st e
      obtain ⟨hsome, hnone⟩ := llvmFuzzerTestOneInput_eq hd hlen st
      constructor
      · intro h
        cases hv : d.verdict inp with
        | some e' =>
            have hsame := hsome e' hv
            rw [h] at hsame
            cases hsame
            rfl
        | none =>
            obtain ⟨st', hok⟩ := hnone hv
            rw [h] at hok
            cases hok
      · exact hsome e
    refine ⟨?_, ?_, ?_⟩
    · rw [← not_iff_not, ← Driver.verdict_eq_none]
      simp [herror, Option.eq_none_iff_forall_ne_some]
    · intro st' e
      rw [herror, herror]
    · intro r h
      exact Driver.verdict_reports ((herror st _).mp h)
  · intro hlen
    rw [llvmFuzzerTestOneInput, if_pos hlen]

/-- Two builds that disagree on inputs of two bytes, and a schemata build. -/
def sampleDriver : Driver 1 where
  target := "sample"
  reference := ⟨"reference", some⟩
  others := [⟨"echo", some⟩, ⟨"head", fun inp => some (inp.take 1)⟩]
  mutantBuilds := [⟨"mutants", fun mutant inp => some ⟨inp, mutant = 0, fun _ => true⟩⟩]
  mutantNames _ := "0"
  mutantsOff := false

theorem sampleDriver_total : sampleDriver.Total where
  variant := by
    intro v hv inp
    simp only [sampleDriver, List.mem_cons, List.not_mem_nil, or_false] at hv
    rcases hv with rfl | rfl | rfl
    · exact ⟨inp, rfl⟩
    · exact ⟨inp, rfl⟩
    · exact ⟨inp.take 1, rfl⟩
  build := by
    intro b hb mutant inp
    simp only [sampleDriver, List.mem_cons, List.not_mem_nil, or_false] at hb
    rw [hb]
    exact ⟨_, rfl⟩

theorem sampleDriver_verdict :
    sampleDriver.Rejects [1, 2] ∧
      (∃ r t,
        llvmFuzzerTestOneInput sampleDriver [1, 2] (.init 1) = .error (.divergence r) ∧
        sampleDriver.Reports [1, 2] r t ∧ r.name = "head" ∧ r.pos = 1) := by
  have h := (llvmFuzzerTestOneInput_verdict sampleDriver sampleDriver_total [1, 2]
    (.init 1)).1 (by decide)
  obtain ⟨hiff, -, hreports⟩ := h
  have habort : llvmFuzzerTestOneInput sampleDriver [1, 2] (.init 1)
      = .error (.divergence (sampleDriver.divergence [1, 2] "head" [1])) :=
    (llvmFuzzerTestOneInput_eq sampleDriver_total (by decide) _).1 _ (by decide)
  obtain ⟨t, ht⟩ := hreports _ habort
  exact ⟨hiff.mp ⟨_, habort⟩, _, t, habort, ht, rfl, by decide⟩

end Diffsecp
