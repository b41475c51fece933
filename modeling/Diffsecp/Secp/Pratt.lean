import Mathlib.Data.List.Prime
import Mathlib.NumberTheory.LucasPrimality

/-!
# Secp — Pratt

Primality by Lucas's test, in a form the kernel can evaluate. A certificate
names the factors of `q - 1`, which are certified before `q` itself.
-/

namespace Diffsecp

/-- `a ^ e % m` for exponents of at most `k` bits, by repeated squaring. -/
def powMod (m a : ℕ) : ℕ → ℕ → ℕ
  | 0, _ => 1 % m
  | k + 1, e =>
      let h := powMod m a k (e / 2)
      if e % 2 = 1 then h * h * a % m else h * h % m

theorem powMod_eq (m a k : ℕ) {e : ℕ} (he : e < 2 ^ k) : powMod m a k e = a ^ e % m := by
  induction k generalizing e with
  | zero =>
      have h0 : e = 0 := by simpa using he
      rw [powMod, h0, pow_zero]
  | succ k ih =>
      have hhalf : e / 2 < 2 ^ k := by
        rw [pow_succ] at he
        omega
      have hsq : a ^ (e / 2) * a ^ (e / 2) = a ^ (2 * (e / 2)) := by
        rw [← pow_add, two_mul]
      simp only [powMod, ih hhalf]
      by_cases hodd : e % 2 = 1
      · have he' : e = 2 * (e / 2) + 1 := by omega
        rw [if_pos hodd]
        conv_rhs => rw [he', pow_succ, ← hsq]
        simp only [Nat.mul_mod, Nat.mod_mod]
      · have he' : e = 2 * (e / 2) := by omega
        rw [if_neg hodd]
        conv_rhs => rw [he', ← hsq]
        simp only [Nat.mul_mod, Nat.mod_mod]

/-- The product of prime powers given as pairs. -/
def factored (fs : List (ℕ × ℕ)) : ℕ := (fs.map fun f => f.1 ^ f.2).prod

/-- Lucas's test for `q` of at most 256 bits with witness `a` and the factors
of `q - 1`. -/
def prattCheck (q a : ℕ) (fs : List (ℕ × ℕ)) : Bool :=
  q < 2 ^ 256 && 1 < q && factored fs + 1 == q && powMod q a 256 (q - 1) == 1 &&
    fs.all fun f => powMod q a 256 ((q - 1) / f.1) != 1

/-- A prime that divides a product of prime powers is one of the primes. -/
theorem mem_of_dvd_factored {fs : List (ℕ × ℕ)} {r : ℕ} (hr : r.Prime)
    (hfs : ∀ f ∈ fs, f.1.Prime) (hdvd : r ∣ factored fs) : ∃ f ∈ fs, f.1 = r := by
  obtain ⟨_, hmem, hdvd⟩ := (Nat.Prime.prime hr).dvd_prod_iff.mp hdvd
  obtain ⟨f, hf, rfl⟩ := List.mem_map.mp hmem
  have hprime := hfs f hf
  exact ⟨f, hf, ((Nat.prime_dvd_prime_iff_eq hr hprime).mp (hr.dvd_of_dvd_pow hdvd)).symm⟩

theorem prime_of_pratt {q : ℕ} (a : ℕ) (fs : List (ℕ × ℕ)) (hfs : ∀ f ∈ fs, f.1.Prime)
    (hcheck : prattCheck q a fs = true) : q.Prime := by
  simp only [prattCheck, Bool.and_eq_true, decide_eq_true_eq, beq_iff_eq,
    List.all_eq_true, bne_iff_ne] at hcheck
  obtain ⟨⟨⟨⟨hlt, hone⟩, hprod⟩, hpow⟩, hne⟩ := hcheck
  have hcast : ∀ e, e ≤ q - 1 → ((a : ZMod q) ^ e = 1 ↔ powMod q a 256 e = 1) := by
    intro e he
    rw [powMod_eq q a 256 (by omega), ← Nat.cast_pow, ← Nat.cast_one,
      ZMod.natCast_eq_natCast_iff', Nat.mod_eq_of_lt hone]
  refine lucas_primality q a ((hcast _ le_rfl).mpr hpow) fun r hr hdvd => ?_
  rw [← hprod, Nat.add_sub_cancel] at hdvd
  obtain ⟨f, hf, rfl⟩ := mem_of_dvd_factored hr hfs hdvd
  exact (hcast _ (Nat.div_le_self _ _)).not.mpr (hne f hf)

structure Cert where
  q : ℕ
  a : ℕ
  factors : List (ℕ × ℕ)

/-- Every certificate checks, with factors that are known by then. -/
def certCheck : List ℕ → List Cert → Bool
  | _, [] => true
  | known, c :: cs =>
      (c.factors.all fun f => known.contains f.1) && prattCheck c.q c.a c.factors &&
        certCheck (c.q :: known) cs

theorem prime_of_certCheck {known : List ℕ} {cs : List Cert}
    (hknown : ∀ p ∈ known, p.Prime) (hcheck : certCheck known cs = true) :
    ∀ q ∈ cs.map Cert.q, q.Prime := by
  induction cs generalizing known with
  | nil => exact fun q hq => absurd hq List.not_mem_nil
  | cons c cs ih =>
      simp only [certCheck, Bool.and_eq_true, List.all_eq_true, List.contains_iff_mem]
        at hcheck
      obtain ⟨⟨hfactors, hpratt⟩, hrest⟩ := hcheck
      have hc : c.q.Prime :=
        prime_of_pratt c.a c.factors (fun f hf => hknown _ (hfactors f hf)) hpratt
      have hcs := ih (List.forall_mem_cons.mpr ⟨hc, hknown⟩) hrest
      rw [List.map_cons]
      exact List.forall_mem_cons.mpr ⟨hc, hcs⟩

end Diffsecp
