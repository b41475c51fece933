import Mathlib.FieldTheory.Finite.Basic
import Mathlib.Tactic.NormNum.Prime
import Diffsecp.Secp.Numbers
import Diffsecp.Secp.Pratt

/-!
# Secp — Primes

The order of the field and the order of the group are prime; roots in the
field.
-/

namespace Diffsecp

/-- The primes the certificates start from. -/
def smallPrimes : List ℕ :=
  [2, 3, 5, 7, 11, 17, 29, 31, 41, 53, 59, 97, 109, 149, 293, 461, 631, 797,
    971, 1373, 1627,
   1871, 2011, 2621, 2657, 4051, 4423, 5323, 7723, 9349, 13441, 16699,
   20113, 24809, 28181,
   41201, 85831, 96557, 120233, 305873]

theorem smallPrimes_prime : ∀ p ∈ smallPrimes, p.Prime := by
  norm_num [smallPrimes]

def secpCerts : List Cert :=
  [⟨13331831, 13, [(2, 1), (5, 1), (971, 1), (1373, 1)]⟩,
   ⟨173378833005251801, 6, [(2, 3), (5, 2), (2621, 1), (24809, 1), (13331831, 1)]⟩,
   ⟨22149492674086928081353, 5, [(2, 3), (3, 1), (5323, 1), (173378833005251801, 1)]⟩,
   ⟨132896956044521568488119, 6, [(2, 1), (3, 1), (22149492674086928081353, 1)]⟩,
   ⟨1206781, 10, [(2, 2), (3, 1), (5, 1), (20113, 1)]⟩,
   ⟨7240687, 3, [(2, 1), (3, 1), (1206781, 1)]⟩,
   ⟨107590001, 3, [(2, 4), (5, 4), (7, 1), (29, 1), (53, 1)]⟩,
   ⟨255515944373312847190720520512484175977, 3,
     [(2, 3), (7, 2), (11, 1), (1627, 1), (2657, 1), (4423, 1), (41201, 1),
      (96557, 1), (7240687, 1), (107590001, 1)]⟩,
   ⟨205115282021455665897114700593932402728804164701536103180137503955397371, 10,
     [(2, 1), (3, 1), (5, 1), (29, 2), (31, 1), (7723, 1), (132896956044521568488119, 1),
      (255515944373312847190720520512484175977, 1)]⟩,
   ⟨secpP, 3,
     [(2, 1), (3, 1), (7, 1), (13441, 1),
      (205115282021455665897114700593932402728804164701536103180137503955397371, 1)]⟩,
   ⟨4681609, 23, [(2, 3), (3, 1), (97, 1), (2011, 1)]⟩,
   ⟨107361793816595537, 3, [(2, 4), (16699, 1), (85831, 1), (4681609, 1)]⟩,
   ⟨44706919, 6, [(2, 1), (3, 1), (797, 1), (9349, 1)]⟩,
   ⟨174723607534414371449, 3,
     [(2, 3), (17, 1), (59, 1), (4051, 1), (120233, 1), (44706919, 1)]⟩,
   ⟨545358713, 5, [(2, 3), (41, 1), (59, 1), (28181, 1)]⟩,
   ⟨1627771, 3, [(2, 1), (3, 1), (5, 1), (29, 1), (1871, 1)]⟩,
   ⟨297159362677, 2, [(2, 2), (3, 2), (11, 1), (461, 1), (1627771, 1)]⟩,
   ⟨29047611873442575647497758179, 2,
     [(2, 1), (293, 1), (305873, 1), (545358713, 1), (297159362677, 1)]⟩,
   ⟨341948486974166000522343609283189, 2,
     [(2, 2), (3, 3), (109, 1), (29047611873442575647497758179, 1)]⟩,
   ⟨secpN, 7,
     [(2, 6), (3, 1), (149, 1), (631, 1), (107361793816595537, 1),
      (174723607534414371449, 1), (341948486974166000522343609283189, 1)]⟩]

theorem secpCerts_prime : ∀ q ∈ secpCerts.map Cert.q, q.Prime :=
  prime_of_certCheck smallPrimes_prime (by decide +kernel)

theorem secpP_prime : secpP.Prime := secpCerts_prime _ (by decide +kernel)

theorem secpN_prime : secpN.Prime := secpCerts_prime _ (by decide +kernel)

instance : Fact secpP.Prime := ⟨secpP_prime⟩

instance : Fact secpN.Prime := ⟨secpN_prime⟩

abbrev F := ZMod secpP

abbrev Zn := ZMod secpN

/-- The root `secp256k1_fe_sqrt` computes: of `x` where it has one, and of
`-x` otherwise. -/
def feRoot (x : F) : F := x ^ ((secpP + 1) / 4)

theorem feRoot_sq {x : F} (h : IsSquare x) : feRoot x * feRoot x = x := by
  obtain ⟨y, rfl⟩ := h
  have hexp : (secpP + 1) / 4 + (secpP + 1) / 4 + ((secpP + 1) / 4 + (secpP + 1) / 4) =
      secpP + 1 := by
    decide +kernel
  calc feRoot (y * y) * feRoot (y * y) = y ^ (secpP + 1) := by
        rw [feRoot, ← pow_add, mul_pow, ← pow_add, hexp]
    _ = y * y := by rw [pow_succ, ZMod.pow_card]

instance (x : F) : Decidable (IsSquare x) :=
  decidable_of_iff (feRoot x * feRoot x = x) ⟨fun h => ⟨feRoot x, h.symm⟩, feRoot_sq⟩

end Diffsecp
