import Mathlib.FieldTheory.Finite.Basic
import Mathlib.Data.Int.GCD
import Mathlib.Data.Int.ModEq

/-!
# Powers modulo two primes

A power modulo a prime with its exponent reduced, and the number below the product of two moduli that
is put together from its residues.
-/

namespace Residues

/-! ## Reduced exponents -/

section Prime

variable {p : ℕ} (hp : p.Prime)

include hp

/-- Fermat: the exponent counts modulo `p - 1`. -/
theorem pow_mod_modEq {n : ℤ} (hn : ¬ (p : ℤ) ∣ n) (d : ℕ) :
    n ^ (d % (p - 1)) ≡ n ^ d [ZMOD p] := by
  have hcoprime : IsCoprime n p :=
    ((Nat.prime_iff_prime_int.mp hp).coprime_iff_not_dvd.mpr hn).symm
  have hone : 1 ≡ (n ^ (p - 1)) ^ (d / (p - 1)) [ZMOD p] := by
    have hpow := (Int.ModEq.pow_card_sub_one_eq_one hp hcoprime).pow (d / (p - 1))
    rw [one_pow] at hpow
    exact hpow.symm
  calc
    n ^ (d % (p - 1)) = n ^ (d % (p - 1)) * 1 := (mul_one _).symm
    _ ≡ n ^ (d % (p - 1)) * (n ^ (p - 1)) ^ (d / (p - 1)) [ZMOD p] := hone.mul_left _
    _ = n ^ d := by rw [← pow_mul, ← pow_add, Nat.mod_add_div]

theorem not_zero_modEq_one : ¬ (0 : ℤ) ≡ 1 [ZMOD p] := by
  intro h
  have hdvd : (p : ℤ) ∣ 1 := (Int.modEq_zero_iff_dvd.mp h.symm)
  exact hp.one_lt.ne' (Nat.dvd_one.mp (Int.natCast_dvd_natCast.mp hdvd))

/-- The reduced exponent goes wrong only where it is zero by the reduction, on a multiple of the
prime. -/
theorem pow_mod_modEq_iff (n : ℤ) (d : ℕ) :
    n ^ (d % (p - 1)) ≡ n ^ d [ZMOD p] ↔ ¬ ((p : ℤ) ∣ n ∧ 0 < d ∧ p - 1 ∣ d) := by
  by_cases hn : (p : ℤ) ∣ n
  · have hzero : n ≡ 0 [ZMOD p] := Int.modEq_zero_iff_dvd.mpr hn
    have hpow (e : ℕ) (he : e ≠ 0) : n ^ e ≡ 0 [ZMOD p] := by
      have h := hzero.pow e
      rw [zero_pow he] at h
      exact h
    by_cases hd : d = 0
    · rw [hd, Nat.zero_mod]
      exact iff_of_true (Int.ModEq.refl _) (fun h => Nat.lt_irrefl 0 h.2.1)
    by_cases hdvd : p - 1 ∣ d
    · rw [Nat.mod_eq_zero_of_dvd hdvd, pow_zero]
      apply iff_of_false
      · intro h
        exact not_zero_modEq_one hp ((h.trans (hpow d hd)).symm)
      · exact fun h => h ⟨hn, Nat.pos_of_ne_zero hd, hdvd⟩
    · have hmod : d % (p - 1) ≠ 0 := fun h => hdvd (Nat.dvd_of_mod_eq_zero h)
      exact iff_of_true ((hpow _ hmod).trans (hpow d hd).symm) (fun h => hdvd h.2.2)
  · exact iff_of_true (pow_mod_modEq hp hn d) (fun h => hn h.1)

end Prime

/-! ## Two moduli -/

/-- The inverse of a number modulo another. -/
def inverse (a m : ℤ) : ℤ := Int.gcdA a m % m

theorem mul_inverse_modEq {a m : ℤ} (h : Int.gcd a m = 1) : a * inverse a m ≡ 1 [ZMOD m] := by
  have hbezout := Int.gcd_eq_gcd_ab a m
  rw [h] at hbezout
  calc
    a * inverse a m ≡ a * Int.gcdA a m [ZMOD m] := (Int.mod_modEq _ m).mul_left a
    _ ≡ a * Int.gcdA a m + m * Int.gcdB a m [ZMOD m] := by
      have hmul : 0 ≡ m * Int.gcdB a m [ZMOD m] :=
        (Int.modEq_zero_iff_dvd.mpr (Int.dvd_mul_right _ _)).symm
      have hadd := hmul.add_left (a * Int.gcdA a m)
      rw [add_zero] at hadd
      exact hadd
    _ = 1 := hbezout.symm

/-- A number from its residues; `u` is the inverse of `p` modulo `q`. -/
def combine (p q u a b : ℤ) : ℤ := a + (b - a) * u % q * p

section Combine

variable {p q u a b : ℤ}

theorem combine_modEq_left : combine p q u a b ≡ a [ZMOD p] := by
  have hmul : (b - a) * u % q * p ≡ 0 [ZMOD p] :=
    Int.modEq_zero_iff_dvd.mpr (Int.dvd_mul_left _ _)
  have hadd := hmul.add_left a
  rw [add_zero] at hadd
  exact hadd

theorem combine_modEq_right (hu : p * u ≡ 1 [ZMOD q]) : combine p q u a b ≡ b [ZMOD q] := by
  calc
    combine p q u a b ≡ a + (b - a) * u * p [ZMOD q] :=
      ((Int.mod_modEq _ q).mul_right p).add_left a
    _ = a + (b - a) * (p * u) := by rw [mul_assoc, mul_comm u p]
    _ ≡ a + (b - a) * 1 [ZMOD q] := (hu.mul_left (b - a)).add_left a
    _ = b := by rw [mul_one, add_sub_cancel]

theorem combine_nonneg (hp : 0 < p) (hq : 0 < q) (ha : 0 ≤ a) : 0 ≤ combine p q u a b :=
  add_nonneg ha (mul_nonneg (Int.emod_nonneg _ hq.ne') hp.le)

theorem combine_lt (hp : 0 < p) (hq : 0 < q) (ha : a < p) : combine p q u a b < p * q := by
  have hdigit : (b - a) * u % q + 1 ≤ q := Int.emod_lt_of_pos _ hq
  calc
    combine p q u a b < p + (b - a) * u % q * p := add_lt_add_left ha _
    _ = ((b - a) * u % q + 1) * p := by rw [add_mul, one_mul, add_comm]
    _ ≤ q * p := mul_le_mul_of_nonneg_right hdigit hp.le
    _ = p * q := mul_comm q p

/-- It is what a number leaves when it is what the number leaves for each of the moduli. -/
theorem combine_eq_iff (hp : 0 < p) (hq : 0 < q) (hcoprime : Int.gcd p q = 1) (ha : 0 ≤ a)
    (ha' : a < p) (hu : p * u ≡ 1 [ZMOD q]) (n : ℤ) :
    combine p q u a b = n % (p * q) ↔ a ≡ n [ZMOD p] ∧ b ≡ n [ZMOD q] := by
  have hmod : combine p q u a b % (p * q) = combine p q u a b :=
    Int.emod_eq_of_lt (combine_nonneg hp hq ha) (combine_lt hp hq ha')
  have hboth : combine p q u a b ≡ n [ZMOD p] ∧ combine p q u a b ≡ n [ZMOD q] ↔
      combine p q u a b ≡ n [ZMOD p * q] := Int.modEq_and_modEq_iff_modEq_mul hcoprime
  have heq : combine p q u a b = n % (p * q) ↔ combine p q u a b ≡ n [ZMOD p * q] := by
    rw [Int.ModEq, hmod]
  rw [heq, ← hboth]
  constructor
  · intro h
    exact ⟨combine_modEq_left.symm.trans h.1, (combine_modEq_right hu).symm.trans h.2⟩
  · intro h
    exact ⟨combine_modEq_left.trans h.1, (combine_modEq_right hu).trans h.2⟩

end Combine

end Residues
