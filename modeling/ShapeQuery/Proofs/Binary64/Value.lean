import Mathlib
import ShapeQuery.Binary64.Basic

/-!
# The numbers that doubles stand for

A finite double stands for a rational number.  What the rest of the library asks
about the bits of a double is stated here about that number.
-/

namespace ShapeQuery.Binary64

def absolute (x : Binary64) : ℚ :=
  x.significand * (2 : ℚ) ^ x.exponent

/-- The value of a double as a rational number. -/
def value (x : Binary64) : ℚ :=
  if x.negative then -x.absolute else x.absolute

theorem exists_value_eq_intCast_iff (x : Binary64) :
    (∃ n : ℤ, x.value = n) ↔ ∃ n : ℤ, x.absolute = n := by
  unfold value
  cases x.negative with
  | false => rfl
  | true =>
      constructor
      · rintro ⟨n, hn⟩
        exact ⟨-n, by rw [Int.cast_neg, ← hn, if_pos rfl, neg_neg]⟩
      · rintro ⟨n, hn⟩
        exact ⟨-n, by rw [Int.cast_neg, ← hn, if_pos rfl]⟩

/-- A fraction over a power of two is whole exactly if the power divides. -/
theorem exists_div_eq_intCast_iff (m k : ℕ) :
    (∃ n : ℤ, (m : ℚ) / 2 ^ k = n) ↔ 2 ^ k ∣ m := by
  have hpow : (2 : ℚ) ^ k ≠ 0 := pow_ne_zero k two_ne_zero
  constructor
  · rintro ⟨n, hn⟩
    rw [div_eq_iff hpow] at hn
    have hint : (m : ℤ) = n * 2 ^ k := by exact_mod_cast hn
    have hdvd : ((2 ^ k : ℕ) : ℤ) ∣ (m : ℤ) := ⟨n, by rw [hint]; push_cast; ring⟩
    exact Int.natCast_dvd_natCast.mp hdvd
  · rintro ⟨n, rfl⟩
    refine ⟨n, ?_⟩
    push_cast
    rw [mul_div_cancel_left₀ _ hpow]

/-- The test on the bits says that the number is an integer. -/
theorem isWhole_iff (x : Binary64) : x.isWhole = true ↔ ∃ n : ℤ, x.value = n := by
  rw [exists_value_eq_intCast_iff, isWhole]
  by_cases hexponent : 0 ≤ x.exponent
  · have habsolute : x.absolute = ((x.significand * 2 ^ x.exponent.toNat : ℕ) : ℤ) := by
      conv_lhs => rw [absolute, ← Int.toNat_of_nonneg hexponent, zpow_natCast]
      push_cast
      rfl
    simp only [hexponent, decide_true, Bool.true_or, true_iff]
    exact ⟨_, habsolute⟩
  · have habsolute : x.absolute = (x.significand : ℚ) / 2 ^ (-x.exponent).toNat := by
      have hnegative : x.exponent = -((-x.exponent).toNat : ℤ) := by omega
      conv_lhs => rw [absolute, hnegative, zpow_neg, zpow_natCast, ← div_eq_mul_inv]
    simp only [hexponent, decide_false, Bool.false_or, beq_iff_eq, habsolute, Nat.pow_eq]
    rw [exists_div_eq_intCast_iff, Nat.dvd_iff_mod_eq_zero]

end ShapeQuery.Binary64
