import ShapeQuery.Binary64.Rounding
import ShapeQuery.Proofs.Binary64.Value

/-!
# Rounding as a function of the value

The nearest double of a fraction depends on the rational number it stands for and
not on its numerator and denominator, and the nearest double of a number that a
double stands for is that double.
-/

namespace ShapeQuery.Binary64

/-- A fraction divided by a power of two, as a rational number. -/
theorem scaled_ratio (num den : ℕ) (e : ℤ) :
    ((scaled num den e).1 : ℚ) / (scaled num den e).2 = (num / den) / 2 ^ e := by
  have hpow : (2 : ℚ) ^ e = 2 ^ e.toNat / 2 ^ (-e).toNat := by
    rw [← zpow_natCast, ← zpow_natCast, ← zpow_sub₀ two_ne_zero]
    congr 1
    omega
  simp only [scaled, Nat.pow_eq]
  push_cast
  rw [hpow]
  field_simp

theorem scaled_pos {num den : ℕ} (hden : 0 < den) (e : ℤ) : 0 < (scaled num den e).2 :=
  Nat.mul_pos hden (Nat.two_pow_pos _)

theorem div_lt_iff_ratio_lt {n d bound : ℕ} (hd : 0 < d) :
    n / d < bound ↔ (n : ℚ) / d < bound := by
  rw [Nat.div_lt_iff_lt_mul hd, div_lt_iff₀ (by exact_mod_cast hd)]
  exact_mod_cast Iff.rfl

/-- The quotient of two numbers lies between the powers of two that their lengths give. -/
theorem log_ratio_bounds {num den : ℕ} (hnum : 0 < num) (hden : 0 < den) :
    (num.log2 : ℤ) - den.log2 - 1 ≤ Int.log 2 ((num : ℚ) / den) ∧
      Int.log 2 ((num : ℚ) / den) ≤ (num.log2 : ℤ) - den.log2 := by
  have hratio : (0 : ℚ) < num / den := by positivity
  have hnumlow : (2 : ℚ) ^ num.log2 ≤ num := by exact_mod_cast Nat.log2_self_le hnum.ne'
  have hnumhigh : (num : ℚ) < 2 ^ (num.log2 + 1) := by exact_mod_cast Nat.lt_log2_self
  have hdenlow : (2 : ℚ) ^ den.log2 ≤ den := by exact_mod_cast Nat.log2_self_le hden.ne'
  have hdenhigh : (den : ℚ) < 2 ^ (den.log2 + 1) := by exact_mod_cast Nat.lt_log2_self
  constructor
  · rw [← Int.zpow_le_iff_le_log one_lt_two hratio, le_div_iff₀ (by positivity)]
    have hsplit : (2 : ℚ) ^ ((num.log2 : ℤ) - den.log2 - 1) * 2 ^ (den.log2 + 1) =
        2 ^ num.log2 := by
      rw [← zpow_natCast, ← zpow_natCast, ← zpow_add₀ two_ne_zero]
      congr 1
      push_cast
      ring
    calc ((2 : ℕ) : ℚ) ^ ((num.log2 : ℤ) - den.log2 - 1) * den
        ≤ (2 : ℚ) ^ ((num.log2 : ℤ) - den.log2 - 1) * 2 ^ (den.log2 + 1) := by
          push_cast
          gcongr
      _ = 2 ^ num.log2 := hsplit
      _ ≤ num := hnumlow
  · rw [← Int.lt_add_one_iff, ← Int.lt_zpow_iff_log_lt one_lt_two hratio,
      div_lt_iff₀ (by positivity)]
    have hsplit : (2 : ℚ) ^ ((num.log2 : ℤ) - den.log2 + 1) * 2 ^ den.log2 =
        2 ^ (num.log2 + 1) := by
      rw [← zpow_natCast, ← zpow_natCast, ← zpow_add₀ two_ne_zero]
      congr 1
      push_cast
      ring
    calc (num : ℚ) < 2 ^ (num.log2 + 1) := hnumhigh
      _ = (2 : ℚ) ^ ((num.log2 : ℤ) - den.log2 + 1) * 2 ^ den.log2 := hsplit.symm
      _ ≤ ((2 : ℕ) : ℚ) ^ ((num.log2 : ℤ) - den.log2 + 1) * den := by
          push_cast
          gcongr

/-- The exponent of the result is fixed by the binary order of the number. -/
theorem targetExponent_eq {num den : ℕ} (hnum : 0 < num) (hden : 0 < den) :
    targetExponent num den = max (Int.log 2 ((num : ℚ) / den) - 52) (-1074) := by
  obtain ⟨hlow, hhigh⟩ := log_ratio_bounds hnum hden
  have hratio : (0 : ℚ) < num / den := by positivity
  set guess : ℤ := (num.log2 : ℤ) - den.log2 - 52 with hguess
  have htest : (scaled num den guess).1 / (scaled num den guess).2 < 0x10000000000000 ↔
      Int.log 2 ((num : ℚ) / den) < 52 + guess := by
    rw [div_lt_iff_ratio_lt (scaled_pos hden guess), scaled_ratio,
      div_lt_iff₀ (zpow_pos two_pos guess), ← Int.lt_zpow_iff_log_lt one_lt_two hratio,
      Nat.cast_ofNat, Nat.cast_ofNat, zpow_add₀ two_ne_zero]
    norm_num
  unfold targetExponent
  simp only [← hguess, htest]
  congr 1
  split <;> omega

theorem roundHalfEven_mul_right (n d : ℕ) {c : ℕ} (hc : 0 < c) :
    roundHalfEven (n * c) (d * c) = roundHalfEven n d := by
  have hlow : 2 * (n % d * c) < d * c ↔ 2 * (n % d) < d := by
    rw [← mul_assoc]
    exact Nat.mul_lt_mul_right hc
  have hhigh : d * c < 2 * (n % d * c) ↔ d < 2 * (n % d) := by
    rw [← mul_assoc]
    exact Nat.mul_lt_mul_right hc
  simp only [roundHalfEven, Nat.mul_div_mul_right _ _ hc, Nat.mul_mod_mul_right, hlow, hhigh]

/-- Rounding sees the ratio and not how it is written as a fraction. -/
theorem roundHalfEven_congr {n d n' d' : ℕ} (hd : 0 < d) (hd' : 0 < d')
    (hcross : n * d' = n' * d) : roundHalfEven n d = roundHalfEven n' d' := by
  rw [← roundHalfEven_mul_right n d hd', ← roundHalfEven_mul_right n' d' hd, hcross,
    mul_comm d d']

/-- What is whole stays. -/
theorem roundHalfEven_of_dvd (m : ℕ) {d : ℕ} (hd : 0 < d) : roundHalfEven (m * d) d = m := by
  have hone := roundHalfEven_mul_right m 1 hd
  rw [one_mul] at hone
  rw [hone]
  simp [roundHalfEven, Nat.mod_one]

theorem cross_of_ratio_eq {n d n' d' : ℕ} (hd : 0 < d) (hd' : 0 < d')
    (hratio : (n : ℚ) / d = n' / d') : n * d' = n' * d := by
  rw [div_eq_div_iff (by positivity) (by positivity)] at hratio
  exact_mod_cast hratio

theorem nearestMagnitude_congr {num den num' den' : ℕ} (hnum : 0 < num) (hden : 0 < den)
    (hnum' : 0 < num') (hden' : 0 < den') (hratio : (num : ℚ) / den = num' / den') :
    nearestMagnitude num den = nearestMagnitude num' den' := by
  have htarget : targetExponent num den = targetExponent num' den' := by
    rw [targetExponent_eq hnum hden, targetExponent_eq hnum' hden', hratio]
  have hround (e : ℤ) : roundHalfEven (scaled num den e).1 (scaled num den e).2 =
      roundHalfEven (scaled num' den' e).1 (scaled num' den' e).2 := by
    refine roundHalfEven_congr (scaled_pos hden e) (scaled_pos hden' e) ?_
    refine cross_of_ratio_eq (scaled_pos hden e) (scaled_pos hden' e) ?_
    rw [scaled_ratio, scaled_ratio, hratio]
  simp only [nearestMagnitude, htarget, hround]

/-- Equal ratios have the same nearest double. -/
theorem nearest?_congr (negative : Bool) {num den num' den' : ℕ} (hden : 0 < den)
    (hden' : 0 < den') (hratio : (num : ℚ) / den = num' / den') :
    nearest? negative num den = nearest? negative num' den' := by
  have hzero : num = 0 ↔ num' = 0 := by
    have hcross := cross_of_ratio_eq hden hden' hratio
    constructor <;> rintro rfl <;> simpa [hden.ne', hden'.ne'] using hcross
  by_cases hnum : num = 0
  · rw [nearest?, nearest?, if_pos hnum, if_pos (hzero.mp hnum)]
  · have hnum' : num' ≠ 0 := fun h => hnum (hzero.mpr h)
    have hmagnitude : nearestMagnitude num den = nearestMagnitude num' den' :=
      nearestMagnitude_congr (Nat.pos_of_ne_zero hnum) hden (Nat.pos_of_ne_zero hnum') hden'
        hratio
    simp only [nearest?, hnum, hnum', if_false, hmagnitude]

theorem significand_pos {x : Binary64} (hx : x.magnitude ≠ 0) : 0 < x.significand := by
  unfold significand
  split <;> omega

theorem absolute_pos {x : Binary64} (hx : x.magnitude ≠ 0) : 0 < x.absolute := by
  have hsignificand := significand_pos hx
  unfold absolute
  positivity

/-- The significand of a double has fifty-three bits unless the exponent is the
smallest one. -/
theorem exponent_eq_max {x : Binary64} (hx : x.magnitude ≠ 0) :
    x.exponent = max (Int.log 2 x.absolute - 52) (-1074) := by
  have hpos := absolute_pos hx
  have hhigh : x.significand < 2 ^ 53 := by
    unfold significand
    split <;> omega
  have hlog : Int.log 2 x.absolute ≤ x.exponent + 52 := by
    rw [← Int.lt_add_one_iff, ← Int.lt_zpow_iff_log_lt one_lt_two hpos, absolute, mul_comm,
      Nat.cast_ofNat, add_assoc, zpow_add₀ two_ne_zero]
    have hcast : (x.significand : ℚ) < 2 ^ (52 + 1 : ℤ) := by exact_mod_cast hhigh
    gcongr
  by_cases hsmall : x.magnitude < 0x10000000000000
  · have hexponent : x.exponent = -1074 := by rw [exponent, if_pos hsmall]
    have hsignificand : x.significand < 2 ^ 52 := by rwa [significand, if_pos hsmall]
    omega
  · have hlow : 2 ^ 52 ≤ x.significand := by
      rw [significand, if_neg hsmall]
      omega
    have hlog' : x.exponent + 52 ≤ Int.log 2 x.absolute := by
      rw [← Int.zpow_le_iff_le_log one_lt_two hpos, absolute, mul_comm, Nat.cast_ofNat,
        zpow_add₀ two_ne_zero]
      have hcast : (2 : ℚ) ^ (52 : ℤ) ≤ x.significand := by exact_mod_cast hlow
      gcongr
    have hexponent : -1074 ≤ x.exponent := by
      rw [exponent, if_neg hsmall]
      omega
    omega

/-- Exponent and significand make up the magnitude. -/
theorem magnitude_eq (x : Binary64) :
    (x.exponent + 1074).toNat * 0x10000000000000 + x.significand = x.magnitude := by
  unfold exponent significand
  split <;> omega

/-- A fraction of the value of a double is rounded to that double. -/
theorem nearest?_eq_some {x : Binary64} {num den : ℕ} (hden : 0 < den)
    (hx : x.magnitude ≠ 0) (hvalue : (num : ℚ) / den = x.absolute) :
    nearest? x.negative num den = some x := by
  have hnum : num ≠ 0 := by
    intro hzero
    have hpos := absolute_pos hx
    rw [← hvalue, hzero, Nat.cast_zero, zero_div] at hpos
    exact lt_irrefl _ hpos
  have htarget : targetExponent num den = x.exponent := by
    rw [targetExponent_eq (Nat.pos_of_ne_zero hnum) hden, hvalue, ← exponent_eq_max hx]
  have hround : roundHalfEven (scaled num den x.exponent).1 (scaled num den x.exponent).2 =
      x.significand := by
    have hd : 0 < (scaled num den x.exponent).2 := scaled_pos hden x.exponent
    rw [← roundHalfEven_of_dvd x.significand hd]
    refine roundHalfEven_congr hd hd ?_
    refine congrArg (· * (scaled num den x.exponent).2) ?_
    have hratio := scaled_ratio num den x.exponent
    rw [hvalue, absolute, mul_div_cancel_right₀ _ (zpow_ne_zero _ two_ne_zero),
      div_eq_iff (by positivity)] at hratio
    exact_mod_cast hratio
  have hmagnitude : nearestMagnitude num den = x.magnitude := by
    simp only [nearestMagnitude, htarget, hround, magnitude_eq]
  simp only [nearest?, hnum, if_false, hmagnitude, x.finite, dif_pos]

end ShapeQuery.Binary64
