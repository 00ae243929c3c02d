import ShapeQuery.Binary64.Shortest
import ShapeQuery.Proofs.Binary64.Rounding

/-!
# Decimals of doubles

Reading a decimal depends on the number it stands for and not on how that number is
split into digits and exponent.  The decimal that is chosen to write a double reads
back as the same double.
-/

namespace ShapeQuery.Binary64

theorem decimalLength_eq {n : ℕ} (hn : n ≠ 0) : decimalLength n = Nat.log 10 n + 1 := by
  have hle (k : ℕ) : decimalLength n ≤ k + 1 ↔ Nat.log 10 n ≤ k := by
    rw [decimalLength, Nat.length_toDigits_le_iff (by decide) k.succ_pos, ← Nat.lt_succ_iff,
      Nat.log_lt_iff_lt_pow (by decide) hn]
  have hpos : 0 < decimalLength n := Nat.length_toDigits_pos
  have hupper := (hle (Nat.log 10 n)).mpr le_rfl
  have hlower := (hle (decimalLength n - 1)).mp (by omega)
  omega

/-- The place of the leading digit, which bounds the search for a double, belongs to the number. -/
theorem decimalLength_add {digits : ℕ} (hdigits : digits ≠ 0) (e : ℤ) :
    (decimalLength digits : ℤ) + e = Int.log 10 ((digits : ℚ) * 10 ^ e) + 1 := by
  have hpos : (0 : ℚ) < digits * 10 ^ e := by positivity
  have hlow : ((10 : ℕ) : ℚ) ^ ((Nat.log 10 digits : ℤ) + e) ≤ digits * 10 ^ e := by
    have hself : (10 : ℚ) ^ Nat.log 10 digits ≤ digits := by
      exact_mod_cast Nat.pow_log_le_self 10 hdigits
    rw [Nat.cast_ofNat, zpow_add₀ (by norm_num), zpow_natCast]
    gcongr
  have hhigh : digits * 10 ^ e < ((10 : ℕ) : ℚ) ^ ((Nat.log 10 digits : ℤ) + 1 + e) := by
    have hself : (digits : ℚ) < 10 ^ (Nat.log 10 digits + 1) := by
      exact_mod_cast Nat.lt_pow_succ_log_self (by decide) digits
    rw [Nat.cast_ofNat, zpow_add₀ (by norm_num)]
    gcongr
    exact_mod_cast hself
  have hlog := (Int.zpow_le_iff_le_log (by decide) hpos).mp hlow
  have hlog' := (Int.lt_zpow_iff_log_lt (by decide) hpos).mp hhigh
  rw [decimalLength_eq hdigits]
  push_cast
  omega

theorem decimal_ratio (digits : ℕ) (e : ℤ) :
    ((digits * 10 ^ e.toNat : ℕ) : ℚ) / (10 ^ (-e).toNat : ℕ) = digits * 10 ^ e := by
  have hpow : (10 : ℚ) ^ e = 10 ^ e.toNat / 10 ^ (-e).toNat := by
    rw [← zpow_natCast, ← zpow_natCast, ← zpow_sub₀ (by norm_num)]
    congr 1
    omega
  rw [hpow]
  push_cast
  ring

/-- Reading a decimal depends on its value only. -/
theorem ofDecimal?_congr (negative : Bool) {digits digits' : ℕ} {e e' : ℤ}
    (hvalue : (digits : ℚ) * 10 ^ e = digits' * 10 ^ e') :
    ofDecimal? negative digits e = ofDecimal? negative digits' e' := by
  have hzero : digits = 0 ↔ digits' = 0 := by
    have hpow : (10 : ℚ) ^ e ≠ 0 := zpow_ne_zero e (by norm_num)
    have hpow' : (10 : ℚ) ^ e' ≠ 0 := zpow_ne_zero e' (by norm_num)
    constructor
    · rintro rfl
      simpa [hpow'] using hvalue.symm
    · rintro rfl
      simpa [hpow] using hvalue
  by_cases hdigits : digits = 0
  · simp [ofDecimal?, hdigits, hzero.mp hdigits]
  · have hdigits' : digits' ≠ 0 := fun h => hdigits (hzero.mpr h)
    have htop : (decimalLength digits : ℤ) + e = decimalLength digits' + e' := by
      rw [decimalLength_add hdigits, decimalLength_add hdigits', hvalue]
    have hnearest : nearest? negative (digits * 10 ^ e.toNat) (10 ^ (-e).toNat) =
        nearest? negative (digits' * 10 ^ e'.toNat) (10 ^ (-e').toNat) := by
      refine nearest?_congr negative (by positivity) (by positivity) ?_
      rw [decimal_ratio, decimal_ratio, hvalue]
    simp only [ofDecimal?, Nat.pow_eq, htop, hnearest, hdigits, hdigits', decide_false,
      Bool.false_or]

theorem two_pow_le_ten_pow : (2 : ℚ) ^ 1074 ≤ 10 ^ 330 :=
  calc (2 : ℚ) ^ 1074 ≤ 2 ^ 1089 := pow_le_pow_right₀ (by norm_num) (by norm_num)
    _ = (2 ^ 33) ^ 33 := by rw [← pow_mul]
    _ ≤ (10 ^ 10) ^ 33 := by
      gcongr
      norm_num
    _ = 10 ^ 330 := by rw [← pow_mul]

theorem two_pow_lt_ten_pow : (2 : ℚ) ^ 53 * 2 ^ 971 < 10 ^ 329 :=
  calc (2 : ℚ) ^ 53 * 2 ^ 971 = 2 ^ 1024 := by rw [← pow_add]
    _ ≤ 2 ^ 1056 := pow_le_pow_right₀ (by norm_num) (by norm_num)
    _ = (2 ^ 33) ^ 32 := by rw [← pow_mul]
    _ ≤ (10 ^ 10) ^ 32 := by
      gcongr
      norm_num
    _ = 10 ^ 320 := by rw [← pow_mul]
    _ < 10 ^ 329 := pow_lt_pow_right₀ (by norm_num) (by norm_num)

/-- A double is neither as small nor as large as the bounds of the search. -/
theorem log_absolute_bounds {x : Binary64} (hx : x.magnitude ≠ 0) :
    -330 ≤ Int.log 10 x.absolute ∧ Int.log 10 x.absolute < 329 := by
  have hpos := absolute_pos hx
  have hlow : -1074 ≤ x.exponent := by
    unfold exponent
    split <;> omega
  have hhigh : x.exponent ≤ 971 := by
    have := x.finite
    unfold exponent
    split <;> omega
  have hsignificand : (1 : ℚ) ≤ x.significand := by exact_mod_cast significand_pos hx
  have hsignificand' : (x.significand : ℚ) ≤ 2 ^ (53 : ℤ) := by
    have : x.significand ≤ 2 ^ 53 := by
      unfold significand
      split <;> omega
    exact_mod_cast this
  constructor
  · rw [← Int.zpow_le_iff_le_log (by decide) hpos]
    calc ((10 : ℕ) : ℚ) ^ (-330 : ℤ) ≤ 1 * 2 ^ (-1074 : ℤ) := by
          rw [one_mul, Nat.cast_ofNat, zpow_neg, zpow_neg, zpow_ofNat, zpow_ofNat]
          exact inv_anti₀ (by positivity) two_pow_le_ten_pow
      _ ≤ x.significand * 2 ^ x.exponent := by gcongr; norm_num
  · rw [← Int.lt_zpow_iff_log_lt (by decide) hpos]
    calc x.significand * (2 : ℚ) ^ x.exponent ≤ 2 ^ (53 : ℤ) * 2 ^ (971 : ℤ) := by
          gcongr
          norm_num
      _ < ((10 : ℕ) : ℚ) ^ (329 : ℤ) := by
          rw [Nat.cast_ofNat, zpow_ofNat, zpow_ofNat, zpow_ofNat]
          exact two_pow_lt_ten_pow

/-- A decimal of the value of a double reads back as that double. -/
theorem ofDecimal?_eq_some {x : Binary64} (hx : x.magnitude ≠ 0) {digits : ℕ} {e : ℤ}
    (hvalue : (digits : ℚ) * 10 ^ e = x.absolute) :
    ofDecimal? x.negative digits e = some x := by
  have hdigits : digits ≠ 0 := by
    intro hzero
    have hpos := absolute_pos hx
    rw [← hvalue, hzero, Nat.cast_zero, zero_mul] at hpos
    exact lt_irrefl _ hpos
  have htop : (decimalLength digits : ℤ) + e = Int.log 10 x.absolute + 1 := by
    rw [decimalLength_add hdigits, hvalue]
  obtain ⟨hlow, hhigh⟩ := log_absolute_bounds hx
  have hsmall : ¬(decimalLength digits : ℤ) + e < -330 := by omega
  have hlarge : ¬330 < (decimalLength digits : ℤ) + e := by omega
  simp only [ofDecimal?, Nat.pow_eq, hdigits, hsmall, hlarge, decide_false, Bool.or_self,
    Bool.false_eq_true, if_false]
  refine nearest?_eq_some (by positivity) hx ?_
  rw [decimal_ratio, hvalue]

/-- The exact decimal of a double has its value. -/
theorem exactDecimal_value (x : Binary64) :
    (x.exactDecimal.digits : ℚ) * 10 ^ x.exactDecimal.exponent = x.absolute := by
  have hpow : (2 : ℚ) ^ x.exponent = 2 ^ x.exponent.toNat / 2 ^ (-x.exponent).toNat := by
    rw [← zpow_natCast, ← zpow_natCast, ← zpow_sub₀ two_ne_zero]
    congr 1
    omega
  have hten (k : ℕ) : (10 : ℚ) ^ k = 2 ^ k * 5 ^ k := by
    rw [← mul_pow]
    norm_num
  simp only [exactDecimal, Nat.pow_eq, absolute, zpow_neg, zpow_natCast, hten, hpow]
  push_cast
  field_simp

/-- The search gives no decimal that would read as another double. -/
theorem readsBack_of_decimalOfLength? {x : Binary64} {count : ℕ} {d : Decimal}
    (hd : decimalOfLength? x count = some d) : readsBack x d = true := by
  unfold decimalOfLength? at hd
  simp only at hd
  split at hd <;> grind

/-- The shortest decimal of a double reads back as the double. -/
theorem ofDecimal?_shortest (x : Binary64) :
    ofDecimal? x.negative x.shortest.digits x.shortest.exponent = some x := by
  unfold shortest
  by_cases hx : x.magnitude = 0
  · obtain ⟨negative, magnitude, hfinite⟩ := x
    obtain rfl : magnitude = 0 := hx
    rfl
  · rw [if_neg hx]
    cases hfound : (List.range' 1 17).findSome? (decimalOfLength? x) with
    | none => exact ofDecimal?_eq_some hx (exactDecimal_value x)
    | some d =>
        obtain ⟨count, -, hcount⟩ := List.exists_of_findSome?_eq_some hfound
        have hback := readsBack_of_decimalOfLength? hcount
        simpa [readsBack] using hback

end ShapeQuery.Binary64
