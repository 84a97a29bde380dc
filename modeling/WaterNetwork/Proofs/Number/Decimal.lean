import WaterNetwork.Proofs.Number.Shortest

/-!
# Decimals of doubles

A decimal in the interval of a double names this double: neither end of the range of doubles,
where decimals are settled by their size alone, comes so near.

* `toFloat_of_contains` — a decimal in the interval of a double names it.
* `toFloat_zero` — a decimal without digits names the zero of its sign.
-/

namespace WaterNetwork.Number

variable {x : Float} {m : Dyadic} {digits : ℕ} {exponent : ℤ}

/-- What lies in the interval of a magnitude is far from both ends of the range of doubles. -/
theorem bounds_of_contains {q : ℚ} (hm : m.IsMagnitude) (h : (Interval.around m).Contains q) :
    2 ^ (-1075 : ℤ) ≤ q ∧ q < 2 ^ (1025 : ℤ) := by
  have hnear := (nearestEven_of_contains hm h).1
  have hlow : (1 : ℚ) ≤ m.significand := by exact_mod_cast hm.significand_pos
  have hhigh : (m.significand : ℚ) < 2 ^ 53 := by exact_mod_cast hm.significand_lt
  have hpos := two_zpow_pos m.exponent
  constructor
  · have hhalf : (2 : ℚ) ^ (-1 : ℤ) ≤ q / 2 ^ m.exponent := by
      have := hnear.below
      norm_num
      linarith
    rw [le_div_iff₀ hpos, ← zpow_add₀ two_ne_zero] at hhalf
    have := hm.exponent_ge
    exact (zpow_le_zpow_right₀ one_le_two (by omega)).trans hhalf
  · have hdouble : q / 2 ^ m.exponent < (2 : ℚ) ^ (54 : ℤ) := by
      have habove := hnear.above
      rw [show (2 : ℚ) ^ (54 : ℤ) = 2 * 2 ^ 53 by norm_num]
      linarith
    rw [div_lt_iff₀ hpos, ← zpow_add₀ two_ne_zero] at hdouble
    have := hm.exponent_le
    exact hdouble.trans_le (zpow_le_zpow_right₀ one_le_two (by omega))

/-- The powers of ten at which size alone decides, compared with the ends of the range. -/
theorem pow_ten_bounds :
    (10 : ℚ) ^ (-331 : ℤ) < 2 ^ (-1075 : ℤ) ∧ (2 : ℚ) ^ (1025 : ℤ) < 10 ^ (310 : ℤ) := by
  have hlow : (2 : ℚ) ^ 1075 < 10 ^ 331 := calc
    (2 : ℚ) ^ 1075 = (2 ^ 215) ^ 5 := by rw [← pow_mul]
    _ < (10 ^ 66) ^ 5 := pow_lt_pow_left₀ (by norm_num) (by positivity) (by norm_num)
    _ = 10 ^ 330 := by rw [← pow_mul]
    _ < 10 ^ 331 := pow_lt_pow_right₀ (by norm_num) (by norm_num)
  have hhigh : (2 : ℚ) ^ 1025 < 10 ^ 310 := calc
    (2 : ℚ) ^ 1025 = (2 ^ 205) ^ 5 := by rw [← pow_mul]
    _ < (10 ^ 62) ^ 5 := pow_lt_pow_left₀ (by norm_num) (by positivity) (by norm_num)
    _ = 10 ^ 310 := by rw [← pow_mul]
  refine ⟨?_, hhigh⟩
  rw [zpow_neg, zpow_neg]
  exact inv_strictAnti₀ (by positivity) hlow

/-- The count of digits is the size of a decimal. -/
theorem size_spec (hpos : 0 < digits) (exponent : ℤ) :
    (10 : ℚ) ^ (digitCount digits + exponent - 1) ≤ digits * 10 ^ exponent ∧
      (digits : ℚ) * 10 ^ exponent < 10 ^ (digitCount digits + exponent) := by
  have hten : (10 : ℚ) ≠ 0 := by norm_num
  have hunit : (0 : ℚ) < 10 ^ exponent := by positivity
  have hcount : 0 < digitCount digits := Nat.length_toDigits_pos
  constructor
  · rw [show (digitCount digits + exponent - 1 : ℤ) = (digitCount digits - 1 : ℕ) + exponent by
      omega, zpow_add₀ hten, zpow_natCast]
    exact mul_le_mul_of_nonneg_right (by exact_mod_cast pow_le_of_digitCount hpos) hunit.le
  · rw [zpow_add₀ hten, zpow_natCast]
    exact mul_lt_mul_of_pos_right (by exact_mod_cast lt_pow_digitCount digits) hunit

/-- **A decimal in the interval of a double names it.** -/
theorem toFloat_of_contains (h : magnitude x = .finite m) (hm : m.IsMagnitude)
    (hq : (Interval.around m).Contains (digits * 10 ^ exponent)) :
    Decimal.toFloat ⟨isNegative x, digits, exponent⟩ = x := by
  obtain ⟨hlow, hhigh⟩ := bounds_of_contains hm hq
  have hpos : 0 < digits := by
    refine Nat.pos_of_ne_zero fun hzero => ?_
    rw [hzero, Nat.cast_zero, zero_mul] at hlow
    exact absurd hlow (not_le.mpr (two_zpow_pos _))
  obtain ⟨hsize, hsize'⟩ := size_spec hpos exponent
  have hten : (1 : ℚ) < 10 := by norm_num
  have hsmall : ¬ (digitCount digits + exponent < -330) := fun hsmall => by
    have hle : (10 : ℚ) ^ (digitCount digits + exponent) ≤ 10 ^ (-331 : ℤ) :=
      zpow_le_zpow_right₀ hten.le (by omega)
    exact absurd (hlow.trans (hsize'.le.trans hle)) (not_le.mpr pow_ten_bounds.1)
  have hbig : ¬ (digitCount digits + exponent > 310) := fun hbig => by
    have hle : (10 : ℚ) ^ (310 : ℤ) ≤ 10 ^ (digitCount digits + exponent - 1) :=
      zpow_le_zpow_right₀ hten.le (by omega)
    exact absurd (hle.trans (hsize.trans hhigh.le)) (not_le.mpr pow_ten_bounds.2)
  rw [zpow_eq_div (by norm_num)] at hq
  unfold Decimal.toFloat
  dsimp only
  rw [if_neg (by omega), if_neg hbig]
  split
  · rename_i hneg
    rw [show exponent.toNat = 0 by omega, show (-exponent).toNat = exponent.natAbs by omega,
      pow_zero, mul_one_div] at hq
    exact nearest_of_magnitude h
      (nearestBits_of_contains hm hpos (by positivity) (by exact_mod_cast hq))
  · rename_i hnonneg
    rw [show (-exponent).toNat = 0 by omega, show exponent.toNat = exponent.natAbs by omega,
      pow_zero, div_one] at hq
    refine nearest_of_magnitude h
      (nearestBits_of_contains hm (by positivity) one_pos ?_)
    rw [Nat.cast_one, div_one]
    exact_mod_cast hq

/-- A decimal without digits names the zero of its sign. -/
theorem toFloat_zero (h : magnitude x = .finite m) (hzero : m.significand = 0) (exponent : ℤ) :
    Decimal.toFloat ⟨isNegative x, 0, exponent⟩ = x := by
  have hbits : m.bits = 0 := by
    obtain ⟨-, rfl⟩ | ⟨-, -, rfl⟩ := magnitude_cases h
    · unfold Dyadic.bits
      dsimp only at *
      omega
    · dsimp only at hzero
      omega
  unfold Decimal.toFloat
  dsimp only
  rw [if_pos (.inl rfl)]
  refine nearest_of_magnitude h ?_
  rw [hbits]
  rfl

end WaterNetwork.Number
