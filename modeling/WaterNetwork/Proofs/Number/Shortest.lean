import WaterNetwork.Proofs.Number.Nearest

/-!
# Shortest digits read back

The search for the shortest digits ends, on one of its grids, with a decimal in the interval of
the magnitude. Seventeen grids are enough: on the last one the points lie closer together than
the ends of the interval, so one of the two neighbours of the exact value lies inside.

* `contains_of_onGrid?` — what is found on a grid lies in the interval.
* `exists_onGrid?` — on a grid finer than the interval something is found.
* `contains_shortest` — the shortest digits of a magnitude lie in its interval.
-/

namespace WaterNetwork.Number

variable {m : Dyadic} {i : Interval} {tie : Tie} {grid : ℤ} {n : ℕ}

/-! ### One grid -/

theorem fst_commonUnit_pos (binary decimal : ℤ) : 0 < (commonUnit binary decimal).1 := by
  unfold commonUnit
  positivity

/-- A point of a decimal grid in terms of a power of two. -/
theorem div_eq_commonUnit (binary decimal : ℤ) (n : ℕ) :
    (n : ℚ) * 10 ^ decimal / 2 ^ binary =
      (n * (commonUnit binary decimal).2 : ℕ) / (commonUnit binary decimal).1 := by
  rw [zpow_eq_div two_ne_zero, zpow_eq_div (by norm_num : (10 : ℚ) ≠ 0)]
  unfold commonUnit
  push_cast
  field_simp

theorem lies_iff : i.lies grid n = true ↔ i.Contains (n * 10 ^ grid) := by
  have hunit : (0 : ℚ) < (commonUnit i.exponent grid).1 :=
    Nat.cast_pos.mpr (fst_commonUnit_pos ..)
  unfold Interval.lies Interval.Contains
  dsimp only
  rw [div_eq_commonUnit, le_div_iff₀ hunit, div_le_iff₀ hunit, lt_div_iff₀ hunit,
    div_lt_iff₀ hunit]
  norm_cast
  split <;> simp

theorem contains_of_onGrid? (h : i.onGrid? tie grid = some n) : i.Contains (n * 10 ^ grid) :=
  lies_iff.mp (List.find?_some h)

/-- Of the two neighbours of the exact value on a grid that is finer than the interval, one lies
inside. -/
theorem exists_onGrid? (tie : Tie) (hlow : i.low < i.value) (hhigh : i.value < i.high)
    (hfine : (10 : ℚ) ^ grid < (i.high - i.low) * 2 ^ i.exponent) :
    ∃ n, i.onGrid? tie grid = some n := by
  have hunit := fst_commonUnit_pos i.exponent grid
  have hstep : (commonUnit i.exponent grid).2 + i.low * (commonUnit i.exponent grid).1 <
      i.high * (commonUnit i.exponent grid).1 := by
    have hgrid := div_eq_commonUnit i.exponent grid 1
    rw [Nat.cast_one, one_mul, one_mul] at hgrid
    rw [← div_lt_iff₀ (two_zpow_pos _), hgrid, div_lt_iff₀ (by exact_mod_cast hunit), sub_mul,
      lt_sub_iff_add_lt] at hfine
    exact_mod_cast hfine
  have hlow' := Nat.mul_lt_mul_of_pos_right hlow hunit
  have hhigh' := Nat.mul_lt_mul_of_pos_right hhigh hunit
  have hpos : 0 < (commonUnit i.exponent grid).2 := by
    unfold commonUnit
    positivity
  have hbelow := Nat.div_mul_le_self (i.value * (commonUnit i.exponent grid).1)
    (commonUnit i.exponent grid).2
  have habove := Nat.lt_div_mul_add (a := i.value * (commonUnit i.exponent grid).1) hpos
  have hlies : i.lies grid (i.value * (commonUnit i.exponent grid).1 /
        (commonUnit i.exponent grid).2) = true ∨
      i.lies grid (i.value * (commonUnit i.exponent grid).1 /
        (commonUnit i.exponent grid).2 + 1) = true := by
    unfold Interval.lies
    dsimp only
    rw [Nat.succ_mul]
    generalize (commonUnit i.exponent grid).1 = unit at *
    generalize (commonUnit i.exponent grid).2 = step at *
    generalize i.value * unit / step * step = below at *
    split <;> simp only [Bool.and_eq_true, decide_eq_true_eq] <;> omega
  rw [← Option.isSome_iff_exists, Interval.onGrid?]
  simp only [List.find?_isSome, List.mem_cons]
  obtain h | h := hlies
  · exact ⟨_, .inr (.inl rfl), h⟩
  · exact ⟨_, .inr (.inr (.inl rfl)), h⟩

/-! ### All grids -/

/-- A search that finds something on its last grid finds it there or on an earlier one. -/
theorem search_onGrid? {fuel : ℕ} (h : ∃ n, i.onGrid? tie (grid - fuel) = some n) :
    i.onGrid? tie (i.search tie grid fuel).2 = some (i.search tie grid fuel).1 := by
  induction fuel generalizing grid with
  | zero =>
    obtain ⟨n, hn⟩ := h
    rw [Nat.cast_zero, sub_zero] at hn
    simp [Interval.search, hn]
  | succ fuel ih =>
    unfold Interval.search
    split
    · assumption
    · refine ih ?_
      obtain ⟨n, hn⟩ := h
      exact ⟨n, by rw [← hn]; congr 1; push_cast; ring⟩

/-! ### The first digit -/

theorem pow_le_of_digitCount {n : ℕ} (hn : 0 < n) : 10 ^ (digitCount n - 1) ≤ n := by
  unfold digitCount
  by_contra h
  rcases Nat.eq_zero_or_pos ((Nat.toDigits 10 n).length - 1) with h0 | hpos
  · rw [h0, pow_zero] at h
    omega
  · have := (Nat.length_toDigits_le_iff (by norm_num) hpos).mpr (Nat.not_le.mp h)
    omega

theorem lt_pow_digitCount (n : ℕ) : n < 10 ^ digitCount n :=
  (Nat.length_toDigits_le_iff (by norm_num) Nat.length_toDigits_pos).mp le_rfl

/-- The exponent of the first digit is not too large. -/
theorem floorLog10_le (hm : 0 < m.significand) : (10 : ℚ) ^ floorLog10 m ≤ m.value := by
  have hvalue : m.value =
      (m.significand * 2 ^ m.exponent.toNat : ℕ) / (2 ^ (-m.exponent).toNat : ℕ) := by
    unfold Dyadic.value
    rw [zpow_eq_div two_ne_zero]
    push_cast
    ring
  have hnum : 0 < m.significand * 2 ^ m.exponent.toNat := by positivity
  have hden : 0 < 2 ^ (-m.exponent).toNat := by positivity
  rw [hvalue, floorLog10]
  generalize m.significand * 2 ^ m.exponent.toNat = num at *
  generalize 2 ^ (-m.exponent).toNat = den at *
  rw [le_div_iff₀ (by exact_mod_cast hden)]
  split
  · rename_i hle
    have hdigits := pow_le_of_digitCount (Nat.div_pos hle hden)
    have hcount : 0 < digitCount (num / den) := Nat.length_toDigits_pos
    rw [show (digitCount (num / den) : ℤ) - 1 = (digitCount (num / den) - 1 : ℕ) by omega,
      zpow_natCast]
    exact_mod_cast (Nat.mul_le_mul_right den hdigits).trans (Nat.div_mul_le_self num den)
  · have hdigits := lt_pow_digitCount ((den - 1) / num)
    rw [Nat.div_lt_iff_lt_mul hnum] at hdigits
    rw [zpow_neg, zpow_natCast, inv_mul_le_iff₀ (by positivity)]
    have : den ≤ 10 ^ digitCount ((den - 1) / num) * num := by omega
    exact_mod_cast this

/-- Sixteen places below the first digit the points of a grid lie closer together than the ends
of the interval, both at the foot of a binade, where these are nearer, and elsewhere. -/
theorem pow_lt_width (hm : m.IsMagnitude) :
    (10 : ℚ) ^ (floorLog10 m - 16) <
      ((Interval.around m).high - (Interval.around m).low) * 2 ^ (Interval.around m).exponent := by
  have hfirst := floorLog10_le hm.significand_pos
  have hpos := two_zpow_pos m.exponent
  rw [zpow_sub₀ (by norm_num), div_lt_iff₀ (by positivity)]
  refine hfirst.trans_lt ?_
  simp only [Interval.around, Dyadic.value]
  rw [zpow_sub₀ two_ne_zero]
  generalize (2 : ℚ) ^ m.exponent = u at *
  split
  · rename_i hfoot
    rw [cast_four_mul_sub hm one_le_two, hfoot.1]
    push_cast
    norm_num
    linarith
  · rw [cast_four_mul_sub hm le_rfl]
    have hlt : (m.significand : ℚ) < 2 ^ 53 := by exact_mod_cast hm.significand_lt
    have := mul_lt_mul_of_pos_right hlt hpos
    push_cast
    norm_num at this ⊢
    linarith

/-- **Seventeen digits suffice**: the shortest digits of a magnitude lie in its interval. -/
theorem contains_shortest (tie : Tie) (hm : m.IsMagnitude) :
    (Interval.around m).Contains ((shortest tie m).1 * 10 ^ (shortest tie m).2) := by
  have hpos := hm.significand_pos
  refine contains_of_onGrid? (search_onGrid? (exists_onGrid? tie ?_ ?_ ?_))
  · unfold Interval.around
    dsimp only
    split <;> omega
  · unfold Interval.around
    dsimp only
    omega
  · rw [show floorLog10 m + 1 - (17 : ℕ) = floorLog10 m - 16 by push_cast; ring]
    exact pow_lt_width hm

end WaterNetwork.Number
