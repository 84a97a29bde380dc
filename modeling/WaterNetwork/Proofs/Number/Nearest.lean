import WaterNetwork.Number.Shortest
import WaterNetwork.Proofs.Number.Double

/-!
# The nearest double

Rounding works on quotients of natural numbers; what it does is said here of the rational number
that such a quotient is. `Interval.Contains` says which rationals lie in the interval of a
magnitude, and these are the ones that are rounded to it.

* `nearestEven_roundHalfEven`, `floorLog2_spec` — what rounding and the binary logarithm yield.
* `nearestBits_of_contains` — a rational in the interval of a magnitude is rounded to it.
-/

namespace WaterNetwork.Number

/-! ### Rounding to natural numbers -/

/-- A natural number is nearest to a rational, and even if another one is as near. -/
structure NearestEven (n : ℕ) (q : ℚ) : Prop where
  below : (n : ℚ) - 1 / 2 ≤ q
  above : q ≤ n + 1 / 2
  inside : n % 2 = 1 → (n : ℚ) - 1 / 2 < q ∧ q < n + 1 / 2

theorem NearestEven.unique {a b : ℕ} {q : ℚ} (ha : NearestEven a q) (hb : NearestEven b q) :
    a = b := by
  -- Of two neighbours one is odd, and that one is not the nearest.
  have hle : ∀ {c d : ℕ}, NearestEven c q → NearestEven d q → d ≤ c := by
    intro c d hc hd
    by_contra hlt
    have hcast : (c : ℚ) + 1 ≤ d := by exact_mod_cast Nat.not_le.mp hlt
    have habove := hc.above
    have hbelow := hd.below
    have hsucc : d = c + 1 := by
      have : (d : ℚ) ≤ c + 1 := by linarith
      exact le_antisymm (by exact_mod_cast this) (Nat.not_le.mp hlt)
    rcases Nat.mod_two_eq_zero_or_one c with heven | hodd
    · have := (hd.inside (by omega)).1
      linarith
    · have := (hc.inside hodd).2
      linarith
  exact le_antisymm (hle hb ha) (hle ha hb)

/-- The same without division. -/
theorem nearestEven_div_iff {n num den : ℕ} (hden : 0 < den) :
    NearestEven n ((num : ℚ) / den) ↔
      2 * (n * den) ≤ 2 * num + den ∧ 2 * num ≤ 2 * (n * den) + den ∧
        (n % 2 = 1 → 2 * (n * den) < 2 * num + den ∧ 2 * num < 2 * (n * den) + den) := by
  have hd : (0 : ℚ) < den := by exact_mod_cast hden
  have hbelow : (n : ℚ) - 1 / 2 ≤ num / den ↔ 2 * (n * den) ≤ 2 * num + den := by
    rw [le_div_iff₀ hd, ← @Nat.cast_le ℚ]
    push_cast
    constructor <;> intro h <;> linarith
  have habove : (num : ℚ) / den ≤ n + 1 / 2 ↔ 2 * num ≤ 2 * (n * den) + den := by
    rw [div_le_iff₀ hd, ← @Nat.cast_le ℚ]
    push_cast
    constructor <;> intro h <;> linarith
  have hbelow' : (n : ℚ) - 1 / 2 < num / den ↔ 2 * (n * den) < 2 * num + den := by
    rw [lt_div_iff₀ hd, ← @Nat.cast_lt ℚ]
    push_cast
    constructor <;> intro h <;> linarith
  have habove' : (num : ℚ) / den < n + 1 / 2 ↔ 2 * num < 2 * (n * den) + den := by
    rw [div_lt_iff₀ hd, ← @Nat.cast_lt ℚ]
    push_cast
    constructor <;> intro h <;> linarith
  rw [← hbelow, ← habove, ← hbelow', ← habove']
  exact ⟨fun h => ⟨h.below, h.above, h.inside⟩, fun ⟨h₁, h₂, h₃⟩ => ⟨h₁, h₂, h₃⟩⟩

theorem nearestEven_roundHalfEven (num : ℕ) {den : ℕ} (hden : 0 < den) :
    NearestEven (roundHalfEven num den) ((num : ℚ) / den) := by
  rw [nearestEven_div_iff hden]
  have hdiv := Nat.div_add_mod num den
  have hmod := Nat.mod_lt num hden
  unfold roundHalfEven
  dsimp only
  generalize num / den = k at *
  generalize num % den = r at *
  subst hdiv
  have hsucc : (k + 1) * den = den * k + den := by ring
  have hmul : k * den = den * k := Nat.mul_comm ..
  split
  · rw [hmul]
    omega
  · split
    · rw [hsucc]
      omega
    · rcases Nat.mod_two_eq_zero_or_one k with heven | hodd
      · rw [heven, Nat.add_zero, hmul]
        omega
      · rw [hodd, hsucc]
        omega

/-! ### The binary logarithm -/

theorem two_zpow_pos (e : ℤ) : (0 : ℚ) < 2 ^ e := by positivity

/-- A power with any exponent is a quotient of powers with natural exponents. -/
theorem zpow_eq_div {b : ℚ} (hb : b ≠ 0) (e : ℤ) : b ^ e = b ^ e.toNat / b ^ (-e).toNat := by
  rw [← zpow_natCast, ← zpow_natCast, ← zpow_sub₀ hb]
  congr 1
  omega

/-- The binary exponent of a rational is the one whose binade it lies in. -/
theorem exponent_unique {a b : ℤ} {q : ℚ} (ha : 2 ^ a ≤ q ∧ q < 2 ^ (a + 1))
    (hb : 2 ^ b ≤ q ∧ q < 2 ^ (b + 1)) : a = b := by
  have h₁ : a < b + 1 := (zpow_lt_zpow_iff_right₀ one_lt_two).mp (ha.1.trans_lt hb.2)
  have h₂ : b < a + 1 := (zpow_lt_zpow_iff_right₀ one_lt_two).mp (hb.1.trans_lt ha.2)
  omega

theorem floorLog2_spec {num den : ℕ} (hnum : 0 < num) (hden : 0 < den) :
    (2 : ℚ) ^ floorLog2 num den ≤ num / den ∧ (num : ℚ) / den < 2 ^ (floorLog2 num den + 1) := by
  have hn : (0 : ℚ) < num := by exact_mod_cast hnum
  have hd : (0 : ℚ) < den := by exact_mod_cast hden
  have hn₁ : (2 : ℚ) ^ num.log2 ≤ num := by exact_mod_cast Nat.log2_self_le hnum.ne'
  have hn₂ : (num : ℚ) < 2 ^ (num.log2 + 1) := by exact_mod_cast Nat.lt_log2_self
  have hd₁ : (2 : ℚ) ^ den.log2 ≤ den := by exact_mod_cast Nat.log2_self_le hden.ne'
  have hd₂ : (den : ℚ) < 2 ^ (den.log2 + 1) := by exact_mod_cast Nat.lt_log2_self
  -- The quotient of the leading powers is the exponent, or one more.
  have hlow : (2 : ℚ) ^ ((num.log2 : ℤ) - den.log2 - 1) ≤ num / den := by
    rw [zpow_sub₀ two_ne_zero, zpow_sub₀ two_ne_zero, zpow_natCast, zpow_natCast, zpow_one,
      div_div, ← pow_succ, div_le_div_iff₀ (by positivity) hd]
    exact mul_le_mul hn₁ hd₂.le hd.le hn.le
  have hhigh : (num : ℚ) / den < 2 ^ ((num.log2 : ℤ) - den.log2 + 1) := by
    rw [show (num.log2 : ℤ) - den.log2 + 1 = ((num.log2 + 1 : ℕ) : ℤ) - den.log2 by push_cast; ring,
      zpow_sub₀ two_ne_zero, zpow_natCast, zpow_natCast, div_lt_div_iff₀ hd (by positivity)]
    exact mul_lt_mul hn₂ hd₁ (by positivity) (by positivity)
  have hreach : ∀ guess : ℤ, (if guess < 0 then den ≤ num * 2 ^ guess.natAbs
      else den * 2 ^ guess.natAbs ≤ num) ↔ (2 : ℚ) ^ guess ≤ num / den := by
    intro guess
    rw [zpow_eq_div two_ne_zero, div_le_div_iff₀ (by positivity) hd]
    split
    · rename_i hneg
      rw [show guess.toNat = 0 by omega, show (-guess).toNat = guess.natAbs by omega, pow_zero,
        one_mul]
      norm_cast
    · rename_i hnonneg
      rw [show (-guess).toNat = 0 by omega, show guess.toNat = guess.natAbs by omega, pow_zero,
        mul_one, mul_comm]
      norm_cast
  unfold floorLog2
  dsimp only
  by_cases h : (2 : ℚ) ^ ((num.log2 : ℤ) - den.log2) ≤ num / den
  · rw [if_pos ((hreach _).mpr h)]
    exact ⟨h, hhigh⟩
  · rw [if_neg (mt (hreach _).mp h), sub_add_cancel]
    exact ⟨hlow, not_le.mp h⟩

/-! ### The interval of a magnitude -/

/-- The rational that a significand and an exponent stand for. -/
def Dyadic.value (m : Dyadic) : ℚ := m.significand * 2 ^ m.exponent

/-- **The interval of a magnitude** holds a rational that lies between its ends, or at one of
them if they belong to it. -/
def Interval.Contains (i : Interval) (q : ℚ) : Prop :=
  if i.closed then i.low ≤ q / 2 ^ i.exponent ∧ q / 2 ^ i.exponent ≤ i.high
  else i.low < q / 2 ^ i.exponent ∧ q / 2 ^ i.exponent < i.high

variable {m : Dyadic} {q : ℚ} {num den : ℕ}

theorem cast_four_mul_sub {k : ℕ} (hm : m.IsMagnitude) (hk : k ≤ 2) :
    ((4 * m.significand - k : ℕ) : ℚ) = 4 * m.significand - k := by
  have := hm.significand_pos
  push_cast [show k ≤ 4 * m.significand by omega]
  rfl

/-- What lies in the interval of a magnitude is rounded to its significand on its grid. At the
foot of a binade it lies no further below than half way to the neighbour there. -/
theorem nearestEven_of_contains (hm : m.IsMagnitude) (h : (Interval.around m).Contains q) :
    NearestEven m.significand (q / 2 ^ m.exponent) ∧
      (m.significand = 2 ^ 52 → -1074 < m.exponent →
        (m.significand : ℚ) - 1 / 4 ≤ q / 2 ^ m.exponent) := by
  have hunit : q / (2 : ℚ) ^ (m.exponent - 2) = 4 * (q / 2 ^ m.exponent) := by
    rw [zpow_sub₀ two_ne_zero]
    field_simp
    norm_num
  simp only [Interval.Contains, Interval.around, hunit, beq_iff_eq] at h
  generalize q / (2 : ℚ) ^ m.exponent = t at *
  by_cases hfoot : m.significand = 2 ^ 52 ∧ m.exponent > -1074
  · rw [if_pos hfoot, cast_four_mul_sub hm one_le_two, if_pos (by omega)] at h
    push_cast at h
    have hbelow : (m.significand : ℚ) - 1 / 4 ≤ t := by linarith
    exact ⟨⟨by linarith, by linarith, fun hodd => by omega⟩, fun _ _ => hbelow⟩
  · rw [if_neg hfoot, cast_four_mul_sub hm le_rfl] at h
    push_cast at h
    refine ⟨?_, fun hs he => absurd ⟨hs, he⟩ hfoot⟩
    split at h
    · rename_i heven
      exact ⟨by linarith, by linarith, fun hodd => by omega⟩
    · exact ⟨by linarith, by linarith, fun _ => ⟨by linarith, by linarith⟩⟩

/-- Rounding on a grid, whichever way the grid is brought to the quotient. -/
theorem nearestEven_grid (num : ℕ) (hden : 0 < den) (grid : ℤ) :
    NearestEven
      (if grid < 0 then roundHalfEven (num * 2 ^ grid.natAbs) den
        else roundHalfEven num (den * 2 ^ grid.natAbs))
      ((num : ℚ) / den / 2 ^ grid) := by
  split
  · rename_i hneg
    have hquot : (num : ℚ) / den / 2 ^ grid = (num * 2 ^ grid.natAbs : ℕ) / den := by
      rw [zpow_eq_div two_ne_zero, show grid.toNat = 0 by omega,
        show (-grid).toNat = grid.natAbs by omega]
      push_cast
      field_simp
    rw [hquot]
    exact nearestEven_roundHalfEven _ hden
  · rename_i hnonneg
    have hquot : (num : ℚ) / den / 2 ^ grid = num / (den * 2 ^ grid.natAbs : ℕ) := by
      rw [zpow_eq_div two_ne_zero, show (-grid).toNat = 0 by omega,
        show grid.toNat = grid.natAbs by omega]
      push_cast
      field_simp
    rw [hquot]
    exact nearestEven_roundHalfEven _ (by positivity)

/-- The grid on which a rational in the interval is rounded is that of the magnitude. Only below
the foot of a binade it is finer by one, and the foot has twice its significand there. -/
theorem grid_of_contains (hm : m.IsMagnitude) (hnum : 0 < num) (hden : 0 < den)
    (h : (Interval.around m).Contains (num / den)) :
    max (floorLog2 num den - 52) (-1074) = m.exponent ∨
      m.significand = 2 ^ 52 ∧ -1074 < m.exponent ∧
        max (floorLog2 num den - 52) (-1074) = m.exponent - 1 ∧
        NearestEven (2 ^ 53) ((num : ℚ) / den / 2 ^ (m.exponent - 1)) := by
  obtain ⟨hnear, hfoot⟩ := nearestEven_of_contains hm h
  have hge := hm.exponent_ge
  have hspec := floorLog2_spec hnum hden
  have hscale : ∀ k : ℕ, (num : ℚ) / den < 2 ^ (m.exponent + k) ↔
      (num : ℚ) / den / 2 ^ m.exponent < 2 ^ k := fun k => by
    rw [div_lt_iff₀ (two_zpow_pos _), ← zpow_natCast, ← zpow_add₀ two_ne_zero, add_comm]
  by_cases hhigh : (num : ℚ) / den < 2 ^ (m.exponent + 52)
  · have hlog : floorLog2 num den < m.exponent + 52 :=
      (zpow_lt_zpow_iff_right₀ one_lt_two).mp (hspec.1.trans_lt hhigh)
    have hhigh := (hscale 52).mp hhigh
    by_cases hsub : m.exponent = -1074
    · exact .inl (by omega)
    · have hexp : -1074 < m.exponent := by omega
      have hs : m.significand = 2 ^ 52 := by
        have hbelow := hnear.below
        have : (m.significand : ℚ) < (2 ^ 52 + 1 : ℕ) := by
          push_cast
          linarith
        have := Nat.cast_lt.mp this
        have := hm.normal hexp
        omega
      have hquarter := hfoot hs hexp
      rw [hs] at hquarter
      push_cast at hquarter
      have hlow : ¬ (num : ℚ) / den < 2 ^ (m.exponent + 51) :=
        mt (hscale 51).mp (not_lt.mpr (by linarith))
      have hlog' : m.exponent + 51 < floorLog2 num den + 1 :=
        (zpow_lt_zpow_iff_right₀ one_lt_two).mp ((not_lt.mp hlow).trans_lt hspec.2)
      have htwice : (num : ℚ) / den / 2 ^ (m.exponent - 1) = 2 * (num / den / 2 ^ m.exponent) := by
        rw [zpow_sub_one₀ two_ne_zero]
        field_simp
      refine .inr ⟨hs, hexp, by omega, ?_⟩
      rw [htwice]
      exact ⟨by push_cast; linarith, by push_cast; linarith, fun hodd => by norm_num at hodd⟩
  · have htop : (num : ℚ) / den < 2 ^ (m.exponent + 53) := by
      have hs : (m.significand : ℚ) + 1 ≤ 2 ^ 53 := by exact_mod_cast hm.significand_lt
      have habove := hnear.above
      exact (hscale 53).mpr (by linarith)
    have hlog : floorLog2 num den = m.exponent + 52 := by
      refine exponent_unique hspec ⟨not_lt.mp hhigh, ?_⟩
      rw [add_assoc]
      exact htop
    exact .inl (by omega)

/-- **The midpoints are right**: a rational in the interval of a magnitude is rounded to it. -/
theorem nearestBits_of_contains (hm : m.IsMagnitude) (hnum : 0 < num) (hden : 0 < den)
    (h : (Interval.around m).Contains (num / den)) : nearestBits num den = m.bits := by
  have hlt := hm.significand_lt
  have hge := hm.exponent_ge
  have hle := hm.exponent_le
  have hround := nearestEven_grid num hden (max (floorLog2 num den - 52) (-1074))
  unfold nearestBits Dyadic.bits
  rw [if_neg hnum.ne']
  dsimp only
  obtain hgrid | ⟨hs, hexp, hgrid, hdouble⟩ := grid_of_contains hm hnum hden h
  · rw [hgrid] at hround ⊢
    rw [hround.unique (nearestEven_of_contains hm h).1]
    omega
  · rw [hgrid] at hround ⊢
    rw [hround.unique hdouble]
    omega

end WaterNetwork.Number
