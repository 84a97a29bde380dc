import Mathlib
import WaterNetwork.Number.Double

/-!
# Doubles and their bits

A double is its bits, and the bits of a finite one are its sign and its magnitude.
`Dyadic.IsMagnitude` says which significands and exponents the doubles other than zero have.

* `toBits_of_magnitude` — the bits of a finite double are its sign and its magnitude.
* `nearest_of_magnitude` — a quotient that is rounded to the bits of a magnitude is rounded to
  every double with this magnitude and the right sign.
* `eq_of_magnitude_infinite`, `eq_of_magnitude_undefined` — of other doubles there are only the two
  infinities and the undefined number.
-/

namespace WaterNetwork.Number

/-- The bits of a magnitude, sign apart. The leading one of a normal number adds one to the
exponent field. -/
def Dyadic.bits (m : Dyadic) : ℕ := (m.exponent + 1074).toNat * 2 ^ 52 + m.significand

/-- **The magnitudes of doubles**: a significand has at most fifty-three bits, and just as many
unless the exponent is the smallest one. -/
structure Dyadic.IsMagnitude (m : Dyadic) : Prop where
  significand_pos : 0 < m.significand
  significand_lt : m.significand < 2 ^ 53
  exponent_ge : -1074 ≤ m.exponent
  exponent_le : m.exponent ≤ 971
  normal : -1074 < m.exponent → 2 ^ 52 ≤ m.significand

variable {x : Float} {m : Dyadic}

theorem exists_magnitude (h : isFinite x = true) : ∃ m, magnitude x = .finite m := by
  unfold magnitude
  simp only [isFinite, bne_iff_ne, ne_eq] at h
  split <;> simp_all

/-- The magnitude of a finite double is subnormal or has a leading one. -/
theorem magnitude_cases (h : magnitude x = .finite m) :
    (exponentField x = 0 ∧ m = ⟨fractionField x, -1074⟩) ∨
      (0 < exponentField x ∧ exponentField x < 2047 ∧
        m = ⟨2 ^ 52 + fractionField x, exponentField x - 1075⟩) := by
  have hexp : exponentField x < 2 ^ 11 := Nat.mod_lt _ (Nat.two_pow_pos _)
  unfold magnitude at h
  split at h
  case h_1 | h_2 => cases h
  case h_3 hzero =>
    cases h
    exact .inl ⟨hzero, rfl⟩
  case h_4 htop hzero _ =>
    cases h
    have htop : exponentField x ≠ 2047 := htop
    exact .inr ⟨Nat.pos_of_ne_zero hzero, by omega, rfl⟩

theorem isFinite_of_magnitude (h : magnitude x = .finite m) : isFinite x = true := by
  rw [isFinite, bne_iff_ne]
  obtain ⟨hexp, -⟩ | ⟨-, hexp, -⟩ := magnitude_cases h <;> omega

/-- A finite double is zero or has a magnitude. -/
theorem isMagnitude_of_magnitude (h : magnitude x = .finite m) (hpos : 0 < m.significand) :
    m.IsMagnitude := by
  have hfrac : fractionField x < 2 ^ 52 := Nat.mod_lt _ (Nat.two_pow_pos _)
  obtain ⟨-, rfl⟩ | ⟨_, _, rfl⟩ := magnitude_cases h <;>
    constructor <;> dsimp only at * <;> omega

/-- The bits of a finite double are its sign and its magnitude. -/
theorem toBits_of_magnitude (h : magnitude x = .finite m) :
    x.toBits.toNat = (if isNegative x then 2 ^ 63 else 0) + m.bits := by
  have hbits := x.toBits.toNat_lt
  have hsplit : x.toBits.toNat = (if isNegative x then 2 ^ 63 else 0) +
      exponentField x * 2 ^ 52 + fractionField x := by
    unfold exponentField fractionField isNegative
    split <;> simp_all only [beq_iff_eq] <;> omega
  rw [hsplit, Nat.add_assoc, Nat.add_left_cancel_iff]
  obtain ⟨_, rfl⟩ | ⟨_, _, rfl⟩ := magnitude_cases h <;>
    unfold Dyadic.bits <;> dsimp only <;> omega

/-- A quotient that is rounded to the bits of a magnitude is rounded to every double with this
magnitude and the right sign. -/
theorem nearest_of_magnitude {num den : ℕ} (h : magnitude x = .finite m)
    (hbits : nearestBits num den = m.bits) : nearest (isNegative x) num den = x := by
  rw [nearest, hbits, ← toBits_of_magnitude h, UInt64.ofNat_toNat, Float.ofBits_toBits]

/-! ### Doubles that are not finite -/

/-- An infinity is what every quotient beyond the range of doubles is rounded to. -/
theorem eq_of_magnitude_infinite (h : magnitude x = .infinite) :
    x = nearest (isNegative x) (2 ^ 1024) 1 := by
  have hfields : exponentField x = 2047 ∧ fractionField x = 0 := by
    unfold magnitude at h
    split at h <;> simp_all
  have hbits : nearestBits (2 ^ 1024) 1 = 2047 * 2 ^ 52 := by decide +kernel
  have hsplit : x.toBits.toNat = (if isNegative x then 2 ^ 63 else 0) + 2047 * 2 ^ 52 := by
    have hlt := x.toBits.toNat_lt
    obtain ⟨hexp, hfrac⟩ := hfields
    unfold exponentField at hexp
    unfold fractionField at hfrac
    unfold isNegative
    split <;> simp_all only [beq_iff_eq] <;> omega
  rw [nearest, hbits, ← hsplit, UInt64.ofNat_toNat, Float.ofBits_toBits]

open Float.Model UnpackedFloat in
/-- There is one undefined number: its bits are fixed. -/
theorem eq_of_magnitude_undefined (h : magnitude x = .undefined) : x = 0.0 / 0.0 := by
  have hfields : exponentField x = 2047 ∧ fractionField x ≠ 0 := by
    unfold magnitude at h
    split at h <;> simp_all
  have hexp : (@unpackExponent .binary64 x.toBits.toBitVec).toNat = exponentField x := by
    rw [unpackExponent, BitVec.toNat_cast, BitVec.extractLsb_toNat, Nat.shiftRight_eq_div_pow]
    rfl
  have hfrac : (@unpackMantissa .binary64 x.toBits.toBitVec).toNat = fractionField x := by
    rw [unpackMantissa, BitVec.toNat_cast, BitVec.extractLsb_toNat]
    rfl
  have hnan : x.toBits.toBitVec = packedNaN .binary64 := by
    refine x.toModel.valid.eq_packedNaN (BitVec.eq_of_toNat_eq ?_) fun hzero => hfields.2 ?_
    · exact hexp.trans hfields.1
    · rw [← hfrac]
      exact congrArg BitVec.toNat hzero
  refine Float.toBits_inj.mp (UInt64.toBitVec_inj.mp ?_)
  rw [hnan]
  rfl

end WaterNetwork.Number
