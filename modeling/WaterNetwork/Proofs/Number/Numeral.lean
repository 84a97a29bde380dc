import WaterNetwork.Number.Layout
import WaterNetwork.Proofs.Number.Decimal

/-!
# The numerals of doubles

A finite double is written as a sign and a numeral: digits around a point, or digits and a power
of ten. `Numeral` says what a numeral looks like and which decimal it writes down; what stands
before a positive power is up to the layout.

* `numeral_positionalText`, `numeral_scientificText` — either layout of digits is a numeral of
  their value.
* `exists_numeral` — the text of a finite double is a sign and a numeral whose decimal names the
  double.
-/

namespace WaterNetwork.Number

variable {x : Float} {m : Dyadic} {n : ℕ} {e : ℤ}

/-! ### Digits -/

theorem digitsValue_append (start : ℕ) (ds ds' : List Char) :
    digitsValue start (ds ++ ds') = digitsValue (digitsValue start ds) ds' :=
  List.foldl_append

theorem digitsValue_toDigits (n : ℕ) : digitsValue 0 (Nat.toDigits 10 n) = n :=
  Nat.ofDigitChars_ten_toDigits

theorem digitsValue_replicate (start k : ℕ) :
    digitsValue start (List.replicate k '0') = 10 ^ k * start :=
  Nat.ofDigitChars_replicate_zero

theorem isDigit_of_mem_toDigits {c : Char} (h : c ∈ Nat.toDigits 10 n) : c.isDigit = true :=
  Nat.isDigit_of_mem_toDigits (by norm_num) le_rfl h

/-- Zero apart, no number starts with the digit zero. -/
theorem head?_toDigits_ne_zero (hn : 0 < n) : (Nat.toDigits 10 n).head? ≠ some '0' := by
  induction n using Nat.strong_induction_on with
  | _ n ih =>
    rcases Nat.lt_or_ge n 10 with hlt | hge
    · rw [Nat.toDigits_of_lt_base hlt]
      interval_cases n <;> decide
    · rw [Nat.toDigits_of_base_le (by norm_num) hge,
        List.head?_append_of_ne_nil _ Nat.toDigits_ne_nil]
      exact ih (n / 10) (by omega) (by omega)

/-! ### Numerals -/

/-- The digits before a point: there is one, and the first of several is not zero. -/
structure IsWhole (ds : List Char) : Prop where
  ne_nil : ds ≠ []
  digits : ∀ c ∈ ds, c.isDigit = true
  leading : 1 < ds.length → ds.head? ≠ some '0'

/-- **Numerals**: a text without its sign, and the decimal `digits * 10 ^ exponent` that it writes
down. -/
inductive Numeral (plus : String) : List Char → ℕ → ℤ → Prop where
  | point {whole fraction : List Char} (hwhole : IsWhole whole) (hne : fraction ≠ [])
    (hfraction : ∀ c ∈ fraction, c.isDigit = true) :
    Numeral plus (whole ++ '.' :: fraction) (digitsValue 0 (whole ++ fraction)) (-fraction.length)
  | power {whole fraction power : List Char} (negative : Bool) (hwhole : IsWhole whole)
    (hfraction : ∀ c ∈ fraction, c.isDigit = true) (hne : power ≠ [])
    (hpower : ∀ c ∈ power, c.isDigit = true) :
    Numeral plus
      (whole ++ (if fraction = [] then [] else '.' :: fraction) ++
        'e' :: ((if negative then "-" else plus).toList ++ power))
      (digitsValue 0 (whole ++ fraction))
      ((if negative then -(digitsValue 0 power : ℤ) else digitsValue 0 power) - fraction.length)

/-- A numeral starts with a digit. -/
theorem exists_digit_of_isWhole {ds : List Char} (h : IsWhole ds) (rest : List Char) :
    ∃ c cs, ds ++ rest = c :: cs ∧ c.isDigit = true := by
  obtain ⟨c, cs, rfl⟩ := List.exists_cons_of_ne_nil h.ne_nil
  exact ⟨c, cs ++ rest, rfl, h.digits c List.mem_cons_self⟩

theorem exists_digit_of_numeral {plus : String} {text : List Char} {digits : ℕ} {exponent : ℤ}
    (h : Numeral plus text digits exponent) (rest : List Char) :
    ∃ c cs, text ++ rest = c :: cs ∧ c.isDigit = true := by
  cases h with
  | point hwhole =>
    rw [List.append_assoc]
    exact exists_digit_of_isWhole hwhole _
  | power negative hwhole =>
    rw [List.append_assoc, List.append_assoc]
    exact exists_digit_of_isWhole hwhole _

theorem isWhole_zero : IsWhole ['0'] :=
  ⟨List.cons_ne_nil _ _, List.forall_mem_singleton.mpr rfl, by simp⟩

/-- The digits of a number, and any that are put behind them. -/
theorem isWhole_of_toDigits (hn : 0 < n) {ds : List Char} (hne : ds ≠ [])
    (hhead : ds.head? = (Nat.toDigits 10 n).head?) (hdigits : ∀ c ∈ ds, c.isDigit = true) :
    IsWhole ds :=
  ⟨hne, hdigits, fun _ => hhead ▸ head?_toDigits_ne_zero hn⟩

theorem isWhole_toDigits (n : ℕ) : IsWhole (Nat.toDigits 10 n) := by
  rcases Nat.eq_zero_or_pos n with rfl | hn
  · exact isWhole_zero
  · exact isWhole_of_toDigits hn Nat.toDigits_ne_nil rfl
      fun c hc => isDigit_of_mem_toDigits hc

theorem toList_positionalText_of_nonneg (n : ℕ) (he : 0 ≤ e) :
    (positionalText ".0" n e).toList =
      (Nat.toDigits 10 n ++ List.replicate e.toNat '0') ++ '.' :: ['0'] := by
  unfold positionalText
  dsimp only
  rw [if_pos he, String.toList_append, String.toList_ofList]
  rfl

/-- The digits of a number with a zero for each place that they do not reach. -/
def padded (places n : ℕ) : List Char :=
  List.replicate (places + 1 - (Nat.toDigits 10 n).length) '0' ++ Nat.toDigits 10 n

theorem toList_positionalText_of_neg (n : ℕ) (he : e < 0) :
    (positionalText ".0" n e).toList =
      (padded e.natAbs n).take ((padded e.natAbs n).length - e.natAbs) ++
        '.' :: (padded e.natAbs n).drop ((padded e.natAbs n).length - e.natAbs) := by
  unfold positionalText padded
  dsimp only
  rw [if_neg (not_le.mpr he)]
  simp only [String.toList_append, String.toList_ofList, List.append_assoc]
  rfl

theorem lt_length_padded (places n : ℕ) : places < (padded places n).length := by
  rw [padded, List.length_append, List.length_replicate]
  omega

theorem isDigit_of_mem_padded {places : ℕ} {c : Char} (h : c ∈ padded places n) :
    c.isDigit = true := by
  rcases List.mem_append.mp h with h | h
  · rw [List.eq_of_mem_replicate h]
    rfl
  · exact isDigit_of_mem_toDigits h

theorem digitsValue_padded (places n : ℕ) : digitsValue 0 (padded places n) = n := by
  rw [padded, digitsValue_append, digitsValue_replicate, mul_zero, digitsValue_toDigits]

theorem isWhole_take_padded {places : ℕ} (hplaces : 0 < places) :
    IsWhole ((padded places n).take ((padded places n).length - places)) := by
  have hlen := lt_length_padded places n
  rcases Nat.lt_or_ge places (Nat.toDigits 10 n).length with hlt | hge
  · have hpadded : padded places n = Nat.toDigits 10 n := by
      rw [padded, show places + 1 - (Nat.toDigits 10 n).length = 0 by omega]
      rfl
    have hn : 0 < n := by
      refine Nat.pos_of_ne_zero fun hzero => ?_
      rw [hzero, Nat.toDigits_zero, List.length_singleton] at hlt
      omega
    rw [hpadded] at hlen ⊢
    refine isWhole_of_toDigits hn ?_ ?_ fun c hc =>
      isDigit_of_mem_toDigits (List.mem_of_mem_take hc)
    · rw [← List.length_pos_iff, List.length_take]
      omega
    · rw [List.head?_take, if_neg (by omega)]
  · have hpadded : (padded places n).length = places + 1 := by
      rw [padded, List.length_append, List.length_replicate]
      omega
    rw [hpadded, Nat.add_sub_cancel_left, padded, Nat.sub_add_comm hge]
    exact isWhole_zero

/-- All zeros written out. -/
theorem numeral_positionalText (plus : String) (hzero : n = 0 → e ≤ 0) :
    ∃ digits exponent, Numeral plus (positionalText ".0" n e).toList digits exponent ∧
      (digits : ℚ) * 10 ^ exponent = n * 10 ^ e := by
  rcases lt_or_ge e 0 with he | he
  · rw [toList_positionalText_of_neg n he]
    have hlen := lt_length_padded e.natAbs n
    refine ⟨_, _, .point (isWhole_take_padded (by omega)) ?_
      fun c hc => isDigit_of_mem_padded (List.mem_of_mem_drop hc), ?_⟩
    · rw [← List.length_pos_iff, List.length_drop]
      omega
    · rw [List.take_append_drop, digitsValue_padded, List.length_drop]
      congr 2
      omega
  · rw [toList_positionalText_of_nonneg n he]
    have hwhole : IsWhole (Nat.toDigits 10 n ++ List.replicate e.toNat '0') := by
      rcases Nat.eq_zero_or_pos n with rfl | hn
      · rw [show e = 0 by have := hzero rfl; omega]
        exact isWhole_zero
      · refine isWhole_of_toDigits hn (by simp [Nat.toDigits_ne_nil]) ?_ fun c hc => ?_
        · rw [List.head?_append_of_ne_nil _ Nat.toDigits_ne_nil]
        · rcases List.mem_append.mp hc with hc | hc
          · exact isDigit_of_mem_toDigits hc
          · rw [List.eq_of_mem_replicate hc]
            rfl
    refine ⟨_, _, .point hwhole (List.cons_ne_nil _ _) (List.forall_mem_singleton.mpr rfl), ?_⟩
    have hvalue : digitsValue 0 (Nat.toDigits 10 n ++ List.replicate e.toNat '0' ++ ['0']) =
        10 ^ (e.toNat + 1) * n := by
      rw [List.append_assoc, ← List.replicate_succ', digitsValue_append, digitsValue_toDigits,
        digitsValue_replicate]
    rw [hvalue, List.length_singleton]
    push_cast
    rw [mul_comm ((10 : ℚ) ^ _), mul_assoc, ← zpow_natCast, ← zpow_add₀ (by norm_num)]
    congr 2
    omega

theorem toList_scientificText (plus : String) (n : ℕ) (e : ℤ) :
    (scientificText plus n e).toList =
      (Nat.toDigits 10 n).take 1 ++
        (if (Nat.toDigits 10 n).drop 1 = [] then [] else '.' :: (Nat.toDigits 10 n).drop 1) ++
        'e' :: ((if e + ((Nat.toDigits 10 n).length - 1) < 0 then "-" else plus).toList ++
          Nat.toDigits 10 (e + ((Nat.toDigits 10 n).length - 1)).natAbs) := by
  unfold scientificText
  dsimp only
  simp only [String.toList_append, String.toList_ofList, List.append_assoc,
    Nat.toString_eq_ofList_toDigits]
  have hdrop : (Nat.toDigits 10 n).drop 1 = [] ↔ ¬ (Nat.toDigits 10 n).length > 1 := by
    rw [List.drop_eq_nil_iff, not_lt]
  by_cases hlong : (Nat.toDigits 10 n).length > 1
  · rw [if_pos hlong, if_neg (mt hdrop.mp (not_not.mpr hlong))]
    rfl
  · rw [if_neg hlong, if_pos (hdrop.mpr hlong), hdrop.mpr hlong]
    rfl

/-- A power of ten written out. -/
theorem numeral_scientificText (plus : String) (hn : 0 < n) :
    ∃ digits exponent, Numeral plus (scientificText plus n e).toList digits exponent ∧
      (digits : ℚ) * 10 ^ exponent = n * 10 ^ e := by
  have hlen : 0 < (Nat.toDigits 10 n).length := Nat.length_toDigits_pos
  have hwhole : IsWhole ((Nat.toDigits 10 n).take 1) := by
    refine isWhole_of_toDigits hn ?_ ?_ fun c hc =>
      isDigit_of_mem_toDigits (List.mem_of_mem_take hc)
    · simp [Nat.toDigits_ne_nil]
    · rw [List.head?_take, if_neg one_ne_zero]
  have hfraction : ∀ c ∈ (Nat.toDigits 10 n).drop 1, c.isDigit = true :=
    fun c hc => isDigit_of_mem_toDigits (List.mem_of_mem_drop hc)
  have hpower : ∀ c ∈ Nat.toDigits 10 (e + ((Nat.toDigits 10 n).length - 1)).natAbs,
    c.isDigit = true := fun c hc => isDigit_of_mem_toDigits hc
  have hnumeral : Numeral plus _ _ _ := .power (e + ((Nat.toDigits 10 n).length - 1) < 0) hwhole
    hfraction Nat.toDigits_ne_nil hpower
  simp only [decide_eq_true_eq] at hnumeral
  rw [toList_scientificText plus n e]
  refine ⟨_, _, hnumeral, ?_⟩
  rw [List.take_append_drop, digitsValue_toDigits, digitsValue_toDigits, List.length_drop]
  congr 2
  split <;> omega

/-- Digits of either layout. -/
theorem numeral_digits (plus : String) (positional : Bool) (hn : 0 < n) (e : ℤ) :
    ∃ digits exponent,
      Numeral plus
        (if positional then positionalText ".0" n e else scientificText plus n e).toList
        digits exponent ∧ (digits : ℚ) * 10 ^ exponent = n * 10 ^ e := by
  cases positional with
  | true => exact numeral_positionalText plus fun h => absurd h hn.ne'
  | false => exact numeral_scientificText plus hn

/-! ### Texts of doubles -/

/-- **The text of a finite double** is a sign and a numeral whose decimal names the double. -/
theorem exists_numeral {l : Layout} (hl : l.wholeMark = ".0") (hx : isFinite x = true) :
    ∃ text digits exponent,
      (l.text x).toList = (if isNegative x then ['-'] else []) ++ text ∧
      Numeral l.plus text digits exponent ∧
      Decimal.toFloat ⟨isNegative x, digits, exponent⟩ = x := by
  obtain ⟨m, hm⟩ := exists_magnitude hx
  have hsign : (if isNegative x then "-" else "").toList = if isNegative x then ['-'] else [] := by
    split <;> rfl
  unfold Layout.text
  rw [hm]
  dsimp only
  rw [hl]
  rcases Nat.eq_zero_or_pos m.significand with hzero | hpos
  · obtain ⟨digits, exponent, hnumeral, hvalue⟩ :=
      numeral_positionalText (n := 0) (e := 0) l.plus fun _ => le_rfl
    have hdigits : digits = 0 := by
      rw [Nat.cast_zero, zero_mul, mul_eq_zero_iff_right (by positivity)] at hvalue
      exact_mod_cast hvalue
    subst hdigits
    rw [if_pos hzero, String.toList_append, hsign]
    exact ⟨_, _, _, rfl, hnumeral, toFloat_zero hm hzero exponent⟩
  · have hmag := isMagnitude_of_magnitude hm hpos
    have hin := contains_shortest l.tie hmag
    have hdigits : 0 < (shortest l.tie m).1 := by
      refine Nat.pos_of_ne_zero fun hzero => ?_
      have := (bounds_of_contains hmag hin).1
      rw [hzero, Nat.cast_zero, zero_mul] at this
      exact absurd this (not_le.mpr (two_zpow_pos _))
    obtain ⟨digits, exponent, hnumeral, hvalue⟩ := numeral_digits l.plus
      (l.positional ((shortest l.tie m).2 + (digitCount (shortest l.tie m).1 - 1)))
      hdigits (shortest l.tie m).2
    rw [if_neg hpos.ne', String.toList_append, hsign]
    exact ⟨_, _, _, rfl, hnumeral, toFloat_of_contains hm hmag (hvalue ▸ hin)⟩

end WaterNetwork.Number
