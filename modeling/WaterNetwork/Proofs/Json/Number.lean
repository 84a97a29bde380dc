import WaterNetwork.Json.Reader
import WaterNetwork.Json.Writer
import WaterNetwork.Proofs.Number.Numeral

/-!
# Reading numbers back

A number is read to its end, so what is read depends on what follows: in a text that has been
written, a comma, a line break or nothing. `Closes` says so of the rest of a text.

Whole numbers are read as themselves. What a double is read as is up to the reader's arithmetic
(`reread?`), and nothing here is said about it but what does not depend on what follows: a number is
kept (`Keeps`) if it is read as itself.

* `readNumber?_toDigits` — digits are read as a whole number.
* `readScalar?_float`, `readScalar?_nat`, `readScalar?_signed` — what the texts of numbers are read
  as.
* `Keeps.isFinite` — only finite numbers are kept.
-/

namespace WaterNetwork.Json

open Number (IsWhole Numeral digitsValue)

variable {ds rest : List Char}

/-! ### Where a value ends -/

/-- **The rest of a text closes a value**: it is empty or starts with a comma or a line break. -/
def Closes (rest : List Char) : Prop := ∀ c ∈ rest.head?, c = ',' ∨ c = '\n'

theorem closes_nil : Closes [] := nofun

theorem closes_comma (rest : List Char) : Closes (',' :: rest) := by simp [Closes]

theorem closes_break (rest : List Char) : Closes ('\n' :: rest) := by simp [Closes]

theorem Closes.not_isDigit (h : Closes rest) : ∀ c ∈ rest.head?, c.isDigit = false := by
  intro c hc
  rcases h c hc with rfl | rfl <;> rfl

/-! ### Parts of a number -/

theorem splitDigits_append (hds : ∀ c ∈ ds, c.isDigit = true)
    (hrest : ∀ c ∈ rest.head?, c.isDigit = false) : splitDigits (ds ++ rest) = (ds, rest) := by
  rw [splitDigits, List.takeWhile_append_of_pos hds, List.dropWhile_append_of_pos hds]
  cases rest with
  | nil => simp
  | cons c rest =>
    have hc : c.isDigit = false := hrest c rfl
    simp [hc]

theorem splitFraction?_point (hne : ds ≠ []) (hds : ∀ c ∈ ds, c.isDigit = true)
    (hrest : ∀ c ∈ rest.head?, c.isDigit = false) :
    splitFraction? ('.' :: (ds ++ rest)) = some (ds, rest) := by
  rw [splitFraction?, splitDigits_append hds hrest]
  simp [hne]

theorem splitFraction?_of_ne_point (h : rest.head? ≠ some '.') :
    splitFraction? rest = some ([], rest) := by
  unfold splitFraction?
  split
  · exact absurd rfl h
  · rfl

theorem splitPower?_none (h : Closes rest) : splitPower? rest = some (none, rest) := by
  cases rest with
  | nil => rfl
  | cons c rest => rcases h c rfl with rfl | rfl <;> rfl

theorem splitPower?_power (negative : Bool) (hne : ds ≠ []) (hds : ∀ c ∈ ds, c.isDigit = true)
    (hrest : Closes rest) :
    splitPower? ('e' :: ((if negative then "-" else "+").toList ++ (ds ++ rest))) =
      some (some (if negative then -(digitsValue 0 ds : ℤ) else digitsValue 0 ds), rest) := by
  have hdigits := splitDigits_append hds hrest.not_isDigit
  cases negative <;> simp [splitPower?, Number.splitSign, hdigits, hne]

/-! ### Numbers -/

/-- A number is read part by part. -/
theorem readNumber?_eq {cs whole fraction r₁ r₂ : List Char} {power? : Option ℤ} (negative : Bool)
    (hwhole : IsWhole whole) (hdigits : splitDigits cs = (whole, r₁))
    (hfraction : splitFraction? r₁ = some (fraction, r₂))
    (hpower : splitPower? r₂ = some (power?, rest)) :
    readNumber? negative cs = some (number negative whole fraction power?, rest) := by
  have hgood : ¬ (whole.isEmpty ∨ (whole.length > 1 ∧ whole.head? = some '0')) := by
    rintro (hempty | ⟨hlong, hzero⟩)
    · exact hwhole.ne_nil (List.isEmpty_iff.mp hempty)
    · exact hwhole.leading hlong hzero
  rw [readNumber?, hdigits]
  dsimp only
  rw [if_neg hgood]
  simp only [hfraction, hpower, bind, Option.bind]
  rfl

/-- A number with a point or a power of ten is a double, if it is in range. -/
theorem exists_number_eq (negative : Bool) (whole : List Char) {fraction : List Char}
    {power? : Option ℤ} (h : ¬ (fraction = [] ∧ power? = none)) :
    ∃ x?, number negative whole fraction power? = ofDouble? x? := by
  rw [number]
  dsimp only
  rw [if_neg fun hall => h hall.2]
  exact ⟨_, rfl⟩

/-- A numeral is read as a double, if it is in range, whatever closes it. -/
theorem exists_readNumber?_numeral {text : List Char} {digits : ℕ} {exponent : ℤ} (negative : Bool)
    (h : Numeral "+" text digits exponent) :
    ∃ x?, ∀ rest, Closes rest →
      readNumber? negative (text ++ rest) = some (ofDouble? x?, rest) := by
  cases h with
  | @point whole fraction hwhole hne hfraction =>
    have hfloat : ¬ (fraction = [] ∧ (none : Option ℤ) = none) := fun h => hne h.1
    obtain ⟨x?, hx⟩ := exists_number_eq negative whole hfloat
    refine ⟨x?, fun rest hrest => ?_⟩
    have hdigits : splitDigits (whole ++ '.' :: fraction ++ rest) =
        (whole, '.' :: (fraction ++ rest)) := by
      rw [List.append_assoc]
      exact splitDigits_append hwhole.digits (by simp)
    rw [readNumber?_eq negative hwhole hdigits
      (splitFraction?_point hne hfraction hrest.not_isDigit) (splitPower?_none hrest), hx]
  | @power whole fraction power negativePower hwhole hfraction hne hpower =>
    have hfloat (n : ℤ) : ¬ (fraction = [] ∧ some n = none) := nofun
    obtain ⟨x?, hx⟩ := exists_number_eq negative whole (hfloat _)
    refine ⟨x?, fun rest hrest => ?_⟩
    have hpower := splitPower?_power negativePower hne hpower hrest
    rcases eq_or_ne fraction [] with rfl | hpoint
    · rw [if_pos rfl, List.append_nil, List.append_assoc]
      have hdigits : splitDigits (whole ++
          ('e' :: ((if negativePower then "-" else "+").toList ++ power) ++ rest)) =
          (whole, 'e' :: ((if negativePower then "-" else "+").toList ++ (power ++ rest))) := by
        simp only [List.append_assoc, List.cons_append]
        exact splitDigits_append hwhole.digits (by simp)
      rw [readNumber?_eq negative hwhole hdigits (splitFraction?_of_ne_point (by simp)) hpower, hx]
    · rw [if_neg hpoint, List.append_assoc, List.append_assoc]
      have hdigits : splitDigits (whole ++ ('.' :: fraction ++
          ('e' :: ((if negativePower then "-" else "+").toList ++ power) ++ rest))) =
          (whole, '.' :: (fraction ++
            ('e' :: ((if negativePower then "-" else "+").toList ++ (power ++ rest))))) := by
        simp only [List.append_assoc, List.cons_append]
        exact splitDigits_append hwhole.digits (by simp)
      rw [readNumber?_eq negative hwhole hdigits
        (splitFraction?_point hpoint hfraction (by simp)) hpower, hx]

theorem le_digitsValue (n : ℕ) (ds : List Char) : n ≤ digitsValue n ds := by
  induction ds generalizing n with
  | nil => exact le_refl n
  | cons d ds ih => exact le_trans (by omega) (ih (10 * n + Number.digitValue d))

/-- Digits that 64 bits hold are all looked at. -/
theorem appendDigits_of_lt {n : ℕ} (h : digitsValue n ds < 2 ^ 64) :
    appendDigits n ds = (digitsValue n ds, []) := by
  induction ds generalizing n with
  | nil => rfl
  | cons d ds ih =>
    have hnext : 10 * n + Number.digitValue d < 2 ^ 64 := (le_digitsValue _ ds).trans_lt h
    rw [appendDigits, if_pos hnext]
    exact ih h

/-- Digits alone are read as a whole number. -/
theorem readNumber?_toDigits (negative : Bool) {n : ℕ} (hn : n < 2 ^ 64) (hrest : Closes rest) :
    readNumber? negative (Nat.toDigits 10 n ++ rest) = some (wholeNumber negative n, rest) := by
  have hwhole := Number.isWhole_toDigits n
  have hpoint : rest.head? ≠ some '.' := fun h => by
    rcases hrest _ h with h | h <;> simp at h
  have hvalue : appendDigits 0 (Nat.toDigits 10 n) = (n, []) := by
    rw [appendDigits_of_lt (by rwa [Number.digitsValue_toDigits]), Number.digitsValue_toDigits]
  rw [readNumber?_eq negative hwhole (splitDigits_append hwhole.digits hrest.not_isDigit)
    (splitFraction?_of_ne_point hpoint) (splitPower?_none hrest), number, hvalue]
  rfl

/-! ### Scalars -/

/-- A text that starts with a digit is not that of any scalar but a number. -/
theorem readScalar?_of_isDigit {text : List Char} (h : ∃ c cs, text = c :: cs ∧ c.isDigit = true) :
    readScalar? text = readNumber? false text := by
  obtain ⟨c, cs, rfl, hc⟩ := h
  unfold readScalar?
  split
  case h_6 => rfl
  all_goals
    rename_i heq
    cases heq
    simp at hc

/-- **What the text of a number is read as**: nothing if the number has no text, or if its text is
out of range. -/
def reread? (x : Float) : Option Float :=
  match readScalar? (Number.json.text x).toList with
  | some (.float y, _) => some y
  | _ => none

/-- **A number is kept**: its text is read as that number. The reader inverts the writer on it. -/
def Keeps (x : Float) : Prop := reread? x = some x

instance : DecidablePred Keeps := fun x => inferInstanceAs (Decidable (reread? x = some x))

/-- **The reader inverts the writer** on the finite ones of some numbers. -/
def InvertsOn (xs : List Float) : Prop := ∀ x ∈ xs, Number.isFinite x = true → Keeps x

instance : DecidablePred InvertsOn := fun xs =>
  inferInstanceAs (Decidable (∀ x ∈ xs, Number.isFinite x = true → Keeps x))

/-- The text of a number, if it has one, is not out of range. -/
def Legible (x : Float) : Prop := Number.isFinite x = true → (reread? x).isSome = true

/-- The text of a finite double is read as a double if it is in range, whatever closes it. -/
theorem readScalar?_float {x : Float} (hx : Number.isFinite x = true) (hrest : Closes rest) :
    readScalar? ((Number.json.text x).toList ++ rest) = some (ofDouble? (reread? x), rest) := by
  obtain ⟨text, digits, exponent, htext, hnumeral, -⟩ :=
    Number.exists_numeral (l := Number.json) rfl hx
  obtain ⟨x?, hnumber⟩ := exists_readNumber?_numeral (Number.isNegative x) hnumeral
  have hread (rest : List Char) (hrest : Closes rest) :
      readScalar? ((Number.json.text x).toList ++ rest) = some (ofDouble? x?, rest) := by
    rw [htext]
    cases hneg : Number.isNegative x with
    | true =>
      rw [hneg] at hnumber
      exact hnumber rest hrest
    | false =>
      rw [hneg] at hnumber
      rw [if_neg Bool.false_ne_true, List.nil_append,
        readScalar?_of_isDigit (Number.exists_digit_of_numeral hnumeral rest)]
      exact hnumber rest hrest
  have hx? : reread? x = x? := by
    have hnil := hread [] closes_nil
    rw [List.append_nil] at hnil
    rw [reread?, hnil]
    cases x? <;> rfl
  rw [hx?, hread rest hrest]

/-- The text of a double that is not finite is that of nothing. -/
theorem text_of_not_finite {x : Float} (hx : ¬ Number.isFinite x = true) :
    Number.json.text x = "null" := by
  unfold Number.Layout.text
  cases hm : Number.magnitude x with
  | finite m => exact absurd (Number.isFinite_of_magnitude hm) hx
  | infinite => dsimp only [Number.json]; split <;> rfl
  | undefined => rfl

theorem readScalar?_float_of_not_finite {x : Float} (hx : ¬ Number.isFinite x = true) :
    readScalar? ((Number.json.text x).toList ++ rest) = some (null, rest) := by
  rw [text_of_not_finite hx]
  rfl

theorem reread?_of_not_finite {x : Float} (hx : ¬ Number.isFinite x = true) : reread? x = none := by
  rw [reread?, text_of_not_finite hx]
  rfl

/-- Only finite numbers have a text. -/
theorem isFinite_of_isSome_reread? {x : Float} (h : (reread? x).isSome = true) :
    Number.isFinite x = true := by
  by_contra hx
  rw [reread?_of_not_finite hx] at h
  cases h

/-- **Only finite numbers are kept.** -/
theorem Keeps.isFinite {x : Float} (h : Keeps x) : Number.isFinite x = true :=
  isFinite_of_isSome_reread? (by rw [h]; rfl)

/-- Numbers on which the reader inverts the writer are kept just if they are finite. -/
theorem InvertsOn.keeps_iff {xs : List Float} (h : InvertsOn xs) {x : Float} (hx : x ∈ xs) :
    Keeps x ↔ Number.isFinite x = true :=
  ⟨Keeps.isFinite, h x hx⟩

-- The reader does not invert the writer on all finite numbers: the last digit may change.
example : reread? 51.248178375505404 = some 51.24817837550541 := by decide +kernel

/-- The text of a natural number is read back. -/
theorem readScalar?_nat {n : ℕ} (hn : n < 2 ^ 64) (hrest : Closes rest) :
    readScalar? ((toString n).toList ++ rest) = some (unsigned (UInt64.ofNat n), rest) := by
  rw [Nat.toString_eq_ofList_toDigits, String.toList_ofList,
    readScalar?_of_isDigit (Number.exists_digit_of_isWhole (Number.isWhole_toDigits _) _),
    readNumber?_toDigits false hn hrest, wholeNumber, if_pos Bool.false_ne_true]

/-- The text of a negative number is read back. -/
theorem readScalar?_negative {n : ℕ} (hpos : 0 < n) (hn : n ≤ 2 ^ 63) (hrest : Closes rest) :
    readScalar? (("-" ++ toString n).toList ++ rest) =
      some (signed (Int64.ofInt (-n)), rest) := by
  rw [Nat.toString_eq_ofList_toDigits, String.toList_append, String.toList_ofList,
    String.toList_ofList, List.append_assoc]
  refine (readNumber?_toDigits true (by omega) hrest).trans ?_
  rw [wholeNumber, if_neg (not_not.mpr rfl), if_pos ⟨hpos, hn⟩]

/-- The text of a whole number with a sign is read back; without a minus the sign is lost. -/
theorem readScalar?_signed (n : Int64) (hrest : Closes rest) :
    readScalar? ((toString n.toInt).toList ++ rest) =
      some (if n.toInt < 0 then signed n else unsigned (UInt64.ofNat n.toInt.toNat), rest) := by
  have hlow := n.le_toInt
  have hhigh := n.toInt_lt
  cases hn : n.toInt with
  | ofNat k =>
    rw [hn, Int.ofNat_eq_natCast] at hhigh
    rw [Int.ofNat_eq_natCast, if_neg (by omega)]
    exact readScalar?_nat (by omega) hrest
  | negSucc k =>
    rw [hn] at hlow
    rw [if_pos (Int.negSucc_lt_zero k)]
    refine (readScalar?_negative (Nat.succ_pos k) (by omega) hrest).trans ?_
    rw [show -((k.succ : ℕ) : ℤ) = n.toInt from hn.symm, Int64.ofInt_toInt]

end WaterNetwork.Json
