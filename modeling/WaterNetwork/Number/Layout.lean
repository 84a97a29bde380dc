import WaterNetwork.Number.Shortest

/-!
# Layouts of numbers

How the shortest digits of a double are written down is the business of the text they appear
in. A layout gathers the choices; `plain` is used in messages, `json` and `yaml` in documents.
-/

namespace WaterNetwork.Number

/-- The choices a text makes when it writes a double. -/
structure Layout where
  tie : Tie
  /-- Whether a number whose first digit has this exponent is written with all its zeros. -/
  positional : Int → Bool
  /-- What follows a positional number without a fraction. -/
  wholeMark : String
  /-- What stands before a positive exponent. -/
  plus : String
  infinity : String
  negativeInfinity : String
  undefined : String

/-- Write digits with all their zeros; `exponent` is that of the last digit. -/
def positionalText (wholeMark : String) (digits : Nat) (exponent : Int) : String :=
  let ds := Nat.toDigits 10 digits
  if exponent ≥ 0 then
    String.ofList (ds ++ List.replicate exponent.toNat '0') ++ wholeMark
  else
    let places := exponent.natAbs
    let padded := List.replicate (places + 1 - ds.length) '0' ++ ds
    String.ofList (padded.take (padded.length - places)) ++ "." ++
      String.ofList (padded.drop (padded.length - places))

/-- Write digits with a point after the first one, and a power of ten. -/
def scientificText (plus : String) (digits : Nat) (exponent : Int) : String :=
  let ds := Nat.toDigits 10 digits
  let power := exponent + (ds.length - 1)
  let mark := if power < 0 then "-" else plus
  String.ofList (ds.take 1) ++ (if ds.length > 1 then "." else "") ++ String.ofList (ds.drop 1)
    ++ "e" ++ mark ++ toString power.natAbs

/-- The text of a double under a layout. -/
def Layout.text (l : Layout) (x : Float) : String :=
  let sign := if isNegative x then "-" else ""
  match magnitude x with
  | .undefined => l.undefined
  | .infinite => if isNegative x then l.negativeInfinity else l.infinity
  | .finite m =>
    if m.significand = 0 then sign ++ positionalText l.wholeMark 0 0
    else
      let (digits, exponent) := shortest l.tie m
      let first := exponent + (digitCount digits - 1)
      sign ++
        if l.positional first then positionalText l.wholeMark digits exponent
        else scientificText l.plus digits exponent

/-! ### The three layouts -/

/-- Messages never use an exponent, and whole numbers carry no point. -/
def plain : Layout where
  tie := .up
  positional _ := true
  wholeMark := ""
  plus := ""
  infinity := "inf"
  negativeInfinity := "-inf"
  undefined := "NaN"

/-- JSON documents write exponents from `-5` to `15` positionally. No JSON text stands for a
number that is not finite, so such a number becomes `null`. -/
def json : Layout where
  tie := .toEven
  positional e := -5 ≤ e && e < 16
  wholeMark := ".0"
  plus := "+"
  infinity := "null"
  negativeInfinity := "null"
  undefined := "null"

/-- YAML documents differ from JSON in the exponent's sign and can write every double. -/
def yaml : Layout where
  tie := .toEven
  positional e := -5 ≤ e && e < 16
  wholeMark := ".0"
  plus := ""
  infinity := ".inf"
  negativeInfinity := "-.inf"
  undefined := ".nan"

end WaterNetwork.Number
