import WaterNetwork.Number.Double

/-!
# Decimal texts of numbers

A decimal text is an optional sign, digits with at most one point among them, and an optional
power of ten. It names the double nearest to its value. The spellings of infinity and of the
undefined number are read without regard to case.
-/

namespace WaterNetwork.Number

/-- The number `± digits * 10 ^ exponent`. -/
structure Decimal where
  negative : Bool
  digits : Nat
  exponent : Int

/-! ### Digits -/

/-- The value of a decimal digit. -/
def digitValue (c : Char) : Nat := c.toNat - '0'.toNat

/-- The number that a run of digits names, continuing from `start`. -/
def digitsValue (start : Nat) (ds : List Char) : Nat :=
  ds.foldl (fun n c => 10 * n + digitValue c) start

/-- Count of decimal digits of a number; zero has one. -/
def digitCount (n : Nat) : Nat := (Nat.toDigits 10 n).length

/-! ### Digits in other bases -/

/-- The value of a hexadecimal digit. -/
def hexDigit? (c : Char) : Option Nat :=
  if c.isDigit then some (c.toNat - '0'.toNat)
  else if 'a' ≤ c ∧ c ≤ 'f' then some (c.toNat - 'a'.toNat + 10)
  else if 'A' ≤ c ∧ c ≤ 'F' then some (c.toNat - 'A'.toNat + 10)
  else none

/-- The value of a digit in a base. -/
def digitIn? (base : Nat) (c : Char) : Option Nat := (hexDigit? c).filter (· < base)

/-- The number that digits name in a base; there is at least one. -/
def digitsIn? (base : Nat) (digits : List Char) : Option Nat :=
  if digits.isEmpty then none
  else digits.foldlM (fun n c => (digitIn? base c).map (base * n + ·)) 0

/-- The hexadecimal digits of a number, in capitals and of a fixed count. -/
def hexDigits : Nat → Nat → List Char
  | 0, _ => []
  | count + 1, n => hexDigits count (n / 16) ++ [(Nat.digitChar (n % 16)).toUpper]

/-! ### The double a decimal names -/

/-- The double nearest to a decimal. Decimals far outside the range of doubles are settled by
their size alone: beyond `10 ^ 310` lies infinity and below `10 ^ (-330)` zero. -/
def Decimal.toFloat (d : Decimal) : Float :=
  let size := digitCount d.digits + d.exponent
  if d.digits = 0 ∨ size < -330 then nearest d.negative 0 1
  else if size > 310 then nearest d.negative (2 ^ 1024) 1
  else if d.exponent < 0 then nearest d.negative d.digits (10 ^ d.exponent.natAbs)
  else nearest d.negative (d.digits * 10 ^ d.exponent.natAbs) 1

/-! ### Reading -/

/-- Split a sign off the front of a text; `true` for a minus. -/
def splitSign : List Char → Bool × List Char
  | '-' :: r => (true, r)
  | '+' :: r => (false, r)
  | cs => (false, cs)

/-- Read the power of ten that ends a decimal text: nothing, or `e` and a signed number. -/
def readExponent? : List Char → Option Int
  | [] => some 0
  | c :: r =>
    if c = 'e' ∨ c = 'E' then
      let (negative, ds) := splitSign r
      if ds.isEmpty ∨ ¬ ds.all Char.isDigit then none
      else some (if negative then -(digitsValue 0 ds : Int) else digitsValue 0 ds)
    else none

/-- Read a decimal text: at least one digit must stand before or after the point. -/
def Decimal.read? (text : List Char) : Option Decimal :=
  let (negative, body) := splitSign text
  let whole := body.takeWhile Char.isDigit
  let rest := body.dropWhile Char.isDigit
  let (fraction, tail) := match rest with
    | '.' :: r => (r.takeWhile Char.isDigit, r.dropWhile Char.isDigit)
    | r => ([], r)
  if whole.isEmpty ∧ fraction.isEmpty then none
  else do
    let power ← readExponent? tail
    return ⟨negative, digitsValue (digitsValue 0 whole) fraction, power - fraction.length⟩

/-- Whether a text spells one of the words, letters of either case. -/
def spells (words : List String) (text : List Char) : Bool :=
  words.contains (String.ofList (text.map Char.toLower))

/-- Read the text of any double: a decimal, an infinity or the undefined number. -/
def readDouble? (text : String) : Option Float :=
  let (negative, body) := splitSign text.toList
  if spells ["inf", "infinity"] body then some (nearest negative (2 ^ 1024) 1)
  else if spells ["nan"] body then some (0.0 / 0.0)
  else (Decimal.read? text.toList).map Decimal.toFloat

end WaterNetwork.Number
