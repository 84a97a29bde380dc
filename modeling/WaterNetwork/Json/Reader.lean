import WaterNetwork.Json
import WaterNetwork.Number.Decimal

/-!
# Reading JSON texts

The tree of a JSON text. Each function takes the text from where it stands and yields what it
has read together with the text that follows; nothing follows where the text breaks off.

A number with a point or a power of ten is read by one multiplication or division of doubles. This
is not always the double nearest to the number, so a double that has been written may be read as a
neighbour.
-/

namespace WaterNetwork.Json

/-- The rest of a text, unless it broke off. -/
abbrev Rest := Option (List Char)

/-- Characters that may stand between tokens. -/
def isSpace (c : Char) : Bool := c == ' ' || c == '\t' || c == '\n' || c == '\r'

/-- Pass over the characters between tokens. -/
def skipSpace (cs : List Char) : List Char := cs.dropWhile isSpace

/-! ### Texts -/

/-- Split a text after its opening quote at the closing one. -/
def splitString : List Char → Option (List Char × List Char)
  | [] => none
  | '"' :: rest => some ([], rest)
  | '\\' :: c :: rest => (splitString rest).map fun (body, rest) => ('\\' :: c :: body, rest)
  | c :: rest => (splitString rest).map fun (body, rest) => (c :: body, rest)

/-- A character of a text, or one half of a surrogate pair. -/
inductive Piece where
  | char (c : Char)
  | surrogate (unit : Nat)

/-- The piece that four hexadecimal digits name. -/
def hexPiece? (a b c d : Char) : Option Piece := do
  let unit ← Number.digitsIn? 16 [a, b, c, d]
  return if 0xd800 ≤ unit ∧ unit < 0xe000 then .surrogate unit else .char (Char.ofNat unit)

/-- The character that a letter after a backslash names. -/
def escaped? : Char → Option Char
  | '"' => some '"'
  | '\\' => some '\\'
  | '/' => some '/'
  | 'b' => some '\x08'
  | 'f' => some '\x0c'
  | 'n' => some '\n'
  | 'r' => some '\r'
  | 't' => some '\t'
  | _ => none

/-- The pieces of a text between its quotes, unless an escape is wrong or a control character
stands in it. -/
def pieces? : List Char → Option (List Piece)
  | [] => some []
  | '\\' :: 'u' :: a :: b :: c :: d :: rest => do
    return (← hexPiece? a b c d) :: (← pieces? rest)
  | '\\' :: c :: rest => do return .char (← escaped? c) :: (← pieces? rest)
  | c :: rest => if c.toNat < 0x20 then none else do return .char c :: (← pieces? rest)

/-- Join pieces to characters, unless one half of a surrogate pair stands alone. -/
def joinPieces? : List Piece → Option (List Char)
  | [] => some []
  | .char c :: rest => (joinPieces? rest).map (c :: ·)
  | .surrogate high :: .surrogate low :: rest =>
    if high < 0xdc00 ∧ 0xdc00 ≤ low then
      (joinPieces? rest).map (Char.ofNat (0x10000 + (high - 0xd800) * 1024 + (low - 0xdc00)) :: ·)
    else none
  | .surrogate _ :: _ => none

/-- Read a text after its opening quote: its value, if it has one, and the rest. -/
def readString? (cs : List Char) : Option (Option String × List Char) := do
  let (body, rest) ← splitString cs
  let pieces ← pieces? body
  return ((joinPieces? pieces).map String.ofList, rest)

/-! ### Numbers -/

/-- Split the digits off the front of a text. -/
def splitDigits (cs : List Char) : List Char × List Char :=
  (cs.takeWhile Char.isDigit, cs.dropWhile Char.isDigit)

/-- Split the digits after a point off the front of a text; there is at least one after a
point. -/
def splitFraction? : List Char → Option (List Char × List Char)
  | '.' :: rest =>
    let (digits, rest) := splitDigits rest
    if digits.isEmpty then none else some (digits, rest)
  | cs => some ([], cs)

/-- Split a power of ten off the front of a text; none is told from the power zero. -/
def splitPower? : List Char → Option (Option Int × List Char)
  | c :: rest =>
    if c = 'e' ∨ c = 'E' then
      let (negative, rest) := Number.splitSign rest
      let (digits, rest) := splitDigits rest
      if digits.isEmpty then none
      else
        let power : Int := Number.digitsValue 0 digits
        some (some (if negative then -power else power), rest)
    else some (none, c :: rest)
  | [] => some (none, [])

/-- Append digits to a significand as long as 64 bits hold it: the significand, and the digits that
are left over. -/
def appendDigits (significand : Nat) : List Char → Nat × List Char
  | [] => (significand, [])
  | c :: rest =>
    let next := 10 * significand + Number.digitValue c
    if next < 2 ^ 64 then appendDigits next rest else (significand, c :: rest)

/-- A power of ten as a double. -/
def powerOfTen (n : Nat) : Float := Number.nearest false (10 ^ n) 1

/-- The exponent of the greatest power of ten that is a double. -/
def greatestPower : Nat := 308

/-- Divide by the greatest power of ten, a number of times or until nothing is left. -/
def shrink : Nat → Float → Float
  | 0, x => x
  | n + 1, x => if x == 0 then x else shrink n (x / powerOfTen greatestPower)

/-- Multiply a double by a power of ten, unless the result is out of range. Both factors are rounded
before the product is, so this is not always the double nearest to the decimal. -/
def scale? (x : Float) (exponent : Int) : Option Float :=
  let n := exponent.natAbs
  if exponent < 0 then
    let steps := (n - 1) / greatestPower
    some (shrink steps x / powerOfTen (n - steps * greatestPower))
  else if x == 0 then some x
  else if n ≤ greatestPower then (some (x * powerOfTen n)).filter Number.isFinite
  else none

/-- The double of a significand and a power of ten. -/
def ofParts? (negative : Bool) (significand : Nat) (exponent : Int) : Option Float :=
  (scale? (UInt64.ofNat significand).toFloat exponent).map fun x => if negative then -x else x

/-- A double, if there is one. -/
def ofDouble? (x? : Option Float) : Json := x?.elim valueless float

/-- A whole number is kept as one if 64 bits hold it with its sign; minus zero is a double. -/
def wholeNumber (negative : Bool) (n : Nat) : Json :=
  if ¬ negative then unsigned (UInt64.ofNat n)
  else if 0 < n ∧ n ≤ 2 ^ 63 then signed (Int64.ofInt (-n))
  else float (-(UInt64.ofNat n).toFloat)

/-- The value of a number in its parts. Digits behind the ones that 64 bits hold are not looked at;
those before the point still count as a power of ten. -/
def number (negative : Bool) (whole fraction : List Char) (power? : Option Int) : Json :=
  let (significand, passed) := appendDigits 0 whole
  if passed = [] ∧ fraction = [] ∧ power? = none then wholeNumber negative significand
  else
    let (significand, left) := appendDigits significand fraction
    ofDouble? (ofParts? negative significand
      (power?.getD 0 + passed.length + left.length - fraction.length))

/-- Read a number without its sign. -/
def readNumber? (negative : Bool) (cs : List Char) : Option (Json × List Char) := do
  let (whole, rest) := splitDigits cs
  if whole.isEmpty ∨ (whole.length > 1 ∧ whole.head? = some '0') then none
  let (fraction, rest) ← splitFraction? rest
  let (power?, rest) ← splitPower? rest
  return (number negative whole fraction power?, rest)

/-! ### Values -/

/-- Read a word that names a value. -/
def readWord? (word : String) (value : Json) (cs : List Char) : Option (Json × List Char) :=
  if word.toList.isPrefixOf cs then some (value, cs.drop word.length) else none

/-- Read a scalar. -/
def readScalar? (cs : List Char) : Option (Json × List Char) :=
  match cs with
  | 'n' :: _ => readWord? "null" null cs
  | 't' :: _ => readWord? "true" (boolean true) cs
  | 'f' :: _ => readWord? "false" (boolean false) cs
  | '"' :: rest => (readString? rest).map fun (text, rest) => (text.elim valueless string, rest)
  | '-' :: rest => readNumber? true rest
  | cs => readNumber? false cs

mutual

/-- Read a value. -/
def readValue : Nat → List Char → Json × Rest
  | 0, _ => (cut, none)
  | fuel + 1, cs =>
    match skipSpace cs with
    | '[' :: rest =>
      match skipSpace rest with
      | ']' :: rest => (array [], some rest)
      | rest =>
        let (items, rest) := readItems fuel rest
        (array items, rest)
    | '\x7b' :: rest =>
      match skipSpace rest with
      | '\x7d' :: rest => (object [], some rest)
      | rest =>
        let (entries, rest) := readEntries fuel rest
        (object entries, rest)
    | cs =>
      match readScalar? cs with
      | some (value, rest) => (value, some rest)
      | none => (cut, none)

/-- Read the items of an array, from the first one to the closing bracket. -/
def readItems : Nat → List Char → List Json × Rest
  | 0, _ => ([cut], none)
  | fuel + 1, cs =>
    match readValue fuel cs with
    | (value, none) => ([value], none)
    | (value, some rest) =>
      match skipSpace rest with
      | ']' :: rest => ([value], some rest)
      | ',' :: rest =>
        let (items, rest) := readItems fuel rest
        (value :: items, rest)
      | _ => ([value, cut], none)

/-- Read the entries of an object, from the first key to the closing brace. -/
def readEntries : Nat → List Char → List (Option String × Json) × Rest
  | 0, _ => ([(none, cut)], none)
  | fuel + 1, cs =>
    match skipSpace cs with
    | '"' :: rest =>
      match readString? rest with
      | none => ([(none, cut)], none)
      | some (key, rest) =>
        match skipSpace rest with
        | ':' :: rest =>
          match readValue fuel rest with
          | (value, none) => ([(key, value)], none)
          | (value, some rest) =>
            match skipSpace rest with
            | '\x7d' :: rest => ([(key, value)], some rest)
            | ',' :: rest =>
              let (entries, rest) := readEntries fuel rest
              ((key, value) :: entries, rest)
            | _ => ([(key, value), (none, cut)], none)
        | _ => ([(key, cut)], none)
    | _ => ([(none, cut)], none)

end

/-- The tree of a text, and whether the text ends after it. Every call of a reading function takes
a character or is the second one at a place, so twice the length of the text is fuel enough. -/
def ofText (text : String) : Json × Bool :=
  let cs := text.toList
  let (value, rest) := readValue (2 * cs.length + 2) cs
  (value, rest.elim false fun rest => (skipSpace rest).isEmpty)

end WaterNetwork.Json
