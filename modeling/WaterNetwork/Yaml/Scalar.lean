import WaterNetwork.Content
import WaterNetwork.Number.Decimal
import WaterNetwork.Yaml.Token

/-!
# What scalars stand for

A scalar is a text, and how much more it is depends on who reads it. Where any value may stand, a
plain scalar that reads like nothing, a truth value or a number is one, unless a tag decides
otherwise. Where a text is asked for, every scalar is one; where a count is asked for, plain
scalars are read as whole numbers.
-/

namespace WaterNetwork.Yaml

/-! ### Whole numbers -/

/-- A number that starts with superfluous zeros is no number. -/
def hasLeadingZero (text : List Char) : Bool :=
  match (Number.splitSign text).2 with
  | '0' :: x :: rest => (x :: rest).all Char.isDigit
  | _ => false

/-- Read the digits of a whole number without sign, in the base that its first characters name. -/
def readMagnitude? : List Char → Option Nat
  | '0' :: 'x' :: digits => Number.digitsIn? 16 digits
  | '0' :: 'o' :: digits => Number.digitsIn? 8 digits
  | '0' :: 'b' :: digits => Number.digitsIn? 2 digits
  | digits => if hasLeadingZero digits then none else Number.digitsIn? 10 digits

/-- Read a whole number without minus sign. -/
def readUnsigned? : List Char → Option Nat
  | '+' :: text => readMagnitude? text
  | text => readMagnitude? text

/-- Read a whole number that stands for a content. Numbers that need more than 64 bits, but at most
128, are recognised and have no content. -/
inductive WholeNumber where
  | content (c : Content)
  | tooLarge
  /-- The text is no whole number. -/
  | other

/-- Read a whole number. -/
def readWhole (text : List Char) : WholeNumber :=
  match readUnsigned? text with
  | some n =>
    if n < 2 ^ 64 then .content (.unsigned (UInt64.ofNat n))
    else if n < 2 ^ 128 then .tooLarge
    else .other
  | none =>
    match text with
    | '-' :: digits =>
      match readMagnitude? digits with
      | some n =>
        if n ≤ 2 ^ 63 then .content (.signed (Int64.ofInt (-n)))
        else if n ≤ 2 ^ 127 then .tooLarge
        else .other
      | none => .other
    | _ => .other

/-! ### Other values -/

/-- Read the spelling of a truth value. -/
def readTruth? (text : String) : Option Bool :=
  if ["true", "True", "TRUE"].contains text then some true
  else if ["false", "False", "FALSE"].contains text then some false
  else none

/-- Whether a text spells nothing; the empty text does not. -/
def spellsNull (text : String) : Bool := ["null", "Null", "NULL", "~"].contains text

/-- Read a number: a spelling of infinity or of the undefined number, or a decimal that does not
overflow. -/
def readFloat? (text : String) : Option Float :=
  let body := match text.toList with
    | '+' :: rest => rest
    | cs => cs
  if text.toList.head? = some '+' ∧ (body.head? = some '+' ∨ body.head? = some '-') then none
  else if [".inf", ".Inf", ".INF"].contains (String.ofList body) then
    some (Number.nearest false (2 ^ 1024) 1)
  else if ["-.inf", "-.Inf", "-.INF"].contains text then some (Number.nearest true (2 ^ 1024) 1)
  else if [".nan", ".NaN", ".NAN"].contains text then some (0.0 / 0.0)
  else ((Number.Decimal.read? body).map Number.Decimal.toFloat).filter Number.isFinite

/-- The content of a plain scalar without tag; numbers that are too large have none. -/
def readPlainContent? (text : String) : Option Content :=
  if text = "" ∨ spellsNull text then some .null
  else
    match readTruth? text with
    | some b => some (.boolean b)
    | none =>
      match readWhole text.toList with
      | .content c => some c
      | .tooLarge => none
      | .other =>
        match if hasLeadingZero text.toList then none else readFloat? text with
        | some x => some (.float x)
        | none => some (.string text)

/-- The content of a scalar that no tag decides about. -/
def readUntaggedContent? (style : ScalarStyle) (text : String) : Option Content :=
  if style = .plain then readPlainContent? text else some (.string text)

/-- The content of a tagged scalar. A tag of the basic kinds asks for one of them; other tags make
a text of any scalar, but local ones that name nothing leave it as it is. -/
def readTaggedContent? (tag : Tag) (style : ScalarStyle) (text : String) : Option Content :=
  if tag.isLocalName then none
  else if tag.isLocal then readUntaggedContent? style text
  else if tag = .core "bool" then (readTruth? text).map .boolean
  else if tag = .core "int" then
    match readWhole text.toList with
    | .content c => some c
    | .tooLarge | .other => none
  else if tag = .core "float" then (readFloat? text).map .float
  else if tag = .core "null" then if spellsNull text then some .null else none
  else some (.string text)

/-! ### Scalars -/

/-- A scalar as its readers see it. -/
structure Scalar where
  text : String
  /-- What it stands for where any value may stand. -/
  content? : Option Content
  /-- What it stands for where a count is asked for. -/
  count? : Option Nat := none
  /-- Whether there is nothing at all in its place. -/
  isAbsent : Bool := false

/-- The scalar that is written in a style, perhaps with a tag. -/
def Scalar.ofText (tag? : Option Tag) (style : ScalarStyle) (text : String) : Scalar where
  text := text
  content? :=
    match tag? with
    | some tag => readTaggedContent? tag style text
    | none => readUntaggedContent? style text
  count? :=
    if style = .plain ∨ (style = .literal ∧ tag? = some (.core "int")) then
      (readUnsigned? text.toList).filter (· < 2 ^ 64)
    else none
  isAbsent := style = .plain && text == ""

end WaterNetwork.Yaml
