import WaterNetwork.Number.Decimal
import WaterNetwork.Yaml.Token
import WaterNetwork.Yaml.Cursor

/-!
# Directives, tags and anchors in YAML texts

How the tokens that a percent sign, an exclamation mark, an ampersand or an asterisk begins are
read.
-/

namespace WaterNetwork.Yaml

/-! ### Anchors -/

/-- Characters that may follow a name right away. -/
def mayFollowName (x : Char) : Bool :=
  isBlank x || isBreak x || "?:,]\x7d%@\x60".toList.contains x

/-- Read the name of an anchor after its mark. -/
def readAnchorName? (c : Cursor) : Option (String × Cursor) :=
  let (name, c) := c.span isNameChar
  if name.isEmpty || !(c.at? 0).all mayFollowName then none
  else some (String.ofList name, c)

/-! ### Tags -/

/-- Characters of a tag's address, other than the escape; brackets and commas only where the
address is bounded otherwise. -/
def isAddressChar (bounded : Bool) (x : Char) : Bool :=
  isNameChar x || ";/?:@&=+$.!~*'()".toList.contains x || (bounded && ",[]".toList.contains x)

/-- Read one escaped byte. -/
def readEscapedByte? : List Char → Option UInt8
  | '%' :: x :: y :: _ => (Number.digitsIn? 16 [x, y]).map UInt8.ofNat
  | _ => none

/-- How many bytes a character has whose first byte is this one. -/
def byteCount? (b : UInt8) : Option Nat :=
  if b < 0x80 then some 1
  else if 0xc0 ≤ b ∧ b < 0xe0 then some 2
  else if 0xe0 ≤ b ∧ b < 0xf0 then some 3
  else if 0xf0 ≤ b ∧ b < 0xf8 then some 4
  else none

/-- Whether a byte goes on with a character. -/
def continuesChar (b : UInt8) : Bool := 0x80 ≤ b && b < 0xc0

/-- Read the escaped bytes of one character. The first one tells how many there are; whether they
make up a character is not asked. -/
def readEscapedBytes? (c : Cursor) : Option (List UInt8 × Cursor) := do
  let first ← readEscapedByte? c.rest
  let count ← byteCount? first
  let bytes ← (List.range count).mapM fun i => readEscapedByte? (c.rest.drop (3 * i))
  if (bytes.drop 1).all continuesChar then return (bytes, c.advance (3 * count)) else none

/-- Read the bytes of an address; its characters other than escapes are ASCII. -/
def readAddress? (bounded : Bool) : Nat → Cursor → Option (List UInt8 × Cursor)
  | 0, _ => none
  | fuel + 1, c =>
    match c.at? 0 with
    | some '%' => do
      let (bytes, c) ← readEscapedBytes? c
      let (more, c) ← readAddress? bounded fuel c
      return (bytes ++ more, c)
    | some x =>
      if isAddressChar bounded x then
        (readAddress? bounded fuel (c.advance 1)).map fun (more, c) => (x.toUInt8 :: more, c)
      else some ([], c)
    | none => some ([], c)

/-- Read the bytes of an address from a cursor to its end. -/
def address? (bounded : Bool) (c : Cursor) : Option (List UInt8 × Cursor) :=
  readAddress? bounded (c.rest.length + 1) c

/-- Read the handle of a tag: an exclamation mark, a name, and another mark if there is one. -/
def readHandle (c : Cursor) : List Char × Cursor :=
  let (name, c) := (c.advance 1).span isNameChar
  if c.isAt 0 '!' then ('!' :: name ++ ['!'], c.advance 1) else ('!' :: name, c)

/-- Read a tag that is written out between angle brackets. -/
def readVerbatimTag? (c : Cursor) : Option (Token × Cursor) := do
  let (address, c) ← address? true (c.advance 2)
  if address.isEmpty || !c.isAt 0 '>' then none
  else return (.tag "" (.ofBytes address), c.advance 1)

/-- Read a tag that starts with a handle. Without a second mark what looks like the name of a
handle belongs to the address; a mark with nothing behind it is a tag of its own. -/
def readShortTag? (c : Cursor) : Option (Token × Cursor) := do
  let (handle, c) := readHandle c
  let (address, c) ← address? false c
  if handle.length > 1 ∧ handle.getLast? = some '!' then
    if address.isEmpty then none
    else return (.tag (String.ofList handle) (.ofBytes address), c)
  else
    let suffix := Tag.ofBytes ((handle.drop 1).map Char.toUInt8 ++ address)
    if suffix.isEmpty then return (.tag "" .localMark, c) else return (.tag "!" suffix, c)

/-- Read a tag; a blank, or inside brackets a comma, has to follow it. -/
def readTag? (inFlow : Bool) (c : Cursor) : Option (Token × Cursor) := do
  let (token, c) ← if c.isAt 1 '<' then readVerbatimTag? c else readShortTag? c
  if c.endsWord 0 || (inFlow && c.isAt 0 ',') then return (token, c) else none

/-! ### Directives -/

/-- Read a number of a version; it has one to nine digits. -/
def readVersionNumber? (c : Cursor) : Option (Nat × Cursor) :=
  let (digits, c) := c.span Char.isDigit
  if digits.isEmpty ∨ digits.length > 9 then none
  else some ((String.ofList digits).toNat?.getD 0, c)

/-- Read a version directive after its name. -/
def readVersion? (c : Cursor) : Option (Token × Cursor) := do
  let (major, c) ← readVersionNumber? (c.skipWhile isBlank)
  if !c.isAt 0 '.' then none
  let (minor, c) ← readVersionNumber? (c.advance 1)
  return (.version major minor, c)

/-- Read a tag directive after its name. -/
def readTagHandle? (c : Cursor) : Option (Token × Cursor) := do
  let c := c.skipWhile isBlank
  if !c.isAt 0 '!' then none
  let (handle, c) := readHandle c
  if handle.length > 1 ∧ handle.getLast? ≠ some '!' then none
  if !(c.at? 0).any isBlank then none
  let (address, c) ← address? true (c.skipWhile isBlank)
  if address.isEmpty || !c.endsWord 0 then none
  return (.tagHandle (String.ofList handle) (.ofBytes address), c)

/-- Read a directive, and the end of its line. -/
def readDirective? (c : Cursor) : Option (Token × Cursor) := do
  let (name, c) := (c.advance 1).span isNameChar
  if !c.endsWord 0 then none
  let (token, c) ← match String.ofList name with
    | "YAML" => readVersion? c
    | "TAG" => readTagHandle? c
    | _ => none
  return (token, ← c.finishLine?)

end WaterNetwork.Yaml
