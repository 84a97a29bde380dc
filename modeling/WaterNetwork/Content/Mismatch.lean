import WaterNetwork.Content
import WaterNetwork.Number.Layout
import WaterNetwork.Text.Quoted

/-!
# Mismatches

A text can be well formed and still not say what it should. A mismatch tells what was found and
what was expected, in words.
-/

namespace WaterNetwork

/-- What stands at the place of a mismatch. -/
inductive Found where
  | null
  | boolean (value : Bool)
  | integer (value : Int)
  | float (value : Float)
  | string (text : String)
  | sequence
  | mapping

namespace Found

/-- The words for what was found. -/
def describe : Found → String
  | null => "null"
  | boolean value => s!"boolean `{value}`"
  | integer value => s!"integer `{value}`"
  | float value => s!"floating point `{Number.json.text value}`"
  | string text => "string " ++ Text.quoted text
  | sequence => "sequence"
  | mapping => "map"

end Found

/-- What a content shows of itself. -/
def Content.found : Content → Found
  | null => .null
  | boolean value => .boolean value
  | unsigned value => .integer value.toNat
  | signed value => .integer value.toInt
  | float value => .float value
  | string text => .string text
  | sequence _ => .sequence
  | mapping _ => .mapping

/-- Why a value does not say what it should. -/
inductive Mismatch where
  | wrongType (found : Found) (expected : String)
  | wrongValue (found : Found) (expected : String)
  | wrongLength (length : Nat) (expected : String)
  | unknownVariant (name : String) (expected : List String)
  | unknownField (name : String) (expected : List String)
  | missingField (name : String)
  | duplicateField (name : String)
  /-- None of the forms of a value fits. -/
  | noForm (type : String)

namespace Mismatch

/-- Names to choose from, in words. -/
def choice : List String → String
  | [] => "nothing"
  | [a] => s!"`{a}`"
  | [a, b] => s!"`{a}` or `{b}`"
  | names => "one of " ++ ", ".intercalate (names.map fun name => s!"`{name}`")

/-- The wording of a mismatch. -/
def message : Mismatch → String
  | wrongType found expected => s!"invalid type: {found.describe}, expected {expected}"
  | wrongValue found expected => s!"invalid value: {found.describe}, expected {expected}"
  | wrongLength length expected => s!"invalid length {length}, expected {expected}"
  | unknownVariant name expected => s!"unknown variant `{name}`, expected {choice expected}"
  | unknownField name expected => s!"unknown field `{name}`, expected {choice expected}"
  | missingField name => s!"missing field `{name}`"
  | duplicateField name => s!"duplicate field `{name}`"
  | noForm type => s!"data did not match any variant of untagged enum {type}"

end Mismatch

/-- A count of elements, in words. -/
def elementCount (n : Nat) : String := if n = 1 then "1 element" else s!"{n} elements"

end WaterNetwork
