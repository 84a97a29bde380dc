import WaterNetwork.Content
import WaterNetwork.Number.Layout
import WaterNetwork.Yaml.Form

/-!
# Writing YAML texts

A content is written in blocks: each item and each entry starts on a line of its own. The entries
of a mapping are indented by two columns more than what they belong to, the items of a sequence
stand under the key they belong to without further indentation, and empty collections are written
between brackets.
-/

namespace WaterNetwork.Yaml

/-! ### Scalars -/

/-- The text of a scalar or of an empty collection; any other collection has none. -/
def scalarText (indent : Nat) : Content → String
  | .null => "null"
  | .boolean value => if value then "true" else "false"
  | .unsigned value => toString value.toNat
  | .signed value => toString value.toInt
  | .float value => Number.yaml.text value
  | .string text => String.ofList ((Form.ofText text).write indent text.toList)
  | .sequence _ => "[]"
  | .mapping _ => "\x7b\x7d"

/-- The text of a key. -/
def keyText : Content → String
  | .string text => String.ofList ((Form.ofKey text).write 0 text.toList)
  | key => scalarText 0 key

/-- End the last line of a text, unless it has ended already. -/
def endLine (text : String) : String :=
  if text.toList.getLast?.any isBreak then text else text ++ "\n"

/-! ### Blocks -/

/-- An indentation. -/
def margin (indent : Nat) : String := String.ofList (List.replicate indent ' ')

mutual

/-- The text of a content that starts in the column of its indentation. -/
def blockText (indent : Nat) : Content → String
  | .sequence (item :: rest) => (margin indent).intercalate (itemTexts indent (item :: rest))
  | .mapping (e :: rest) => (margin indent).intercalate (entryTexts indent (e :: rest))
  | c => endLine (scalarText indent c)

/-- The texts of items. -/
def itemTexts (indent : Nat) : List Content → List String
  | [] => []
  | item :: rest => ("- " ++ blockText (indent + 2) item) :: itemTexts indent rest

/-- The texts of entries. -/
def entryTexts (indent : Nat) : List (Content × Content) → List String
  | [] => []
  | e :: rest => entryText indent e :: entryTexts indent rest

/-- The text of an entry. -/
def entryText (indent : Nat) : Content × Content → String
  | (key, value) => keyText key ++ ":" ++ valueText indent value

/-- The text of the value of an entry. -/
def valueText (indent : Nat) : Content → String
  | .sequence (item :: rest) =>
    "\n" ++ margin indent ++ (margin indent).intercalate (itemTexts indent (item :: rest))
  | .mapping (e :: rest) =>
    "\n" ++ margin (indent + 2) ++
      (margin (indent + 2)).intercalate (entryTexts (indent + 2) (e :: rest))
  | c => endLine (" " ++ scalarText (indent + 2) c)

end

/-- The text of a document. -/
def render (c : Content) : String := blockText 0 c

end WaterNetwork.Yaml
