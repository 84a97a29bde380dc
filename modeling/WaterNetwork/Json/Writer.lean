import WaterNetwork.Content
import WaterNetwork.Number.Layout

/-!
# Writing JSON texts

A content is written without spaces, or with each item and entry on a line of its own, indented by
its depth. Keys that are not texts do not occur in contents that are written.
-/

namespace WaterNetwork.Json

/-! ### Scalars -/

/-- Characters below the space that have no letter of their own are written by number. -/
def controlEscape (c : Char) : List Char :=
  let n := c.toNat
  ['\\', 'u', '0', '0', if n < 16 then '0' else '1', Nat.digitChar (n % 16)]

/-- A character between quotes. -/
def escape (c : Char) : List Char :=
  if c = '"' ∨ c = '\\' then ['\\', c]
  else if c = '\x08' then ['\\', 'b']
  else if c = '\x0c' then ['\\', 'f']
  else if c = '\n' then ['\\', 'n']
  else if c = '\r' then ['\\', 'r']
  else if c = '\t' then ['\\', 't']
  else if c.toNat < 0x20 then controlEscape c
  else [c]

/-- A text between quotes. -/
def stringText (text : String) : String :=
  "\"" ++ String.ofList (text.toList.flatMap escape) ++ "\""

/-- The text of a scalar; a collection has none. -/
def scalarText : Content → String
  | .null => "null"
  | .boolean value => if value then "true" else "false"
  | .unsigned value => toString value.toNat
  | .signed value => toString value.toInt
  | .float value => Number.json.text value
  | .string text => stringText text
  | .sequence _ | .mapping _ => ""

/-- The text of a key. -/
def keyText : Content → String
  | .string text => stringText text
  | key => stringText (scalarText key)

/-! ### On one line -/

mutual

/-- The text of a content without spaces. -/
def compact : Content → String
  | .sequence items => "[" ++ ",".intercalate (compactItems items) ++ "]"
  | .mapping entries => "\x7b" ++ ",".intercalate (compactEntries entries) ++ "\x7d"
  | c => scalarText c

/-- The texts of items. -/
def compactItems : List Content → List String
  | [] => []
  | item :: rest => compact item :: compactItems rest

/-- The texts of entries. -/
def compactEntries : List (Content × Content) → List String
  | [] => []
  | e :: rest => compactEntry e :: compactEntries rest

/-- The text of an entry. -/
def compactEntry : Content × Content → String
  | (key, value) => keyText key ++ ":" ++ compact value

end

/-! ### On several lines -/

/-- A line break with two spaces for each level. -/
def newLine (depth : Nat) : String := "\n" ++ String.ofList (List.replicate (2 * depth) ' ')

/-- Texts on lines of their own, between brackets; nothing comes between the brackets if there
are no texts. -/
def lines (opening closing : String) (depth : Nat) (texts : List String) : String :=
  if texts.isEmpty then opening ++ closing
  else opening ++ newLine (depth + 1) ++ ("," ++ newLine (depth + 1)).intercalate texts ++
    newLine depth ++ closing

mutual

/-- The text of a content on several lines, at a depth. -/
def pretty (depth : Nat) : Content → String
  | .sequence items => lines "[" "]" depth (prettyItems (depth + 1) items)
  | .mapping entries => lines "\x7b" "\x7d" depth (prettyEntries (depth + 1) entries)
  | c => scalarText c

/-- The texts of items. -/
def prettyItems (depth : Nat) : List Content → List String
  | [] => []
  | item :: rest => pretty depth item :: prettyItems depth rest

/-- The texts of entries. -/
def prettyEntries (depth : Nat) : List (Content × Content) → List String
  | [] => []
  | e :: rest => prettyEntry depth e :: prettyEntries depth rest

/-- The text of an entry. -/
def prettyEntry (depth : Nat) : Content × Content → String
  | (key, value) => keyText key ++ ": " ++ pretty depth value

end

end WaterNetwork.Json
