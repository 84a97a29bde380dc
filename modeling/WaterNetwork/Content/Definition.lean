import WaterNetwork.Content.Fields
import WaterNetwork.Parameter.Definition

/-!
# Definitions as contents

How definitions and constraint fields are read from contents and written as contents. A
definition is a tagged value whose kind decides its fields; keys that name no field are faults.
Writing leaves absent options out.
-/

namespace WaterNetwork

open Content (entry)

/-! ### Fields of definitions -/

/-- The value of a field of a definition. -/
inductive DefinitionValue where
  | number (x : Float)
  | numberOption (x : Option Float)
  | months (xs : Vector Float 12)
  | text (s : String)
  | textOption (s : Option String)
  | texts (names : List String)
  | aggregation (function : Aggregation)
  | steps (n : UInt64)
  | subIndexOption (s : Option SubIndex)

namespace Content

/-- Read a sub-index. -/
def readSubIndex (c : Content) : Except Mismatch SubIndex :=
  (readNatural (2 ^ 32) "u32" c).map fun n => ⟨UInt32.ofNat n⟩

/-- Read a number of timesteps. -/
def readSteps (c : Content) : Except Mismatch UInt64 :=
  (readNatural (2 ^ 64) "usize" c).map UInt64.ofNat

/-- Read twelve numbers. -/
def readMonths : Content → Except Mismatch (Vector Float 12)
  | sequence items => do
    let xs ← (items.take 12).mapM readNumber
    if h : xs.toArray.size = 12 then
      if items.length > 12 then throw (.wrongLength items.length "12 elements in sequence")
      return ⟨xs.toArray, h⟩
    else throw (.wrongLength items.length "an array of length 12")
  | c => .error (.wrongType c.found "an array of length 12")

/-- Read the name of an aggregation, alone or as the only key of a mapping to nothing. -/
def readAggregation : Content → Except Mismatch Aggregation
  | string text => readVariant Aggregation.all Aggregation.text (string text)
  | mapping [(key, value)] => do
    let function ← readVariant Aggregation.all Aggregation.text key
    match value with
    | null | mapping [] => return function
    | c => throw (.wrongType c.found "unit")
  | mapping _ => .error (.wrongValue .mapping "map with a single key")
  | c => .error (.wrongType c.found "string or map")

end Content

namespace DefinitionValue

/-- A field with a number. -/
def numberField (name : String) : Field DefinitionValue where
  name := name
  read c := c.readNumber.map number

/-- A field with a number that may be left out. -/
def numberOptionField (name : String) : Field DefinitionValue where
  name := name
  read c := (c.readOptional Content.readNumber).map numberOption
  fallback := some (numberOption none)

/-- A field with a text. -/
def textField (name : String) (expected : String := "a string") : Field DefinitionValue where
  name := name
  read c := (c.readText expected).map text

/-- A field with a text that may be left out. -/
def textOptionField (name : String) : Field DefinitionValue where
  name := name
  read c := (c.readOptional (Content.readText "a string")).map textOption
  fallback := some (textOption none)

/-- A field with a value for each month. -/
def monthsField (name : String) : Field DefinitionValue where
  name := name
  read c := c.readMonths.map months

/-- A field with a list of names. -/
def textsField (name : String) : Field DefinitionValue where
  name := name
  read c := (c.readSequence (Content.readText "a string") "a sequence").map texts

/-- A field with an aggregation. -/
def aggregationField (name : String) : Field DefinitionValue where
  name := name
  read c := c.readAggregation.map aggregation

/-- A field with a number of timesteps. -/
def stepsField (name : String) : Field DefinitionValue where
  name := name
  read c := c.readSteps.map steps

/-- A field with a sub-index that may be left out. -/
def subIndexOptionField (name : String) : Field DefinitionValue where
  name := name
  read c := (c.readOptional Content.readSubIndex).map subIndexOption
  fallback := some (subIndexOption none)

end DefinitionValue

open DefinitionValue in
/-- The fields of a kind of definition, in order. -/
def DefinitionKind.fields : DefinitionKind → List (Field DefinitionValue)
  | constant => [numberField "value"]
  | monthlyProfile => [monthsField "values"]
  | timeseries => [textField "url" "path string", textOptionField "column"]
  | max | min | negativeMax | negativeMin =>
    [textField "parameter", numberOptionField "threshold"]
  | negative => [textField "parameter"]
  | aggregated => [textsField "parameters", aggregationField "agg_func"]
  | division => [textField "numerator", textField "denominator"]
  | delay =>
    [textField "node", subIndexOptionField "sub_index", stepsField "delay",
      numberField "initial_value"]

namespace Definition

/-- The definition with the given values, which are those of the fields of its kind. -/
def ofValues? : DefinitionKind → List DefinitionValue → Option Definition
  | .constant, [.number value] => some (constant value)
  | .monthlyProfile, [.months values] => some (monthlyProfile values)
  | .timeseries, [.text url, .textOption column] => some (timeseries url column)
  | .max, [.text parameter, .numberOption threshold] => some (bounded .max parameter threshold)
  | .min, [.text parameter, .numberOption threshold] => some (bounded .min parameter threshold)
  | .negativeMax, [.text parameter, .numberOption threshold] =>
    some (bounded .negativeMax parameter threshold)
  | .negativeMin, [.text parameter, .numberOption threshold] =>
    some (bounded .negativeMin parameter threshold)
  | .negative, [.text parameter] => some (negative parameter)
  | .aggregated, [.texts parameters, .aggregation function] =>
    some (aggregated parameters function)
  | .division, [.text numerator, .text denominator] => some (division numerator denominator)
  | .delay, [.text node, .subIndexOption sub, .steps steps, .number initialValue] =>
    some (delay node sub steps initialValue)
  | _, _ => none

/-! ### Reading -/

/-- The name of the type in messages. -/
def typeName : String := "ParameterDef"

/-- Read the kind of a definition. -/
def readKind : Content → Except Mismatch DefinitionKind :=
  Content.readVariant DefinitionKind.all DefinitionKind.text

/-- Read a definition of a known kind. -/
def ofBody (kind : DefinitionKind) (body : Body) : Except Mismatch Definition := do
  let rule := KeyRule.closed (kind.fields.map (·.name))
  let values ← Field.readBody rule s!"struct variant {typeName}::{kind.text}" kind.fields body
  match ofValues? kind values with
  | some d => return d
  | none => throw (.noForm typeName)

/-- Read a definition. -/
def ofContent (c : Content) : Except Mismatch Definition := do
  let (kind, body) ← c.readTagged typeName readKind
  ofBody kind body

/-- Read a definition from the entries of a mapping. -/
def ofEntries (entries : List (Content × Content)) : Except Mismatch Definition :=
  ofContent (.mapping entries)

/-! ### Writing -/

/-- An entry for an option; nothing is written if it is absent. -/
def optionEntry {α : Type} (key : String) (toContent : α → Content) :
    Option α → List (Content × Content)
  | some a => [entry key (toContent a)]
  | none => []

/-- The entries of the fields of a definition, in order. -/
def fieldEntries : Definition → List (Content × Content)
  | constant value => [entry "value" (.float value)]
  | monthlyProfile values => [entry "values" (.sequence (values.toList.map .float))]
  | timeseries url column => entry "url" (.string url) :: optionEntry "column" .string column
  | bounded _ parameter threshold =>
    entry "parameter" (.string parameter) :: optionEntry "threshold" .float threshold
  | negative parameter => [entry "parameter" (.string parameter)]
  | aggregated parameters function =>
    [entry "parameters" (.sequence (parameters.map .string)),
      entry "agg_func" (.string function.text)]
  | division numerator denominator =>
    [entry "numerator" (.string numerator), entry "denominator" (.string denominator)]
  | delay node sub steps initialValue =>
    entry "node" (.string node) ::
      (optionEntry "sub_index" (fun s => .unsigned s.value.toUInt64) sub ++
        [entry "delay" (.unsigned steps), entry "initial_value" (.float initialValue)])

/-- The entries of a definition: its kind, then its fields. -/
def entries (d : Definition) : List (Content × Content) :=
  entry tagKey (.string d.kind.text) :: d.fieldEntries

/-- A definition as a content. -/
def toContent (d : Definition) : Content := .mapping d.entries

end Definition

/-! ### Constraint fields -/

namespace ConstraintField

/-- Read a constraint field: a number, a text, or anything that is a definition. -/
def ofContent (c : Content) : Except Mismatch ConstraintField :=
  match c.number?, c with
  | some x, _ => .ok (literal x)
  | none, .string name => .ok (reference name)
  | none, c =>
    match Definition.ofContent c with
    | .ok d => .ok (inline d)
    | .error _ => .error (.noForm "ConstraintField")

/-- A constraint field as a content. -/
def toContent : ConstraintField → Content
  | literal value => .float value
  | reference name => .string name
  | inline d => d.toContent

end ConstraintField

end WaterNetwork
