import Std.Data.HashMap
import WaterNetwork.FileSystem
import WaterNetwork.Parameter.Definition

/-!
# Parameter tables

A table keeps the definitions of a model under their names, in the order of insertion, with an
index from names to identifiers. It only grows: a name that is taken is not given again, and no
entry is removed or replaced.
-/

namespace WaterNetwork

/-- Why a parameter is refused or not found. -/
inductive ParameterError where
  | unknownParameter (name : String)
  | nameCollision (name : String)
  /-- No regular file stands where the data file should be. -/
  | missingDataFile (name : String) (path : Path)
  /-- The place of the data file cannot be looked at. -/
  | unreadableDataFile (name : String) (path : Path) (fault : FileFault)
  | invalid (name : String) (source : ValueError)

/-- The wording of a refusal. -/
def ParameterError.message : ParameterError → String
  | unknownParameter name => s!"Parameter `{name}` not found"
  | nameCollision name => s!"Parameter `{name}` already exists"
  | missingDataFile name path => s!"Data file for parameter `{name}` not found: {path}"
  | unreadableDataFile name path fault =>
    s!"Data file for parameter `{name}` could not be read: {path}: {fault.kindText}"
  | invalid name source => s!"Invalid definition for parameter `{name}`: {source.message}"

/-- A definition under its name. -/
structure ParameterEntry where
  id : Ident
  name : String
  definition : Definition

/-- Entries in the order of insertion. -/
structure ParameterTable where
  entries : List ParameterEntry := []
  /-- The identifier of every name. -/
  index : Std.HashMap String Ident := ∅

namespace ParameterTable

/-- The table without entries. -/
def empty : ParameterTable := {}

/-- How many entries there are. -/
def size (t : ParameterTable) : Nat := t.entries.length

/-- The names in the order of insertion. -/
def names (t : ParameterTable) : List String := t.entries.map (·.name)

/-- Whether a name is taken. -/
def contains (t : ParameterTable) (name : String) : Bool := t.index.contains name

/-- The entry of a name. -/
def entry? (t : ParameterTable) (name : String) : Option ParameterEntry :=
  t.index[name]?.bind fun id => t.entries[id.index]?

/-- The definition of a name. -/
def get? (t : ParameterTable) (name : String) : Option Definition :=
  (t.entry? name).map (·.definition)

/-- The identifier of a name that has to be there. -/
def require (t : ParameterTable) (name : String) : Except ParameterError Ident :=
  match t.index[name]? with
  | some id => .ok id
  | none => .error (.unknownParameter name)

/-- Require names one after the other. -/
def requireAll (t : ParameterTable) : List String → Except ParameterError Unit
  | [] => .ok ()
  | name :: rest => do
    let _ ← t.require name
    t.requireAll rest

/-- Add an entry at the end, under a name that is not taken: what comes of it, and the table that
is left. -/
def insert (t : ParameterTable) (name : String) (definition : Definition) :
    Except ParameterError Ident × ParameterTable :=
  if t.contains name then (.error (.nameCollision name), t)
  else match Ident.ofIndex t.entries.length with
    | .error source => (.error (.invalid name source), t)
    | .ok id => (.ok id, {
        entries := t.entries ++ [{ id, name, definition }]
        index := t.index.insert name id })

/-- Check that every parameter that a definition combines is in the table. -/
def checkReferences (t : ParameterTable) : Except ParameterError Unit :=
  t.requireAll (t.entries.flatMap (·.definition.references))

end ParameterTable

end WaterNetwork
