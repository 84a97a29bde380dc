import WaterNetwork.Builder
import WaterNetwork.Parameter.Table

/-!
# Resolving fields

A declared field becomes a value that a builder takes: a number as it is, or the name of a
parameter. Definitions on the spot, and numbers for builders that refuse them, are first put
into the table under the name derived from the node. These are attempts on the table, which is the
last thing that they change.
-/

namespace WaterNetwork

/-- Where the data files of a model are: a file system and the directory of the model in it. -/
structure Site where
  files : FileSystem
  path : Path := "."

/-- An insertion, as an attempt on a table. -/
def ParameterTable.insertion (name : String) (definition : Definition) :
    Attempt ParameterTable ParameterError Ident := fun t => t.insert name definition

namespace Definition

/-- The definition with its data file named from the directory of the model. The file must be
there; its contents are left to the simulation. -/
def anchor (site : Site) (name : String) : Definition → Except ParameterError Definition
  | timeseries url column =>
    let path := site.path.join url
    match site.files.inspect path with
    | .ok (.file _) => .ok (timeseries path column)
    | .ok _ | .error .notFound => .error (.missingDataFile name path)
    | .error fault => .error (.unreadableDataFile name path fault)
  | definition => .ok definition

/-- Check a definition and anchor its data file. -/
def prepare (site : Site) (name : String) (definition : Definition) :
    Except ParameterError Definition :=
  match definition.check with
  | .error source => .error (.invalid name source)
  | .ok () => definition.anchor site name

/-- Put a definition into the table under a new name, and refer to it by that name. -/
def materialize (site : Site) (name : String) (definition : Definition) :
    Attempt ParameterTable ParameterError ConstraintValue := do
  let table ← get
  if table.contains name then
    throw (.nameCollision name)
  let anchored ← MonadExcept.ofExcept (definition.prepare site name)
  MonadExcept.ofExcept (table.requireAll anchored.references)
  let _ ← ParameterTable.insertion name anchored
  return .parameter name

end Definition

/-- Turn a field into a value, given whether the builder takes numbers as they are. -/
def ConstraintField.resolve (site : Site) (derivedName : String) (acceptsLiterals : Bool)
    (field : ConstraintField) : Attempt ParameterTable ParameterError ConstraintValue :=
  match field with
  | .literal value =>
    match ensureFinite "constraint literal" value with
    | .error source => throw (.invalid derivedName source)
    | .ok value =>
      if acceptsLiterals then return .literal value
      else (Definition.constant value).materialize site derivedName
  | .reference name => do
    let _ ← MonadExcept.ofExcept ((← get).require name)
    return .parameter name
  | .inline definition => definition.materialize site derivedName

end WaterNetwork
