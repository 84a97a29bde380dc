import WaterNetwork.Node.Declaration

/-!
# Network documents

A document names a network, lists its parameters under their names, and declares its nodes. It
is valid if its version is known and its names can tell its parameters, and its nodes, apart.
-/

namespace WaterNetwork

/-- A definition under its name. -/
structure NamedParameter where
  name : String
  definition : Definition

/-- A network as it is stored. -/
structure Document where
  version : UInt32
  name : String
  parameters : List NamedParameter := []
  nodes : List NodeDeclaration := []

namespace Document

/-- The version that new documents have, and the last one that is read. -/
def latestVersion : UInt32 := 1

/-- A document without parameters and nodes. -/
def new (name : String) : Document := { version := latestVersion, name }

/-- The numbers that a document carries. -/
def numbers (d : Document) : List Float :=
  d.parameters.flatMap (·.definition.numbers) ++ d.nodes.flatMap NodeDeclaration.numbers

end Document

/-! ### Validity -/

/-- Why a document is not valid. -/
inductive ValidationError where
  | duplicateName (name context : String)
  | emptyName (context : String)
  | unsupportedVersion (version : UInt32)

/-- The wording of a flaw. -/
def ValidationError.message : ValidationError → String
  | duplicateName name context => s!"Duplicate name: {name} in {context}"
  | emptyName context => s!"Empty name in {context}"
  | unsupportedVersion version => s!"Unsupported version: {version.toNat}"

namespace Document

/-- Check names from the front, after those already seen: none may be empty or come twice. Each
name comes with the context in which it is reported if it is empty. -/
def checkNames (context : String) : List String → List (String × String) →
    Except ValidationError Unit
  | _, [] => .ok ()
  | seen, (name, own) :: rest =>
    if name = "" then .error (.emptyName own)
    else if seen.contains name then .error (.duplicateName name context)
    else checkNames context (name :: seen) rest

/-- The names of the parameters, to be checked. -/
def parameterNames (d : Document) : List (String × String) :=
  d.parameters.map fun p => (p.name, "parameters")

/-- The names of the nodes, to be checked. -/
def nodeNames (d : Document) : List (String × String) :=
  d.nodes.map fun n => (n.name, n.kind.text ++ " nodes")

/-- Check a document: its version, then the names of its parameters, then those of its nodes. -/
def validate (d : Document) : Except ValidationError Unit := do
  if d.version > latestVersion then
    throw (.unsupportedVersion d.version)
  checkNames "parameters" [] d.parameterNames
  checkNames "nodes" [] d.nodeNames

end Document

end WaterNetwork
