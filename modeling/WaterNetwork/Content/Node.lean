import WaterNetwork.Content.Definition
import WaterNetwork.Document

/-!
# Nodes and documents as contents

How node declarations are read from contents and written as contents. A declaration is a tagged
value; entries that name none of its fields are passed over. The name of a node with flow
constraints is read before its constraints, wherever they stand. Documents and their named
parameters are written with their keys in a fixed order.
-/

namespace WaterNetwork

open Content (entry)

/-- The value of a field of a node. -/
inductive NodeValue where
  | text (s : String)
  | steps (n : UInt64)
  | number (x : Float)
  | constraint (field : Option ConstraintField)

namespace NodeValue

/-- The name of a node. -/
def nameField : Field NodeValue where
  name := "name"
  read c := (c.readText "a string").map text

/-- A cost or a flow bound; null counts as absent. -/
def constraintField (a : NodeAttribute) : Field NodeValue where
  name := a.text
  read c := (c.readOptional ConstraintField.ofContent).map constraint
  fallback := some (constraint none)

/-- The fields of a delay. -/
def delayFields : List (Field NodeValue) :=
  [nameField,
    { name := "delay", read := fun c => c.readSteps.map steps },
    { name := "initial_value", read := fun c => c.readNumber.map number,
      fallback := some (number 0.0) }]

/-- The fields of the flow constraints. -/
def flowFields : List (Field NodeValue) := FlowConstraints.applyOrder.map constraintField

end NodeValue

namespace NodeDeclaration

/-! ### Reading -/

/-- The name of the type in messages. -/
def typeName : String := "NodeDeclaration"

/-- Read the kind of a declaration. -/
def readKind : Content → Except Mismatch DeclarationKind :=
  Content.readVariant DeclarationKind.all DeclarationKind.text

/-- Read a node with flow constraints from its entries. -/
def flowOfEntries (kind : NodeKind) (entries : List (Content × Content)) :
    Except Mismatch NodeDeclaration := do
  let own := [NodeValue.nameField]
  let names ← Field.readMapping (.named (own.map (·.name))) own entries
  let shared := NodeValue.flowFields
  let bounds ← Field.readMapping (.textual (shared.map (·.name))) shared entries
  match names, bounds with
  | [.text name], [.constraint cost, .constraint maxFlow, .constraint minFlow] =>
    return flow kind name { cost, maxFlow, minFlow }
  | _, _ => throw (.noForm typeName)

/-- Read a delay from its body. -/
def delayOfBody (body : Body) : Except Mismatch NodeDeclaration := do
  let fields := NodeValue.delayFields
  match ← Field.readBody (.openTo (fields.map (·.name))) "struct DelayNode" fields body with
  | [.text name, .steps steps, .number initialValue] => return delay name steps initialValue
  | _ => throw (.noForm typeName)

/-- Read a declaration of a known kind. -/
def ofBody : DeclarationKind → Body → Except Mismatch NodeDeclaration
  | .delay, body => delayOfBody body
  | .flow kind, .fields entries => flowOfEntries kind entries
  | .flow kind, .items _ =>
    .error (.wrongType .sequence s!"struct {(DeclarationKind.flow kind).text}Node")

/-- Read a declaration. -/
def ofContent (c : Content) : Except Mismatch NodeDeclaration := do
  let (kind, body) ← c.readTagged typeName readKind
  ofBody kind body

/-! ### Writing -/

/-- The entries of the fields of a declaration, in order. -/
def fieldEntries : NodeDeclaration → List (Content × Content)
  | flow _ name c =>
    entry "name" (.string name) ::
      FlowConstraints.applyOrder.flatMap fun a =>
        Definition.optionEntry a.text ConstraintField.toContent (c.field a)
  | delay name steps initialValue =>
    [entry "name" (.string name), entry "delay" (.unsigned steps),
      entry "initial_value" (.float initialValue)]

/-- A declaration as a content. -/
def toContent (d : NodeDeclaration) : Content :=
  .mapping (entry tagKey (.string d.kind.text) :: d.fieldEntries)

end NodeDeclaration

/-! ### Documents -/

/-- A named parameter as a content: its name, then its definition. -/
def NamedParameter.toContent (p : NamedParameter) : Content :=
  .mapping (entry "name" (.string p.name) :: p.definition.entries)

/-- A document as a content. -/
def Document.toContent (d : Document) : Content :=
  .mapping [
    entry "version" (.unsigned d.version.toUInt64),
    entry "name" (.string d.name),
    entry "parameters" (.sequence (d.parameters.map NamedParameter.toContent)),
    entry "nodes" (.sequence (d.nodes.map NodeDeclaration.toContent))]

end WaterNetwork
