import WaterNetwork.Parameter.Definition
import WaterNetwork.Builder

/-!
# Node declarations

A declared node is a source, a sink or a link with an optional cost and optional flow bounds, or
a delay, which has two terminals: the flow that arrives ends at the first and leaves again from
the second.
-/

namespace WaterNetwork

/-- What a value of a node is for. -/
inductive NodeAttribute where
  | cost
  | maxFlow
  | minFlow
  | delay
  deriving DecidableEq

namespace NodeAttribute

/-- Every attribute. -/
def all : List NodeAttribute := [cost, maxFlow, minFlow, delay]

/-- The ending of the names of parameters made for an attribute. -/
def slug : NodeAttribute → String
  | cost => "cost"
  | maxFlow => "max-flow"
  | minFlow => "min-flow"
  | delay => "delay"

/-- The name of the parameter made for an attribute of a node. -/
def derivedName (a : NodeAttribute) (node : String) : String := node ++ "-" ++ a.slug

/-- The name of an attribute. -/
def text : NodeAttribute → String
  | cost => "cost"
  | maxFlow => "max_flow"
  | minFlow => "min_flow"
  | delay => "delay"

end NodeAttribute

/-- The cost and the flow bounds of a node; what is absent is left to the builder. -/
structure FlowConstraints where
  cost : Option ConstraintField := none
  maxFlow : Option ConstraintField := none
  minFlow : Option ConstraintField := none

namespace FlowConstraints

/-- Fields are applied in this order. -/
def applyOrder : List NodeAttribute := [.cost, .maxFlow, .minFlow]

/-- Whether nothing is given. -/
def isEmpty (c : FlowConstraints) : Bool :=
  c.cost.isNone && c.maxFlow.isNone && c.minFlow.isNone

/-- The field of an attribute. -/
def field (c : FlowConstraints) : NodeAttribute → Option ConstraintField
  | .cost => c.cost
  | .maxFlow => c.maxFlow
  | .minFlow => c.minFlow
  | .delay => none

/-- The numbers that flow constraints carry. -/
def numbers (c : FlowConstraints) : List Float :=
  applyOrder.flatMap fun a => (c.field a).toList.flatMap ConstraintField.numbers

end FlowConstraints

/-- The kinds of declaration, in the order in which they are listed. -/
inductive DeclarationKind where
  | flow (kind : NodeKind)
  | delay
  deriving DecidableEq

namespace DeclarationKind

/-- Every kind. -/
def all : List DeclarationKind := [flow .input, flow .output, flow .link, delay]

/-- The name of a kind. -/
def text : DeclarationKind → String
  | flow .input => "Input"
  | flow .output => "Output"
  | flow .link => "Link"
  | delay => "Delay"

/-- The kind of a name. -/
def ofText? (name : String) : Option DeclarationKind := all.find? (·.text == name)

theorem ofText?_text (k : DeclarationKind) : ofText? k.text = some k := by
  rcases k with (_ | _ | _) | _ <;> rfl

end DeclarationKind

/-- A node as it is declared. -/
inductive NodeDeclaration where
  /-- A node with one terminal of the given kind. -/
  | flow (kind : NodeKind) (name : String) (constraints : FlowConstraints)
  /-- A node that releases what arrives a number of timesteps later. -/
  | delay (name : String) (steps : UInt64) (initialValue : Float)

namespace NodeDeclaration

/-- The kind of a declaration. -/
def kind : NodeDeclaration → DeclarationKind
  | flow k _ _ => .flow k
  | delay _ _ _ => .delay

/-- The name of a node. -/
def name : NodeDeclaration → String
  | flow _ n _ => n
  | delay n _ _ => n

/-- The numbers that a declaration carries. -/
def numbers : NodeDeclaration → List Float
  | flow _ _ c => c.numbers
  | delay _ _ initialValue => [initialValue]

/-- The sub-index of the terminal where flow arrives at a delay. -/
def inflow : SubIndex := ⟨0⟩

/-- The sub-index of the terminal where flow leaves a delay. -/
def outflow : SubIndex := ⟨1⟩

/-- The terminals of a node with their kinds, in the order in which they are registered. -/
def terminals : NodeDeclaration → List (NodeKind × Option SubIndex)
  | flow k _ _ => [(k, none)]
  | delay _ _ _ => [(.output, some inflow), (.input, some outflow)]

/-- The sub-indices of the terminals. -/
def subIndices (d : NodeDeclaration) : List (Option SubIndex) := d.terminals.map (·.2)

/-- The sub-index that stands for a node in a report on all of it. -/
def firstSubIndex (d : NodeDeclaration) : Option SubIndex := d.subIndices.head?.join

end NodeDeclaration

end WaterNetwork
