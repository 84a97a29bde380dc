import WaterNetwork.Ident

/-!
# Model builders

A model builder is what the declarations of a network are turned into calls on: it registers
the terminals of nodes and takes the values of their costs and flow bounds. It is a structure of
operations over a state of any type, so that a statement about every builder quantifies over
the state and the operations. A call may fail; the state that a failing call leaves is part of
its result.
-/

namespace WaterNetwork

/-! ### What builders talk about -/

/-- The kind of a terminal. -/
inductive NodeKind where
  /-- A source of flow. -/
  | input
  /-- A sink of flow. -/
  | output
  /-- A node that flow passes through. -/
  | link
  deriving DecidableEq

/-- The name of a kind. -/
def NodeKind.text : NodeKind → String
  | input => "input"
  | output => "output"
  | link => "link"

/-- A terminal is named by its node and, where the node has several, by a sub-index. -/
structure Terminal where
  node : String
  sub : Option SubIndex
  deriving DecidableEq

/-- The flow bound that a constraint call sets. -/
inductive ConstraintRole where
  | maxFlow
  | minFlow
  deriving DecidableEq

/-- The name of a flow bound. -/
def ConstraintRole.text : ConstraintRole → String
  | maxFlow => "max_flow"
  | minFlow => "min_flow"

/-- A value handed to a builder: a number it stores itself, or the name of a parameter. -/
inductive ConstraintValue where
  | literal (value : Float)
  | parameter (name : String)

namespace ConstraintValue

/-- The parameter that a value refers to. -/
def parameterName? : ConstraintValue → Option String
  | parameter name => some name
  | literal _ => none

/-- The text of a value. -/
def text : ConstraintValue → String
  | literal value => Number.plain.text value
  | parameter name => name

end ConstraintValue

/-- Why a call on a builder fails. -/
inductive NetworkError where
  | duplicateNode (terminal : Terminal)
  | nodeNotFound (terminal : Terminal)
  /-- The builder has no room for the node. -/
  | capacity (name : String) (source : ValueError)

/-- The wording of a failure. -/
def NetworkError.message : NetworkError → String
  | duplicateNode t =>
    s!"Node with name `{t.node}` and sub-index `{SubIndex.optionText t.sub}` already exists"
  | nodeNotFound t =>
    s!"Node with name `{t.node}` and sub-index `{SubIndex.optionText t.sub}` not found"
  | capacity name source => s!"Cannot register node `{name}`: {source.message}"

/-! ### Attempts -/

/-- A computation on a state that may fail; what it did before the failure stays done. -/
abbrev Attempt (σ ε : Type) := ExceptT ε (StateM σ)

namespace Attempt

variable {σ ε α : Type}

/-- An update that either yields a new state or leaves the old one. -/
def ofUpdate (update : σ → Except ε (α × σ)) : Attempt σ ε α := fun s =>
  match update s with
  | .ok (a, s') => (.ok a, s')
  | .error e => (.error e, s)

/-- Run an attempt from a state: its outcome and the state it leaves. -/
def runFrom (s : σ) (attempt : Attempt σ ε α) : Except ε α × σ := attempt s

end Attempt

/-! ### Builders -/

/-- The operations of a builder with states in `σ`. A terminal that exists, or whose node name
is used with the other style of sub-index, is not added again. -/
structure Builder (σ : Type) where
  addNode : NodeKind → Terminal → Attempt σ NetworkError Ident
  setCost : Terminal → ConstraintValue → Attempt σ NetworkError Unit
  setConstraint : Terminal → ConstraintRole → ConstraintValue → Attempt σ NetworkError Unit
  /-- Whether a terminal is registered. -/
  containsNode : σ → Terminal → Bool
  /-- Whether any terminal is registered under a node name. -/
  containsName : σ → String → Bool
  /-- Whether numbers are taken as they are; a builder that refuses them is handed the names of
  constant parameters instead. -/
  acceptsLiterals : σ → Bool

end WaterNetwork
