import WaterNetwork.Document
import WaterNetwork.Parameter.Resolution

/-!
# Configuring a node

A node is configured in two steps. `create` registers its terminals, after making sure that its
name is not in use; `constrain` resolves its fields and hands the values to the builder, after
making sure that all its terminals are there. The parameters made on the way go into the table
of the model. What a step did before a failure stays done. A failure of the builder or of a
parameter keeps its own cause, with the node and attribute where one is concerned.
-/

namespace WaterNetwork

/-! ### Steps -/

/-- Why a configuration stops. -/
inductive ConfigurationError where
  | notCreated (node : String)
  | alreadyConstrained (node : String)
  /-- A value of a node could not be resolved. -/
  | unresolved (node : String) (a : NodeAttribute) (source : ParameterError)
  | network (source : NetworkError)
  | parameter (source : ParameterError)
  | validation (source : ValidationError)

/-- The wording of a failure. -/
def ConfigurationError.message : ConfigurationError → String
  | notCreated node => s!"Node `{node}` has not been created"
  | alreadyConstrained node => s!"Constraints on node `{node}` have already been applied"
  | unresolved node a source =>
    s!"Failed to resolve `{a.text}` on node `{node}`: {source.message}"
  | network source => s!"Model builder error: {source.message}"
  | parameter source => s!"Parameter error: {source.message}"
  | validation source => s!"Validation error: {source.message}"

/-- What a configuration works on: a builder's state and the table of parameters. -/
structure Model (σ : Type) where
  builder : σ
  table : ParameterTable

/-- A step of a configuration. -/
abbrev Configuring (σ : Type) := Attempt (Model σ) ConfigurationError

namespace Configuring

variable {σ α : Type}

/-- Make a call on the builder. -/
def call (attempt : Attempt σ NetworkError α) : Configuring σ α := fun m =>
  let (result, builder) := attempt.runFrom m.builder
  (result.mapError .network, { m with builder })

/-- Resolve a value of a node against the table, given the builder. -/
def resolving (node : String) (a : NodeAttribute)
    (resolve : σ → Attempt ParameterTable ParameterError α) : Configuring σ α := fun m =>
  let (result, table) := (resolve m.builder).runFrom m.table
  (result.mapError (.unresolved node a), { m with table })

/-- Fail unless a condition on the model holds. -/
def ensure (condition : Model σ → Bool) (error : Model σ → ConfigurationError) :
    Configuring σ Unit := fun m =>
  if condition m then (.ok (), m) else (.error (error m), m)

end Configuring

open Configuring

variable {σ : Type}

/-! ### Applying fields -/

/-- Hand a value to the builder. A delay is not a value of its own. -/
def NodeAttribute.set (b : Builder σ) (t : Terminal) (value : ConstraintValue) :
    NodeAttribute → Configuring σ Unit
  | .cost => call (b.setCost t value)
  | .maxFlow => call (b.setConstraint t .maxFlow value)
  | .minFlow => call (b.setConstraint t .minFlow value)
  | .delay => pure ()

/-- Resolve the field of an attribute, if it is given, and hand its value to the builder. -/
def FlowConstraints.applyAttribute (c : FlowConstraints) (b : Builder σ) (site : Site)
    (node : String) (a : NodeAttribute) : Configuring σ Unit :=
  match c.field a with
  | none => pure ()
  | some field => do
    let value ← resolving node a fun s =>
      field.resolve site (a.derivedName node) (b.acceptsLiterals s)
    a.set b ⟨node, none⟩ value

/-- Resolve each given field and hand its value to the builder. -/
def FlowConstraints.apply (c : FlowConstraints) (b : Builder σ) (site : Site) (node : String) :
    Configuring σ Unit :=
  applyOrder.forM (c.applyAttribute b site node)

namespace NodeDeclaration

/-! ### Creating -/

/-- The terminal to report if the name of a node is in use: its first terminal that is
registered, or else its first one. -/
def occupied? (b : Builder σ) (d : NodeDeclaration) (s : σ) : Option (Option SubIndex) :=
  (d.subIndices.find? fun sub => b.containsNode s ⟨d.name, sub⟩).or
    (if b.containsName s d.name then d.subIndices.head? else none)

/-- Register the terminals of a node. A name belongs to one node, so nothing is registered if
the name is in use at all. -/
def create (b : Builder σ) (d : NodeDeclaration) : Configuring σ Unit := do
  ensure (fun m => (d.occupied? b m.builder).isNone)
    fun m => .network (.duplicateNode ⟨d.name, (d.occupied? b m.builder).join⟩)
  d.terminals.forM fun (kind, sub) => do
    let _ ← call (b.addNode kind ⟨d.name, sub⟩)

/-! ### Constraining -/

/-- Whether all terminals of a node are registered. -/
def isCreated (b : Builder σ) (d : NodeDeclaration) (s : σ) : Bool :=
  d.subIndices.all fun sub => b.containsNode s ⟨d.name, sub⟩

/-- The parameter that follows the flow into a delay. -/
def delayDefinition (name : String) (steps : UInt64) (initialValue : Float) : Definition :=
  .delay name (some inflow) steps initialValue

/-- Attach the constraints of a node. The parameter of a delay is both the greatest and the
least flow that leaves it. -/
def constrain (b : Builder σ) (site : Site) (d : NodeDeclaration) : Configuring σ Unit := do
  ensure (fun m => d.isCreated b m.builder) fun _ => .notCreated d.name
  match d with
  | .flow _ name constraints => constraints.apply b site name
  | .delay name steps initialValue =>
    let value ← resolving name .delay fun _ =>
      (delayDefinition name steps initialValue).materialize site
        (NodeAttribute.delay.derivedName name)
    call (b.setConstraint ⟨name, some outflow⟩ .maxFlow value)
    call (b.setConstraint ⟨name, some outflow⟩ .minFlow value)

end NodeDeclaration

end WaterNetwork
