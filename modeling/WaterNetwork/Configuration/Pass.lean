import WaterNetwork.Configuration.Node

/-!
# Configuration passes

A pass takes a list of declarations through two phases: it creates all nodes, then constrains
all of them. It knows how far each declaration has come. Both phases go through the
declarations in order and stop at the first failure; nothing is undone.
-/

namespace WaterNetwork

/-- How far a declaration has come. -/
inductive Stage where
  | declared
  | created
  | constrained
  deriving DecidableEq

/-- A declaration and how far it has come. -/
structure Progress where
  declaration : NodeDeclaration
  stage : Stage := .declared

/-- What a completed pass did. -/
structure Summary where
  nodes : Nat
  terminals : Nat
  parametersAdded : Nat
  deriving DecidableEq

/-- A pass over declarations. -/
abbrev Pass := List Progress

namespace Pass

variable {σ : Type}

/-- A pass that has not begun. -/
def ofDeclarations (declarations : List NodeDeclaration) : Pass :=
  declarations.map fun declaration => { declaration }

/-- How far the declarations have come. -/
def stages (p : Pass) : List Stage := p.map (·.stage)

/-- What a phase leaves: its outcome, the pass and the model. -/
abbrev Outcome (σ α : Type) := Except ConfigurationError α × Pass × Model σ

/-- Register the terminals of all nodes, and count them. No node is created twice. -/
def createAll (b : Builder σ) : Pass → Model σ → Outcome σ Nat
  | [], m => (.ok 0, [], m)
  | p :: rest, m =>
    let d := p.declaration
    if p.stage ≠ .declared then
      (.error (.network (.duplicateNode ⟨d.name, d.firstSubIndex⟩)), p :: rest, m)
    else match (d.create b).runFrom m with
      | (.error e, m) => (.error e, p :: rest, m)
      | (.ok (), m) =>
        let (result, rest, m) := createAll b rest m
        (result.map (d.terminals.length + ·), { p with stage := .created } :: rest, m)

/-- Attach the constraints of all nodes. -/
def constrainAll (b : Builder σ) (site : Site) : Pass → Model σ → Outcome σ Unit
  | [], m => (.ok (), [], m)
  | p :: rest, m =>
    let d := p.declaration
    match p.stage with
    | .declared => (.error (.notCreated d.name), p :: rest, m)
    | .constrained => (.error (.alreadyConstrained d.name), p :: rest, m)
    | .created =>
      match (d.constrain b site).runFrom m with
      | (.error e, m) => (.error e, p :: rest, m)
      | (.ok (), m) =>
        let (result, rest, m) := constrainAll b site rest m
        (result, { p with stage := .constrained } :: rest, m)

/-- Run both phases to the end, and sum up. -/
def run (b : Builder σ) (site : Site) (p : Pass) : Configuring σ Summary := fun m =>
  match createAll b p m with
  | (.error e, _, m) => (.error e, m)
  | (.ok terminals, created, m') =>
    match constrainAll b site created m' with
    | (.error e, _, m'') => (.error e, m'')
    | (.ok (), _, m'') =>
      (.ok { nodes := p.length, terminals,
             parametersAdded := m''.table.size - m.table.size }, m'')

end Pass

/-- Create every declared node, then apply every node's constraints. -/
def configure {σ : Type} (b : Builder σ) (site : Site) (declarations : List NodeDeclaration) :
    Configuring σ Summary :=
  (Pass.ofDeclarations declarations).run b site

end WaterNetwork
