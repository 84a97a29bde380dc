import WaterNetwork.Configuration.Pass

/-!
# Sessions

A session works on one model step by step: calls on its builder, entries of its table, single
nodes, and phases of a pass over its declarations. Every step yields its result together with the
session after it; a failing step keeps what it did, and the session goes on.
-/

namespace WaterNetwork

/-- A model with the declarations, the pass and the files at hand. -/
structure Session (σ : Type) where
  builder : Builder σ
  model : Model σ
  declarations : List NodeDeclaration
  pass : Pass
  site : Site

namespace Session

variable {σ α : Type}

/-- A session on a builder that has an empty table and a pass that has not begun. -/
def start (builder : Builder σ) (state : σ) (declarations : List NodeDeclaration) (site : Site) :
    Session σ where
  builder := builder
  model := { builder := state, table := .empty }
  declarations := declarations
  pass := .ofDeclarations declarations
  site := site

/-- The place of data files for one step, which may look elsewhere. -/
def siteAt (s : Session σ) (path? : Option Path) : Site :=
  { s.site with path := path?.getD s.site.path }

/-! ### Single steps -/

/-- Make a call on the builder. -/
def call (s : Session σ) (attempt : Builder σ → Attempt σ NetworkError α) :
    Except NetworkError α × Session σ :=
  let (result, builder) := (attempt s.builder).runFrom s.model.builder
  (result, { s with model := { s.model with builder } })

/-- Update the table. -/
def updateTable (s : Session σ) (update : Attempt ParameterTable ParameterError α) :
    Except ParameterError α × Session σ :=
  let (result, table) := update.runFrom s.model.table
  (result, { s with model := { s.model with table } })

/-- Take a configuration step that the pass does not see. -/
def configuring (s : Session σ) (step : Builder σ → Configuring σ α) :
    Except ConfigurationError α × Session σ :=
  let (result, model) := (step s.builder).runFrom s.model
  (result, { s with model })

/-- Resolve a field under a derived name. -/
def resolve (s : Session σ) (path? : Option Path) (name : String) (field : ConstraintField) :
    Except ParameterError ConstraintValue × Session σ :=
  s.updateTable
    (field.resolve (s.siteAt path?) name (s.builder.acceptsLiterals s.model.builder))

/-! ### Phases -/

/-- Run the first phase of the pass. -/
def createAll (s : Session σ) : Except ConfigurationError Nat × Session σ :=
  let (result, pass, model) := s.pass.createAll s.builder s.model
  (result, { s with pass, model })

/-- Run the second phase of the pass. -/
def constrainAll (s : Session σ) (path? : Option Path) :
    Except ConfigurationError Unit × Session σ :=
  let (result, pass, model) := s.pass.constrainAll s.builder (s.siteAt path?) s.model
  (result, { s with pass, model })

/-- Begin a new pass. -/
def newPass (s : Session σ) : Session σ := { s with pass := .ofDeclarations s.declarations }

/-- Run the pass to its end and begin a new one. -/
def runPass (s : Session σ) (path? : Option Path) :
    Except ConfigurationError Summary × Session σ :=
  let (result, s') := s.configuring fun b => s.pass.run b (s.siteAt path?)
  (result, s'.newPass)

end Session

end WaterNetwork
