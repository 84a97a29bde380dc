import WaterNetwork.Configuration.Pass

/-!
# Configuring a document

A document is configured by building the table of its parameters and running a pass over its
nodes. The references between its parameters are checked when all of them are in the table, so a
parameter may combine later ones.
-/

namespace WaterNetwork

namespace ParameterTable

/-- Prepare named parameters one after the other and add them to a table. -/
def addNamed (site : Site) : List NamedParameter → ParameterTable →
    Except ParameterError ParameterTable
  | [], table => .ok table
  | p :: rest, table => do
    let definition ← p.definition.prepare site p.name
    match table.insert p.name definition with
    | (.error e, _) => .error e
    | (.ok _, table) => addNamed site rest table

end ParameterTable

namespace Document

/-- The table of a document's parameters. -/
def parameterTable (d : Document) (site : Site) : Except ParameterError ParameterTable := do
  let table ← ParameterTable.addNamed site d.parameters .empty
  table.checkReferences
  return table

/-- Configure a builder with a document. The table is yielded only on success. -/
def configure {σ : Type} (d : Document) (b : Builder σ) (site : Site) :
    Attempt σ ConfigurationError (ParameterTable × Summary) := fun s =>
  match d.validate with
  | .error e => (.error (.validation e), s)
  | .ok () =>
    match d.parameterTable site with
    | .error e => (.error (.parameter e), s)
    | .ok table =>
      match (WaterNetwork.configure b site d.nodes).runFrom { builder := s, table } with
      | (.error e, m) => (.error e, m.builder)
      | (.ok summary, m) => (.ok (m.table, summary), m.builder)

end Document

end WaterNetwork
