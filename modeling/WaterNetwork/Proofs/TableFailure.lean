import WaterNetwork.Proofs.NamedParameters
import WaterNetwork.Proofs.Refusal

/-!
# Why a document has no table

The table of a document is built in two loops. The first takes the parameters as they stand and
stops at the first that is refused: for its definition, for its data file, for a name that an
earlier parameter has, or for want of an identifier. The second starts only if none is refused,
and looks for every operand among the names of the whole document. `FirstRefused` follows the
first loop with nothing but the names that have been seen, and `Untabular` adds the second.

* `addNamed_eq_error_iff` — the first loop fails with the fault of the parameter it stops at.
* `Document.parameterTable_outcome` — when a document has a table, what this table lists, and why
  a document has none.
-/

namespace WaterNetwork

open ParameterTable

variable {site : Site} {t : ParameterTable} {p : NamedParameter} {ps : List NamedParameter}
  {seen : List String} {e : ParameterError}

/-! ### Parameters that are refused -/

/-- **Why a named parameter is refused**, given the names of those before it. A definition put
into a table on the spot has its name looked at before all else; here the name comes after the
definition and its data file. -/
inductive NamedParameter.Refused (site : Site) (seen : List String) (p : NamedParameter) :
    ParameterError → Prop where
  | unsound {source : ValueError} : p.definition.check = .error source →
    Refused site seen p (.invalid p.name source)
  | file {e : ParameterError} : p.definition.check = .ok () →
    p.definition.FileRefused site p.name e → Refused site seen p e
  | taken : p.definition.check = .ok () → p.definition.HasFile site → p.name ∈ seen →
    Refused site seen p (.nameCollision p.name)
  | full {source : ValueError} : p.definition.check = .ok () → p.definition.HasFile site →
    p.name ∉ seen → Ident.ofIndex seen.length = .error source →
    Refused site seen p (.invalid p.name source)

/-- **The earliest parameter that is refused**, and what for. A parameter that is not refused adds
its name to those that have been seen. -/
inductive FirstRefused (site : Site) : List String → List NamedParameter → ParameterError → Prop
  | here {seen : List String} {p : NamedParameter} {ps : List NamedParameter}
    {e : ParameterError} : p.Refused site seen e → FirstRefused site seen (p :: ps) e
  | later {seen : List String} {p : NamedParameter} {ps : List NamedParameter}
    {e : ParameterError} : (∀ fault, ¬ p.Refused site seen fault) →
    FirstRefused site (seen ++ [p.name]) ps e → FirstRefused site seen (p :: ps) e

/-- A parameter is refused by the table that holds those before it. -/
theorem NamedParameter.refused_iff (ht : t.Coherent) :
    p.Refused site t.names e ↔
      p.definition.prepare site p.name = .error e ∨
        ∃ d, p.definition.prepare site p.name = .ok d ∧ t.insert p.name d = (.error e, t) := by
  simp only [ht.insert_eq_error_iff, Definition.prepare_eq_ok_iff]
  constructor
  · rintro (hcheck | ⟨hcheck, hrefused⟩ | ⟨hcheck, hfile, hmem⟩ | ⟨hcheck, hfile, hnew, hfull⟩)
    · exact .inl (Definition.prepare_of_check_error hcheck)
    · left
      rw [Definition.prepare_of_check_ok hcheck]
      exact Definition.anchor_eq_error_iff.mpr hrefused
    · exact .inr ⟨_, ⟨hcheck, hfile, rfl⟩, .inl ⟨hmem, rfl⟩⟩
    · exact .inr ⟨_, ⟨hcheck, hfile, rfl⟩, .inr ⟨hnew, _, hfull, rfl⟩⟩
  · rintro (hprepare | ⟨d, ⟨hcheck, hfile, -⟩, ⟨hmem, rfl⟩ | ⟨hnew, source, hfull, rfl⟩⟩)
    · cases hcheck : p.definition.check with
      | error source =>
        rw [Definition.prepare_of_check_error hcheck] at hprepare
        cases hprepare
        exact .unsound hcheck
      | ok u =>
        rw [Definition.prepare_of_check_ok hcheck] at hprepare
        exact .file hcheck (Definition.anchor_eq_error_iff.mp hprepare)
    · exact .taken hcheck hfile hmem
    · exact .full hcheck hfile hnew hfull

/-- Adding parameters stops at the earliest that is refused. -/
theorem addNamed_eq_error_iff (ht : t.Built) :
    addNamed site ps t = .error e ↔ FirstRefused site t.names ps e := by
  induction ps generalizing t with
  | nil =>
    constructor
    · intro h
      cases h
    · intro h
      cases h
  | cons p ps ih =>
    rw [addNamed_cons_eq_error_iff]
    constructor
    · rintro (hprepare | ⟨d, hprepare, hinsert | ⟨id, t₁, hinsert, hrest⟩⟩)
      · exact .here ((p.refused_iff ht.coherent).mpr (.inl hprepare))
      · exact .here ((p.refused_iff ht.coherent).mpr (.inr ⟨d, hprepare, hinsert⟩))
      · refine .later (fun fault hfault => ?_) ?_
        · rcases (p.refused_iff ht.coherent).mp hfault with h | ⟨d', h, h'⟩
          · rw [hprepare] at h
            cases h
          · rw [hprepare] at h
            cases h
            rw [hinsert] at h'
            cases h'
        · rw [← names_insert hinsert]
          exact (ih (ht.insert hinsert)).mp hrest
    · intro h
      cases h with
      | here hrefused =>
        rcases (p.refused_iff ht.coherent).mp hrefused with hprepare | ⟨d, hprepare, hinsert⟩
        · exact .inl hprepare
        · exact .inr ⟨d, hprepare, .inl hinsert⟩
      | later hfine hrest =>
        -- A parameter that is not refused is prepared and inserted.
        cases hprepare : p.definition.prepare site p.name with
        | error fault =>
          exact absurd ((p.refused_iff ht.coherent).mpr (.inl hprepare)) (hfine fault)
        | ok d =>
          rcases hinsert : t.insert p.name d with ⟨fault | id, t₁⟩
          · obtain rfl := eq_of_insert_error hinsert
            exact absurd ((p.refused_iff ht.coherent).mpr (.inr ⟨d, hprepare, hinsert⟩))
              (hfine fault)
          · rw [← names_insert hinsert] at hrest
            exact .inr ⟨d, rfl, .inr ⟨id, t₁, hinsert, (ih (ht.insert hinsert)).mpr hrest⟩⟩

/-! ### Documents without a table -/

/-- The operands of parameters, in the order in which they are looked for. -/
def operandNames (ps : List NamedParameter) : List String :=
  ps.flatMap (·.definition.references)

/-- **Why parameters make no table**: the earliest that is refused; or, if none is, the first
operand that is not the name of a parameter. -/
inductive Untabular (site : Site) (ps : List NamedParameter) : ParameterError → Prop where
  | parameter {e : ParameterError} : FirstRefused site [] ps e → Untabular site ps e
  | operand {missing : String} : (∀ fault, ¬ FirstRefused site [] ps fault) →
    (operandNames ps).find? (· ∉ ps.map (·.name)) = some missing →
    Untabular site ps (.unknownParameter missing)

/-- What a table of parameters requires are their operands: a data file has none. -/
theorem references_of_addNamed (h : addNamed site ps .empty = .ok t) :
    t.entries.flatMap (·.definition.references) = operandNames ps := by
  have hbindings := (bindings_of_addNamed .empty h).2
  calc t.entries.flatMap (·.definition.references)
      = t.bindings.flatMap (·.2.references) := by
        rw [bindings, List.flatMap_map]
    _ = operandNames ps := by
        rw [hbindings]
        simp [ParameterTable.bindings, ParameterTable.empty, List.flatMap_map,
          NamedParameter.binding, operandNames]

namespace Document

variable {d : Document}

theorem parameterTable_eq_error_iff_untabular :
    d.parameterTable site = .error e ↔ Untabular site d.parameters e := by
  rw [parameterTable_eq_error_iff]
  constructor
  · rintro (hadd | ⟨t, hadd, hrefs⟩)
    · exact .parameter ((addNamed_eq_error_iff .empty).mp hadd)
    · obtain ⟨hbuilt, hbindings⟩ := bindings_of_addNamed .empty hadd
      rw [checkReferences, hbuilt.coherent.requireAll_eq_error_iff,
        references_of_addNamed hadd] at hrefs
      obtain ⟨missing, hmissing, rfl⟩ := hrefs
      refine .operand (fun fault hfault => ?_) ?_
      · rw [(addNamed_eq_error_iff .empty).mpr hfault] at hadd
        cases hadd
      · rwa [names_of_addNamed hadd] at hmissing
  · intro h
    cases h with
    | parameter hrefused => exact .inl ((addNamed_eq_error_iff .empty).mpr hrefused)
    | operand hfine hmissing =>
      cases hadd : addNamed site d.parameters .empty with
      | error fault => exact absurd ((addNamed_eq_error_iff .empty).mp hadd) (hfine fault)
      | ok t =>
        refine .inr ⟨t, rfl, ?_⟩
        rw [checkReferences, (bindings_of_addNamed .empty hadd).1.coherent.requireAll_eq_error_iff,
          references_of_addNamed hadd, names_of_addNamed hadd]
        exact ⟨_, hmissing, rfl⟩

/-- **The table of a document**. There is one just if the parameters are tabular. It lists the
parameters as they stand, with the identifiers counted from zero, and changes nothing but the
names of the data files. Otherwise the document has the fault that is listed, and no other. -/
theorem parameterTable_outcome (d : Document) (site : Site) :
    ((∃ t, d.parameterTable site = .ok t) ↔ Tabular site d.parameters) ∧
    (∀ t, d.parameterTable site = .ok t →
      t.bindings = d.parameters.map (·.binding site) ∧
      t.entries.map (·.id.index) = List.range d.parameters.length) ∧
    ∀ e, d.parameterTable site = .error e ↔ Untabular site d.parameters e := by
  refine ⟨exists_parameterTable_iff, fun t h => ?_, fun e => parameterTable_eq_error_iff_untabular⟩
  obtain ⟨hbuilt, hbindings⟩ := bindings_of_parameterTable h
  refine ⟨hbindings, ?_⟩
  rw [hbuilt.indices, ← length_bindings, hbindings, List.length_map]

/-- A parameter that takes an earlier name and aggregates nothing, before one with an operand that
is nowhere. -/
def clashing : Document where
  version := 1
  name := "net"
  parameters := [⟨"a", .constant 1⟩, ⟨"a", .aggregated [] .sum⟩, ⟨"b", .negative "c"⟩]

/-- A cap may come before the inflow that it caps; a definition is looked at before its name. -/
theorem parameterTable_outcome_capped :
    (∃ t, capped.parameterTable ⟨⟨[], []⟩, "."⟩ = .ok t ∧
      t.bindings = [("capped", .bounded .min "inflow" (some 4)), ("inflow", .constant 6)] ∧
      t.entries.map (·.id.index) = [0, 1]) ∧
    clashing.parameterTable ⟨⟨[], []⟩, "."⟩ =
      .error (.invalid "a"
        (.invalidArgument "aggregated parameter needs at least one operand")) := by
  constructor
  · obtain ⟨t, ht⟩ := (parameterTable_outcome capped _).1.mpr tabular_capped
    obtain ⟨hbindings, hindices⟩ := (parameterTable_outcome capped _).2.1 t ht
    exact ⟨t, ht, hbindings, hindices⟩
  · refine ((parameterTable_outcome clashing _).2.2 _).mpr (.parameter (.later ?_ (.here ?_)))
    · rintro fault (hcheck | ⟨-, hrefused⟩ | ⟨-, -, hmem⟩ | ⟨-, -, -, hfull⟩)
      · cases hcheck
      · cases hrefused
      · cases hmem
      · cases hfull
    · exact .unsound rfl

end Document

end WaterNetwork
