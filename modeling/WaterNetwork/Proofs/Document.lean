import WaterNetwork.Proofs.Attempt
import WaterNetwork.Proofs.NamedParameters

/-!
# Documents to be configured

A document is configured in three stages, and each may be the last: it is validated, its
parameters are put into a table, and a pass goes over its nodes. Only the pass makes calls. What
the first two stages ask for does not speak of an order, although both stop at the first fault
that they find.

* `validate_eq_ok_iff` — a document passes its validation just if it is `Valid`.
* `runFrom_configure` — a document that has a table is configured as its nodes are.
* `runFrom_configure_of_not_ready` — otherwise nothing is done.
-/

namespace WaterNetwork

/-- What is found before any node is created. -/
def ConfigurationError.Early : ConfigurationError → Prop
  | .validation _ | .parameter _ => True
  | _ => False

namespace Document

variable {σ : Type} {b : Builder σ} {site : Site} {s : σ} {d : Document} {t : ParameterTable}
  {context : String} {seen : List String} {names : List (String × String)}

/-! ### Names -/

/-- **Names that tell things apart**: none is empty, and none comes twice. -/
structure TellApart (names : List String) : Prop where
  nonempty : ∀ name ∈ names, name ≠ ""
  nodup : names.Nodup

theorem TellApart.perm {names names' : List String} (h : TellApart names)
    (hperm : names.Perm names') : TellApart names' where
  nonempty name hname := h.nonempty name (hperm.mem_iff.mpr hname)
  nodup := hperm.nodup h.nodup

theorem tellApart_cons_iff {name : String} {names : List String} :
    TellApart (name :: names) ↔ name ≠ "" ∧ name ∉ names ∧ TellApart names := by
  constructor
  · rintro ⟨hnonempty, hnodup⟩
    rw [List.forall_mem_cons] at hnonempty
    rw [List.nodup_cons] at hnodup
    exact ⟨hnonempty.1, hnodup.1, hnonempty.2, hnodup.2⟩
  · rintro ⟨hname, hnew, hnonempty, hnodup⟩
    exact ⟨List.forall_mem_cons.mpr ⟨hname, hnonempty⟩, List.nodup_cons.mpr ⟨hnew, hnodup⟩⟩

/-- Names pass the check if they tell things apart and none of them has been seen. -/
theorem checkNames_eq_ok_iff :
    checkNames context seen names = .ok () ↔
      TellApart (names.map (·.1)) ∧ ∀ name ∈ names.map (·.1), name ∉ seen := by
  induction names generalizing seen with
  | nil =>
    simp only [checkNames, List.map_nil, true_iff]
    exact ⟨⟨nofun, List.nodup_nil⟩, nofun⟩
  | cons p rest ih =>
    obtain ⟨name, own⟩ := p
    rw [checkNames, List.map_cons, tellApart_cons_iff, List.forall_mem_cons]
    by_cases hname : name = ""
    · rw [if_pos hname]
      exact ⟨nofun, fun h => absurd hname h.1.1⟩
    · by_cases hseen : name ∈ seen
      · rw [if_neg hname, if_pos (List.contains_iff_mem.mpr hseen)]
        exact ⟨nofun, fun h => absurd hseen h.2.1⟩
      · rw [if_neg hname, if_neg (mt List.contains_iff_mem.mp hseen), ih]
        constructor
        · rintro ⟨happart, hunseen⟩
          have hnew : name ∉ rest.map (·.1) := fun hmem =>
            hunseen name hmem (List.mem_cons_self ..)
          refine ⟨⟨hname, hnew, happart⟩, hseen, fun other hother hmem => ?_⟩
          exact hunseen other hother (List.mem_cons_of_mem _ hmem)
        · rintro ⟨⟨-, hnew, happart⟩, -, hunseen⟩
          refine ⟨happart, fun other hother hmem => ?_⟩
          rcases List.mem_cons.mp hmem with rfl | hmem
          · exact hnew hother
          · exact hunseen other hother hmem

/-! ### Validity -/

/-- **Validity**: the version is known, and the names tell the parameters apart, and the nodes. -/
structure Valid (d : Document) : Prop where
  version : d.version ≤ latestVersion
  parameters : TellApart (d.parameters.map (·.name))
  nodes : TellApart (d.nodes.map (·.name))

/-- A document passes its validation just if it is valid. -/
theorem validate_eq_ok_iff : d.validate = .ok () ↔ d.Valid := by
  have hparameters : checkNames "parameters" [] d.parameterNames = .ok () ↔
      TellApart (d.parameters.map (·.name)) := by
    simp [checkNames_eq_ok_iff, parameterNames, Function.comp_def]
  have hnodes : checkNames "nodes" [] d.nodeNames = .ok () ↔
      TellApart (d.nodes.map (·.name)) := by
    simp [checkNames_eq_ok_iff, nodeNames, Function.comp_def]
  have hvalid : d.Valid ↔ d.version ≤ latestVersion ∧
      checkNames "parameters" [] d.parameterNames = .ok () ∧
      checkNames "nodes" [] d.nodeNames = .ok () := by
    rw [hparameters, hnodes]
    exact ⟨fun ⟨hversion, hps, hns⟩ => ⟨hversion, hps, hns⟩,
      fun ⟨hversion, hps, hns⟩ => ⟨hversion, hps, hns⟩⟩
  rw [hvalid, validate]
  by_cases hversion : d.version ≤ latestVersion
  · rw [if_neg (UInt32.not_lt.mpr hversion)]
    cases checkNames "parameters" [] d.parameterNames with
    | error e => simp [bind, Except.bind]
    | ok u => simp [bind, Except.bind, hversion]
  · rw [if_pos (UInt32.not_le.mp hversion)]
    simp [bind, Except.bind, throw, throwThe, MonadExceptOf.throw, hversion]

/-! ### Runs -/

/-- **A document that is ready** for a pass over its nodes: it is valid, and its parameters make a
table. -/
structure Ready (site : Site) (d : Document) : Prop extends Valid d where
  tabular : Tabular site d.parameters

theorem Ready.perm {ps : List NamedParameter} (h : d.Ready site) (hperm : d.parameters.Perm ps) :
    Ready site { d with parameters := ps } where
  version := h.version
  parameters := h.parameters.perm (hperm.map _)
  nodes := h.nodes
  tabular := h.tabular.perm hperm

/-- A document that has a table is configured as its nodes are. -/
theorem runFrom_configure {result : Except ConfigurationError Summary} {m : Model σ}
    (hvalid : d.Valid) (ht : d.parameterTable site = .ok t)
    (h : (WaterNetwork.configure b site d.nodes).runFrom ⟨s, t⟩ = (result, m)) :
    (d.configure b site).runFrom s =
      (result.map fun summary => (m.table, summary), m.builder) := by
  rw [Attempt.runFrom, configure, validate_eq_ok_iff.mpr hvalid, ht]
  cases result <;> simp only [h, Except.map]

theorem runFrom_configure_of_validate_error {e : ValidationError} (h : d.validate = .error e) :
    (d.configure b site).runFrom s = (.error (.validation e), s) := by
  rw [Attempt.runFrom, configure, h]

theorem runFrom_configure_of_parameterTable_error {e : ParameterError} (hvalid : d.Valid)
    (h : d.parameterTable site = .error e) :
    (d.configure b site).runFrom s = (.error (.parameter e), s) := by
  rw [Attempt.runFrom, configure, validate_eq_ok_iff.mpr hvalid, h]

/-- A document that is not ready fails early, and nothing is done. -/
theorem runFrom_configure_of_not_ready (h : ¬ d.Ready site) :
    ∃ e : ConfigurationError, e.Early ∧ (d.configure b site).runFrom s = (.error e, s) := by
  cases hvalidate : d.validate with
  | error e => exact ⟨.validation e, trivial, runFrom_configure_of_validate_error hvalidate⟩
  | ok u =>
    have hvalid := validate_eq_ok_iff.mp hvalidate
    cases htable : d.parameterTable site with
    | error e =>
      exact ⟨.parameter e, trivial, runFrom_configure_of_parameterTable_error hvalid htable⟩
    | ok t => exact absurd ⟨hvalid, exists_parameterTable_iff.mp ⟨t, htable⟩⟩ h

end Document

end WaterNetwork
