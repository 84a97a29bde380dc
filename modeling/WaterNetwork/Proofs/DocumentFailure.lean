import WaterNetwork.Proofs.Collision
import WaterNetwork.Proofs.Configuration
import WaterNetwork.Proofs.Document

/-!
# How configuring a document fails

A valid document tells its nodes apart, so on a network that has none of their names, and has room
for them, all of its nodes are created and constrained once. What is left to fail is little: the
document is not valid, its parameters make no table, or a field of a node cannot be resolved.

* `parameterTable_ne_nameCollision` — valid names do not collide in the table of a document.
* `configure_fails` — configuring a document fails in one of these three ways; in the first two
  nothing has been done, and in the last all nodes have been created.
-/

namespace WaterNetwork

open Network Settling

variable {site : Site} {d : Document} {n n' : Network} {t : ParameterTable} {name : String}

/-- Different names that the table does not have are added without a collision. -/
theorem ParameterTable.addNamed_ne_nameCollision {ps : List NamedParameter} (ht : t.Built)
    (hnodup : (t.names ++ ps.map (·.name)).Nodup) :
    addNamed site ps t ≠ .error (.nameCollision name) := by
  induction ps generalizing t with
  | nil => rintro ⟨⟩
  | cons p ps ih =>
    rw [List.map_cons] at hnodup
    have hnew : p.name ∉ t.names := fun hmem =>
      List.disjoint_of_nodup_append hnodup hmem (List.mem_cons_self ..)
    intro h
    rcases addNamed_cons_eq_error_iff.mp h with hp | ⟨prepared, -, hi | ⟨id, t₁, hi, h⟩⟩
    · exact p.definition.prepare_ne_nameCollision site p.name hp
    · have hvacant := ht.coherent.contains_eq_false_iff.mpr hnew
      exact insert_ne_nameCollision prepared hvacant (congrArg Prod.fst hi)
    · rw [List.append_cons, ← names_insert hi] at hnodup
      exact ih (ht.insert hi) hnodup h

namespace Document

theorem parameterTable_ne_nameCollision (hnodup : (d.parameters.map (·.name)).Nodup) :
    d.parameterTable site ≠ .error (.nameCollision name) := by
  intro h
  rcases parameterTable_eq_error_iff.mp h with hadd | ⟨t, -, hrefs⟩
  · exact ParameterTable.addNamed_ne_nameCollision .empty hnodup hadd
  · exact t.requireAll_ne_nameCollision _ hrefs

/-- **How configuring a document fails**, and what it leaves of a network: the document is not
valid, or its parameters make no table, though not for want of different names, and nothing has
been done; or a field of a node cannot be resolved, and all terminals have been registered. If this
field collides with a name, it is the derived name of the field, and a parameter of the document
has it. -/
inductive Fails (site : Site) (d : Document) (n : Network) :
    ConfigurationError → Network → Prop where
  | invalid {flaw : ValidationError} : d.validate = .error flaw →
    Fails site d n (.validation flaw) n
  | parameter {e : ParameterError} : d.Valid → d.parameterTable site = .error e →
    (∀ name, e ≠ .nameCollision name) → Fails site d n (.parameter e) n
  | unresolved {node : String} {a : NodeAttribute} {source : ParameterError} {n' : Network} :
    d.Ready site → n'.registered = n.registered ++ namedTerminals d.nodes →
    (∀ name, source = .nameCollision name →
      name = a.derivedName node ∧ ∃ p ∈ d.parameters, p.name = name) →
    Fails site d n (.unresolved node a source) n'

/-- **Which failures there are**: on a network that has none of the names of the nodes and has room
for their terminals, configuring a document fails in one of these ways only. So no node is
created or constrained twice, or constrained before it is created, no call on the network fails,
and the names of the parameters do not collide with each other. -/
theorem configure_fails (hn : n.Reachable)
    (hvacant : ∀ node ∈ d.nodes, ∀ r ∈ n.nodes, r.terminal.node ≠ node.name)
    (hroom : n.nodes.length + terminalCount d.nodes ≤ Ident.limit) {e : ConfigurationError}
    (h : (d.configure Network.builder site).runFrom n = (.error e, n')) :
    d.Fails site n e n' := by
  cases hvalidate : d.validate with
  | error flaw =>
    rw [runFrom_configure_of_validate_error hvalidate] at h
    cases h
    exact .invalid hvalidate
  | ok u =>
    have hvalid := validate_eq_ok_iff.mp hvalidate
    cases htable : d.parameterTable site with
    | error e =>
      rw [runFrom_configure_of_parameterTable_error hvalid htable] at h
      cases h
      refine .parameter hvalid htable ?_
      rintro name rfl
      exact parameterTable_ne_nameCollision hvalid.parameters.nodup htable
    | ok t =>
      have hfresh : Fresh n d.nodes := ⟨hvalid.nodes.nodup, hvacant⟩
      have ht := (bindings_of_parameterTable htable).1
      have hends := configure_ends site hn.coherent ht hroom
      rcases hrun : (WaterNetwork.configure Network.builder site d.nodes).runFrom ⟨n, t⟩ with
        ⟨result, m⟩
      rw [hrun] at hends
      rw [runFrom_configure hvalid htable hrun] at h
      cases hends with
      | duplicate hds _ htaken _ => exact absurd htaken (not_taken_of_fresh (hds ▸ hfresh))
      | @unresolved earlier later s n₁ t' source _ hwalk hsettles he hcs =>
        cases h
        have hss : earlier ⊆ walk d.nodes := fun s' hs' => hwalk ▸ List.mem_append_left _ hs'
        obtain ⟨-, hregistered, -⟩ := performed_pass hn.coherent hfresh hss hcs
        refine .unresolved ⟨hvalid, exists_parameterTable_iff.mp ⟨t, htable⟩⟩ hregistered ?_
        rintro name rfl
        obtain ⟨rfl, hmem⟩ := hsettles.nameCollision_of_resolve ht hfresh hwalk he
        rw [names_of_parameterTable htable, List.mem_map] at hmem
        exact ⟨rfl, hmem⟩
      | settled => cases h

/-- A parameter that has the derived name of a cost which is defined on the spot. -/
def overpriced : Document where
  version := 1
  name := "net"
  parameters := [⟨"dam-cost", .constant 3⟩]
  nodes := costlyDam

theorem tabular_overpriced : Tabular ⟨⟨[], []⟩, "."⟩ overpriced.parameters := by
  refine ⟨by decide, by decide, ?_, ?_, ?_⟩ <;> rw [overpriced, List.forall_mem_singleton]
  · exact Definition.sound_of_check rfl
  · trivial
  · nofun

/-- The dam is created before its cost is found to collide with the parameter. -/
theorem configure_fails_overpriced : ∃ n',
    (overpriced.configure Network.builder ⟨⟨[], []⟩, "."⟩).runFrom .empty =
        (.error (.unresolved "dam" .cost (.nameCollision "dam-cost")), n') ∧
      n'.registered = [(.input, ⟨"dam", none⟩)] := by
  obtain ⟨t, htable⟩ := exists_parameterTable_iff.mpr tabular_overpriced
  have hnames : t.names = ["dam-cost"] := names_of_parameterTable htable
  obtain ⟨n', hrun⟩ := exists_configure_costlyDam (bindings_of_parameterTable htable).1
    (hnames ▸ List.mem_singleton_self _)
  have hvalid : overpriced.Valid := ⟨by decide, ⟨by decide, by decide⟩, ⟨by decide, by decide⟩⟩
  have hfailed := runFrom_configure hvalid htable hrun
  refine ⟨n', hfailed, ?_⟩
  cases configure_fails .empty (fun _ _ _ hr => by cases hr) (by decide) hfailed with
  | unresolved _ hregistered _ => exact hregistered

end Document

end WaterNetwork
