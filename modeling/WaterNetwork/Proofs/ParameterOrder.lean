import WaterNetwork.Proofs.Configuration
import WaterNetwork.Proofs.Document

/-!
# The order of named parameters

A pass asks a table which names it has, and adds entries at its end. It does not ask where in the
table a name stands. So when a document lists its parameters in another order, the pass over its
nodes makes the same calls, resolves the same values and adds the same entries, up to the same
failure.

The argument is about two runs of one pass. `GrownAlike` relates the two tables: they begin with
the same parameters in two orders, and the same entries follow. Every attempt on a table, and so
every step of a pass, agrees on tables that are related in this way.

* `agrees_resolve` — fields resolve in the same way.
* `agrees_configure` — so do whole passes, on any builder and however they end.
* `Document.configure_parameters_perm` — the outcome of configuring a document does not depend on
  the order of its parameters.
-/

namespace WaterNetwork

open Attempt Configuring ParameterTable

variable {σ α : Type} {b : Builder σ} {site : Site} {t₁ t₂ u₁ u₂ : ParameterTable}
  {m₁ m₂ : Model σ} {name : String}

/-! ### Tables that grow alike -/

/-- **Tables that have grown alike** from two others, which bind the same but in different orders:
the same entries have been added to both, in the same order. -/
structure GrownAlike (t₁ t₂ u₁ u₂ : ParameterTable) : Prop where
  base : t₁.bindings.Perm t₂.bindings
  built₁ : u₁.Built
  built₂ : u₂.Built
  added : ∃ added, u₁.entries = t₁.entries ++ added ∧ u₂.entries = t₂.entries ++ added

namespace GrownAlike

theorem refl (h₁ : t₁.Built) (h₂ : t₂.Built) (h : t₁.bindings.Perm t₂.bindings) :
    GrownAlike t₁ t₂ t₁ t₂ :=
  ⟨h, h₁, h₂, [], (List.append_nil _).symm, (List.append_nil _).symm⟩

theorem bindings (h : GrownAlike t₁ t₂ u₁ u₂) : u₁.bindings.Perm u₂.bindings := by
  obtain ⟨added, h₁, h₂⟩ := h.added
  rw [ParameterTable.bindings, h₁, ParameterTable.bindings, h₂, List.map_append, List.map_append]
  exact h.base.append_right _

theorem size_eq (h : GrownAlike t₁ t₂ u₁ u₂) : u₁.size = u₂.size := by
  rw [← length_bindings, ← length_bindings, h.bindings.length_eq]

theorem mem_names_iff (h : GrownAlike t₁ t₂ u₁ u₂) : name ∈ u₁.names ↔ name ∈ u₂.names := by
  rw [names_eq_map_bindings, names_eq_map_bindings, (h.bindings.map _).mem_iff]

theorem contains_eq (h : GrownAlike t₁ t₂ u₁ u₂) (name : String) :
    u₁.contains name = u₂.contains name := by
  rw [Bool.eq_iff_iff, h.built₁.coherent.contains_iff, h.built₂.coherent.contains_iff,
    h.mem_names_iff]

theorem get?_eq (h : GrownAlike t₁ t₂ u₁ u₂) (name : String) : u₁.get? name = u₂.get? name := by
  refine Option.ext fun definition => ?_
  rw [h.built₁.coherent.get?_eq_some_iff, h.built₂.coherent.get?_eq_some_iff, h.bindings.mem_iff]

/-- Where a name stands may differ, but not whether it is there. -/
theorem requireAll_eq (h : GrownAlike t₁ t₂ u₁ u₂) (names : List String) :
    u₁.requireAll names = u₂.requireAll names := by
  cases h₂ : u₂.requireAll names with
  | error e =>
    obtain ⟨missing, hfind, rfl⟩ := h.built₂.coherent.requireAll_eq_error_iff.mp h₂
    refine h.built₁.coherent.requireAll_eq_error_iff.mpr ⟨missing, ?_, rfl⟩
    simpa only [h.mem_names_iff] using hfind
  | ok u =>
    have hknown := h.built₂.coherent.requireAll_eq_ok_iff.mp h₂
    exact h.built₁.coherent.requireAll_eq_ok_iff.mpr fun r hr => h.mem_names_iff.mpr (hknown r hr)

end GrownAlike

/-- The tables have the same size, so an entry gets the same identifier in both. -/
theorem agrees_insertion (name : String) (d : Definition) :
    Agrees (GrownAlike t₁ t₂) (insertion name d) := by
  intro u₁ u₂ h
  have hcontains := h.contains_eq name
  have hlength : u₁.entries.length = u₂.entries.length := h.size_eq
  simp only [runFrom_insertion, ParameterTable.insert, hcontains, hlength]
  cases hc : u₂.contains name with
  | true => exact ⟨_, u₁, u₂, rfl, rfl, h⟩
  | false =>
    rw [hc] at hcontains
    cases hid : Ident.ofIndex u₂.entries.length with
    | error source => exact ⟨_, u₁, u₂, rfl, rfl, h⟩
    | ok id =>
      have hi₁ : u₁.insert name d =
          (.ok id, ⟨u₁.entries ++ [⟨id, name, d⟩], u₁.index.insert name id⟩) := by
        simp only [ParameterTable.insert, hcontains, hlength, hid, Bool.false_eq_true, if_false]
      have hi₂ : u₂.insert name d =
          (.ok id, ⟨u₂.entries ++ [⟨id, name, d⟩], u₂.index.insert name id⟩) := by
        simp only [ParameterTable.insert, hc, hid, Bool.false_eq_true, if_false]
      obtain ⟨added, h₁, h₂⟩ := h.added
      refine ⟨_, _, _, rfl, rfl,
        h.base, h.built₁.insert hi₁, h.built₂.insert hi₂, added ++ [⟨id, name, d⟩], ?_, ?_⟩
      · rw [h₁, List.append_assoc]
      · rw [h₂, List.append_assoc]

theorem agrees_materialize (site : Site) (name : String) (d : Definition) :
    Agrees (GrownAlike t₁ t₂) (d.materialize site name) := by
  intro u₁ u₂ h
  have hcontains := h.contains_eq name
  cases hc : u₂.contains name with
  | true =>
    rw [d.materialize_of_contains hc, d.materialize_of_contains (hcontains.trans hc)]
    exact ⟨_, u₁, u₂, rfl, rfl, h⟩
  | false =>
    rw [d.materialize_of_new hc, d.materialize_of_new (hcontains.trans hc)]
    cases d.prepare site name with
    | error e => exact ⟨_, u₁, u₂, rfl, rfl, h⟩
    | ok prepared =>
      simp only [h.requireAll_eq]
      cases u₂.requireAll prepared.references with
      | error e => exact ⟨_, u₁, u₂, rfl, rfl, h⟩
      | ok u =>
        obtain ⟨result, u₁', u₂', h₁, h₂, h'⟩ := agrees_insertion name prepared u₁ u₂ h
        rw [runFrom_insertion] at h₁ h₂
        simp only [h₁, h₂]
        exact ⟨_, u₁', u₂', rfl, rfl, h'⟩

/-- **Fields resolve alike** against tables that have grown alike. -/
theorem agrees_resolve (site : Site) (derivedName : String) (accepts : Bool)
    (field : ConstraintField) :
    Agrees (GrownAlike t₁ t₂) (field.resolve site derivedName accepts) := by
  cases field with
  | literal x =>
    rw [ConstraintField.resolve]
    cases ensureFinite "constraint literal" x with
    | error source => exact fun u₁ u₂ h => ⟨_, u₁, u₂, rfl, rfl, h⟩
    | ok x =>
      cases accepts with
      | true => exact .pure _
      | false => exact agrees_materialize site derivedName (.constant x)
  | reference name =>
    intro u₁ u₂ h
    rw [ConstraintField.runFrom_resolve_reference, ConstraintField.runFrom_resolve_reference]
    by_cases hn : name ∈ u₂.names
    · obtain ⟨id₁, h₁⟩ := h.built₁.coherent.exists_require_iff.mpr (h.mem_names_iff.mpr hn)
      obtain ⟨id₂, h₂⟩ := h.built₂.coherent.exists_require_iff.mpr hn
      rw [h₁, h₂]
      exact ⟨_, u₁, u₂, rfl, rfl, h⟩
    · rw [h.built₁.coherent.require_of_not_mem (mt h.mem_names_iff.mp hn),
        h.built₂.coherent.require_of_not_mem hn]
      exact ⟨_, u₁, u₂, rfl, rfl, h⟩
  | inline d => exact agrees_materialize site derivedName d

/-! ### Passes over such tables -/

/-- Models with the same builder and with tables that have grown alike. -/
structure ModelsAlike (t₁ t₂ : ParameterTable) (m₁ m₂ : Model σ) : Prop where
  builder : m₁.builder = m₂.builder
  tables : GrownAlike t₁ t₂ m₁.table m₂.table

theorem agrees_call_alike (x : Attempt σ NetworkError α) :
    Agrees (ModelsAlike t₁ t₂) (call x) :=
  agrees_call x ModelsAlike.builder fun _ h => ⟨rfl, h.tables⟩

theorem agrees_apply (b : Builder σ) (site : Site) (s : Setting) :
    Agrees (ModelsAlike t₁ t₂) (s.apply b site) :=
  .bind (agrees_resolving ModelsAlike.builder ModelsAlike.tables
    (fun h htables => ⟨h.builder, htables⟩) fun _ => agrees_resolve site _ _ s.field)
    fun _ => agrees_call_alike _

theorem agrees_create (b : Builder σ) (d : NodeDeclaration) :
    Agrees (ModelsAlike t₁ t₂) (d.create b) := by
  rw [d.create_eq]
  refine .bind (agrees_ensure (fun h => ?_) fun h => ?_) fun _ => agrees_call_alike _
  · rw [h.builder]
  · rw [h.builder]

theorem agrees_constrain (b : Builder σ) (site : Site) (d : NodeDeclaration) :
    Agrees (ModelsAlike t₁ t₂) (d.constrain b site) := by
  rw [d.constrain_eq]
  refine .bind (agrees_ensure (fun h => ?_) fun _ => rfl) fun _ => .forM (agrees_apply b site) _
  rw [h.builder]

/-- **Passes agree** on models with the same builder and with tables that have grown alike. -/
theorem agrees_configure (b : Builder σ) (site : Site) (ds : List NodeDeclaration) :
    Agrees (ModelsAlike t₁ t₂) (configure b site ds) := by
  intro m₁ m₂ h
  have hagrees : Agrees (ModelsAlike t₁ t₂) (do createNodes b ds; constrainNodes b site ds) :=
    .bind (.forM (agrees_create b) ds) fun _ => .forM (agrees_constrain b site) ds
  obtain ⟨result, m₁', m₂', h₁, h₂, h'⟩ := hagrees m₁ m₂ h
  refine ⟨result.map fun _ =>
    { nodes := ds.length, terminals := terminalCount ds,
      parametersAdded := m₁'.table.size - m₁.table.size }, m₁', m₂', ?_, ?_, h'⟩
  · rw [configure_runFrom, h₁]
  · rw [configure_runFrom, h₂, h.tables.size_eq, h'.tables.size_eq]

/-! ### Documents -/

namespace Document

variable {d : Document} {ps : List NamedParameter} {s : σ}

/-- **Tables with the same parameters**, but for the order of those that the documents name: every
name has the same definition, and the same entries follow the parameters of the documents, which
stand as they are listed. -/
structure SameParameters (site : Site) (d d' : Document) (t t' : ParameterTable) : Prop where
  definitions : ∀ name, t.get? name = t'.get? name
  entries : ∃ named named' added : List ParameterEntry,
    named.map (fun e => (e.name, e.definition)) = d.parameters.map (·.binding site) ∧
      named'.map (fun e => (e.name, e.definition)) = d'.parameters.map (·.binding site) ∧
      t.entries = named ++ added ∧ t'.entries = named' ++ added

/-- With its parameters in another order, a document that is ready comes out in the same way. -/
theorem configure_reordered (b : Builder σ) (s : σ) (hready : d.Ready site)
    (hperm : d.parameters.Perm ps) :
    (∃ e s', (d.configure b site).runFrom s = (.error e, s') ∧
      (configure { d with parameters := ps } b site).runFrom s = (.error e, s')) ∨
    ∃ t t' summary s', (d.configure b site).runFrom s = (.ok (t, summary), s') ∧
      (configure { d with parameters := ps } b site).runFrom s = (.ok (t', summary), s') ∧
      SameParameters site d { d with parameters := ps } t t' := by
  have hready' := hready.perm hperm
  obtain ⟨t₁, ht₁⟩ := exists_parameterTable_iff.mpr hready.tabular
  obtain ⟨t₂, ht₂⟩ := exists_parameterTable_iff.mpr hready'.tabular
  obtain ⟨hbuilt₁, hbindings₁⟩ := bindings_of_parameterTable ht₁
  obtain ⟨hbuilt₂, hbindings₂⟩ := bindings_of_parameterTable ht₂
  have hbase : t₁.bindings.Perm t₂.bindings := by
    rw [hbindings₁, hbindings₂]
    exact hperm.map _
  obtain ⟨result, m₁, m₂, h₁, h₂, halike⟩ := agrees_configure b site d.nodes ⟨s, t₁⟩ ⟨s, t₂⟩
    ⟨rfl, .refl hbuilt₁ hbuilt₂ hbase⟩
  rw [runFrom_configure hready.toValid ht₁ h₁, runFrom_configure hready'.toValid ht₂ h₂,
    halike.builder]
  cases result with
  | error e => exact .inl ⟨e, _, rfl, rfl⟩
  | ok summary =>
    obtain ⟨added, hadded₁, hadded₂⟩ := halike.tables.added
    exact .inr ⟨_, _, summary, _, rfl, rfl, halike.tables.get?_eq, _, _, added, hbindings₁,
      hbindings₂, hadded₁, hadded₂⟩

/-- **The order of named parameters does not matter** to configuring a document, on any builder.
Parameters that make a table make one in any order, whichever of them come before those that they
combine. The document is configured in one order just if it is in the other, with the same summary
and the same builder in the end; and a failure that is not found before any node is created is the
same failure, and leaves the same builder. -/
theorem configure_parameters_perm (b : Builder σ) (site : Site) (d : Document)
    {ps : List NamedParameter} (hperm : d.parameters.Perm ps) (s : σ) :
    (Tabular site d.parameters → ∃ t, parameterTable { d with parameters := ps } site = .ok t) ∧
    ((∃ t summary s', (d.configure b site).runFrom s = (.ok (t, summary), s')) ↔
      ∃ t summary s',
        (configure { d with parameters := ps } b site).runFrom s = (.ok (t, summary), s')) ∧
    (∀ t summary s', (d.configure b site).runFrom s = (.ok (t, summary), s') →
      ∃ t', (configure { d with parameters := ps } b site).runFrom s = (.ok (t', summary), s') ∧
        SameParameters site d { d with parameters := ps } t t') ∧
    ∀ e s', (d.configure b site).runFrom s = (.error e, s') → ¬ e.Early →
      (configure { d with parameters := ps } b site).runFrom s = (.error e, s') := by
  refine ⟨fun htabular => exists_parameterTable_iff.mpr (htabular.perm hperm), ?_⟩
  by_cases hready : d.Ready site
  · rcases configure_reordered b s hready hperm with
      ⟨e₀, s₀, h, h'⟩ | ⟨t₀, t₀', summary₀, s₀, h, h', hsame⟩
    · rw [h, h']
      refine ⟨?_, fun t summary s' hok => ?_, fun e s' herr _ => herr⟩
      · constructor <;> rintro ⟨_, _, _, ⟨⟩⟩
      · cases hok
    · rw [h, h']
      refine ⟨⟨fun _ => ⟨_, _, _, rfl⟩, fun _ => ⟨_, _, _, rfl⟩⟩, fun t summary s' hok => ?_,
        fun e s' herr _ => ?_⟩
      · cases hok
        exact ⟨t₀', rfl, hsame⟩
      · cases herr
  · have hready' : ¬ Ready site { d with parameters := ps } := fun hr => hready (hr.perm hperm.symm)
    obtain ⟨e₀, hearly, h⟩ := runFrom_configure_of_not_ready (b := b) (s := s) hready
    obtain ⟨e₀', -, h'⟩ := runFrom_configure_of_not_ready (b := b) (s := s) hready'
    rw [h, h']
    refine ⟨?_, fun t summary s' hok => ?_, fun e s' herr hlate => ?_⟩
    · constructor <;> rintro ⟨_, _, _, ⟨⟩⟩
    · cases hok
    · cases herr
      exact absurd hearly hlate

theorem ready_capped : Ready ⟨⟨[], []⟩, "."⟩ capped where
  version := by decide
  parameters := ⟨by decide, by decide⟩
  nodes := ⟨by decide, by decide⟩
  tabular := tabular_capped

/-- Whether the cap comes before or after the inflow, the sink takes the same. -/
theorem configure_parameters_perm_capped : ∃ t t' summary n,
    (capped.configure Network.builder ⟨⟨[], []⟩, "."⟩).runFrom .empty = (.ok (t, summary), n) ∧
      (configure { capped with parameters := capped.parameters.reverse } Network.builder
        ⟨⟨[], []⟩, "."⟩).runFrom .empty = (.ok (t', summary), n) ∧
      SameParameters ⟨⟨[], []⟩, "."⟩ capped
        { capped with parameters := capped.parameters.reverse } t t' := by
  obtain ⟨t₀, ht₀⟩ := exists_parameterTable_iff.mpr tabular_capped
  have hnames : t₀.names = ["capped", "inflow"] := names_of_parameterTable ht₀
  have hc : Configurable .empty t₀ ⟨⟨[], []⟩, "."⟩ capped.nodes := by
    refine configurable_iff.mpr ⟨⟨by decide, fun _ _ _ hr => by cases hr⟩, ?_⟩
    rw [show walk capped.nodes = [⟨⟨"city", none⟩, .maxFlow, .reference "capped"⟩] from rfl, hnames]
    simp only [forall_split_cons_iff]
    exact ⟨List.mem_cons_self .., by simp⟩
  have hbuilt := (bindings_of_parameterTable ht₀).1
  obtain ⟨summary, hok⟩ := (@succeeds_iff_configurable .empty t₀ ⟨⟨[], []⟩, "."⟩ capped.nodes
    .empty hbuilt (by decide) hbuilt.size_le).mpr hc
  rcases hrun : (WaterNetwork.configure Network.builder ⟨⟨[], []⟩, "."⟩ capped.nodes).runFrom
    ⟨.empty, t₀⟩ with ⟨result, m⟩
  rw [hrun] at hok
  obtain rfl : result = .ok summary := hok
  have hcapped := runFrom_configure ready_capped.toValid ht₀ hrun
  obtain ⟨-, -, hsame, -⟩ := configure_parameters_perm Network.builder ⟨⟨[], []⟩, "."⟩ capped
    (List.reverse_perm _).symm .empty
  obtain ⟨t', hreversed, halike⟩ := hsame _ _ _ hcapped
  exact ⟨_, t', summary, _, hcapped, hreversed, halike⟩

end Document

end WaterNetwork
