import WaterNetwork.Proofs.Outcome

/-!
# When a configuration succeeds, and what it leaves

A configuration of a network succeeds just if its declarations are `Configurable`, which is
said without running anything: the names are new, each given field is admissible where it
stands, and each delay has a sound definition under a name that is new. What the run leaves can
be told in advance as well:

* `Completed` — if it succeeds, it has registered all terminals and made all settings.
* `StoppedAtName` — if a name is in use, only the declarations before it have been registered.
* `StoppedAtSetting` — if the names are new, but some setting is the first that cannot be
  resolved, all terminals have been registered and just the settings before it made.

Either way the records and entries that were there are still there, and the log has grown.
-/

namespace WaterNetwork

open Network Settling

variable {n n' : Network} {t : ParameterTable} {site : Site} {accepts : Bool}
  {d : NodeDeclaration} {ds : List NodeDeclaration} {s : Setting} {ss : List Setting}

/-! ### Declarations that can be configured -/

/-- **Declarations that can be configured** with a network and a table: they are fresh, each
field is admissible where the walk comes to it, and each delay takes at least one step from a
finite start, under a derived name that the table does not have. -/
structure Configurable (n : Network) (t : ParameterTable) (site : Site)
    (ds : List NodeDeclaration) : Prop extends Fresh n ds where
  fields : ∀ earlier s later, walk ds = earlier ++ s :: later → s.purpose ≠ .delay →
    s.Admissible site n.acceptsLiterals t.names earlier
  delays : ∀ name steps x, .delay name steps x ∈ ds → 1 ≤ steps.toNat ∧
    Number.isFinite x = true ∧ NodeAttribute.delay.derivedName name ∉ t.names

theorem admissible_ofDelay_iff {name : String} {steps : UInt64} {x : Float}
    {names : List String} :
    (Setting.ofDelay name steps x).Admissible site accepts names ss ↔ 1 ≤ steps.toNat ∧
      Number.isFinite x = true ∧ NodeAttribute.delay.derivedName name ∉ names := by
  have hcheck : (NodeDeclaration.delayDefinition name steps x).check = .ok () ↔
      1 ≤ steps.toNat ∧ Number.isFinite x = true := by
    rw [Definition.check_eq_ok_iff]
    constructor
    · intro h
      exact ⟨h.steps _ _ _ _ rfl, h.finite x (List.mem_singleton_self x)⟩
    · rintro ⟨hsteps, hx⟩
      refine ⟨fun y hy => List.mem_singleton.mp hy ▸ hx, nofun, ?_, nofun⟩
      rintro _ _ _ _ ⟨⟩
      exact hsteps
  rw [← and_assoc, ← hcheck]
  constructor
  · rintro ⟨hc, -, hnew, -⟩
    exact ⟨hc, hnew⟩
  · rintro ⟨hc, hnew⟩
    exact ⟨hc, trivial, hnew, nofun⟩

/-- The conditions on fields and on delays are one condition on the walk. -/
theorem configurable_iff : Configurable n t site ds ↔ Fresh n ds ∧
    ∀ earlier s later, walk ds = earlier ++ s :: later →
      s.Admissible site n.acceptsLiterals t.names earlier := by
  constructor
  · rintro ⟨hfresh, hfields, hdelays⟩
    refine ⟨hfresh, fun earlier s later hwalk => ?_⟩
    by_cases hp : s.purpose = .delay
    · obtain ⟨d, hd, hs⟩ := mem_walk.mp (show s ∈ walk ds by simp [hwalk])
      obtain ⟨name, steps, x, rfl, rfl⟩ := NodeDeclaration.eq_delay_of_mem_settings hs hp
      exact admissible_ofDelay_iff.mpr (hdelays name steps x hd)
    · exact hfields earlier s later hwalk hp
  · rintro ⟨hfresh, hall⟩
    refine ⟨hfresh, fun earlier s later hwalk _ => hall earlier s later hwalk, ?_⟩
    intro name steps x hd
    have hs : Setting.ofDelay name steps x ∈ walk ds :=
      mem_walk.mpr ⟨_, hd, List.mem_singleton_self _⟩
    obtain ⟨earlier, later, hwalk⟩ := List.append_of_mem hs
    exact admissible_ofDelay_iff.mp (hall earlier _ later hwalk)

theorem forall_split_cons_iff {α : Type} {P : List α → α → Prop} {x : α} {xs : List α} :
    (∀ before y after, x :: xs = before ++ y :: after → P before y) ↔
      P [] x ∧ ∀ before y after, xs = before ++ y :: after → P (x :: before) y := by
  constructor
  · intro h
    exact ⟨h [] x xs rfl, fun before y after hxs => h (x :: before) y after (by rw [hxs]; rfl)⟩
  · rintro ⟨hx, h⟩ before y after heq
    cases before with
    | nil => cases heq; exact hx
    | cons z before => cases heq; exact h before y after rfl

/-! ### What the calls of a pass leave -/

theorem containsName_eq_false_of_fresh (hfresh : Fresh n ds) (hd : d ∈ ds) :
    n.containsName d.name = false := by
  rw [Bool.eq_false_iff]
  intro hname
  obtain ⟨r, hr, heq⟩ := containsName_iff.mp hname
  exact hfresh.vacant d hd r hr heq

theorem node_of_mem_registrations {c : BuilderCall} (hc : c ∈ registrations ds) :
    ∃ d ∈ ds, c.terminal.node = d.name := by
  simp only [registrations, NodeDeclaration.registrations, NodeDeclaration.namedTerminals,
    List.mem_flatMap, List.mem_map] at hc
  obtain ⟨d, hd, _, ⟨_, -, rfl⟩, rfl⟩ := hc
  exact ⟨d, hd, rfl⟩

theorem node_of_mem_handed (hss : ss ⊆ walk ds) {c : BuilderCall} (hc : c ∈ handed accepts ss) :
    ∃ d ∈ ds, c.terminal.node = d.name := by
  obtain ⟨s, hs, hc⟩ := List.mem_flatMap.mp hc
  obtain ⟨d, hd, hs⟩ := mem_walk.mp (hss hs)
  rw [Setting.terminal_of_mem_calls hc]
  exact ⟨d, hd, (NodeDeclaration.terminal_of_mem_settings hs).1⟩

theorem filterMap_handed : (handed accepts ss).filterMap (·.registers?) = [] := by
  rw [List.filterMap_eq_nil_iff]
  intro c hc
  obtain ⟨s, -, hc⟩ := List.mem_flatMap.mp hc
  exact registers?_of_mem_calls hc

/-- What a pass leaves of a network that has registered fresh declarations and made some of
their settings. -/
theorem performed_pass (hn : n.Coherent) (hfresh : Fresh n ds) (hss : ss ⊆ walk ds)
    (h : Performs n (registrations ds ++ handed accepts ss) n') :
    n'.calls = n.calls ++ registrations ds ++ handed accepts ss ∧
      n'.registered = n.registered ++ namedTerminals ds ∧ n.nodes <+: n'.nodes := by
  have hp := hn.performed h
  refine ⟨?_, ?_, hp.nodes_prefix fun c hc => ?_⟩
  · rw [hp.calls, List.append_assoc]
  · rw [hp.registered, List.filterMap_append, filterMap_handed, filterMap_registrations,
      List.append_nil]
  · have hnode : ∃ d ∈ ds, c.terminal.node = d.name := by
      rcases List.mem_append.mp hc with hc | hc
      · exact node_of_mem_registrations hc
      · exact node_of_mem_handed hss hc
    obtain ⟨d, hd, heq⟩ := hnode
    rw [heq]
    exact containsName_eq_false_of_fresh hfresh hd

/-! ### Success -/

/-- **A completed configuration**: all terminals are registered, then all settings are made, and
nothing else is changed. The network is again one that calls make. -/
structure Completed (n : Network) (t : ParameterTable) (site : Site) (ds : List NodeDeclaration)
    (summary : Summary) (m : Model Network) : Prop where
  summary_eq : summary = { nodes := ds.length, terminals := (namedTerminals ds).length,
                           parametersAdded := (made site n.acceptsLiterals (walk ds)).length }
  calls : m.builder.calls = n.calls ++ registrations ds ++ handed n.acceptsLiterals (walk ds)
  registered : m.builder.registered = n.registered ++ namedTerminals ds
  nodes : n.nodes <+: m.builder.nodes
  reachable : m.builder.Reachable
  bindings : m.table.bindings = t.bindings ++ made site n.acceptsLiterals (walk ds)
  entries : t.entries <+: m.table.entries

/-- Whatever there is room for in the table, a configuration that succeeds is completed. -/
theorem completed_of_configure (hn : n.Reachable) (ht : t.Built)
    (hterminals : n.nodes.length + terminalCount ds ≤ Ident.limit) {summary : Summary}
    {m : Model Network}
    (h : (configure Network.builder site ds).runFrom ⟨n, t⟩ = (.ok summary, m)) :
    Completed n t site ds summary m := by
  obtain ⟨hfresh, hsettles, hcs, rfl⟩ := (configure_eq_ok_iff hn.coherent ht hterminals).mp h
  obtain ⟨hcalls, hregistered, hnodes⟩ :=
    performed_pass hn.coherent hfresh (List.Subset.refl _) hcs
  refine ⟨?_, hcalls, hregistered, hnodes, hcs.reachable hn, hsettles.bindings ht,
    hsettles.entries_prefix ht⟩
  rw [hsettles.size ht, Nat.add_sub_cancel_left, length_namedTerminals]

/-- A configuration succeeds if its declarations can be configured, as long as there is room for
all terminals and entries. -/
theorem succeeds_iff_configurable (hn : n.Reachable) (ht : t.Built)
    (hterminals : n.nodes.length + terminalCount ds ≤ Ident.limit)
    (hentries : t.size + (made site n.acceptsLiterals (walk ds)).length ≤ Ident.limit) :
    (∃ summary, ((configure Network.builder site ds).runFrom ⟨n, t⟩).1 = .ok summary) ↔
      Configurable n t site ds := by
  rw [configurable_iff]
  constructor
  · rintro ⟨summary, h⟩
    obtain ⟨hfresh, hsettles, -⟩ :=
      (configure_eq_ok_iff (m := ((configure Network.builder site ds).runFrom ⟨n, t⟩).2)
        hn.coherent ht hterminals).mp (Prod.ext h rfl)
    have hnodup := nodup_derivedNames_walk hfresh.nodup
    exact ⟨hfresh, (exists_settles_iff ht hentries hnodup).mp ⟨_, hsettles⟩⟩
  · rintro ⟨hfresh, hall⟩
    have hnodup := nodup_derivedNames_walk hfresh.nodup
    obtain ⟨t', hsettles⟩ := (exists_settles_iff ht hentries hnodup).mpr hall
    obtain ⟨n', hrun, -⟩ := configure_settled hn.coherent ht hfresh hterminals hsettles
    exact ⟨_, congrArg Prod.fst hrun⟩

/-- **When a configuration of a network succeeds**: just if its declarations can be configured,
as long as there is room for all terminals and entries; and then it is completed. -/
theorem configure_completes (hn : n.Reachable) (ht : t.Built)
    (hterminals : n.nodes.length + terminalCount ds ≤ Ident.limit)
    (hentries : t.size + (made site n.acceptsLiterals (walk ds)).length ≤ Ident.limit) :
    ((∃ summary, ((configure Network.builder site ds).runFrom ⟨n, t⟩).1 = .ok summary) ↔
      Configurable n t site ds) ∧
    ∀ summary m, (configure Network.builder site ds).runFrom ⟨n, t⟩ = (.ok summary, m) →
      Completed n t site ds summary m :=
  ⟨succeeds_iff_configurable hn ht hterminals hentries,
    fun _ _ h => completed_of_configure hn ht hterminals h⟩

/-- A sink that takes at most what has been delayed, at a cost. -/
def laggedCity : List NodeDeclaration :=
  [.delay "lag" 2 0,
    .flow .output "city" { cost := some (.literal 1.5), maxFlow := some (.reference "lag-delay") }]

theorem walk_laggedCity : walk laggedCity =
    [.ofDelay "lag" 2 0, ⟨⟨"city", none⟩, .cost, .literal 1.5⟩,
      ⟨⟨"city", none⟩, .maxFlow, .reference "lag-delay"⟩] := rfl

/-- With a network that refuses numbers, the cost becomes a parameter. -/
theorem configure_completes_laggedCity : ∃ summary m,
    (configure Network.builder ⟨⟨[], []⟩, "."⟩ laggedCity).runFrom
        ⟨Network.empty.withLiterals false, .empty⟩ = (.ok summary, m) ∧
      summary = { nodes := 2, terminals := 3, parametersAdded := 2 } ∧
      m.table.names = ["lag-delay", "city-cost"] := by
  obtain ⟨hiff, hdone⟩ := @configure_completes (Network.empty.withLiterals false) .empty
    ⟨⟨[], []⟩, "."⟩ laggedCity (.withLiterals false .empty) .empty (by decide) (by decide)
  have hc : Configurable (Network.empty.withLiterals false) .empty ⟨⟨[], []⟩, "."⟩ laggedCity := by
    refine configurable_iff.mpr ⟨⟨by decide, fun _ _ _ hr => by cases hr⟩, ?_⟩
    rw [walk_laggedCity]
    simp only [forall_split_cons_iff, admissible_ofDelay_iff]
    refine ⟨by decide, ?_, ?_, by simp⟩
    · exact ⟨by decide, nofun⟩
    · exact List.mem_cons_self ..
  obtain ⟨summary, hok⟩ := hiff.mpr hc
  rcases hrun : (configure Network.builder ⟨⟨[], []⟩, "."⟩ laggedCity).runFrom
    ⟨Network.empty.withLiterals false, .empty⟩ with ⟨result, m⟩
  rw [hrun] at hok
  obtain rfl : result = .ok summary := hok
  have h := hdone summary m hrun
  refine ⟨summary, m, hrun, h.summary_eq, ?_⟩
  rw [ParameterTable.names_eq_map_bindings, h.bindings]
  rfl

/-! ### Failure -/

/-- **A configuration that stopped at a name**: it is the first that was taken, only the
declarations before it have been registered, and no setting has been made. -/
structure StoppedAtName (n : Network) (t : ParameterTable) (before : List NodeDeclaration)
    (d : NodeDeclaration) (e : ConfigurationError) (m : Model Network) : Prop where
  fresh : Fresh n before
  taken : Taken n before d.name
  error : ∃ sub, e = .network (.duplicateNode ⟨d.name, sub⟩)
  calls : m.builder.calls = n.calls ++ registrations before
  registered : m.builder.registered = n.registered ++ namedTerminals before
  table : m.table = t

/-- **A configuration that stopped at a setting**: it is the first that cannot be resolved, all
terminals have been registered, and just the settings before it have been made. -/
structure StoppedAtSetting (n : Network) (t : ParameterTable) (site : Site)
    (ds : List NodeDeclaration) (earlier : List Setting) (s : Setting) (e : ConfigurationError)
    (m : Model Network) : Prop where
  resolved : Settles site n.acceptsLiterals earlier t m.table
  admissible : ∀ earlier' s' later, earlier = earlier' ++ s' :: later →
    s'.Admissible site n.acceptsLiterals t.names earlier'
  inadmissible : ¬ s.Admissible site n.acceptsLiterals t.names earlier
  error : ∃ source, (s.resolve site n.acceptsLiterals).runFrom m.table = (.error source, m.table) ∧
    e = .unresolved s.terminal.node s.purpose source
  calls : m.builder.calls = n.calls ++ registrations ds ++ handed n.acceptsLiterals earlier
  registered : m.builder.registered = n.registered ++ namedTerminals ds
  bindings : m.table.bindings = t.bindings ++ made site n.acceptsLiterals earlier

/-- As long as there is room for all entries, a setting that cannot be resolved when those before it
have been made is the first that is not admissible. -/
theorem stoppedAtSetting_of_unresolved (hn : n.Coherent) (ht : t.Built) (hfresh : Fresh n ds)
    (hentries : t.size + (made site n.acceptsLiterals (walk ds)).length ≤ Ident.limit)
    {earlier later : List Setting} {t' : ParameterTable} {source : ParameterError}
    (hwalk : walk ds = earlier ++ s :: later) (h : Settles site n.acceptsLiterals earlier t t')
    (he : (s.resolve site n.acceptsLiterals).runFrom t' = (.error source, t'))
    (hcs : Performs n (registrations ds ++ handed n.acceptsLiterals earlier) n') :
    StoppedAtSetting n t site ds earlier s (.unresolved s.terminal.node s.purpose source)
      ⟨n', t'⟩ := by
  have hss : earlier ⊆ walk ds := fun s' hs' => hwalk ▸ List.mem_append_left _ hs'
  obtain ⟨hcalls, hregistered, -⟩ := performed_pass hn hfresh hss hcs
  have hnodup := nodup_derivedNames_walk hfresh.nodup
  rw [hwalk] at hentries hnodup
  refine ⟨h, ?_, fun hs => ?_, ⟨source, he, rfl⟩, hcalls, hregistered, h.bindings ht⟩
  · rw [made_append, List.length_append] at hentries
    rw [List.map_append, List.nodup_append] at hnodup
    exact (exists_settles_iff ht (by omega) hnodup.1).mp ⟨t', h⟩
  · obtain ⟨v, t₁, hok⟩ := (h.exists_resolve_iff_admissible ht hentries hnodup).mpr hs
    rw [he] at hok
    cases hok

theorem exists_stoppedAtSetting (hn : n.Coherent) (ht : t.Built) (hfresh : Fresh n ds)
    (hterminals : n.nodes.length + terminalCount ds ≤ Ident.limit)
    (hentries : t.size + (made site n.acceptsLiterals (walk ds)).length ≤ Ident.limit)
    {e : ConfigurationError} {m : Model Network}
    (herr : (configure Network.builder site ds).runFrom ⟨n, t⟩ = (.error e, m)) :
    ∃ earlier s later, walk ds = earlier ++ s :: later ∧
      StoppedAtSetting n t site ds earlier s e m := by
  have hends := configure_ends site hn ht hterminals
  rw [herr] at hends
  cases hends with
  | duplicate hds _ htaken _ => exact absurd htaken (not_taken_of_fresh (hds ▸ hfresh))
  | unresolved _ hwalk h he hcs =>
    exact ⟨_, _, _, hwalk, stoppedAtSetting_of_unresolved hn ht hfresh hentries hwalk h he hcs⟩

/-- **What a configuration that fails leaves**, as long as there is room for all terminals and
entries: it stopped at a name if the declarations are not fresh, and at a setting if they are.
Records, log and entries that were there are still there. -/
theorem configure_stops (hn : n.Reachable) (ht : t.Built)
    (hterminals : n.nodes.length + terminalCount ds ≤ Ident.limit)
    (hentries : t.size + (made site n.acceptsLiterals (walk ds)).length ≤ Ident.limit)
    {e : ConfigurationError} {m : Model Network}
    (herr : (configure Network.builder site ds).runFrom ⟨n, t⟩ = (.error e, m)) :
    (¬ Fresh n ds →
      ∃ before d after, ds = before ++ d :: after ∧ StoppedAtName n t before d e m) ∧
    (Fresh n ds →
      ∃ earlier s later, walk ds = earlier ++ s :: later ∧
        StoppedAtSetting n t site ds earlier s e m) ∧
    n.nodes <+: m.builder.nodes ∧ n.calls <+: m.builder.calls ∧ t.entries <+: m.table.entries := by
  have hends := configure_ends site hn.coherent ht hterminals
  rw [herr] at hends
  cases hends with
  | @duplicate before after d n' sub hds hfresh htaken hcs =>
    subst hds
    have hcs' : Performs n (registrations before ++ handed true []) n' := by
      rwa [handed_nil, List.append_nil]
    obtain ⟨hcalls, hregistered, hnodes⟩ :=
      performed_pass hn.coherent hfresh (List.nil_subset _) hcs'
    rw [handed_nil, List.append_nil] at hcalls
    refine ⟨fun _ => ⟨before, d, after, rfl, ?_⟩, fun h => ?_, hnodes, ?_, List.prefix_rfl⟩
    · exact ⟨hfresh, htaken, ⟨sub, rfl⟩, hcalls, hregistered, rfl⟩
    · exact absurd htaken (not_taken_of_fresh h)
    · exact hcalls ▸ List.prefix_append _ _
  | @unresolved earlier later s n' t' source hfresh hwalk h he hcs =>
    have hss : earlier ⊆ walk ds := fun s' hs' => hwalk ▸ List.mem_append_left _ hs'
    obtain ⟨hcalls, -, hnodes⟩ := performed_pass hn.coherent hfresh hss hcs
    refine ⟨fun hno => absurd hfresh hno, fun _ => ⟨earlier, s, later, hwalk, ?_⟩, hnodes, ?_,
      h.entries_prefix ht⟩
    · exact stoppedAtSetting_of_unresolved hn.coherent ht hfresh hentries hwalk h he hcs
    · rw [hcalls, List.append_assoc]
      exact List.prefix_append _ _

/-- Without the delay, the bound of the sink names a parameter that is not there. -/
theorem configure_stops_city : ∃ e m earlier s later,
    (configure Network.builder ⟨⟨[], []⟩, "."⟩ laggedCity.tail).runFrom ⟨.empty, .empty⟩ =
        (.error e, m) ∧
      walk laggedCity.tail = earlier ++ s :: later ∧
      StoppedAtSetting .empty .empty ⟨⟨[], []⟩, "."⟩ laggedCity.tail earlier s e m := by
  have hfresh : Fresh .empty laggedCity.tail := ⟨by decide, fun _ _ _ hr => by cases hr⟩
  have hcost :
      (Setting.resolve ⟨⟨[], []⟩, "."⟩ true ⟨⟨"city", none⟩, .cost, .literal 1.5⟩).runFrom .empty =
        (.ok (.literal 1.5), .empty) :=
    (ConstraintField.resolve_eq_ok_iff ParameterTable.coherent_empty).mpr
      ⟨⟨by decide, nofun⟩, rfl, rfl⟩
  have hbound :
      (Setting.resolve ⟨⟨[], []⟩, "."⟩ true
        ⟨⟨"city", none⟩, .maxFlow, .reference "lag-delay"⟩).runFrom .empty =
        (.error (.unknownParameter "lag-delay"), .empty) := by
    rw [Setting.resolve, ConstraintField.runFrom_resolve_reference,
      ParameterTable.coherent_empty.require_of_not_mem (List.not_mem_nil)]
    rfl
  obtain ⟨n', hrun, -⟩ := configure_unresolved (n := .empty) (Reachable.empty).coherent .empty
    hfresh (by decide) rfl (.cons hcost .nil) hbound
  obtain ⟨earlier, s, later, hwalk, hstop⟩ :=
    (configure_stops .empty .empty (by decide) (by decide) hrun).2.1 hfresh
  exact ⟨_, _, earlier, s, later, hrun, hwalk, hstop⟩

end WaterNetwork
