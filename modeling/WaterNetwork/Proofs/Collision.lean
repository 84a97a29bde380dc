import WaterNetwork.Proofs.Outcome

/-!
# Collisions of derived names

A definition is put into the table only under a name that the table does not have. The names
that a pass gives on its own are derived from nodes and attributes, and no two of them are the
same, so a pass never gets into its own way: if it fails because a name is taken, the name was
in the table before the pass began.

* `nameCollision_of_resolve` — the name that collides is the derived name of the setting.
* `exists_first_unresolved` — a configuration that reports a setting has come to it by settling
  all settings before it, whether there was room for the nodes or not.
* `derivedName_collision` — a collision is with an entry that was there.
-/

namespace WaterNetwork

open Attempt Configuring Network Settling

variable {n n' : Network} {t t' : ParameterTable} {site : Site} {d : NodeDeclaration}
  {ds : List NodeDeclaration} {m m' : Model Network} {name node : String} {a : NodeAttribute}
  {source : ParameterError} {accepts : Bool} {s : Setting}

/-! ### Where a collision comes from -/

namespace ParameterTable

theorem require_ne_nameCollision (t : ParameterTable) (wanted : String) :
    t.require wanted ≠ .error (.nameCollision name) := by
  rw [require]
  cases t.index[wanted]? <;> rintro ⟨⟩

theorem requireAll_ne_nameCollision (t : ParameterTable) (names : List String) :
    t.requireAll names ≠ .error (.nameCollision name) := by
  induction names with
  | nil => rintro ⟨⟩
  | cons first rest ih =>
    rw [requireAll]
    cases hr : t.require first with
    | error e =>
      rintro ⟨⟩
      exact t.require_ne_nameCollision first hr
    | ok id => exact ih

/-- A new name can only be refused for want of room. -/
theorem insert_ne_nameCollision {derived : String} (d : Definition)
    (h : t.contains derived = false) : (t.insert derived d).1 ≠ .error (.nameCollision name) := by
  rw [insert, h, if_neg Bool.false_ne_true]
  cases Ident.ofIndex t.entries.length <;> rintro ⟨⟩

end ParameterTable

theorem Definition.prepare_ne_nameCollision (site : Site) (d : Definition) (derived : String) :
    d.prepare site derived ≠ .error (.nameCollision name) := by
  unfold prepare
  split
  · nofun
  · unfold anchor
    dsimp only
    split
    · split <;> nofun
    · nofun

theorem Definition.nameCollision_of_materialize {d : Definition} {derived : String}
    (h : (d.materialize site derived).runFrom t = (.error (.nameCollision name), t')) :
    name = derived ∧ t.contains derived = true := by
  cases hc : t.contains derived with
  | true =>
    rw [d.materialize_of_contains hc] at h
    cases h
    exact ⟨rfl, rfl⟩
  | false =>
    -- With a new name, every later fault is of another kind.
    rw [d.materialize_of_new hc] at h
    cases hp : d.prepare site derived with
    | error e =>
      rw [hp] at h
      cases h
      exact absurd hp (d.prepare_ne_nameCollision site derived)
    | ok d' =>
      simp only [hp] at h
      cases hr : t.requireAll d'.references with
      | error e =>
        rw [hr] at h
        cases h
        exact absurd hr (t.requireAll_ne_nameCollision _)
      | ok u =>
        simp only [hr] at h
        have hne : (t.insert derived d').1 ≠ .error (.nameCollision name) :=
          ParameterTable.insert_ne_nameCollision d' hc
        rcases hi : t.insert derived d' with ⟨e | id, t₁⟩
        · rw [hi] at h hne
          cases h
          exact absurd rfl hne
        · rw [hi] at h
          cases h

/-- The name that collides is the derived name of the setting, and the table has it. -/
theorem Setting.nameCollision_of_resolve
    (h : (s.resolve site accepts).runFrom t = (.error (.nameCollision name), t')) :
    name = s.derivedName ∧ t.contains s.derivedName = true := by
  rw [resolve] at h
  cases hf : s.field with
  | literal x =>
    rw [hf, ConstraintField.resolve] at h
    split at h
    · cases h
    · split at h
      · cases h
      · exact Definition.nameCollision_of_materialize h
  | reference wanted =>
    rw [hf, ConstraintField.runFrom_resolve_reference] at h
    cases hr : t.require wanted with
    | error e =>
      rw [hr] at h
      cases h
      exact absurd hr (t.require_ne_nameCollision wanted)
    | ok id =>
      rw [hr] at h
      cases h
  | inline d =>
    rw [hf] at h
    exact Definition.nameCollision_of_materialize h

/-! ### How a pass comes to report a setting -/

/-- A declaration that is created was not in use, and its registrations have been performed. -/
theorem NodeDeclaration.performs_of_create (hn : n.Coherent)
    (h : (d.create Network.builder).runFrom ⟨n, t⟩ = (.ok (), m)) :
    n.containsName d.name = false ∧ m.table = t ∧ Performs n d.registrations m.builder := by
  cases hname : n.containsName d.name with
  | true =>
    obtain ⟨sub, herr⟩ := create_of_taken (t := t) hn hname
    rw [herr] at h
    cases h
  | false =>
    rw [create_eq, runFrom_bind_ok (runFrom_ensure_true (by simp [isNone_occupied? hn, hname])),
      runFrom_call] at h
    rcases hrun : (Network.builder.performAll d.registrations).runFrom n with ⟨e | ⟨⟩, n'⟩
    · rw [hrun] at h
      cases h
    · rw [hrun] at h
      cases h
      exact ⟨rfl, rfl, hrun⟩

/-- Declarations that are all created were fresh, and their registrations have been performed. -/
theorem performs_of_createNodes (hn : n.Coherent)
    (h : (createNodes Network.builder ds).runFrom ⟨n, t⟩ = (.ok (), m)) :
    Fresh n ds ∧ m.table = t ∧ Performs n (registrations ds) m.builder := by
  induction ds using List.reverseRecOn generalizing m with
  | nil =>
    cases h
    exact ⟨⟨List.nodup_nil, by simp⟩, rfl, .nil⟩
  | append_singleton ds d ih =>
    rw [createNodes, List.forM_append, runFrom_bind] at h
    split at h
    · rename_i u m₁ hrun
      obtain ⟨hfresh, htable, hcs⟩ := ih hrun
      have hp := hn.performed hcs
      rw [List.forM_cons, List.forM_nil, bind_pure_unit] at h
      obtain ⟨hvacant, htable', hcs'⟩ := NodeDeclaration.performs_of_create hp.coherent h
      refine ⟨fresh_concat_iff.mpr ⟨hfresh, fun htaken => ?_⟩, htable'.trans htable, ?_⟩
      · rw [(containsName_of_performed hp).mpr htaken] at hvacant
        cases hvacant
      · rw [registrations, List.flatMap_append, List.flatMap_singleton]
        exact hcs.append hcs'
    · cases h

/-- Creating nodes fails only on the builder's side. -/
theorem network_error_of_createNodes {σ : Type} {b : Builder σ} {m m' : Model σ}
    {e : ConfigurationError} (h : (createNodes b ds).runFrom m = (.error e, m')) :
    ∃ cause, e = .network cause := by
  induction ds generalizing m with
  | nil => cases h
  | cons d ds ih =>
    rcases hd : (d.create b).runFrom m with ⟨e' | ⟨⟩, m₁⟩
    · rw [createNodes, runFrom_forM_cons_error ds hd] at h
      cases h
      rw [NodeDeclaration.create_eq, runFrom_bind] at hd
      split at hd
      · rw [runFrom_call] at hd
        cases hres : ((b.performAll d.registrations).runFrom _).1 with
        | error cause =>
          rw [hres] at hd
          cases hd
          exact ⟨cause, rfl⟩
        | ok u =>
          rw [hres] at hd
          cases hd
      · rename_i hens
        simp only [runFrom, ensure] at hens
        split at hens <;> cases hens
        cases hd
        exact ⟨_, rfl⟩
    · rw [createNodes, runFrom_forM_cons_ok ds hd] at h
      exact ih h

/-- **The setting that is reported** is the first that does not resolve; the settings before it
have been settled. This takes no account of room: if there is none, creating the nodes fails. -/
theorem exists_first_unresolved (hn : n.Coherent) (ht : t.Built)
    (h : (configure Network.builder site ds).runFrom ⟨n, t⟩ =
      (.error (.unresolved node a source), m)) :
    Fresh n ds ∧ ∃ earlier s later t', walk ds = earlier ++ s :: later ∧
      Settles site n.acceptsLiterals earlier t t' ∧
      (s.resolve site n.acceptsLiterals).runFrom t' = (.error source, t') ∧
      node = s.terminal.node ∧ a = s.purpose := by
  rw [configure_runFrom, runFrom_bind] at h
  rcases hcreate : (createNodes Network.builder ds).runFrom ⟨n, t⟩ with ⟨e | ⟨⟩, ⟨n₁, t₁⟩⟩
  · obtain ⟨cause, rfl⟩ := network_error_of_createNodes hcreate
    rw [hcreate] at h
    cases h
  · obtain ⟨hfresh, htable, hcs⟩ := performs_of_createNodes hn hcreate
    obtain rfl : t₁ = t := htable
    have hp := hn.performed hcs
    have hreg : ∀ s ∈ walk ds, n₁.containsNode s.terminal = true := fun _ =>
      containsNode_of_mem_walk hp
    rw [hcreate] at h
    dsimp only at h
    rw [runFrom_constrainNodes fun d hd sub hsub => containsNode_of_performed hp hd hsub] at h
    rw [← hp.acceptsLiterals]
    refine ⟨hfresh, ?_⟩
    rcases settles_or_fails site n₁.acceptsLiterals (walk ds) t₁ with
      ⟨t', hsettles⟩ | ⟨earlier, s, later, t', e, hwalk, hsettles, he⟩
    · obtain ⟨n', hrun, -⟩ := runFrom_settings hp.coherent ht hreg hsettles
      rw [hrun] at h
      cases h
    · rw [hwalk] at hreg h
      obtain ⟨n', hrun, hcs'⟩ := runFrom_settings hp.coherent ht
        (fun s' hs' => hreg s' (List.mem_append_left _ hs')) hsettles
      have haccepts := (hp.coherent.performed hcs').acceptsLiterals
      have hs := runFrom_apply_error (b := Network.builder) (m := ⟨n', t'⟩)
        (show (s.resolve site n'.acceptsLiterals).runFrom t' = (.error e, t') by
          rw [haccepts, he])
      rw [runFrom_forM_append_ok _ hrun, runFrom_forM_cons_error _ hs] at h
      cases h
      exact ⟨earlier, s, later, t', hwalk, hsettles, he, rfl, rfl⟩

/-! ### Collisions -/

/-- No setting takes the derived name of a later one. -/
theorem derivedName_not_mem_madeNames {earlier later : List Setting} (hfresh : Fresh n ds)
    (hwalk : walk ds = earlier ++ s :: later) :
    s.derivedName ∉ madeNames site accepts earlier := by
  intro hmem
  have hnodup := nodup_derivedNames_walk hfresh.nodup
  rw [hwalk, List.map_append, List.map_cons] at hnodup
  exact List.disjoint_of_nodup_append hnodup (madeNames_subset hmem) (List.mem_cons_self ..)

/-- After the settings before it, a setting collides only with an entry that was there. -/
theorem Settles.nameCollision_of_resolve {earlier later : List Setting} (ht : t.Built)
    (hfresh : Fresh n ds) (hwalk : walk ds = earlier ++ s :: later)
    (h : Settles site accepts earlier t t')
    (he : (s.resolve site accepts).runFrom t' = (.error (.nameCollision name), t')) :
    name = s.derivedName ∧ name ∈ t.names := by
  obtain ⟨rfl, hin⟩ := Setting.nameCollision_of_resolve he
  rw [(h.built ht).coherent.contains_iff, h.names ht, List.mem_append] at hin
  exact ⟨rfl, hin.resolve_right (derivedName_not_mem_madeNames hfresh hwalk)⟩

/-- **Derived names clash with old entries only.** A derived name tells its node and its
attribute; and if a configuration fails because a name is taken, this is the derived name of
the node and the attribute that it reports, and the table had it before the pass began. -/
theorem derivedName_collision :
    (∀ (a a' : NodeAttribute) (node node' : String),
      a.derivedName node = a'.derivedName node' → a = a' ∧ node = node') ∧
    ∀ (n : Network) (t : ParameterTable) (site : Site) (ds : List NodeDeclaration)
      (node : String) (a : NodeAttribute) (name : String) (m : Model Network),
      n.Reachable → t.Built →
      (configure Network.builder site ds).runFrom ⟨n, t⟩ =
        (.error (.unresolved node a (.nameCollision name)), m) →
      name = a.derivedName node ∧ name ∈ t.names := by
  refine ⟨fun a a' node node' h => NodeAttribute.derivedName_inj h, ?_⟩
  intro n t site ds node a name m hn ht h
  obtain ⟨hfresh, earlier, s, later, t', hwalk, hsettles, he, rfl, rfl⟩ :=
    exists_first_unresolved hn.coherent ht h
  exact hsettles.nameCollision_of_resolve ht hfresh hwalk he

/-- A reservoir whose cost is defined on the spot. -/
def costlyDam : List NodeDeclaration :=
  [.flow .input "dam" { cost := some (.inline (.constant 2)) }]

/-- If a parameter has the name of the cost already, the cost cannot be put into the table. -/
theorem exists_configure_costlyDam (ht : t.Built) (h : "dam-cost" ∈ t.names) :
    ∃ n', (configure Network.builder ⟨⟨[], []⟩, "."⟩ costlyDam).runFrom ⟨.empty, t⟩ =
      (.error (.unresolved "dam" .cost (.nameCollision "dam-cost")), ⟨n', t⟩) := by
  have hfresh : Fresh .empty costlyDam := ⟨by decide, fun _ _ _ hr => by cases hr⟩
  have hcost : (Setting.resolve ⟨⟨[], []⟩, "."⟩ true
      ⟨⟨"dam", none⟩, .cost, .inline (.constant 2)⟩).runFrom t =
        (.error (.nameCollision "dam-cost"), t) :=
    Definition.materialize_of_contains _ (ht.coherent.contains_iff.mpr h)
  obtain ⟨n', hrun, -⟩ := configure_unresolved (n := .empty) (Reachable.empty).coherent ht
    hfresh (by decide) rfl .nil hcost
  exact ⟨n', hrun⟩

/-- The cost of the dam collides with a parameter of its name. -/
theorem derivedName_collision_dam : ∃ t m, t.Built ∧
    (configure Network.builder ⟨⟨[], []⟩, "."⟩ costlyDam).runFrom ⟨.empty, t⟩ =
      (.error (.unresolved "dam" .cost (.nameCollision "dam-cost")), m) ∧
    "dam-cost" = NodeAttribute.cost.derivedName "dam" ∧ "dam-cost" ∈ t.names := by
  have hnew : ParameterTable.empty.contains "dam-cost" = false :=
    ParameterTable.coherent_empty.contains_eq_false_iff.mpr List.not_mem_nil
  obtain ⟨id, t, hi⟩ := ParameterTable.exists_insert (.constant 3) hnew (by decide)
  have ht : t.Built := .insert .empty hi
  have hmem : "dam-cost" ∈ t.names := by
    rw [ParameterTable.names_insert hi]
    exact List.mem_append_right _ (List.mem_singleton_self _)
  obtain ⟨n', hrun⟩ := exists_configure_costlyDam ht hmem
  exact ⟨t, _, ht, hrun, derivedName_collision.2 _ _ _ _ _ _ _ _ .empty ht hrun⟩

end WaterNetwork
