import WaterNetwork.Proofs.Resolution
import WaterNetwork.Proofs.Setting

/-!
# Settling a list of settings

A pass resolves its settings one after the other against a table that grows on the way:
`Settles` is the run of these resolutions alone, without the builder. What it amounts to can be
said without a run: the entries that it adds (`Settling.made`) and the calls that it gives rise
to (`Settling.handed`) can be read off the list, and so can whether it gets to the end.

* `settles_or_fails` — a list settles, or some setting in it is the first that fails.
* `exists_settles_iff` — settings with different derived names settle just if each of them is
  *admissible*: its own derived name is not in the table at the start, and what it refers to is
  there or is made by an earlier setting.
* `nodup_derivedNames_walk` — the derived names of a pass are different if the nodes are.
-/

namespace WaterNetwork

variable {site : Site} {accepts : Bool} {s : Setting} {ss before after : List Setting}
  {t t' t₁ t₂ : ParameterTable} {v : ConstraintValue} {e : ParameterError}

/-! ### What settings amount to -/

namespace Setting

/-- The value that a setting resolves to. -/
def value (acceptsLiterals : Bool) (s : Setting) : ConstraintValue :=
  s.field.value s.derivedName acceptsLiterals

/-- The entry that a setting adds to the table, if it does. -/
def made? (site : Site) (acceptsLiterals : Bool) (s : Setting) : Option (String × Definition) :=
  (s.field.made? site acceptsLiterals).map (s.derivedName, ·)

theorem length_toList_made? (s : Setting) :
    (s.made? site accepts).toList.length = (s.field.made? site accepts).toList.length := by
  cases h : s.field.made? site accepts <;> simp [made?, h]

end Setting

namespace Settling

/-- The entries that a list of settings adds to the table. -/
def made (site : Site) (acceptsLiterals : Bool) (ss : List Setting) : List (String × Definition) :=
  ss.filterMap (·.made? site acceptsLiterals)

/-- The names of the entries that a list of settings adds to the table. -/
def madeNames (site : Site) (acceptsLiterals : Bool) (ss : List Setting) : List String :=
  (made site acceptsLiterals ss).map (·.1)

/-- The calls that hand over the values of a list of settings. -/
def handed (acceptsLiterals : Bool) (ss : List Setting) : List BuilderCall :=
  ss.flatMap fun s => s.calls (s.value acceptsLiterals)

@[simp] theorem made_nil : made site accepts [] = [] := rfl

theorem made_cons :
    made site accepts (s :: ss) = (s.made? site accepts).toList ++ made site accepts ss := by
  unfold made
  cases h : s.made? site accepts <;> simp [h]

theorem made_append : made site accepts (before ++ after) =
    made site accepts before ++ made site accepts after := List.filterMap_append

@[simp] theorem handed_nil : handed accepts [] = [] := rfl

theorem handed_cons : handed accepts (s :: ss) = s.calls (s.value accepts) ++ handed accepts ss :=
  List.flatMap_cons

/-- What a setting adds goes under its derived name. -/
theorem madeNames_subset : madeNames site accepts ss ⊆ ss.map (·.derivedName) := by
  intro name h
  simp only [madeNames, made, List.mem_map, List.mem_filterMap, Setting.made?,
    Option.map_eq_some_iff] at h
  obtain ⟨_, ⟨s, hs, d, -, rfl⟩, rfl⟩ := h
  exact List.mem_map_of_mem hs

end Settling

open Settling

/-! ### Settling -/

/-- **Settling**: resolving one setting after the other, each against the table that the one
before leaves. -/
inductive Settles (site : Site) (accepts : Bool) :
    List Setting → ParameterTable → ParameterTable → Prop where
  | nil {t : ParameterTable} : Settles site accepts [] t t
  | cons {s : Setting} {ss : List Setting} {v : ConstraintValue} {t t₁ t₂ : ParameterTable} :
    (s.resolve site accepts).runFrom t = (.ok v, t₁) → Settles site accepts ss t₁ t₂ →
    Settles site accepts (s :: ss) t t₂

/-- A list settles, or some setting in it is the first that fails. -/
theorem settles_or_fails (site : Site) (accepts : Bool) (ss : List Setting) (t : ParameterTable) :
    (∃ t', Settles site accepts ss t t') ∨
      ∃ before s after t' e, ss = before ++ s :: after ∧ Settles site accepts before t t' ∧
        (s.resolve site accepts).runFrom t' = (.error e, t') := by
  induction ss generalizing t with
  | nil => exact .inl ⟨t, .nil⟩
  | cons s ss ih =>
    rcases hs : (s.resolve site accepts).runFrom t with ⟨e | v, t₁⟩
    · obtain rfl := s.atomic_resolve site accepts t e t₁ hs
      exact .inr ⟨[], s, ss, t₁, e, rfl, .nil, hs⟩
    · rcases ih t₁ with ⟨t', h⟩ | ⟨before, s', after, t', e, rfl, h, he⟩
      · exact .inl ⟨t', .cons hs h⟩
      · exact .inr ⟨s :: before, s', after, t', e, rfl, .cons hs h, he⟩

namespace Settles

/-- A list that settles, settles up to each of its settings, which then resolves. -/
theorem split (h : Settles site accepts (before ++ s :: after) t t') :
    ∃ v t₁ t₂, Settles site accepts before t t₁ ∧
      (s.resolve site accepts).runFrom t₁ = (.ok v, t₂) ∧ Settles site accepts after t₂ t' := by
  induction before generalizing t with
  | nil =>
    cases h with
    | cons hs h => exact ⟨_, t, _, .nil, hs, h⟩
  | cons s' before ih =>
    cases h with
    | cons hs h =>
      obtain ⟨v, t₁, t₂, h₁, h₂, h₃⟩ := ih h
      exact ⟨v, t₁, t₂, .cons hs h₁, h₂, h₃⟩

theorem append_iff : Settles site accepts (before ++ after) t t' ↔
    ∃ t₁, Settles site accepts before t t₁ ∧ Settles site accepts after t₁ t' := by
  induction before generalizing t with
  | nil =>
    refine ⟨fun h => ⟨t, .nil, h⟩, ?_⟩
    rintro ⟨_, ⟨⟩, h⟩
    exact h
  | cons s before ih =>
    constructor
    · rintro (_ | ⟨hs, h⟩)
      obtain ⟨t₁, hb, ha⟩ := ih.mp h
      exact ⟨t₁, .cons hs hb, ha⟩
    · rintro ⟨t₁, _ | ⟨hs, hb⟩, ha⟩
      exact .cons hs (ih.mpr ⟨t₁, hb, ha⟩)

theorem unique (h₁ : Settles site accepts ss t t₁) (h₂ : Settles site accepts ss t t₂) :
    t₁ = t₂ := by
  induction h₁ with
  | nil =>
    cases h₂
    rfl
  | cons hs _ ih =>
    cases h₂ with
    | cons hs' h =>
      rw [hs] at hs'
      cases hs'
      exact ih h

theorem built (h : Settles site accepts ss t t') (ht : t.Built) : t'.Built := by
  induction h with
  | nil => exact ht
  | cons hs _ ih =>
    exact ih (((ConstraintField.resolve_eq_ok_iff ht.coherent).mp hs).2.2.built ht)

theorem bindings (h : Settles site accepts ss t t') (ht : t.Built) :
    t'.bindings = t.bindings ++ made site accepts ss := by
  induction h with
  | nil => simp
  | cons hs _ ih =>
    have hadds := ((ConstraintField.resolve_eq_ok_iff ht.coherent).mp hs).2.2
    rw [ih (hadds.built ht), hadds.bindings, made_cons, List.append_assoc, Setting.made?]

theorem entries_prefix (h : Settles site accepts ss t t') (ht : t.Built) :
    t.entries <+: t'.entries := by
  induction h with
  | nil => exact List.prefix_rfl
  | cons hs _ ih =>
    have hadds := ((ConstraintField.resolve_eq_ok_iff ht.coherent).mp hs).2.2
    exact hadds.entries_prefix.trans (ih (hadds.built ht))

theorem names (h : Settles site accepts ss t t') (ht : t.Built) :
    t'.names = t.names ++ madeNames site accepts ss := by
  rw [ParameterTable.names_eq_map_bindings, h.bindings ht, List.map_append,
    ← ParameterTable.names_eq_map_bindings, madeNames]

theorem size (h : Settles site accepts ss t t') (ht : t.Built) :
    t'.size = t.size + (made site accepts ss).length := by
  rw [← ParameterTable.length_bindings, h.bindings ht, List.length_append,
    ParameterTable.length_bindings]

end Settles

/-! ### Admissible settings -/

/-- **Admissibility** of a setting, given the names in the table at the start and the settings
before it: it is resolvable, its own derived name is not in the table at the start, and what it
refers to is there or is made by an earlier setting. -/
def Setting.Admissible (site : Site) (acceptsLiterals : Bool) (names : List String)
    (before : List Setting) (s : Setting) : Prop :=
  s.field.Resolvable site s.derivedName acceptsLiterals names
    (names ++ madeNames site acceptsLiterals before)

/-- Names that are taken in addition do not matter if the derived name is not among them. -/
theorem ConstraintField.resolvable_append_iff {field : ConstraintField} {derivedName : String}
    {taken more known : List String} (h : derivedName ∉ more) :
    field.Resolvable site derivedName accepts (taken ++ more) known ↔
      field.Resolvable site derivedName accepts taken known := by
  cases field <;> simp [Resolvable, h]

/-- A setting that is met in a run resolves just if it is admissible, since no setting before
it has taken its derived name. -/
theorem Settles.exists_resolve_iff_admissible (h : Settles site accepts before t t') (ht : t.Built)
    (hroom : t.size + (made site accepts (before ++ s :: after)).length ≤ Ident.limit)
    (hnodup : ((before ++ s :: after).map (·.derivedName)).Nodup) :
    (∃ v t₁, (s.resolve site accepts).runFrom t' = (.ok v, t₁)) ↔
      s.Admissible site accepts t.names before := by
  have hnew : s.derivedName ∉ madeNames site accepts before := fun hmem => by
    rw [List.map_append, List.map_cons] at hnodup
    exact (List.disjoint_of_nodup_append hnodup) (madeNames_subset hmem) (List.mem_cons_self ..)
  have hsize : t'.size + (s.field.made? site accepts).toList.length ≤ Ident.limit := by
    rw [made_append, made_cons, List.length_append, List.length_append,
      Setting.length_toList_made?] at hroom
    rw [h.size ht]
    omega
  rw [Setting.resolve, ConstraintField.exists_resolve_iff (h.built ht).coherent hsize, h.names ht,
    ConstraintField.resolvable_append_iff hnew]
  rfl

/-- Settings with different derived names settle just if each of them is admissible. -/
theorem exists_settles_iff (ht : t.Built)
    (hroom : t.size + (made site accepts ss).length ≤ Ident.limit)
    (hnodup : (ss.map (·.derivedName)).Nodup) :
    (∃ t', Settles site accepts ss t t') ↔
      ∀ before s after, ss = before ++ s :: after → s.Admissible site accepts t.names before := by
  constructor
  · rintro ⟨t', h⟩ before s after rfl
    obtain ⟨v, t₁, t₂, hb, hs, -⟩ := h.split
    exact (hb.exists_resolve_iff_admissible ht hroom hnodup).mp ⟨v, t₂, hs⟩
  · intro hall
    rcases settles_or_fails site accepts ss t with h | ⟨before, s, after, t', e, rfl, hb, he⟩
    · exact h
    · obtain ⟨v, t₁, hs⟩ :=
        (hb.exists_resolve_iff_admissible ht hroom hnodup).mpr (hall before s after rfl)
      rw [he] at hs
      cases hs

/-! ### The settings of a pass -/

/-- A derived name ends in a hyphen and the slug of its attribute, and no such ending is the end of
another one. So it tells its node and its attribute, whatever the name of the node looks like. -/
theorem NodeAttribute.derivedName_inj {a b : NodeAttribute} {node node' : String}
    (h : a.derivedName node = b.derivedName node') : a = b ∧ node = node' := by
  have hl := congrArg (fun name => name.toList.reverse) h
  simp only [derivedName, String.toList_append, List.reverse_append] at hl
  -- The endings differ in one of their last six characters, unless the attributes are equal.
  cases a <;> cases b <;> simp [slug] at hl <;> simp
  all_goals exact String.toList_inj.mp hl

namespace NodeDeclaration

variable {d : NodeDeclaration}

theorem terminal_of_mem_settings (h : s ∈ d.settings) :
    s.terminal.node = d.name ∧ s.terminal.sub ∈ d.subIndices := by
  cases d with
  | flow kind name c =>
    simp only [settings, List.mem_filterMap, Option.map_eq_some_iff] at h
    obtain ⟨a, -, field, -, rfl⟩ := h
    exact ⟨rfl, List.mem_singleton.mpr rfl⟩
  | delay name steps initialValue =>
    obtain rfl := List.mem_singleton.mp h
    exact ⟨rfl, by simp [Setting.ofDelay, subIndices, terminals]⟩

/-- Only a delay node has the setting of a delay. -/
theorem eq_delay_of_mem_settings (h : s ∈ d.settings) (hp : s.purpose = .delay) :
    ∃ name steps x, d = .delay name steps x ∧ s = .ofDelay name steps x := by
  cases d with
  | flow kind name c =>
    simp only [settings, List.mem_filterMap, Option.map_eq_some_iff] at h
    obtain ⟨a, ha, field, -, rfl⟩ := h
    rw [show a = .delay from hp] at ha
    simp at ha
  | delay name steps x => exact ⟨name, steps, x, rfl, List.mem_singleton.mp h⟩

/-- The derived names of one declaration are different, as its attributes are. -/
theorem nodup_derivedNames_settings (d : NodeDeclaration) :
    (d.settings.map (·.derivedName)).Nodup := by
  have hpurposes : (d.settings.map (·.purpose)).Nodup := by
    cases d with
    | flow kind name c =>
      rcases c with ⟨_ | _, _ | _, _ | _⟩ <;>
        simp [settings, FlowConstraints.field]
    | delay name steps initialValue => simp [settings]
  refine List.Nodup.map_on (fun s hs s' hs' hname => ?_) hpurposes.of_map
  have hpurpose := (NodeAttribute.derivedName_inj hname).1
  exact List.inj_on_of_nodup_map hpurposes hs hs' hpurpose

end NodeDeclaration

theorem walk_cons (d : NodeDeclaration) (ds : List NodeDeclaration) :
    walk (d :: ds) = d.settings ++ walk ds := List.flatMap_cons

theorem mem_walk {ds : List NodeDeclaration} : s ∈ walk ds ↔ ∃ d ∈ ds, s ∈ d.settings :=
  List.mem_flatMap

/-- The derived names of a pass are different if its nodes are. -/
theorem nodup_derivedNames_walk {ds : List NodeDeclaration} (h : (ds.map (·.name)).Nodup) :
    ((walk ds).map (·.derivedName)).Nodup := by
  induction ds with
  | nil => exact List.nodup_nil
  | cons d ds ih =>
    rw [List.map_cons, List.nodup_cons] at h
    rw [walk_cons, List.map_append]
    refine (d.nodup_derivedNames_settings).append (ih h.2) ?_
    intro name hd hds
    obtain ⟨s, hs, rfl⟩ := List.mem_map.mp hd
    obtain ⟨s', hs', hname⟩ := List.mem_map.mp hds
    obtain ⟨d', hd', hs'⟩ := mem_walk.mp hs'
    have hnode := (NodeAttribute.derivedName_inj hname).2
    rw [(NodeDeclaration.terminal_of_mem_settings hs).1,
      (NodeDeclaration.terminal_of_mem_settings hs').1] at hnode
    exact h.1 (hnode ▸ List.mem_map_of_mem hd')

end WaterNetwork
