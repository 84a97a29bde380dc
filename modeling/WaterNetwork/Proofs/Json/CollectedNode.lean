import WaterNetwork.Proofs.Json.Collected

/-!
# What is read as a node from a tree

A node is read from its type and its parts, and what stands beside them is passed over. A node with
flow constraints is read twice, for its name and for its constraints, and each time the other parts
are passed over too; it comes to the same as reading all parts at once. A delay may also be written
as a sequence, a node with flow constraints may not.

* `NodeDeclaration.flowOfEntries_keyed_iff`, `NodeDeclaration.delayOfBody_keyed_iff` — nodes from
  their entries.
* `Json.readNode_eq_ok_iff` — nodes from trees.
* `Json.readNode_outcome` — nodes and constraint fields together.
-/

namespace WaterNetwork

open Content (keyed record under beside given Gives InOrder IsOptional IsField IsNumberOrZero IsNode
  HasTextKeys)
open WaterNetwork.Field (Reads takes_required_iff takes_optional_iff)

/-! ### Fields -/

namespace NodeValue

variable {c? : Option Content} {s : String} {parts : List (String × Option Content)}

theorem takes_nameField_iff : nameField.Takes c? (text s) ↔ c? = some (.string s) := by
  rw [takes_required_iff rfl]
  simp [nameField, map_eq_ok_iff, Content.readText_eq_ok_iff, Content.isText_iff]

/-- Null stands for no field, since it is neither a number nor a text nor a definition. -/
theorem takes_constraintField_iff {a : NodeAttribute} {field : Option ConstraintField}
    (h : ∀ c ∈ c?, c.HasTextKeys) :
    (constraintField a).Takes c? (constraint field) ↔ IsOptional IsField c? field := by
  refine takes_optional_iff (fun _ => rfl) rfl (fun _ _ => constraint.inj)
    (fun c hc _ => ConstraintField.ofContent_eq_ok_iff (h c hc)) ?_
  rintro _ (⟨⟨⟩⟩ | _ | ⟨-, ⟨⟩⟩)

theorem takes_initialValue_iff {x : Float} {name : String} :
    ({ name, read := fun c => c.readNumber.map number, fallback := some (number 0.0) } :
      Field NodeValue).Takes c? (number x) ↔ IsNumberOrZero c? x := by
  cases c? with
  | none =>
    rw [Field.takes_none_iff, Option.some_inj, number.injEq]
    constructor
    · rintro rfl
      exact .absent
    · rintro ⟨⟩
      rfl
  | some c =>
    rw [Field.Takes, map_eq_ok_iff]
    simp only [Content.readNumber_eq_ok_iff, number.injEq, exists_eq_right]
    constructor
    · exact .present
    · rintro (_ | h)
      exact h

/-- The name and the flow constraints of a node read just its parts. -/
theorem reads_flowFields_iff {kind : NodeKind} {name : String} {bounds : FlowConstraints}
    (h : ∀ part ∈ parts, ∀ c ∈ part.2, c.HasTextKeys) :
    Reads (nameField :: flowFields) parts
        [text name, constraint bounds.cost, constraint bounds.maxFlow, constraint bounds.minFlow] ↔
      (NodeDeclaration.flow kind name bounds).HasParts parts := by
  constructor
  · rintro (_ | ⟨hname, _ | ⟨hcost, _ | ⟨hmax, _ | ⟨hmin, _ | _⟩⟩⟩⟩)
    simp only [List.forall_mem_cons] at h
    obtain ⟨-, h₁, h₂, h₃, -⟩ := h
    obtain rfl := takes_nameField_iff.mp hname
    exact .flow ((takes_constraintField_iff h₁).mp hcost) ((takes_constraintField_iff h₂).mp hmax)
      ((takes_constraintField_iff h₃).mp hmin)
  · rintro ⟨hcost, hmax, hmin⟩
    simp only [List.forall_mem_cons] at h
    obtain ⟨-, h₁, h₂, h₃, -⟩ := h
    exact .cons (takes_nameField_iff.mpr rfl)
      (.cons ((takes_constraintField_iff h₁).mpr hcost)
        (.cons ((takes_constraintField_iff h₂).mpr hmax)
          (.cons ((takes_constraintField_iff h₃).mpr hmin) .nil)))

/-- The fields of a delay read just its parts. -/
theorem reads_delayFields_iff {name : String} {n : UInt64} {x : Float} :
    Reads delayFields parts [text name, steps n, number x] ↔
      (NodeDeclaration.delay name n x).HasParts parts := by
  constructor
  · rintro (_ | ⟨hname, _ | ⟨hsteps, _ | ⟨hinitial, _ | _⟩⟩⟩)
    obtain rfl := takes_nameField_iff.mp hname
    obtain ⟨c, rfl, hc⟩ := (takes_required_iff rfl).mp hsteps
    obtain ⟨n', hn, ⟨⟩⟩ := map_eq_ok_iff.mp hc
    exact .delay (Content.readSteps_eq_ok_iff.mp hn) (takes_initialValue_iff.mp hinitial)
  · rintro (_ | ⟨hsteps, hinitial⟩)
    refine .cons (takes_nameField_iff.mpr rfl)
      (.cons ?_ (.cons (takes_initialValue_iff.mpr hinitial) .nil))
    exact map_eq_ok_iff.mpr ⟨_, Content.readSteps_eq_ok_iff.mpr hsteps, rfl⟩

end NodeValue

/-! ### Nodes from their entries -/

namespace NodeDeclaration

open NodeValue

variable {d : NodeDeclaration} {k : DeclarationKind} {kind : NodeKind}
  {parts : List (String × Option Content)} {es : List (String × Content)} {items : List Content}

/-- The names of the fields of a kind. -/
def fieldNames : DeclarationKind → List String
  | .flow _ => ["name", "cost", "max_flow", "min_flow"]
  | .delay => ["name", "delay", "initial_value"]

theorem HasParts.names (h : d.HasParts parts) : parts.map (·.1) = fieldNames d.kind := by
  cases h <;> rfl

theorem nodup_fieldNames (k : DeclarationKind) : (tagKey :: fieldNames k).Nodup := by
  cases k <;> simp [fieldNames, tagKey]

/-- What stands under the name of a part is one of the entries. -/
theorem hasTextKeys_of_gives (hes : ∀ e ∈ es, e.2.HasTextKeys) (h : Gives es parts) :
    ∀ part ∈ parts, ∀ c ∈ part.2, c.HasTextKeys := by
  intro part hpart c hc
  have hunder : c ∈ under part.1 es := by
    rw [h part hpart, hc]
    exact List.mem_singleton_self c
  obtain ⟨e, he, rfl⟩ := List.mem_map.mp hunder
  exact hes e (List.mem_of_mem_filter he)

/-- **A node with flow constraints is read from its parts**, wherever they stand. -/
theorem flowOfEntries_keyed_iff (hes : ∀ e ∈ es, e.2.HasTextKeys) :
    flowOfEntries kind (keyed es) = .ok d ↔
      d.kind = .flow kind ∧ ∃ parts, d.HasParts parts ∧ Gives es parts := by
  have hown : ∀ {vs}, Field.readMapping (.named ([nameField].map (·.name))) [nameField]
      (keyed es) = .ok vs ↔ ∃ parts, Gives es parts ∧ Reads [nameField] parts vs :=
    Field.readMapping_keyed_iff_of_eq (fun _ => rfl) (by decide)
  have hshared : ∀ {vs}, Field.readMapping (.textual (flowFields.map (·.name))) flowFields
      (keyed es) = .ok vs ↔ ∃ parts, Gives es parts ∧ Reads flowFields parts vs :=
    Field.readMapping_keyed_iff_of_eq (fun _ => rfl) (by decide)
  rw [flowOfEntries]
  simp only [bind_eq_ok_iff, hown, hshared]
  constructor
  · rintro ⟨names, ⟨parts₁, hgives₁, hreads₁⟩, bounds, ⟨parts₂, hgives₂, hreads₂⟩, h⟩
    split at h
    · cases h
      obtain _ | ⟨hname, _ | _⟩ := hreads₁
      have hgives := Content.gives_cons.mpr ⟨(Content.gives_cons.mp hgives₁).1, hgives₂⟩
      exact ⟨rfl, _, (reads_flowFields_iff (hasTextKeys_of_gives hes hgives)).mp
        (.cons hname hreads₂), hgives⟩
    · cases h
  · rintro ⟨hkind, parts, hparts, hgives⟩
    cases d with
    | delay name steps initialValue => cases hkind
    | flow kind' name bounds =>
      cases hkind
      have hreads := (reads_flowFields_iff (hasTextKeys_of_gives hes hgives)).mpr hparts
      obtain _ | ⟨hname, hbounds⟩ := hreads
      obtain ⟨hunder, hgives⟩ := Content.gives_cons.mp hgives
      exact ⟨_, ⟨_, Content.gives_cons.mpr ⟨hunder, List.forall_mem_nil _⟩, .cons hname .nil⟩,
        _, ⟨_, hgives, hbounds⟩, rfl⟩

theorem delayOfBody_eq_ok_iff {body : Body} : delayOfBody body = .ok d ↔
    ∃ name steps initialValue, d = delay name steps initialValue ∧
      Field.readBody (.openTo (delayFields.map (·.name))) "struct DelayNode" delayFields body =
        .ok [.text name, .steps steps, .number initialValue] := by
  rw [delayOfBody, bind_eq_ok_iff]
  constructor
  · rintro ⟨vs, hread, h⟩
    split at h
    · cases h
      exact ⟨_, _, _, rfl, hread⟩
    · cases h
  · rintro ⟨name, steps, initialValue, rfl, hread⟩
    exact ⟨_, hread, rfl⟩

/-- **A delay is read from its parts**, wherever they stand. -/
theorem delayOfBody_keyed_iff : delayOfBody (.fields (keyed es)) = .ok d ↔
    d.kind = .delay ∧ ∃ parts, d.HasParts parts ∧ Gives es parts := by
  have hread : ∀ {vs}, Field.readMapping (.openTo (delayFields.map (·.name))) delayFields
      (keyed es) = .ok vs ↔ ∃ parts, Gives es parts ∧ Reads delayFields parts vs :=
    Field.readMapping_keyed_iff_of_eq (fun _ => rfl) (by decide)
  simp only [delayOfBody_eq_ok_iff, Field.readBody, hread, reads_delayFields_iff]
  constructor
  · rintro ⟨name, steps, initialValue, rfl, parts, hgives, hparts⟩
    exact ⟨rfl, parts, hparts, hgives⟩
  · rintro ⟨hkind, parts, hparts, hgives⟩
    cases d with
    | flow kind name bounds => cases hkind
    | delay name steps initialValue => exact ⟨_, _, _, rfl, parts, hgives, hparts⟩

/-- A delay is also read from its parts in order. -/
theorem delayOfBody_items_iff : delayOfBody (.items items) = .ok d ↔
    d.kind = .delay ∧ ∃ parts, d.HasParts parts ∧ InOrder parts items := by
  simp only [delayOfBody_eq_ok_iff, Field.readBody, Field.readItems_eq_ok_iff,
    reads_delayFields_iff]
  constructor
  · rintro ⟨name, steps, initialValue, rfl, parts, horder, hparts⟩
    exact ⟨rfl, parts, hparts, horder⟩
  · rintro ⟨hkind, parts, hparts, horder⟩
    cases d with
    | flow kind name bounds => cases hkind
    | delay name steps initialValue => exact ⟨_, _, _, rfl, parts, horder, hparts⟩

theorem ofBody_fields_iff (hes : ∀ e ∈ es, e.2.HasTextKeys) :
    ofBody k (.fields (keyed es)) = .ok d ↔
      d.kind = k ∧ ∃ parts, d.HasParts parts ∧ Gives es parts := by
  cases k with
  | flow kind => exact flowOfEntries_keyed_iff hes
  | delay => exact delayOfBody_keyed_iff

/-- Only a delay is read from items. -/
theorem ofBody_items_iff : ofBody k (.items items) = .ok d ↔
    d.kind = k ∧ d.kind = .delay ∧ ∃ parts, d.HasParts parts ∧ InOrder parts items := by
  cases k with
  | flow kind =>
    constructor
    · rintro ⟨⟩
    · rintro ⟨hflow, hdelay, -⟩
      rw [hflow] at hdelay
      cases hdelay
  | delay =>
    rw [ofBody, delayOfBody_items_iff]
    exact ⟨fun ⟨hkind, h⟩ => ⟨hkind, hkind, h⟩, fun ⟨hkind, _, h⟩ => ⟨hkind, h⟩⟩

/-- A record is a node if its type and its parts stand under their names. -/
theorem isNode_record_iff : (record es).IsNode d ↔
    under tagKey es = [.string d.kind.text] ∧
      ∃ parts, d.HasParts parts ∧ Gives (beside tagKey es) parts := by
  have hperm : ∀ {parts : List (String × Option Content)}, d.HasParts parts →
      ((Content.named ((tagKey, some (.string d.kind.text)) :: parts) es).Perm
          (given ((tagKey, some (.string d.kind.text)) :: parts)) ↔
        under tagKey es = [.string d.kind.text] ∧ Gives (beside tagKey es) parts) :=
    fun {parts} hparts => by
      have hnodup : (((tagKey, some (.string d.kind.text)) :: parts).map (·.1)).Nodup := by
        rw [List.map_cons, hparts.names]
        exact nodup_fieldNames d.kind
      rw [Content.named_perm_given_iff hnodup, Content.gives_cons, Content.gives_beside_iff]
      · rfl
      · rw [hparts.names]
        exact (List.nodup_cons.mp (nodup_fieldNames d.kind)).1
  constructor
  · intro h
    generalize hc : record es = c at h
    cases h with
    | record hparts hes =>
      obtain rfl := Content.keyed_injective (Content.mapping.inj hc)
      obtain ⟨hunder, hgives⟩ := (hperm hparts).mp hes
      exact ⟨hunder, _, hparts, hgives⟩
    | sequence => cases hc
  · rintro ⟨hunder, parts, hparts, hgives⟩
    exact .record hparts ((hperm hparts).mpr ⟨hunder, hgives⟩)

end NodeDeclaration

/-! ### Nodes from trees -/

namespace Json

variable {room : ℕ} {j : Json} {c : Content} {es : List (String × Content)}

/-- Only texts are keys in the values of a tree. -/
theorem hasTextKeys_of_mem (h : content room j = .ok (record es)) :
    ∀ e ∈ es, e.2.HasTextKeys := by
  cases j with
  | object entries =>
    obtain ⟨inner, es', -, hcs, hes⟩ := content_object_iff.mp h
    obtain rfl := Content.keyed_injective (Content.mapping.inj hes)
    obtain ⟨es', heq, hall⟩ := exists_keyed_of_entryContents hcs
    obtain rfl := Content.keyed_injective heq
    intro e he
    obtain ⟨j, hj⟩ := hall e he
    exact hasTextKeys_of_content hj
  | array items => obtain ⟨_, _, -, -, ⟨⟩⟩ := content_array_iff.mp h
  | _ => cases h

theorem textTag_nodeKind_iff {k : DeclarationKind} :
    textTag NodeDeclaration.readKind c = .ok k ↔ c = .string k.text :=
  textTag_readVariant_iff (by decide) fun k => by rcases k with (_ | _ | _) | _ <;> decide

/-- **A node is read from just the trees whose content stands for it.** -/
theorem readNode_eq_ok_iff {d : NodeDeclaration} :
    readNode room j = .ok d ↔ ∃ c, content room j = .ok c ∧ c.IsNode d := by
  rw [readNode]
  simp only [bind_eq_ok_iff, Prod.exists, fitting_eq_ok_iff, readTagged_eq_ok_iff]
  constructor
  · rintro ⟨k, body, ⟨c, hc, htagged⟩, hbody⟩
    refine ⟨c, hc, ?_⟩
    rcases (Content.readTagged_eq_ok_iff (hasTextKeys_of_content hc)).mp htagged with
      ⟨es, type, rfl, hunder, htype, rfl⟩ | ⟨type, items, rfl, htype, rfl⟩
    · obtain ⟨rfl, hparts⟩ := (NodeDeclaration.ofBody_fields_iff fun e he =>
        hasTextKeys_of_mem hc e (List.mem_of_mem_filter he)).mp hbody
      rw [textTag_nodeKind_iff.mp htype] at hunder
      exact NodeDeclaration.isNode_record_iff.mpr ⟨hunder, hparts⟩
    · obtain ⟨rfl, hdelay, parts, hparts, horder⟩ := NodeDeclaration.ofBody_items_iff.mp hbody
      rw [textTag_nodeKind_iff.mp htype]
      exact .sequence hdelay hparts horder
  · rintro ⟨c, hc, hnode⟩
    have htype : textTag NodeDeclaration.readKind (.string d.kind.text) = .ok d.kind :=
      textTag_nodeKind_iff.mpr rfl
    have hkeys := hasTextKeys_of_content hc
    cases hnode with
    | record hparts hnamed =>
      obtain ⟨hunder, hrest⟩ := NodeDeclaration.isNode_record_iff.mp (.record hparts hnamed)
      refine ⟨d.kind, _, ⟨_, hc, (Content.readTagged_eq_ok_iff hkeys).mpr
        (.inl ⟨_, _, rfl, hunder, htype, rfl⟩)⟩, ?_⟩
      exact (NodeDeclaration.ofBody_fields_iff fun e he =>
        hasTextKeys_of_mem hc e (List.mem_of_mem_filter he)).mpr ⟨rfl, hrest⟩
    | sequence hdelay hparts horder =>
      refine ⟨d.kind, _, ⟨_, hc, (Content.readTagged_eq_ok_iff hkeys).mpr
        (.inr ⟨_, _, rfl, htype, rfl⟩)⟩, ?_⟩
      exact NodeDeclaration.ofBody_items_iff.mpr ⟨rfl, hdelay, _, hparts, horder⟩

/-- A constraint field is read from just the trees whose content stands for it. -/
theorem readField_eq_ok_iff {field : ConstraintField} :
    readField room j = .ok field ↔ ∃ c, content room j = .ok c ∧ c.IsField field := by
  rw [readField]
  simp only [bind_eq_ok_iff, fitting_eq_ok_iff]
  exact exists_congr fun c => and_congr_right fun hc =>
    ConstraintField.ofContent_eq_ok_iff (hasTextKeys_of_content hc)

/-- **What is read as a node and as a constraint field** is just what the content of a tree stands
for. -/
theorem readNode_outcome (room : ℕ) (j : Json) :
    (∀ d, readNode room j = .ok d ↔ ∃ c, content room j = .ok c ∧ c.IsNode d) ∧
    ∀ field, readField room j = .ok field ↔ ∃ c, content room j = .ok c ∧ c.IsField field :=
  ⟨fun _ => readNode_eq_ok_iff, fun _ => readField_eq_ok_iff⟩

/-- What stands beside the parts of a node does not matter, and null is no cost. -/
example : readNode depthLimit (.object [(some "cost", .null), (some "colour", .boolean true),
    (some "colour", .array []), (some "name", .string "dam"), (some "type", .string "Link"),
    (some "max_flow", .string "limit")]) =
      .ok (.flow .link "dam" { maxFlow := some (.reference "limit") }) := rfl

end Json

end WaterNetwork
