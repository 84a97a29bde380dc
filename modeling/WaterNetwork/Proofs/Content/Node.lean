import WaterNetwork.Content.Node
import WaterNetwork.Proofs.Content.Definition

/-!
# Node declarations that have been written

The entries of a node with flow constraints are read twice, once for its name and once for its
constraints, and each time those of the other are passed over. A cost or a flow bound may be left
out, so one that is a number that does not come back is gone when the node is read again. The
initial value of a delay has a default but no null: it has to come back.

* `NodeDeclaration.recovers_ofBody` — what is read from what is left of a declaration.
* `NodeDeclaration.kept_eq_self_iff` — when nothing is lost.
* `NodeDeclaration.ofBody_fieldEntries` — a declaration is read from its fields.
-/

namespace WaterNetwork

open WaterNetwork.Content (entry keptEntry)
open WaterNetwork.Field (written Restores)

/-! ### Flow constraints -/

namespace FlowConstraints

variable {back : Float → Option Float} {c : FlowConstraints} {x : Float}

/-- The contents of the fields of flow constraints, in the order of these fields. -/
def fieldContents (c : FlowConstraints) : List (Option Content) :=
  applyOrder.map fun a => (c.field a).map ConstraintField.toContent

/-- The numbers without which flow constraints are not read. -/
def requiredNumbers (c : FlowConstraints) : List Float :=
  applyOrder.flatMap fun a => (c.field a).toList.flatMap ConstraintField.requiredNumbers

/-- The numbers that flow constraints can do without. -/
def optionalNumbers (c : FlowConstraints) : List Float :=
  applyOrder.flatMap fun a => (c.field a).toList.flatMap ConstraintField.optionalNumbers

theorem mem_numbers_iff : x ∈ c.numbers ↔ x ∈ c.requiredNumbers ∨ x ∈ c.optionalNumbers := by
  simp only [numbers, requiredNumbers, optionalNumbers, List.mem_flatMap,
    ConstraintField.mem_numbers_iff, and_or_left, exists_or]

/-- **What is left of flow constraints** whose numbers come back as `back` says. -/
def kept (back : Float → Option Float) (c : FlowConstraints) : FlowConstraints where
  cost := c.cost.bind (ConstraintField.kept? back)
  maxFlow := c.maxFlow.bind (ConstraintField.kept? back)
  minFlow := c.minFlow.bind (ConstraintField.kept? back)

theorem bind_kept?_eq_self_iff {o : Option ConstraintField}
    (h : AllBack back (o.toList.flatMap ConstraintField.requiredNumbers)) :
    o.bind (ConstraintField.kept? back) = o ↔
      ∀ x ∈ o.toList.flatMap ConstraintField.numbers, back x = some x := by
  cases o with
  | none => simp
  | some f =>
    rw [Option.toList_some, List.flatMap_singleton] at h
    simp [ConstraintField.kept?_eq_some_iff h]

/-- Nothing is lost just if all numbers come back as they were. -/
theorem kept_eq_self_iff (h : AllBack back c.requiredNumbers) :
    c.kept back = c ↔ ∀ x ∈ c.numbers, back x = some x := by
  obtain ⟨cost, maxFlow, minFlow⟩ := c
  simp only [requiredNumbers, applyOrder, List.flatMap_cons, List.flatMap_nil, List.append_nil,
    allBack_append_iff, field] at h
  simp only [kept, FlowConstraints.mk.injEq, bind_kept?_eq_self_iff h.1,
    bind_kept?_eq_self_iff h.2.1, bind_kept?_eq_self_iff h.2.2, numbers, applyOrder,
    List.flatMap_cons, List.flatMap_nil, List.append_nil, List.forall_mem_append, field]

/-- The numbers in the contents of the fields are those of the constraints. -/
theorem entryNumbers_optionEntries (c : FlowConstraints) (as : List NodeAttribute) :
    Content.entryNumbers (as.flatMap fun a =>
        Definition.optionEntry a.text ConstraintField.toContent (c.field a)) =
      as.flatMap fun a => (c.field a).toList.flatMap ConstraintField.numbers := by
  rw [Content.entryNumbers_eq_flatMap, List.flatMap_assoc]
  congr 1
  funext a
  cases c.field a with
  | none => rfl
  | some f => simp [Definition.optionEntry, entry, ConstraintField.numbers_toContent]

end FlowConstraints

namespace NodeValue

open FlowConstraints (applyOrder)

/-- The fields of flow constraints, one by one. -/
theorem restores_constraintFields (back : Float → Option Float) (c : FlowConstraints)
    (as : List NodeAttribute) :
    Restores back (as.map constraintField)
      ((as.map fun a => (c.field a).map ConstraintField.toContent).map
        (Option.map (Content.kept back)))
      (as.flatMap fun a => (c.field a).toList.flatMap ConstraintField.requiredNumbers)
      (as.map fun a => constraint ((c.field a).bind (ConstraintField.kept? back))) := by
  induction as with
  | nil => exact .nil
  | cons a as ih =>
    rw [List.map_cons, List.map_cons, List.map_cons, List.map_cons, List.flatMap_cons]
    cases c.field a with
    | none => exact .absent rfl ih
    | some f =>
      rw [Option.toList_some, List.flatMap_singleton]
      exact .present ((f.recovers_readOptional back).map constraint) ih

theorem restores_flowFields (back : Float → Option Float) (c : FlowConstraints) :
    Restores back flowFields (c.fieldContents.map (Option.map (Content.kept back)))
      c.requiredNumbers
      (applyOrder.map fun a => constraint ((c.field a).bind (ConstraintField.kept? back))) :=
  restores_constraintFields back c applyOrder

theorem recovers_nameField (back : Float → Option Float) (name : String) :
    Recovers (nameField.read (Content.kept back (.string name))) (AllBack back []) (text name) :=
  .of_nil rfl

end NodeValue

/-! ### Declarations -/

namespace NodeDeclaration

open NodeValue (nameField flowFields delayFields constraintField)

variable {back : Float → Option Float} {d : NodeDeclaration} {x : Float} {room : ℕ}

/-- The fields of a kind of declaration, in order. -/
def fields : DeclarationKind → List (Field NodeValue)
  | .flow _ => nameField :: flowFields
  | .delay => delayFields

/-- The contents of the fields of a declaration. -/
def fieldContents : NodeDeclaration → List (Option Content)
  | flow _ name c => some (.string name) :: c.fieldContents
  | delay name steps initialValue =>
    [some (.string name), some (.unsigned steps), some (.float initialValue)]

theorem written_flowFields (c : FlowConstraints) (as : List NodeAttribute) :
    written (as.map constraintField)
        (as.map fun a => (c.field a).map ConstraintField.toContent) =
      as.flatMap fun a => Definition.optionEntry a.text ConstraintField.toContent (c.field a) := by
  induction as with
  | nil => rfl
  | cons a as ih =>
    rw [List.map_cons, List.map_cons, List.flatMap_cons, ← ih]
    cases c.field a <;> rfl

theorem fieldEntries_eq_written (d : NodeDeclaration) :
    d.fieldEntries = written (fields d.kind) d.fieldContents := by
  cases d with
  | flow kind name c => exact congrArg (List.cons _) (written_flowFields c _).symm
  | delay name steps initialValue => rfl

theorem tagKey_notMem_fields (k : DeclarationKind) : tagKey ∉ (fields k).map (·.name) := by
  cases k with
  | flow kind => exact (by decide : tagKey ∉ (nameField :: flowFields).map (·.name))
  | delay => decide

/-- The numbers without which a declaration is not read. -/
def requiredNumbers : NodeDeclaration → List Float
  | flow _ _ c => c.requiredNumbers
  | delay _ _ initialValue => [initialValue]

/-- The numbers that a declaration can do without. -/
def optionalNumbers : NodeDeclaration → List Float
  | flow _ _ c => c.optionalNumbers
  | delay _ _ _ => []

theorem mem_numbers_iff : x ∈ d.numbers ↔ x ∈ d.requiredNumbers ∨ x ∈ d.optionalNumbers := by
  cases d with
  | flow kind name c => exact FlowConstraints.mem_numbers_iff
  | delay name steps initialValue => simp [numbers, requiredNumbers, optionalNumbers]

/-- **What is left of a declaration** whose numbers come back as `back` says. -/
def kept (back : Float → Option Float) : NodeDeclaration → NodeDeclaration
  | flow kind name c => flow kind name (c.kept back)
  | delay name steps initialValue => delay name steps ((back initialValue).getD initialValue)

/-- Nothing is lost just if all numbers come back as they were. -/
theorem kept_eq_self_iff (h : AllBack back d.requiredNumbers) :
    d.kept back = d ↔ ∀ x ∈ d.numbers, back x = some x := by
  cases d with
  | flow kind name c => simp [kept, numbers, FlowConstraints.kept_eq_self_iff (c := c) h]
  | delay name steps initialValue =>
    rw [requiredNumbers, allBack_singleton_iff] at h
    simp [kept, numbers, Definition.getD_eq_self_iff h]

theorem kept_some (d : NodeDeclaration) : d.kept some = d :=
  (kept_eq_self_iff (allBack_some _)).mpr fun _ _ => rfl

/-! ### Reading declarations back -/

theorem named_of_mem_flowFields (cs : List (Option Content)) {e : Content × Content}
    (he : e ∈ written flowFields cs) : KeyRule.named ["name"] e.1 = .ok none := by
  obtain ⟨f, hf, hkey⟩ := Field.exists_name_of_mem_written he
  have hnames : ∀ f ∈ flowFields, f.name ∉ ["name"] := by decide
  rw [hkey, KeyRule.named, KeyRule.position?_eq_none (hnames f hf)]

/-- A node with flow constraints is read back; its constraints stand behind its name. -/
theorem recovers_flowOfEntries (back : Float → Option Float) (kind : NodeKind) (name : String)
    (c : FlowConstraints) :
    Recovers (flowOfEntries kind ((flow kind name c).fieldEntries.map (keptEntry back)))
      (AllBack back c.requiredNumbers) (flow kind name (c.kept back)) := by
  have hown : Field.Finds (.named ["name"]) [nameField] :=
    Field.finds_of_nodup (by decide) fun _ _ h => congrArg Except.ok h
  have hshared : Field.Finds (.textual (flowFields.map (·.name))) flowFields :=
    Field.finds_of_nodup (by decide) fun _ _ h => congrArg Except.ok h
  -- The constraints are passed over when the name is read, and the name when they are.
  have hname := Field.recovers_readMapping
    (.present (NodeValue.recovers_nameField back name) .nil) hown
    (fun _ => named_of_mem_flowFields (c.fieldContents.map (Option.map (Content.kept back))))
  have hpassed : KeyRule.textual (flowFields.map (·.name)) (.string "name") = .ok none := rfl
  have hbounds := Field.recovers_readMapping_written (NodeValue.restores_flowFields back c) hshared
  rw [← Field.readMapping_cons_none (.string name) _ hpassed] at hbounds
  rw [fieldEntries_eq_written, Field.map_keptEntry_written, flowOfEntries]
  refine Recovers.congr ?_ (and_iff_right (allBack_nil back))
  exact hname.bind (hbounds.andThen rfl)

/-- A delay is read back. -/
theorem recovers_delayOfBody (back : Float → Option Float) (name : String) (steps : UInt64)
    (initialValue : Float) :
    Recovers (delayOfBody (.fields
        ((delay name steps initialValue).fieldEntries.map (keptEntry back))))
      (AllBack back [initialValue])
      (delay name steps ((back initialValue).getD initialValue)) := by
  have hfinds : Field.Finds (.openTo (delayFields.map (·.name))) delayFields :=
    Field.finds_of_nodup (by decide) fun _ _ h => congrArg Except.ok h
  have hfields := Field.recovers_readMapping_written
    (.present (NodeValue.recovers_nameField back name)
      (.present (.map NodeValue.steps (.of_nil (DefinitionValue.readSteps_kept back steps)))
        (.present (.map NodeValue.number (Content.recovers_readNumber back initialValue)) .nil)))
    hfinds
  rw [fieldEntries_eq_written, Field.map_keptEntry_written, delayOfBody]
  exact hfields.andThen rfl

/-- **A declaration is read back** from its kind and what is left of its fields. -/
theorem recovers_ofBody (back : Float → Option Float) (d : NodeDeclaration) :
    Recovers (ofBody d.kind (.fields (d.fieldEntries.map (keptEntry back))))
      (AllBack back d.requiredNumbers) (d.kept back) := by
  cases d with
  | flow kind name c => exact recovers_flowOfEntries back kind name c
  | delay name steps initialValue => exact recovers_delayOfBody back name steps initialValue

/-- **A declaration is read from its fields.** -/
theorem ofBody_fieldEntries (d : NodeDeclaration) :
    ofBody d.kind (.fields d.fieldEntries) = .ok d := by
  have h := (d.recovers_ofBody some).eq_ok (allBack_some _)
  rwa [Content.map_keptEntry_some, kept_some] at h

theorem readKind_text (k : DeclarationKind) : readKind (.string k.text) = .ok k :=
  Content.readVariant_name (DeclarationKind.ofText?_text k)

/-- The numbers in the content of a declaration are its numbers. -/
theorem entryNumbers_fieldEntries (d : NodeDeclaration) :
    Content.entryNumbers d.fieldEntries = d.numbers := by
  cases d with
  | flow kind name c =>
    rw [fieldEntries, entry, Content.entryNumbers, FlowConstraints.entryNumbers_optionEntries]
    rfl
  | delay name steps initialValue => rfl

/-! ### Keys and depth -/

theorem fits_of_mem_fieldContents (hroom : 2 < room) {c : Content}
    (hc : some c ∈ d.fieldContents) : c.Fits room := by
  cases d with
  | flow kind name constraints =>
    rcases List.mem_cons.mp hc with h | h
    · exact Option.some.inj h ▸ .scalar trivial
    · obtain ⟨a, -, ha⟩ := List.mem_map.mp h
      obtain ⟨f, -, rfl⟩ := Option.map_eq_some_iff.mp ha
      exact ConstraintField.fits_toContent hroom
  | delay name steps initialValue =>
    have hscalar : c = .string name ∨ c = .unsigned steps ∨ c = .float initialValue := by
      simpa [fieldContents] using hc
    rcases hscalar with rfl | rfl | rfl <;> exact .scalar trivial

theorem isBeside_of_mem_fieldEntries (hroom : 2 < room) {e : Content × Content}
    (he : e ∈ d.fieldEntries) : Content.IsBeside room tagKey e := by
  rw [fieldEntries_eq_written] at he
  exact Field.isBeside_of_mem_written he (tagKey_notMem_fields d.kind)
    (fits_of_mem_fieldContents hroom (Field.mem_of_mem_written he))

end NodeDeclaration

end WaterNetwork
