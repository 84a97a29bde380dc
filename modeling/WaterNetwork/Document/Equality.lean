import WaterNetwork.Document

/-!
# Equality of documents

Documents are compared part by part; numbers are compared as numbers, so zero equals minus zero
and the undefined number differs from itself. What is compared with itself is therefore equal just
if all numbers in it are defined (`Document.beq_self_iff`).
-/

namespace WaterNetwork

deriving instance BEq for Definition
deriving instance BEq for ConstraintField
deriving instance BEq for FlowConstraints
deriving instance BEq for NodeDeclaration
deriving instance BEq for NamedParameter
deriving instance BEq for Document

/-! ### Numbers and collections -/

/-- A number equals itself unless it is undefined. -/
theorem Number.beq_self_iff (x : Float) : (x == x) = true ↔ x.isNaN = false := by
  show (x.toModel.unpack.compare x.toModel.unpack == some .eq) = true ↔
    x.toModel.unpack.isNaN = false
  cases x.toModel.unpack with
  | notANumber => decide
  | infinity s => cases s <;> decide
  | zero s => exact iff_of_true rfl rfl
  | finite s m e h =>
    have horder : (compare e e).then (compare m m) = .eq := by simp
    refine iff_of_true ?_ rfl
    cases s with
    | positive => exact congrArg (some · == some Ordering.eq) horder
    | negative => exact congrArg (some ·.swap == some Ordering.eq) horder

section

variable {α : Type} [BEq α]

theorem option_beq_self_iff {o : Option α} :
    (o == o) = true ↔ ∀ a ∈ o.toList, (a == a) = true := by
  cases o <;> simp

theorem list_beq_self_iff {as : List α} : (as == as) = true ↔ ∀ a ∈ as, (a == a) = true := by
  induction as with
  | nil => simp
  | cons a as ih => simp [List.cons_beq_cons, ih]

end

/-! ### Documents -/

theorem Definition.beq_self_iff {d : Definition} :
    (d == d) = true ↔ ∀ x ∈ d.numbers, x.isNaN = false := by
  simp only [← Number.beq_self_iff]
  show instBEqDefinition.beq d d = true ↔ _
  cases d with
  | monthlyProfile values =>
    rw [numbers, ← list_beq_self_iff, Vector.toList_beq_toList]
    rfl
  | bounded bound parameter threshold =>
    rw [numbers, ← option_beq_self_iff]
    simp [instBEqDefinition.beq]
  | _ => simp [instBEqDefinition.beq, numbers]

theorem ConstraintField.beq_self_iff {f : ConstraintField} :
    (f == f) = true ↔ ∀ x ∈ f.numbers, x.isNaN = false := by
  show instBEqConstraintField.beq f f = true ↔ _
  cases f with
  | literal value =>
    rw [numbers, List.forall_mem_singleton]
    exact Number.beq_self_iff value
  | reference name => simp [instBEqConstraintField.beq, numbers]
  | inline d => exact d.beq_self_iff

theorem FlowConstraints.beq_self_iff {c : FlowConstraints} :
    (c == c) = true ↔ ∀ x ∈ c.numbers, x.isNaN = false := by
  obtain ⟨cost, maxFlow, minFlow⟩ := c
  show instBEqFlowConstraints.beq _ _ = true ↔ _
  simp only [instBEqFlowConstraints.beq, Bool.and_eq_true, option_beq_self_iff,
    ConstraintField.beq_self_iff, numbers, applyOrder, field, List.flatMap_cons, List.flatMap_nil,
    List.append_nil, List.forall_mem_append, List.forall_mem_flatMap]

theorem NodeDeclaration.beq_self_iff {d : NodeDeclaration} :
    (d == d) = true ↔ ∀ x ∈ d.numbers, x.isNaN = false := by
  show instBEqNodeDeclaration.beq d d = true ↔ _
  cases d with
  | flow kind name c =>
    simp [instBEqNodeDeclaration.beq, numbers, FlowConstraints.beq_self_iff]
  | delay name steps initialValue =>
    rw [numbers, List.forall_mem_singleton, ← Number.beq_self_iff]
    simp [instBEqNodeDeclaration.beq]

theorem NamedParameter.beq_self_iff {p : NamedParameter} :
    (p == p) = true ↔ ∀ x ∈ p.definition.numbers, x.isNaN = false := by
  show instBEqNamedParameter.beq p p = true ↔ _
  simp [instBEqNamedParameter.beq, Definition.beq_self_iff]

/-- **A document equals itself** just if all its numbers are defined. -/
theorem Document.beq_self_iff {d : Document} :
    (d == d) = true ↔ ∀ x ∈ d.numbers, x.isNaN = false := by
  show instBEqDocument.beq d d = true ↔ _
  simp only [instBEqDocument.beq, Bool.and_eq_true, list_beq_self_iff, beq_self_eq_true, true_and,
    NamedParameter.beq_self_iff, NodeDeclaration.beq_self_iff, numbers, List.forall_mem_append,
    List.forall_mem_flatMap]

end WaterNetwork
