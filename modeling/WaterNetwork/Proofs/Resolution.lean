import WaterNetwork.Proofs.Attempt
import WaterNetwork.Proofs.Definition
import WaterNetwork.Proofs.Table

/-!
# What resolving a field does

Whether a field can be resolved depends on a few facts only: which numbers are finite, which
files are there, and which names the table has. `ConstraintField.Resolvable` lists them. The
value that a resolved field yields, and the entry that it adds to the table, do not depend on
the table at all (`ConstraintField.value`, `ConstraintField.made?`).

* `resolve_eq_ok_iff` — a field that resolves is resolvable, yields its value and adds its entry.
* `exists_resolve_iff` — as long as there is room, a field resolves just if it is resolvable.
-/

namespace WaterNetwork

open Attempt

variable {site : Site} {t t' : ParameterTable} {name : String} {v : ConstraintValue}

theorem ParameterTable.runFrom_insertion (name : String) (d : Definition) (t : ParameterTable) :
    (insertion name d).runFrom t = t.insert name d := rfl

/-! ### Definitions -/

namespace Definition

/-- The data file of a definition, if it has one, is a regular file. -/
def HasFile (site : Site) : Definition → Prop
  | timeseries url _ => ∃ bytes, site.files.inspect (site.path.join url) = .ok (.file bytes)
  | _ => True

theorem anchor_eq_ok_iff {d d' : Definition} :
    d.anchor site name = .ok d' ↔ d.HasFile site ∧ d' = d.anchored site := by
  cases d with
  | timeseries url column =>
    unfold anchor HasFile anchored
    dsimp only
    rcases site.files.inspect (site.path.join url) with
      (_ | _ | _ | _ | _ | _ | _ | _ | _) | (_ | _ | _ | _ | _) <;> simp [eq_comm]
  | _ =>
    unfold anchor HasFile anchored
    simp [eq_comm]

theorem prepare_eq_ok_iff {d d' : Definition} :
    d.prepare site name = .ok d' ↔
      d.check = .ok () ∧ d.HasFile site ∧ d' = d.anchored site := by
  unfold prepare
  cases h : d.check with
  | error source => simp
  | ok u => simp [anchor_eq_ok_iff]

theorem prepare_of_check_error {d : Definition} {source : ValueError}
    (h : d.check = .error source) : d.prepare site name = .error (.invalid name source) := by
  rw [prepare, h]

theorem prepare_of_check_ok {d : Definition} (h : d.check = .ok ()) :
    d.prepare site name = d.anchor site name := by
  rw [prepare, h]

theorem materialize_of_contains (d : Definition) (h : t.contains name = true) :
    (d.materialize site name).runFrom t = (.error (.nameCollision name), t) := by
  rw [materialize, runFrom_bind_ok (runFrom_get t), h]
  rfl

/-- Under a new name, a definition is prepared, its operands are required, and it is inserted. -/
theorem materialize_of_new (d : Definition) (h : t.contains name = false) :
    (d.materialize site name).runFrom t =
      match d.prepare site name with
      | .error e => (.error e, t)
      | .ok anchored =>
        match t.requireAll anchored.references with
        | .error e => (.error e, t)
        | .ok () =>
          let (result, t') := t.insert name anchored
          (result.map fun _ => .parameter name, t') := by
  rw [materialize, runFrom_bind_ok (runFrom_get t), h, if_neg Bool.false_ne_true]
  dsimp only
  rw [runFrom_bind, runFrom_ofExcept]
  cases d.prepare site name with
  | error e => rfl
  | ok anchored =>
    dsimp only
    rw [runFrom_bind, runFrom_ofExcept]
    cases t.requireAll anchored.references with
    | error e => rfl
    | ok u =>
      dsimp only
      rw [runFrom_bind, ParameterTable.runFrom_insertion]
      rcases t.insert name anchored with ⟨e | id, t'⟩ <;> rfl

/-- **Putting a definition into a table is atomic.** -/
theorem atomic_materialize (site : Site) (name : String) (d : Definition) :
    Atomic (d.materialize site name) := by
  intro t e t' h
  cases hc : t.contains name with
  | true =>
    rw [d.materialize_of_contains hc] at h
    cases h
    rfl
  | false =>
    rw [d.materialize_of_new hc] at h
    split at h
    · cases h
      rfl
    · rename_i anchored _
      split at h
      · cases h
        rfl
      · rcases hi : t.insert name anchored with ⟨e' | id, t₁⟩
        · rw [hi] at h
          cases h
          exact ParameterTable.eq_of_insert_error hi
        · rw [hi] at h
          cases h

/-- A definition is put into a table just if its name is new, it passes its check, its file is
there, the table has what it combines, and there is room. -/
theorem materialize_eq_ok_iff (h : t.Coherent) {d : Definition} :
    (d.materialize site name).runFrom t = (.ok v, t') ↔
      d.check = .ok () ∧ d.HasFile site ∧ name ∉ t.names ∧ (∀ r ∈ d.references, r ∈ t.names) ∧
        v = .parameter name ∧ ∃ id, t.insert name (d.anchored site) = (.ok id, t') := by
  rw [← h.contains_eq_false_iff, ← h.requireAll_eq_ok_iff]
  cases hc : t.contains name with
  | true => simp [d.materialize_of_contains hc]
  | false =>
    rw [d.materialize_of_new hc]
    cases hp : d.prepare site name with
    | error e =>
      have hno : ¬ (d.check = .ok () ∧ d.HasFile site) := fun hd => by
        rw [prepare_eq_ok_iff.mpr ⟨hd.1, hd.2, rfl⟩] at hp
        cases hp
      simp only [Prod.mk.injEq, reduceCtorEq, false_and, false_iff]
      exact fun hd => hno ⟨hd.1, hd.2.1⟩
    | ok d' =>
      obtain ⟨hcheck, hfile, rfl⟩ := prepare_eq_ok_iff.mp hp
      simp only [hcheck, hfile, references_anchored, true_and]
      cases t.requireAll d.references with
      | error e => simp
      | ok u =>
        rcases t.insert name (d.anchored site) with ⟨e | id, t₁⟩ <;> simp [Except.map, eq_comm]

end Definition

/-! ### Fields -/

namespace ConstraintField

/-- **Whether a field can be resolved**, given the names that are taken and the names that may
be referred to. -/
def Resolvable (site : Site) (derivedName : String) (acceptsLiterals : Bool)
    (taken known : List String) : ConstraintField → Prop
  | .literal value =>
    Number.isFinite value = true ∧ (acceptsLiterals = false → derivedName ∉ taken)
  | .reference name => name ∈ known
  | .inline d =>
    d.check = .ok () ∧ d.HasFile site ∧ derivedName ∉ taken ∧ ∀ r ∈ d.references, r ∈ known

/-- The value that a field resolves to. -/
def value (derivedName : String) (acceptsLiterals : Bool) : ConstraintField → ConstraintValue
  | .literal value => if acceptsLiterals then .literal value else .parameter derivedName
  | .reference name => .parameter name
  | .inline _ => .parameter derivedName

/-- The definition that resolving a field puts into the table, if it does. -/
def made? (site : Site) (acceptsLiterals : Bool) : ConstraintField → Option Definition
  | .literal value => if acceptsLiterals then none else some (.constant value)
  | .reference _ => none
  | .inline d => some (d.anchored site)

variable {derivedName : String} {accepts : Bool} {field : ConstraintField}

/-- What resolving a field does to the table. -/
def Adds (site : Site) (derivedName : String) (accepts : Bool) (field : ConstraintField)
    (t t' : ParameterTable) : Prop :=
  match field.made? site accepts with
  | none => t' = t
  | some d => ∃ id, t.insert derivedName d = (.ok id, t')

/-- A name is referred to just if it can be required. -/
theorem runFrom_resolve_reference (site : Site) (derivedName : String) (accepts : Bool)
    (name : String) (t : ParameterTable) :
    ((reference name).resolve site derivedName accepts).runFrom t =
      ((t.require name).map fun _ => .parameter name, t) := by
  rw [resolve, runFrom_bind_ok (runFrom_get t), runFrom_bind, runFrom_ofExcept]
  cases t.require name <;> rfl

/-- **Resolving a field is atomic.** -/
theorem atomic_resolve (site : Site) (derivedName : String) (accepts : Bool)
    (field : ConstraintField) : Atomic (field.resolve site derivedName accepts) := by
  intro t e t' h
  cases field with
  | literal x =>
    rw [resolve] at h
    split at h
    · cases h
      rfl
    · split at h
      · cases h
      · exact Definition.atomic_materialize _ _ _ t e t' h
  | reference name =>
    rw [runFrom_resolve_reference] at h
    exact (congrArg Prod.snd h).symm
  | inline d => exact Definition.atomic_materialize _ _ _ t e t' h

theorem resolve_eq_ok_iff (h : t.Coherent) :
    (field.resolve site derivedName accepts).runFrom t = (.ok v, t') ↔
      field.Resolvable site derivedName accepts t.names t.names ∧
        v = field.value derivedName accepts ∧ field.Adds site derivedName accepts t t' := by
  cases field with
  | literal x =>
    cases hx : Number.isFinite x with
    | false => simp [resolve, ensureFinite, hx, Resolvable, runFrom_throw]
    | true =>
      cases accepts with
      | true =>
        simp [resolve, ensureFinite, hx, Resolvable, ConstraintField.value, Adds, made?, eq_comm,
          runFrom_pure]
      | false =>
        simp only [resolve, ensureFinite, hx, if_true, Bool.false_eq_true, if_false,
          Definition.materialize_eq_ok_iff h, Definition.references, Definition.HasFile,
          Definition.check, Definition.anchored, Resolvable, ConstraintField.value, Adds, made?]
        simp [Except.map]
  | reference name =>
    rw [Resolvable, ← h.exists_require_iff, runFrom_resolve_reference]
    cases t.require name <;> simp [Except.map, ConstraintField.value, Adds, made?, eq_comm]
  | inline d =>
    simp only [resolve, Definition.materialize_eq_ok_iff h, Resolvable, ConstraintField.value, Adds,
      made?, and_assoc]

namespace Adds

theorem built (h : field.Adds site derivedName accepts t t') (ht : t.Built) : t'.Built := by
  unfold Adds at h
  split at h
  · exact h ▸ ht
  · obtain ⟨id, hi⟩ := h
    exact ht.insert hi

theorem bindings (h : field.Adds site derivedName accepts t t') :
    t'.bindings = t.bindings ++ ((field.made? site accepts).map (derivedName, ·)).toList := by
  unfold Adds at h
  split at h
  · rename_i hm
    simp [h, hm]
  · rename_i d hm
    obtain ⟨id, hi⟩ := h
    simp [ParameterTable.bindings_insert hi, hm]

/-- What is added is there under the derived name. -/
theorem derivedName_mem {d : Definition} (h : field.Adds site derivedName accepts t t')
    (hm : field.made? site accepts = some d) : derivedName ∈ t'.names := by
  simp only [Adds, hm] at h
  obtain ⟨id, hi⟩ := h
  rw [ParameterTable.names_insert hi]
  exact List.mem_append_right _ (List.mem_singleton_self _)

theorem entries_prefix (h : field.Adds site derivedName accepts t t') :
    t.entries <+: t'.entries := by
  unfold Adds at h
  split at h
  · exact h ▸ List.prefix_rfl
  · obtain ⟨id, hi⟩ := h
    rw [ParameterTable.entries_insert hi]
    exact List.prefix_append _ _

end Adds

/-- A field that adds an entry is resolvable only under a new name. -/
theorem Resolvable.derivedName_not_mem {taken known : List String} {d : Definition}
    (h : field.Resolvable site derivedName accepts taken known)
    (hm : field.made? site accepts = some d) : derivedName ∉ taken := by
  cases field with
  | literal x =>
    cases accepts with
    | true => simp [made?] at hm
    | false => exact h.2 rfl
  | reference name => simp [made?] at hm
  | inline d => exact h.2.2.1

/-- A resolvable field resolves, as long as there is room for the entry that it adds. -/
theorem exists_resolve_iff (h : t.Coherent)
    (hs : t.size + (field.made? site accepts).toList.length ≤ Ident.limit) :
    (∃ v t', (field.resolve site derivedName accepts).runFrom t = (.ok v, t')) ↔
      field.Resolvable site derivedName accepts t.names t.names := by
  simp only [resolve_eq_ok_iff h]
  refine ⟨fun ⟨_, _, hr, _⟩ => hr, fun hr => ?_⟩
  cases hm : field.made? site accepts with
  | none => exact ⟨_, t, hr, rfl, by simp only [Adds, hm]⟩
  | some d =>
    have hn := h.contains_eq_false_iff.mpr (hr.derivedName_not_mem hm)
    have hroom : t.size < Ident.limit := Nat.lt_of_succ_le (by simpa [hm] using hs)
    obtain ⟨id, t', hi⟩ := ParameterTable.exists_insert d hn hroom
    exact ⟨_, t', hr, rfl, by simp only [Adds, hm]; exact ⟨id, hi⟩⟩

end ConstraintField

end WaterNetwork
