import WaterNetwork.Parameter.Resolution

/-!
# Sound definitions

The check of a definition looks at the values that the definition carries itself. `Sound` says
what they have to be, for all kinds of definition at once, and `Operand` which parameters a
definition combines:

* `check_eq_ok_iff` — a definition passes its check just if it is sound.
* `mem_references_iff` — the references of a definition are its operands.
* `Sound.anchored` — a sound definition stays sound when its data file is named from the
  directory of the model.
-/

namespace WaterNetwork

/-- A path that is not empty stays so when it is followed from a directory. -/
theorem Path.join_ne_empty {base path : Path} (h : path ≠ "") : base.join path ≠ "" := by
  unfold Path.join
  split
  · exact h
  · rename_i hrel
    have hbase : base ≠ "" := fun hb => hrel (.inr hb)
    split <;> simp [String.append_eq_empty_iff, hbase]

namespace Definition

variable {site : Site} {d d' : Definition} {name : String}

/-- **Operands**: the parameters that a definition combines. -/
inductive Operand : Definition → String → Prop where
  | bounded {bound : Bound} {parameter : String} {threshold : Option Float} :
    Operand (.bounded bound parameter threshold) parameter
  | negative {parameter : String} : Operand (.negative parameter) parameter
  | aggregated {parameters : List String} {function : Aggregation} {parameter : String} :
    parameter ∈ parameters → Operand (.aggregated parameters function) parameter
  | numerator {numerator denominator : String} :
    Operand (.division numerator denominator) numerator
  | denominator {numerator denominator : String} :
    Operand (.division numerator denominator) denominator

/-- The references of a definition are its operands. -/
theorem mem_references_iff : name ∈ d.references ↔ d.Operand name := by
  constructor
  · intro h
    cases d with
    | bounded | negative => exact List.mem_singleton.mp h ▸ by constructor
    | aggregated parameters function => exact .aggregated h
    | division numerator denominator =>
      rcases List.mem_cons.mp h with rfl | h
      · exact .numerator
      · exact List.mem_singleton.mp h ▸ .denominator
    | _ => cases h
  · rintro (_ | _ | h | _ | _)
    case aggregated => exact h
    all_goals simp [references]

/-- **Soundness**: all numbers are finite, an aggregation has an operand, a delay takes at least
one step, and a data file has a name. -/
structure Sound (d : Definition) : Prop where
  finite : ∀ x ∈ d.numbers, Number.isFinite x = true
  operands : ∀ parameters function, d = .aggregated parameters function → parameters ≠ []
  steps : ∀ node sub steps x, d = .delay node sub steps x → 1 ≤ steps.toNat
  url : ∀ url column, d = .timeseries url column → url ≠ ""

theorem one_le_toNat_iff {steps : UInt64} : 1 ≤ steps.toNat ↔ steps ≠ 0 := by
  rw [Nat.one_le_iff_ne_zero]
  exact not_congr (UInt64.toNat_inj (b := 0))

theorem map_ensureFinite_eq_ok_iff {what : String} {x : Float} :
    (ensureFinite what x).map (fun _ => ()) = .ok () ↔ Number.isFinite x = true := by
  cases h : Number.isFinite x <;> simp [ensureFinite, h, Except.map]

theorem sound_of_check (h : d.check = .ok ()) : d.Sound := by
  cases d with
  | constant value =>
    exact ⟨by simpa [numbers] using map_ensureFinite_eq_ok_iff.mp h, nofun, nofun, nofun⟩
  | monthlyProfile values => exact ⟨ensureAllFinite_eq_ok_iff.mp h, nofun, nofun, nofun⟩
  | timeseries url column =>
    refine ⟨nofun, nofun, nofun, ?_⟩
    rintro _ _ ⟨⟩ rfl
    simp [check] at h
  | bounded bound parameter threshold =>
    cases threshold with
    | none => exact ⟨nofun, nofun, nofun, nofun⟩
    | some x =>
      exact ⟨by simpa [numbers] using map_ensureFinite_eq_ok_iff.mp h, nofun, nofun, nofun⟩
  | negative parameter | division numerator denominator => exact ⟨nofun, nofun, nofun, nofun⟩
  | aggregated parameters function =>
    refine ⟨nofun, ?_, nofun, nofun⟩
    rintro _ _ ⟨⟩ rfl
    simp [check] at h
  | delay node sub steps x =>
    rw [check] at h
    split at h
    · cases h
    · rename_i hsteps
      refine ⟨by simpa [numbers] using map_ensureFinite_eq_ok_iff.mp h, nofun, ?_, nofun⟩
      rintro _ _ _ _ ⟨⟩
      exact one_le_toNat_iff.mpr hsteps

theorem Sound.check (h : d.Sound) : d.check = .ok () := by
  obtain ⟨hnum, hops, hsteps, hurl⟩ := h
  cases d with
  | constant value => exact map_ensureFinite_eq_ok_iff.mpr (hnum value (List.mem_singleton_self _))
  | monthlyProfile values => exact ensureAllFinite_eq_ok_iff.mpr hnum
  | timeseries url column => simp [Definition.check, hurl url column rfl]
  | bounded bound parameter threshold =>
    cases threshold with
    | none => rfl
    | some x => exact map_ensureFinite_eq_ok_iff.mpr (hnum x (List.mem_singleton_self x))
  | negative parameter | division numerator denominator => rfl
  | aggregated parameters function => simp [Definition.check, hops parameters function rfl]
  | delay node sub steps x =>
    rw [Definition.check, if_neg (one_le_toNat_iff.mp (hsteps node sub steps x rfl))]
    exact map_ensureFinite_eq_ok_iff.mpr (hnum x (List.mem_singleton_self x))

/-- A definition passes its check just if it is sound. -/
theorem check_eq_ok_iff : d.check = .ok () ↔ d.Sound := ⟨sound_of_check, Sound.check⟩

/-- A definition with its data file named from the directory of the model. -/
def anchored (site : Site) : Definition → Definition
  | timeseries url column => .timeseries (site.path.join url) column
  | d => d

@[simp] theorem references_anchored (site : Site) (d : Definition) :
    (d.anchored site).references = d.references := by
  cases d <;> rfl

@[simp] theorem operand_anchored_iff {site : Site} {r : String} :
    (d.anchored site).Operand r ↔ d.Operand r := by
  rw [← mem_references_iff, references_anchored, mem_references_iff]

theorem Sound.anchored (site : Site) (h : d.Sound) : (d.anchored site).Sound := by
  cases d with
  | timeseries url column =>
    refine ⟨nofun, nofun, nofun, ?_⟩
    rintro _ _ ⟨⟩
    exact Path.join_ne_empty (h.url url column rfl)
  | _ => exact h

end Definition

end WaterNetwork
