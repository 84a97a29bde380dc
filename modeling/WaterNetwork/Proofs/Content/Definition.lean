import WaterNetwork.Content.Definition
import WaterNetwork.Proofs.Content.Fields
import WaterNetwork.Proofs.Definition

/-!
# Definitions that have been written

A definition that is written and read again is the same, but for its numbers. A threshold that does
not come back is gone: it may be left out, and what stands in its place is read as nothing. All
other numbers have to be there, and no definition is read if one of them does not come back. So the
numbers of a definition are of two sorts, required and optional ones.

* `Definition.recovers_ofContent` — what is read from what is left of a definition.
* `ConstraintField.recovers_readOptional` — the same for a constraint field.
* `Definition.kept_eq_self_iff`, `ConstraintField.kept?_eq_some_iff` — when nothing is lost.
* `Definition.ofContent_toContent` — a definition is read from its content.
-/

namespace WaterNetwork

open WaterNetwork.Content (entry keptEntry)
open WaterNetwork.Field (written Restores)

/-! ### Fields of definitions -/

/-- A field that may be left out is there if it was and its value has been kept. -/
theorem Field.Restores.optional {ν α : Type} {back : Float → Option Float} {f : Field ν}
    {fields : List (Field ν)} {cs : List (Option Content)} {ys : List Float} {vs : List ν}
    {value : Option α → ν} (write : α → Content) (keep : α → Option α)
    (hfallback : f.fallback = some (value none))
    (hread : ∀ a, f.read (write a) = .ok (value (keep a))) (o : Option α)
    (hrest : Restores back fields cs ys vs) :
    Restores back (f :: fields) (o.map write :: cs) ys (value (o.bind keep) :: vs) := by
  cases o with
  | none => exact .absent hfallback hrest
  | some a => exact .present (.of_nil (hread a)) hrest

namespace DefinitionValue

open WaterNetwork.Content (kept)

variable (back : Float → Option Float)

theorem recovers_numberField (name : String) (x : Float) :
    Recovers ((numberField name).read (kept back (.float x))) (AllBack back [x])
      (number ((back x).getD x)) :=
  (Content.recovers_readNumber back x).map number

theorem recovers_textField (name expected s : String) :
    Recovers ((textField name expected).read (kept back (.string s))) (AllBack back []) (text s) :=
  .of_nil rfl

theorem recovers_textsField (name : String) (names : List String) :
    Recovers ((textsField name).read (kept back (.sequence (names.map .string))))
      (AllBack back []) (texts names) :=
  .map texts (.of_nil (Content.readSequence_kept back _ names))

theorem recovers_aggregationField (name : String) (function : Aggregation) :
    Recovers ((aggregationField name).read (kept back (.string function.text)))
      (AllBack back []) (aggregation function) := by
  refine .map aggregation (.of_nil ?_)
  rw [kept, Content.readAggregation, Content.readVariant_name (Aggregation.ofText?_text function)]

theorem readSteps_kept (n : UInt64) : (kept back (.unsigned n)).readSteps = .ok n := by
  rw [Content.readSteps, Content.readNatural_kept back _ n.toNat_lt]
  exact congrArg Except.ok UInt64.ofNat_toNat

theorem recovers_stepsField (name : String) (n : UInt64) :
    Recovers ((stepsField name).read (kept back (.unsigned n))) (AllBack back []) (steps n) :=
  .map steps (.of_nil (readSteps_kept back n))

theorem readSubIndex_kept (s : SubIndex) :
    (kept back (.unsigned s.value.toUInt64)).readSubIndex = .ok s := by
  have hlt : s.value.toUInt64.toNat < 2 ^ 32 := by simpa using s.value.toNat_lt
  rw [Content.readSubIndex, Content.readNatural_kept back _ hlt]
  simp [Except.map]

/-- Twelve numbers are read just if all of them come back. -/
theorem recovers_monthsField (name : String) (values : Vector Float 12) :
    Recovers ((monthsField name).read (kept back (.sequence (values.toList.map .float))))
      (AllBack back values.toList) (months (values.map fun x => (back x).getD x)) := by
  refine .map months ?_
  rw [kept, Content.readMonths, Content.keptItems_eq_map, List.map_map,
    List.take_of_length_le (by simp)]
  have hitems := Recovers.mapM (kept back ∘ Content.float) values.toList fun x _ =>
    Content.recovers_readNumber back x
  simp only [allBack_singleton_iff] at hitems
  refine hitems.andThen ?_
  -- Twelve items were written, so the reader misses none and has none to spare.
  rw [dif_pos (by simp), if_neg (by simp)]
  exact congrArg Except.ok (Vector.toList_inj.mp (by simp [Vector.toList]))

variable {back} {fields : List (Field DefinitionValue)} {cs : List (Option Content)}
  {ys : List Float} {vs : List DefinitionValue}

theorem restores_textOptionField (name : String) (s : Option String)
    (hrest : Restores back fields cs ys vs) :
    Restores back (textOptionField name :: fields) ((s.map .string).map (kept back) :: cs) ys
      (textOption s :: vs) := by
  have h := Restores.optional (f := textOptionField name) (kept back ∘ .string) some rfl
    (fun text => rfl) s hrest
  rwa [← Option.map_map, Option.bind_fun_some] at h

theorem restores_subIndexOptionField (name : String) (s : Option SubIndex)
    (hrest : Restores back fields cs ys vs) :
    Restores back (subIndexOptionField name :: fields)
      ((s.map fun s => .unsigned s.value.toUInt64).map (kept back) :: cs) ys
      (subIndexOption s :: vs) := by
  have hread (s : SubIndex) : (subIndexOptionField name).read
      (kept back (.unsigned s.value.toUInt64)) = .ok (subIndexOption (some s)) := by
    show ((kept back _).readOptional Content.readSubIndex).map subIndexOption = _
    rw [Content.readOptional_of_ne_null (by rw [kept]; rintro ⟨⟩), readSubIndex_kept]
    rfl
  have h := Restores.optional (kept back ∘ fun s : SubIndex => .unsigned s.value.toUInt64) some rfl
    hread s hrest
  rwa [← Option.map_map, Option.bind_fun_some] at h

/-- A number that may be left out is gone if it does not come back. -/
theorem restores_numberOptionField (name : String) (x : Option Float)
    (hrest : Restores back fields cs ys vs) :
    Restores back (numberOptionField name :: fields) ((x.map .float).map (kept back) :: cs) ys
      (numberOption (x.bind back) :: vs) := by
  have h := Restores.optional (f := numberOptionField name) (kept back ∘ .float) _ rfl
    (fun x => congrArg (Except.map numberOption) (Content.readOptional_readNumber_kept back x)) x
    hrest
  rwa [← Option.map_map] at h

end DefinitionValue

namespace DefinitionKind

theorem nodup_fields (k : DefinitionKind) : (k.fields.map (·.name)).Nodup := by
  cases k <;> decide

theorem tagKey_notMem_fields (k : DefinitionKind) : tagKey ∉ k.fields.map (·.name) := by
  cases k <;> decide

theorem name_notMem_fields (k : DefinitionKind) : "name" ∉ k.fields.map (·.name) := by
  cases k <;> decide

end DefinitionKind

/-! ### Definitions -/

namespace Definition

variable {back : Float → Option Float} {d : Definition} {x : Float} {room : ℕ}

/-- The contents of the fields of a definition; an option that is absent has none. -/
def fieldContents : Definition → List (Option Content)
  | constant value => [some (.float value)]
  | monthlyProfile values => [some (.sequence (values.toList.map .float))]
  | timeseries url column => [some (.string url), column.map .string]
  | bounded _ parameter threshold => [some (.string parameter), threshold.map .float]
  | negative parameter => [some (.string parameter)]
  | aggregated parameters function =>
    [some (.sequence (parameters.map .string)), some (.string function.text)]
  | division numerator denominator => [some (.string numerator), some (.string denominator)]
  | delay node sub steps initialValue =>
    [some (.string node), sub.map fun s => .unsigned s.value.toUInt64, some (.unsigned steps),
      some (.float initialValue)]

/-- The values of the fields of a definition. -/
def fieldValues : Definition → List DefinitionValue
  | constant value => [.number value]
  | monthlyProfile values => [.months values]
  | timeseries url column => [.text url, .textOption column]
  | bounded _ parameter threshold => [.text parameter, .numberOption threshold]
  | negative parameter => [.text parameter]
  | aggregated parameters function => [.texts parameters, .aggregation function]
  | division numerator denominator => [.text numerator, .text denominator]
  | delay node sub steps initialValue =>
    [.text node, .subIndexOption sub, .steps steps, .number initialValue]

theorem fieldEntries_eq_written (d : Definition) :
    d.fieldEntries = written d.kind.fields d.fieldContents := by
  cases d with
  | bounded bound parameter threshold => cases bound <;> cases threshold <;> rfl
  | timeseries url column => cases column <;> rfl
  | delay node sub steps initialValue => cases sub <;> rfl
  | _ => rfl

theorem ofValues?_fieldValues (d : Definition) : ofValues? d.kind d.fieldValues = some d := by
  cases d with
  | bounded bound parameter threshold => cases bound <;> rfl
  | _ => rfl

/-- The numbers without which a definition is not read. -/
def requiredNumbers : Definition → List Float
  | constant value => [value]
  | monthlyProfile values => values.toList
  | delay _ _ _ initialValue => [initialValue]
  | bounded _ _ _ | timeseries _ _ | negative _ | aggregated _ _ | division _ _ => []

/-- The numbers that a definition can do without. -/
def optionalNumbers : Definition → List Float
  | bounded _ _ threshold => threshold.toList
  | _ => []

/-- A number of a definition is required or optional. -/
theorem mem_numbers_iff : x ∈ d.numbers ↔ x ∈ d.requiredNumbers ∨ x ∈ d.optionalNumbers := by
  cases d <;> simp [numbers, requiredNumbers, optionalNumbers]

/-- **What is left of a definition** whose numbers come back as `back` says: a threshold that does
not is gone, and without one of the other numbers nothing is read. -/
def kept (back : Float → Option Float) : Definition → Definition
  | constant value => constant ((back value).getD value)
  | monthlyProfile values => monthlyProfile (values.map fun x => (back x).getD x)
  | bounded bound parameter threshold => bounded bound parameter (threshold.bind back)
  | delay node sub steps initialValue =>
    delay node sub steps ((back initialValue).getD initialValue)
  | d => d

@[simp] theorem kind_kept (back : Float → Option Float) (d : Definition) :
    (d.kept back).kind = d.kind := by cases d <;> rfl

theorem getD_eq_self_iff {o : Option Float} (h : o.isSome = true) : o.getD x = x ↔ o = some x := by
  obtain ⟨y, rfl⟩ := Option.isSome_iff_exists.mp h
  rw [Option.getD_some, Option.some.injEq]

/-- Nothing is lost just if all numbers come back as they were. -/
theorem kept_eq_self_iff (h : AllBack back d.requiredNumbers) :
    d.kept back = d ↔ ∀ x ∈ d.numbers, back x = some x := by
  cases d with
  | constant | delay =>
    simp only [requiredNumbers, allBack_singleton_iff] at h
    simp [kept, numbers, getD_eq_self_iff h]
  | monthlyProfile values =>
    have hvalues : ∀ x ∈ values.toList, ((back x).getD x = x ↔ back x = some x) :=
      fun x hx => getD_eq_self_iff (h x hx)
    rw [kept, monthlyProfile.injEq, ← Vector.toList_inj, Vector.toList_map, map_eq_self_iff]
    exact forall₂_congr hvalues
  | bounded bound parameter threshold => cases threshold <;> simp [kept, numbers]
  | _ => simp [kept, numbers]

theorem kept_some (d : Definition) : d.kept some = d :=
  (kept_eq_self_iff (allBack_some _)).mpr fun _ _ => rfl

/-! ### Keys and depth -/

theorem isFlat_of_mem_fieldContents {c : Content} (hc : some c ∈ d.fieldContents) : c.IsFlat := by
  cases d <;> simp only [fieldContents, List.mem_cons, Option.some.injEq, List.not_mem_nil,
    or_false, eq_comm (a := some c), Option.map_eq_some_iff] at hc <;>
    grind [Content.IsFlat, Content.IsWritten]

theorem fits_of_mem_written (hroom : 1 < room) {e : Content × Content}
    (he : e ∈ written d.kind.fields d.fieldContents) : e.2.Fits room :=
  (isFlat_of_mem_fieldContents (Field.mem_of_mem_written he)).fits hroom

theorem isBeside_of_mem_fieldEntries (hroom : 1 < room) {e : Content × Content}
    (he : e ∈ d.fieldEntries) : Content.IsBeside room tagKey e := by
  rw [fieldEntries_eq_written] at he
  exact Field.isBeside_of_mem_written he d.kind.tagKey_notMem_fields (fits_of_mem_written hroom he)

/-- No entry of a definition is called like the name that stands beside it. -/
theorem isBeside_of_mem_entries (hroom : 1 < room) {e : Content × Content} (he : e ∈ d.entries) :
    Content.IsBeside room "name" e := by
  rw [entries, fieldEntries_eq_written, List.mem_cons] at he
  rcases he with rfl | he
  · exact ⟨tagKey, rfl, by decide, .scalar trivial⟩
  · exact Field.isBeside_of_mem_written he d.kind.name_notMem_fields (fits_of_mem_written hroom he)

theorem fits_toContent (hroom : 2 < room) : d.toContent.Fits room := by
  have hentries : ∀ e ∈ d.entries, Content.IsBeside (room - 1) "name" e := fun e he =>
    isBeside_of_mem_entries (by omega) he
  refine .mapping (by omega) (fun e he => ?_) fun e he => ?_
  · obtain ⟨key, hkey, -⟩ := hentries e he
    exact ⟨key, hkey⟩
  · obtain ⟨-, -, -, hfits⟩ := hentries e he
    exact hfits

/-! ### Reading definitions back -/

/-- The fields of a definition, one by one. -/
theorem restores_fields (back : Float → Option Float) (d : Definition) :
    Restores back d.kind.fields (d.fieldContents.map (Option.map (Content.kept back)))
      d.requiredNumbers (d.kept back).fieldValues := by
  open DefinitionValue in
  cases d with
  | constant value => exact .present (recovers_numberField back _ value) .nil
  | monthlyProfile values =>
    have h := Restores.present (recovers_monthsField back "values" values) .nil
    rwa [List.append_nil] at h
  | timeseries url column =>
    exact .present (recovers_textField back _ _ url) (restores_textOptionField _ column .nil)
  | bounded bound parameter threshold =>
    have h := Restores.present (recovers_textField back "parameter" "a string" parameter)
      (restores_numberOptionField "threshold" threshold .nil)
    -- The four bounds have the same fields, but the kind has to be known to see them.
    cases bound <;> exact h
  | negative parameter => exact .present (recovers_textField back _ _ parameter) .nil
  | aggregated parameters function =>
    exact .present (recovers_textsField back _ parameters)
      (.present (recovers_aggregationField back _ function) .nil)
  | division numerator denominator =>
    exact .present (recovers_textField back _ _ numerator)
      (.present (recovers_textField back _ _ denominator) .nil)
  | delay node sub steps initialValue =>
    exact .present (recovers_textField back _ _ node)
      (restores_subIndexOptionField _ sub
        (.present (recovers_stepsField back _ steps)
          (.present (recovers_numberField back _ initialValue) .nil)))

/-- **A definition is read back** from its kind and its fields. -/
theorem recovers_ofBody (back : Float → Option Float) (d : Definition) :
    Recovers (ofBody d.kind (.fields (d.fieldEntries.map (keptEntry back))))
      (AllBack back d.requiredNumbers) (d.kept back) := by
  have hfinds := Field.finds_of_nodup d.kind.nodup_fields fun _ _ => KeyRule.closed_of_position?
  have hfields := Field.recovers_readMapping_written (d.restores_fields back) hfinds
  rw [← Field.map_keptEntry_written, ← fieldEntries_eq_written] at hfields
  refine hfields.andThen ?_
  rw [← d.kind_kept back, ofValues?_fieldValues]
  rfl

theorem readKind_text (k : DefinitionKind) : readKind (.string k.text) = .ok k :=
  Content.readVariant_name (DefinitionKind.ofText?_text k)

/-- **A definition is read back** from what is left of its content. -/
theorem recovers_ofContent (back : Float → Option Float) (d : Definition) :
    Recovers (ofContent (d.toContent.kept back)) (AllBack back d.requiredNumbers)
      (d.kept back) := by
  rw [ofContent, toContent, entries, Content.readTagged_kept back typeName (readKind_text _)
    fun _ => isBeside_of_mem_fieldEntries Nat.one_lt_two]
  exact d.recovers_ofBody back

/-- **A definition is read from its content.** -/
theorem ofContent_toContent (d : Definition) : ofContent d.toContent = .ok d := by
  have h := (d.recovers_ofContent some).eq_ok (allBack_some _)
  rwa [Content.kept_some, kept_some] at h

/-! ### Numbers -/

/-- The numbers in the content of a definition are its numbers. -/
theorem entryNumbers_fieldEntries (d : Definition) :
    Content.entryNumbers d.fieldEntries = d.numbers := by
  cases d with
  | monthlyProfile values =>
    simp [fieldEntries, numbers, entry, Content.entryNumbers, Content.numbers,
      Content.itemNumbers_eq_flatMap, List.flatMap_map]
  | aggregated parameters function =>
    simp [fieldEntries, numbers, entry, Content.entryNumbers, Content.numbers,
      Content.itemNumbers_eq_flatMap, List.flatMap_map]
  | timeseries url column => cases column <;> rfl
  | bounded bound parameter threshold => cases threshold <;> rfl
  | delay node sub steps initialValue => cases sub <;> rfl
  | _ => rfl

theorem numbers_toContent (d : Definition) : d.toContent.numbers = d.numbers := by
  rw [toContent, entries, Content.numbers, entry, Content.entryNumbers, entryNumbers_fieldEntries]
  rfl

end Definition

/-! ### Constraint fields -/

namespace ConstraintField

variable {back : Float → Option Float} {f : ConstraintField} {x : Float} {room : ℕ}

/-- The numbers without which a constraint field is not read. -/
def requiredNumbers : ConstraintField → List Float
  | literal _ | reference _ => []
  | inline d => d.requiredNumbers

/-- The numbers that a constraint field, or the node that has it, can do without. -/
def optionalNumbers : ConstraintField → List Float
  | literal value => [value]
  | reference _ => []
  | inline d => d.optionalNumbers

theorem mem_numbers_iff : x ∈ f.numbers ↔ x ∈ f.requiredNumbers ∨ x ∈ f.optionalNumbers := by
  cases f with
  | inline d => exact Definition.mem_numbers_iff
  | _ => simp [numbers, requiredNumbers, optionalNumbers]

/-- **What is left of a constraint field** whose numbers come back as `back` says: without its
number it is gone. -/
def kept? (back : Float → Option Float) : ConstraintField → Option ConstraintField
  | literal value => (back value).map literal
  | reference name => some (reference name)
  | inline d => some (inline (d.kept back))

theorem kept?_eq_some_iff (h : AllBack back f.requiredNumbers) :
    f.kept? back = some f ↔ ∀ x ∈ f.numbers, back x = some x := by
  cases f with
  | literal value => simp [kept?, numbers]
  | reference name => simp [kept?, numbers]
  | inline d => simp [kept?, numbers, Definition.kept_eq_self_iff (d := d) h]

theorem ofContent_mapping (entries : List (Content × Content)) :
    ofContent (.mapping entries) = ((Definition.ofContent (.mapping entries)).map inline).mapError
      fun _ => .noForm "ConstraintField" := by
  simp only [ofContent, Content.number?]
  cases Definition.ofContent (.mapping entries) <;> rfl

/-- **A constraint field is read back** from what is left of its content. -/
theorem recovers_readOptional (back : Float → Option Float) (f : ConstraintField) :
    Recovers ((f.toContent.kept back).readOptional ofContent) (AllBack back f.requiredNumbers)
      (f.kept? back) := by
  cases f with
  | literal value =>
    refine .of_nil ?_
    rw [toContent, Content.kept, kept?]
    cases back value <;> rfl
  | reference name => exact .of_nil rfl
  | inline d =>
    have hd := d.recovers_ofContent back
    rw [Definition.toContent, Content.kept] at hd
    rw [toContent, Definition.toContent, Content.kept,
      Content.readOptional_of_ne_null (by rintro ⟨⟩), ofContent_mapping]
    exact ((hd.map inline).mapError _).map some

theorem numbers_toContent (f : ConstraintField) : f.toContent.numbers = f.numbers := by
  cases f with
  | inline d => exact d.numbers_toContent
  | _ => rfl

theorem fits_toContent (hroom : 2 < room) : f.toContent.Fits room := by
  cases f with
  | inline d => exact Definition.fits_toContent hroom
  | _ => exact .scalar trivial

end ConstraintField

end WaterNetwork
