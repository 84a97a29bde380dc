import WaterNetwork.Proofs.Content.Definition
import WaterNetwork.Proofs.Content.Slots

/-!
# What is read as a definition

Reading a definition succeeds on just the contents that stand for one, and yields the definition
that they stand for. This is said value by value, then field by field, and then for the records
and sequences that a definition may be.

* `Definition.reads_fields_iff` — the fields of a definition read just its parts.
* `Definition.readTagged_ofBody_iff` — a tagged value is read as a definition just if it stands for
  it, whichever tags the reader takes.
* `ConstraintField.ofContent_eq_ok_iff` — so it is for constraint fields.
-/

namespace WaterNetwork

open Content (IsNumber IsNatural IsText IsSubIndex IsOptional IsVariant IsAggregation IsKind
  IsDefinition IsField keyed record under given beside InOrder Gives)

/-! ### Single values -/

namespace Content

variable {c : Content} {x : Float} {s : String} {limit n : ℕ} {expected : String}

theorem number?_eq_some_iff : c.number? = some x ↔ c.IsNumber x := by
  constructor
  · intro h
    cases c with
    | unsigned n => exact Option.some.inj h ▸ .unsigned n
    | signed n => exact Option.some.inj h ▸ .signed n
    | float y => exact Option.some.inj h ▸ .float y
    | _ => cases h
  · rintro ⟨⟩ <;> rfl

theorem readNumber_eq_ok_iff : c.readNumber = .ok x ↔ c.IsNumber x := by
  rw [← number?_eq_some_iff, readNumber]
  cases c.number? <;> simp

theorem isText_iff : c.IsText s ↔ c = .string s := by
  constructor
  · rintro ⟨⟩
    rfl
  · rintro rfl
    exact .intro s

theorem readText_eq_ok_iff : c.readText expected = .ok s ↔ c.IsText s := by
  constructor
  · intro h
    cases c with
    | string text => exact Except.ok.inj h ▸ .intro text
    | _ => cases h
  · rintro ⟨⟩
    rfl

theorem readNatural_eq_ok_iff :
    c.readNatural limit expected = .ok n ↔ c.IsNatural n ∧ n < limit := by
  constructor
  · intro h
    cases c with
    | unsigned m =>
      rw [readNatural] at h
      split at h
      · cases h
        exact ⟨.unsigned m, by assumption⟩
      · cases h
    | signed m =>
      rw [readNatural] at h
      split at h
      · rename_i hm
        cases h
        exact ⟨.signed hm.1, by omega⟩
      · cases h
    | _ => cases h
  · rintro ⟨⟨m⟩ | hm, hlimit⟩
    · rw [readNatural, if_pos hlimit]
    · rw [readNatural, if_pos ⟨hm, by omega⟩]

theorem readSubIndex_eq_ok_iff {sub : SubIndex} : c.readSubIndex = .ok sub ↔ c.IsSubIndex sub := by
  rw [readSubIndex, map_eq_ok_iff, IsSubIndex]
  simp only [readNatural_eq_ok_iff]
  constructor
  · rintro ⟨n, ⟨hn, hlt⟩, rfl⟩
    rwa [UInt32.toNat_ofNat_of_lt' hlt]
  · intro h
    exact ⟨_, ⟨h, sub.value.toNat_lt⟩, congrArg SubIndex.mk UInt32.ofNat_toNat⟩

theorem readSteps_eq_ok_iff {steps : UInt64} :
    c.readSteps = .ok steps ↔ c.IsNatural steps.toNat := by
  rw [readSteps, map_eq_ok_iff]
  simp only [readNatural_eq_ok_iff]
  constructor
  · rintro ⟨n, ⟨hn, hlt⟩, rfl⟩
    rwa [UInt64.toNat_ofNat_of_lt' hlt]
  · intro h
    exact ⟨_, ⟨h, steps.toNat_lt⟩, UInt64.ofNat_toNat⟩

/-- What is read from all items of a list. -/
theorem mapM_eq_ok_iff {ε α β : Type} {read : α → Except ε β} {Is : α → β → Prop}
    (h : ∀ a b, read a = .ok b ↔ Is a b) {as : List α} {bs : List β} :
    as.mapM read = .ok bs ↔ List.Forall₂ Is as bs := by
  induction as generalizing bs with
  | nil => simp [pure, Except.pure, eq_comm]
  | cons a as ih =>
    rw [List.mapM_cons]
    simp only [bind_eq_ok_iff, h, ih, pure, Except.pure, Except.ok.injEq,
      List.forall₂_cons_left_iff]
    constructor
    · rintro ⟨b, hb, bs', hbs, rfl⟩
      exact ⟨b, bs', hb, hbs, rfl⟩
    · rintro ⟨b, bs', hb, hbs, rfl⟩
      exact ⟨b, hb, bs', hbs, rfl⟩

/-- Twelve numbers are read from just twelve items. -/
theorem readMonths_eq_ok_iff {xs : Vector Float 12} :
    c.readMonths = .ok xs ↔ ∃ cs, c = .sequence cs ∧ List.Forall₂ IsNumber cs xs.toList := by
  cases c with
  | sequence cs =>
    rw [readMonths, bind_eq_ok_iff]
    simp only [mapM_eq_ok_iff fun _ _ => readNumber_eq_ok_iff, Content.sequence.injEq,
      exists_eq_left']
    constructor
    · rintro ⟨ys, hys, h⟩
      split at h
      · split at h
        · cases h
        · cases h
          rwa [List.take_of_length_le (by omega)] at hys
      · cases h
    · intro h
      have hlength : cs.length = 12 := by simpa using h.length_eq
      refine ⟨xs.toList, by rwa [List.take_of_length_le (Nat.le_of_eq hlength)], ?_⟩
      rw [dif_pos (by simp), if_neg (by omega)]
      exact congrArg Except.ok (Vector.toArray_inj.mp xs.toArray.toArray_toList)
  | _ => simp [readMonths]

theorem forall₂_isText_iff {cs : List Content} {texts : List String} :
    List.Forall₂ IsText cs texts ↔ cs = texts.map .string := by
  constructor
  · intro h
    induction h with
    | nil => rfl
    | cons hc _ ih => rw [isText_iff.mp hc, ih, List.map_cons]
  · rintro rfl
    exact List.forall₂_map_left_iff.mpr (List.forall₂_same.mpr fun text _ => .intro text)

theorem readSequence_readText_eq_ok_iff {what : String} {texts : List String} :
    c.readSequence (readText expected) what = .ok texts ↔ c = .sequence (texts.map .string) := by
  cases c with
  | sequence cs =>
    rw [readSequence, mapM_eq_ok_iff fun _ _ => readText_eq_ok_iff, forall₂_isText_iff,
      Content.sequence.injEq]
  | _ => simp [readSequence]

/-- A variant is read from its name or its position, if no two have the same name. -/
theorem readVariant_eq_ok_iff {α : Type} {variants : List α} {name : α → String} {v : α}
    (h : (variants.map name).Nodup) :
    readVariant variants name c = .ok v ↔ IsVariant variants name c v := by
  constructor
  · intro hread
    cases c with
    | string text =>
      rw [readVariant] at hread
      split at hread
      · rename_i hfind
        cases hread
        obtain rfl : name v = text := by simpa using List.find?_some hfind
        exact .name (List.mem_of_find?_eq_some hfind)
      · cases hread
    | unsigned n =>
      rw [readVariant] at hread
      split at hread
      · rename_i hposition
        cases hread
        exact .position hposition
      · cases hread
    | _ => cases hread
  · rintro (hmem | hposition)
    · refine readVariant_name ?_
      have hfound : (variants.find? (name · == name v)).isSome = true :=
        List.find?_isSome.mpr ⟨v, hmem, beq_self_eq_true (name v)⟩
      obtain ⟨w, hw⟩ := Option.isSome_iff_exists.mp hfound
      have hname : name w = name v := by simpa using List.find?_some hw
      rw [hw, List.inj_on_of_nodup_map h (List.mem_of_find?_eq_some hw) hmem hname]
    · rw [readVariant, hposition]

theorem isVariant_string_iff {α : Type} {variants : List α} {name : α → String} {v : α} :
    IsVariant variants name (.string s) v ↔ s = name v ∧ v ∈ variants := by
  constructor
  · rintro ⟨hmem⟩
    exact ⟨rfl, hmem⟩
  · rintro ⟨rfl, hmem⟩
    exact .name hmem

theorem readVariant_aggregation_iff {function : Aggregation} :
    readVariant Aggregation.all Aggregation.text c = .ok function ↔
      IsVariant Aggregation.all Aggregation.text c function :=
  readVariant_eq_ok_iff (by decide)

theorem readAggregation_eq_ok_iff {function : Aggregation} :
    c.readAggregation = .ok function ↔ c.IsAggregation function := by
  constructor
  · intro h
    unfold readAggregation at h
    split at h
    · obtain ⟨rfl, -⟩ := isVariant_string_iff.mp (readVariant_aggregation_iff.mp h)
      exact .name function
    · obtain ⟨function', hfunction, h⟩ := bind_eq_ok_iff.mp h
      split at h
      · cases h
        exact .null (readVariant_aggregation_iff.mp hfunction)
      · cases h
        exact .empty (readVariant_aggregation_iff.mp hfunction)
      · cases h
    · cases h
    · cases h
  · rintro (_ | hkey | hkey)
    · exact readVariant_name (Aggregation.ofText?_text function)
    · rw [readAggregation, readVariant_aggregation_iff.mpr hkey]
      rfl
    · rw [readAggregation, readVariant_aggregation_iff.mpr hkey]
      rfl

end Content

/-! ### Fields -/

section Fields

variable {ν α : Type} {f : Field ν} {c? : Option Content} {v : ν}

theorem Field.takes_required_iff (h : f.fallback = none) :
    f.Takes c? v ↔ ∃ c, c? = some c ∧ f.read c = .ok v := by
  cases c? with
  | none => simp [takes_none_iff, h]
  | some c => simp [Takes]

/-- A field that may be left out takes nothing from no part and from null. -/
theorem Field.takes_optional_iff {read : Content → Except Mismatch α} {value : Option α → ν}
    {Is : Content → α → Prop} {a? : Option α}
    (hread : ∀ c, f.read c = (c.readOptional read).map value)
    (hfallback : f.fallback = some (value none)) (hvalue : Function.Injective value)
    (hIs : ∀ c ∈ c?, ∀ a, read c = .ok a ↔ Is c a) (hnull : ∀ a, ¬ Is .null a) :
    f.Takes c? (value a?) ↔ IsOptional Is c? a? := by
  cases c? with
  | none =>
    rw [takes_none_iff, hfallback, Option.some_inj, hvalue.eq_iff]
    constructor
    · rintro rfl
      exact .absent
    · rintro ⟨⟩
      rfl
  | some c =>
    have hmap : f.Takes (some c) (value a?) ↔ c.readOptional read = .ok a? := by
      rw [Takes, hread, map_eq_ok_iff]
      simp only [hvalue.eq_iff, exists_eq_right]
    rw [hmap]
    by_cases hc : c = .null
    · subst hc
      rw [Content.readOptional, Except.ok.injEq]
      constructor
      · rintro rfl
        exact .null
      · rintro (_ | _ | h)
        · rfl
        · exact absurd h (hnull _)
    · rw [Content.readOptional_of_ne_null hc, map_eq_ok_iff]
      simp only [hIs c rfl]
      constructor
      · rintro ⟨a, ha, rfl⟩
        exact .present ha
      · rintro (_ | _ | h)
        · exact absurd rfl hc
        · exact ⟨_, h, rfl⟩

end Fields

namespace DefinitionValue

open WaterNetwork.Field (takes_required_iff takes_optional_iff)

variable {c? : Option Content} {name s : String} {x : Float}

theorem takes_numberField_iff :
    (numberField name).Takes c? (number x) ↔ ∃ c, c? = some c ∧ c.IsNumber x := by
  rw [takes_required_iff rfl]
  simp [numberField, map_eq_ok_iff, Content.readNumber_eq_ok_iff]

theorem takes_textField_iff {expected : String} :
    (textField name expected).Takes c? (text s) ↔ c? = some (.string s) := by
  rw [takes_required_iff rfl]
  simp [textField, map_eq_ok_iff, Content.readText_eq_ok_iff, Content.isText_iff]

theorem takes_monthsField_iff {values : Vector Float 12} :
    (monthsField name).Takes c? (months values) ↔
      ∃ cs, c? = some (.sequence cs) ∧ List.Forall₂ IsNumber cs values.toList := by
  rw [takes_required_iff rfl]
  simp [monthsField, map_eq_ok_iff, Content.readMonths_eq_ok_iff]

theorem takes_textsField_iff {names : List String} :
    (textsField name).Takes c? (texts names) ↔ c? = some (.sequence (names.map .string)) := by
  rw [takes_required_iff rfl]
  simp [textsField, map_eq_ok_iff, Content.readSequence_readText_eq_ok_iff]

theorem takes_aggregationField_iff {function : Aggregation} :
    (aggregationField name).Takes c? (aggregation function) ↔
      ∃ c, c? = some c ∧ c.IsAggregation function := by
  rw [takes_required_iff rfl]
  simp [aggregationField, map_eq_ok_iff, Content.readAggregation_eq_ok_iff]

theorem takes_stepsField_iff {n : UInt64} :
    (stepsField name).Takes c? (steps n) ↔ ∃ c, c? = some c ∧ c.IsNatural n.toNat := by
  rw [takes_required_iff rfl]
  simp [stepsField, map_eq_ok_iff, Content.readSteps_eq_ok_iff]

theorem takes_numberOptionField_iff {x? : Option Float} :
    (numberOptionField name).Takes c? (numberOption x?) ↔ IsOptional IsNumber c? x? :=
  takes_optional_iff (fun _ => rfl) rfl (fun _ _ => numberOption.inj)
    (fun _ _ _ => Content.readNumber_eq_ok_iff) nofun

theorem takes_textOptionField_iff {s? : Option String} :
    (textOptionField name).Takes c? (textOption s?) ↔ IsOptional IsText c? s? :=
  takes_optional_iff (fun _ => rfl) rfl (fun _ _ => textOption.inj)
    (fun _ _ _ => Content.readText_eq_ok_iff) nofun

theorem takes_subIndexOptionField_iff {sub? : Option SubIndex} :
    (subIndexOptionField name).Takes c? (subIndexOption sub?) ↔ IsOptional IsSubIndex c? sub? :=
  takes_optional_iff (fun _ => rfl) rfl (fun _ _ => subIndexOption.inj)
    (fun _ _ _ => Content.readSubIndex_eq_ok_iff) fun _ h => by cases h

end DefinitionValue

/-! ### Definitions -/

namespace Definition

open DefinitionValue
open WaterNetwork.Field (Reads)

variable {d : Definition} {k : DefinitionKind} {vs : List DefinitionValue} {c : Content}
  {parts : List (String × Option Content)} {es : List (String × Content)} {items : List Content}

/-- The values of the fields make a definition just if they are its own. -/
theorem ofValues?_eq_some_iff : ofValues? k vs = some d ↔ k = d.kind ∧ vs = d.fieldValues := by
  constructor
  · intro h
    unfold ofValues? at h
    split at h <;> cases h <;> exact ⟨rfl, rfl⟩
  · rintro ⟨rfl, rfl⟩
    exact ofValues?_fieldValues d

/-- The four bounds have the same fields, but the kind has to be known to see them. -/
theorem fields_bounded (bound : Bound) (parameter : String) (threshold : Option Float) :
    (bounded bound parameter threshold).kind.fields =
      [textField "parameter", numberOptionField "threshold"] := by
  cases bound <;> rfl

/-- **The fields of a definition read just its parts.** -/
theorem reads_fields_iff : Reads d.kind.fields parts d.fieldValues ↔ d.HasParts parts := by
  constructor
  · intro h
    cases d with
    | constant value =>
      obtain _ | ⟨hvalue, _ | _⟩ := h
      obtain ⟨c, rfl, hc⟩ := takes_numberField_iff.mp hvalue
      exact .constant hc
    | monthlyProfile values =>
      obtain _ | ⟨hvalues, _ | _⟩ := h
      obtain ⟨cs, rfl, hcs⟩ := takes_monthsField_iff.mp hvalues
      exact .monthlyProfile hcs
    | timeseries url column =>
      obtain _ | ⟨hurl, _ | ⟨hcolumn, _ | _⟩⟩ := h
      obtain rfl := takes_textField_iff.mp hurl
      exact .timeseries (takes_textOptionField_iff.mp hcolumn)
    | bounded bound parameter threshold =>
      rw [fields_bounded] at h
      obtain _ | ⟨hparameter, _ | ⟨hthreshold, _ | _⟩⟩ := h
      obtain rfl := takes_textField_iff.mp hparameter
      exact .bounded (takes_numberOptionField_iff.mp hthreshold)
    | negative parameter =>
      obtain _ | ⟨hparameter, _ | _⟩ := h
      obtain rfl := takes_textField_iff.mp hparameter
      exact .negative
    | aggregated parameters function =>
      obtain _ | ⟨hparameters, _ | ⟨hfunction, _ | _⟩⟩ := h
      obtain rfl := takes_textsField_iff.mp hparameters
      obtain ⟨c, rfl, hc⟩ := takes_aggregationField_iff.mp hfunction
      exact .aggregated hc
    | division numerator denominator =>
      obtain _ | ⟨hnumerator, _ | ⟨hdenominator, _ | _⟩⟩ := h
      obtain rfl := takes_textField_iff.mp hnumerator
      obtain rfl := takes_textField_iff.mp hdenominator
      exact .division
    | delay node sub steps initialValue =>
      obtain _ | ⟨hnode, _ | ⟨hsub, _ | ⟨hsteps, _ | ⟨hinitial, _ | _⟩⟩⟩⟩ := h
      obtain rfl := takes_textField_iff.mp hnode
      obtain ⟨c, rfl, hc⟩ := takes_stepsField_iff.mp hsteps
      obtain ⟨x, rfl, hx⟩ := takes_numberField_iff.mp hinitial
      exact .delay (takes_subIndexOptionField_iff.mp hsub) hc hx
  · intro h
    cases h with
    | constant hc => exact .cons (takes_numberField_iff.mpr ⟨_, rfl, hc⟩) .nil
    | monthlyProfile hcs => exact .cons (takes_monthsField_iff.mpr ⟨_, rfl, hcs⟩) .nil
    | timeseries hcolumn =>
      exact .cons (takes_textField_iff.mpr rfl)
        (.cons (takes_textOptionField_iff.mpr hcolumn) .nil)
    | bounded hthreshold =>
      rw [fields_bounded]
      exact .cons (takes_textField_iff.mpr rfl)
        (.cons (takes_numberOptionField_iff.mpr hthreshold) .nil)
    | negative => exact .cons (takes_textField_iff.mpr rfl) .nil
    | aggregated hc =>
      exact .cons (takes_textsField_iff.mpr rfl)
        (.cons (takes_aggregationField_iff.mpr ⟨_, rfl, hc⟩) .nil)
    | division =>
      exact .cons (takes_textField_iff.mpr rfl) (.cons (takes_textField_iff.mpr rfl) .nil)
    | delay hsub hc hx =>
      exact .cons (takes_textField_iff.mpr rfl)
        (.cons (takes_subIndexOptionField_iff.mpr hsub)
          (.cons (takes_stepsField_iff.mpr ⟨_, rfl, hc⟩)
            (.cons (takes_numberField_iff.mpr ⟨_, rfl, hx⟩) .nil)))

theorem HasParts.names (h : d.HasParts parts) :
    parts.map (·.1) = d.kind.fields.map (·.name) :=
  (reads_fields_iff.mpr h).names

theorem ofBody_eq_ok_iff {body : Body} : ofBody k body = .ok d ↔
    k = d.kind ∧ Field.readBody (.closed (k.fields.map (·.name)))
      s!"struct variant {typeName}::{k.text}" k.fields body = .ok d.fieldValues := by
  rw [ofBody, bind_eq_ok_iff]
  constructor
  · rintro ⟨vs, hread, hfinish⟩
    split at hfinish
    · rename_i hvalues
      cases hfinish
      obtain ⟨rfl, rfl⟩ := ofValues?_eq_some_iff.mp hvalues
      exact ⟨rfl, hread⟩
    · cases hfinish
  · rintro ⟨rfl, hread⟩
    refine ⟨_, hread, ?_⟩
    rw [ofValues?_fieldValues]
    rfl

/-- Entries are read as a definition just if they are its parts, in some order. -/
theorem ofBody_fields_iff : ofBody k (.fields (keyed es)) = .ok d ↔
    k = d.kind ∧ ∃ parts, d.HasParts parts ∧ es.Perm (given parts) := by
  rw [ofBody_eq_ok_iff]
  refine and_congr_right ?_
  rintro rfl
  rw [Field.readBody, Field.readMapping_keyed_iff (KeyRule.follows_closed _) d.kind.nodup_fields]
  simp only [reads_fields_iff, true_implies]
  constructor
  · rintro ⟨hkeys, parts, hgives, hparts⟩
    refine ⟨parts, hparts, (Content.perm_given_iff ?_).mpr ⟨?_, hgives⟩⟩
    · exact hparts.names ▸ d.kind.nodup_fields
    · rwa [hparts.names]
  · rintro ⟨parts, hparts, hperm⟩
    have hnodup := hparts.names ▸ d.kind.nodup_fields
    obtain ⟨hkeys, hgives⟩ := (Content.perm_given_iff hnodup).mp hperm
    exact ⟨hparts.names ▸ hkeys, parts, hgives, hparts⟩

/-- Items are read as a definition just if they are its parts in order. -/
theorem ofBody_items_iff : ofBody k (.items items) = .ok d ↔
    k = d.kind ∧ ∃ parts, d.HasParts parts ∧ InOrder parts items := by
  rw [ofBody_eq_ok_iff]
  refine and_congr_right ?_
  rintro rfl
  rw [Field.readBody, Field.readItems_eq_ok_iff]
  simp only [reads_fields_iff, and_comm]

theorem isDefinition_record_iff {type : Content} : IsDefinition type d (record es) ↔
    ∃ parts, d.HasParts parts ∧ es.Perm (given ((tagKey, some type) :: parts)) := by
  constructor
  · intro h
    generalize hc : record es = c at h
    cases h with
    | record hparts hperm =>
      obtain rfl := Content.keyed_injective (Content.mapping.inj hc)
      exact ⟨_, hparts, hperm⟩
    | sequence => cases hc
  · rintro ⟨parts, hparts, hperm⟩
    exact .record hparts hperm

/-- The type of a record stands under its key, next to the parts. -/
theorem isDefinition_record_iff_under {type : Content} : IsDefinition type d (record es) ↔
    under tagKey es = [type] ∧
      ∃ parts, d.HasParts parts ∧ (beside tagKey es).Perm (given parts) := by
  rw [isDefinition_record_iff, ← exists_and_left]
  refine exists_congr fun parts => ?_
  rw [and_left_comm]
  refine and_congr_right fun hparts => ?_
  rw [Content.perm_given_cons_iff (hparts.names ▸ d.kind.tagKey_notMem_fields)]
  rfl

/-- **A tagged value is read as a definition just if it stands for it**, whichever tags the reader
takes. -/
theorem readTagged_ofBody_iff {readTag : Content → Except Mismatch DefinitionKind}
    (hc : c.HasTextKeys) :
    (∃ result, c.readTagged typeName readTag = .ok result ∧ ofBody result.1 result.2 = .ok d) ↔
      ∃ type, readTag type = .ok d.kind ∧ IsDefinition type d c := by
  simp only [Prod.exists, Content.readTagged_eq_ok_iff hc]
  constructor
  · rintro ⟨k, _, ⟨es, type, rfl, hunder, htag, rfl⟩ | ⟨type, items, rfl, htag, rfl⟩, hbody⟩
    · obtain ⟨rfl, hparts⟩ := ofBody_fields_iff.mp hbody
      exact ⟨type, htag, isDefinition_record_iff_under.mpr ⟨hunder, hparts⟩⟩
    · obtain ⟨rfl, parts, hparts, horder⟩ := ofBody_items_iff.mp hbody
      exact ⟨type, htag, .sequence hparts horder⟩
  · rintro ⟨type, htag, ⟨hparts, hperm⟩ | ⟨hparts, horder⟩⟩
    · obtain ⟨hunder, hrest⟩ := isDefinition_record_iff_under.mp (.record hparts hperm)
      exact ⟨_, _, .inl ⟨_, type, rfl, hunder, htag, rfl⟩, ofBody_fields_iff.mpr ⟨rfl, hrest⟩⟩
    · exact ⟨_, _, .inr ⟨type, _, rfl, htag, rfl⟩,
        ofBody_items_iff.mpr ⟨rfl, _, hparts, horder⟩⟩

theorem readKind_eq_ok_iff : readKind c = .ok k ↔ c.IsKind k :=
  Content.readVariant_eq_ok_iff (by decide)

/-- **A definition is read from just the contents that stand for it.** -/
theorem ofContent_eq_ok_iff (hc : c.HasTextKeys) :
    ofContent c = .ok d ↔ ∃ type, type.IsKind d.kind ∧ IsDefinition type d c := by
  rw [ofContent, bind_eq_ok_iff]
  simp only [← readKind_eq_ok_iff, ← readTagged_ofBody_iff hc]

end Definition

/-! ### Constraint fields -/

namespace ConstraintField

variable {c : Content} {field : ConstraintField}

/-- **A constraint field is read from just the contents that stand for it.** -/
theorem ofContent_eq_ok_iff (hc : c.HasTextKeys) : ofContent c = .ok field ↔ c.IsField field := by
  constructor
  · intro h
    unfold ofContent at h
    split at h
    · rename_i hnumber
      cases h
      exact .literal (Content.number?_eq_some_iff.mp hnumber)
    · cases h
      exact .reference _
    · split at h
      · rename_i hd
        cases h
        obtain ⟨type, hkind, hdefinition⟩ := (Definition.ofContent_eq_ok_iff hc).mp hd
        exact .inline hkind hdefinition
      · cases h
  · rintro (hnumber | _ | ⟨hkind, hdefinition⟩)
    · rw [← Content.number?_eq_some_iff] at hnumber
      simp only [ofContent, hnumber]
    · rfl
    · have hd := (Definition.ofContent_eq_ok_iff hc).mpr ⟨_, hkind, hdefinition⟩
      cases hdefinition with
      | record =>
        rw [record, ofContent_mapping, ← record, hd]
        rfl
      | sequence => simp only [ofContent, Content.number?, hd]

end ConstraintField

end WaterNetwork
