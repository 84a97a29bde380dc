import WaterNetwork.Proofs.Resolution

/-!
# The history of a table

A table is what insertions have made of an empty one, tried one after the other, whether they
succeeded or not. The list of entries and the map from names to identifiers change in the same
insertions, so after any history the map answers what a search through the list would answer
(`Faithful`). An insertion adds one entry at the end or changes nothing (`Inserts`), so whatever a
table has answered for a name it answers for good (`KeptBy`).

* `Built.after` — histories lead to tables that successful insertions make.
* `entries_after` — what is there stays at the front.
* `insertions_outcome` — what tables answer after any history, what one more insertion does to
  them, and what further ones leave of them.
-/

namespace WaterNetwork.ParameterTable

open Attempt

variable {t t' : ParameterTable} {name : String} {d : Definition} {id : Ident}

/-! ### Histories -/

/-- The table that insertions leave, tried one after the other. -/
def after (t : ParameterTable) (history : List (String × Definition)) : ParameterTable :=
  history.foldl (fun t (name, d) => ((insertion name d).runFrom t).2) t

/-- An insertion that is tried makes a table by inserting, or leaves the one that is there. -/
theorem Built.runFrom_insertion (ht : t.Built) (name : String) (d : Definition) :
    ((insertion name d).runFrom t).2.Built := by
  rw [ParameterTable.runFrom_insertion]
  rcases hi : t.insert name d with ⟨e | id, t'⟩
  · obtain rfl := eq_of_insert_error hi
    exact ht
  · exact ht.insert hi

/-- **Histories lead to tables that successful insertions make.** -/
theorem Built.after (ht : t.Built) (history : List (String × Definition)) :
    (t.after history).Built := by
  induction history generalizing t with
  | nil => exact ht
  | cons binding history ih => exact ih (ht.runFrom_insertion binding.1 binding.2)

theorem entries_runFrom_insertion (t : ParameterTable) (name : String) (d : Definition) :
    ∃ added, ((insertion name d).runFrom t).2.entries = t.entries ++ added := by
  rw [runFrom_insertion]
  rcases hi : t.insert name d with ⟨e | id, t'⟩
  · obtain rfl := eq_of_insert_error hi
    exact ⟨[], (List.append_nil _).symm⟩
  · exact ⟨_, entries_insert hi⟩

/-- **What is there stays at the front**, in the same order. -/
theorem entries_after (t : ParameterTable) (history : List (String × Definition)) :
    ∃ added, (t.after history).entries = t.entries ++ added := by
  induction history generalizing t with
  | nil => exact ⟨[], (List.append_nil _).symm⟩
  | cons binding history ih =>
    obtain ⟨first, hfirst⟩ := t.entries_runFrom_insertion binding.1 binding.2
    obtain ⟨others, hothers⟩ := ih ((insertion binding.1 binding.2).runFrom t).2
    refine ⟨first ++ others, ?_⟩
    rw [← List.append_assoc, ← hfirst]
    exact hothers

/-! ### What a table answers -/

/-- **A faithful table**: identifiers are positions, the map leads from the names of the entries to
their identifiers, and every question is answered as by a search through the entries. -/
structure Faithful (t : ParameterTable) : Prop where
  indices : t.entries.map (·.id.index) = List.range t.size
  nodup : t.names.Nodup
  index_iff : ∀ name id, t.index[name]? = some id ↔ ∃ e ∈ t.entries, e.name = name ∧ e.id = id
  entry?_eq : ∀ name, t.entry? name = t.entries.find? (·.name == name)
  get?_eq : ∀ name, t.get? name = (t.entries.find? (·.name == name)).map (·.definition)
  contains_eq : ∀ name, t.contains name = t.entries.any (·.name == name)
  require_eq : ∀ name, t.require name = match t.entries.find? (·.name == name) with
    | some e => .ok e.id
    | none => .error (.unknownParameter name)

theorem Built.faithful (ht : t.Built) : t.Faithful where
  indices := ht.indices
  nodup := ht.coherent.nodup_names
  index_iff _ _ := Indexed.getElem?_eq_some_iff ht.coherent
  entry?_eq name := Indexed.bind_getElem?_eq_find? ht.coherent name
  get?_eq name := congrArg _ (Indexed.bind_getElem?_eq_find? ht.coherent name)
  contains_eq name := Indexed.contains_eq_any ht.coherent name
  require_eq name := by
    rw [require, Indexed.getElem?_eq_find? ht.coherent]
    cases t.entries.find? (·.name == name) <;> rfl

/-- A name is required with the identifier of its entry. -/
theorem Coherent.require_eq_ok_iff (h : t.Coherent) :
    t.require name = .ok id ↔ ∃ e, t.entry? name = some e ∧ e.id = id := by
  have hindex : t.require name = .ok id ↔ t.index[name]? = some id := by
    rw [require]
    cases t.index[name]? <;> simp
  rw [hindex, Indexed.getElem?_eq_some_iff h]
  simp only [h.entry?_eq_some_iff, and_assoc]

/-! ### What an insertion comes to -/

/-- **What an insertion comes to**: under a name that is not taken, and as long as there is room,
the definition is added at the end, with its position as its identifier, and is found under its
name; otherwise nothing is changed. -/
structure Inserts (t : ParameterTable) (name : String) (d : Definition)
    (result : Except ParameterError Ident) (t' : ParameterTable) : Prop where
  ok_iff : (∃ id, result = .ok id) ↔ name ∉ t.names ∧ t.size < Ident.limit
  added : ∀ id, result = .ok id → id.index = t.size ∧
    t'.entries = t.entries ++ [⟨id, name, d⟩] ∧ t'.entry? name = some ⟨id, name, d⟩
  refused : ∀ e, result = .error e → t' = t

theorem Coherent.inserts (h : t.Coherent) (name : String) (d : Definition) :
    t.Inserts name d ((insertion name d).runFrom t).1 ((insertion name d).runFrom t).2 := by
  rw [runFrom_insertion]
  rcases hi : t.insert name d with ⟨e | id, t'⟩
  · refine ⟨⟨nofun, fun ⟨hnew, hroom⟩ => ?_⟩, nofun, fun _ _ => eq_of_insert_error hi⟩
    obtain ⟨id, t', hok⟩ := exists_insert d (h.contains_eq_false_iff.mpr hnew) hroom
    rw [hi] at hok
    cases hok
  · obtain ⟨hnew, hid, -⟩ := insert_eq_ok hi
    have hentries := entries_insert hi
    have hroom := Ident.exists_ofIndex_iff.mp ⟨id, Ident.ofIndex_eq_ok_iff.mpr hid⟩
    refine ⟨⟨fun _ => ⟨h.contains_eq_false_iff.mp hnew, hroom⟩, fun _ => ⟨id, rfl⟩⟩, ?_, nofun⟩
    rintro _ ⟨⟩
    refine ⟨hid, hentries, (h.insert hi).entry?_eq_some_iff.mpr ⟨?_, rfl⟩⟩
    rw [hentries]
    exact List.mem_append_right _ (List.mem_singleton_self _)

/-! ### What is kept -/

/-- **Permanence**: the entry of a name, its definition and its identifier stay what they are. -/
structure KeptBy (t t' : ParameterTable) : Prop where
  entry? : ∀ name e, t.entry? name = some e → t'.entry? name = some e
  get? : ∀ name d, t.get? name = some d → t'.get? name = some d
  require : ∀ name id, t.require name = .ok id →
    t'.require name = .ok id ∧ ∃ e, t'.entry? name = some e ∧ e.id = id

theorem Coherent.keptBy (h : t.Coherent) (h' : t'.Coherent) {added : List ParameterEntry}
    (hentries : t'.entries = t.entries ++ added) : t.KeptBy t' := by
  have hentry := fun {name e} (he : t.entry? name = some e) =>
    h.entry?_of_entries_eq_append h' hentries he
  refine ⟨fun _ _ => hentry, fun name d hd => ?_, fun name id hid => ?_⟩
  · obtain ⟨e, he, rfl⟩ := Option.map_eq_some_iff.mp hd
    rw [ParameterTable.get?, hentry he]
    rfl
  · obtain ⟨e, he, rfl⟩ := h.require_eq_ok_iff.mp hid
    exact ⟨h'.require_eq_ok_iff.mpr ⟨e, hentry he, rfl⟩, e, hentry he, rfl⟩

/-- **Tables after any history** of insertions, whether they succeeded or not: they are faithful,
an insertion adds its entry or changes nothing, and what they answer for a name they answer for
good. -/
theorem insertions_outcome (history : List (String × Definition)) :
    (empty.after history).Faithful ∧
    (∀ name d, (empty.after history).Inserts name d
      ((insertion name d).runFrom (empty.after history)).1
      ((insertion name d).runFrom (empty.after history)).2) ∧
    ∀ further, (empty.after history).KeptBy ((empty.after history).after further) := by
  have hbuilt := Built.empty.after history
  refine ⟨hbuilt.faithful, hbuilt.coherent.inserts, fun further => ?_⟩
  obtain ⟨added, hadded⟩ := (empty.after history).entries_after further
  exact hbuilt.coherent.keptBy (hbuilt.after further).coherent hadded

/-- What is inserted under a name is found there after another insertion under it. -/
theorem insertions_outcome_taken :
    ((empty.after [("inflow", .constant 1)]).after [("inflow", .constant 2)]).get? "inflow" =
      some (.constant 1) := by
  have hfirst := (insertions_outcome []).2.1 "inflow" (.constant 1)
  obtain ⟨id, hid⟩ := hfirst.ok_iff.mpr ⟨List.not_mem_nil, by decide⟩
  have hentry : entry? (empty.after [("inflow", .constant 1)]) "inflow" =
      some ⟨id, "inflow", .constant 1⟩ := (hfirst.added id hid).2.2
  have hkept := (insertions_outcome [("inflow", .constant 1)]).2.2 [("inflow", .constant 2)]
  rw [get?, hkept.entry? _ _ hentry]
  rfl

end WaterNetwork.ParameterTable
