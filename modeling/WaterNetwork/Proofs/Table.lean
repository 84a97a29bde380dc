import WaterNetwork.Parameter.Table
import WaterNetwork.Proofs.Indexed

/-!
# Tables built by insertions

`Built` says which tables there are: those that successful insertions make from the empty one.
In each of them the index and the entries say the same (`Built.coherent`), so the questions
asked of a table are questions about the list of its names, and an insertion adds a name to
this list if it is not there yet.
-/

namespace WaterNetwork.ParameterTable

variable {t t' : ParameterTable} {name : String} {definition : Definition} {id : Ident}

/-- The tables that insertions make. An insertion that fails makes no new one. -/
inductive Built : ParameterTable → Prop where
  | empty : Built .empty
  | insert {t t' : ParameterTable} {name : String} {definition : Definition} {id : Ident} :
    Built t → t.insert name definition = (.ok id, t') → Built t'

/-- Names with their definitions, in the order of insertion. -/
def bindings (t : ParameterTable) : List (String × Definition) :=
  t.entries.map fun e => (e.name, e.definition)

theorem names_eq_map_bindings (t : ParameterTable) : t.names = t.bindings.map (·.1) := by
  simp [names, bindings]

theorem length_bindings (t : ParameterTable) : t.bindings.length = t.size := by
  simp [bindings, size]

/-- **Coherence**: the index and the entries say the same. -/
def Coherent (t : ParameterTable) : Prop :=
  Indexed ParameterEntry.name ParameterEntry.id t.entries t.index

theorem coherent_empty : Coherent .empty := Indexed.nil

/-! ### Looking up -/

namespace Coherent

theorem nodup_names (h : t.Coherent) : t.names.Nodup := Indexed.nodup_keys h

theorem contains_iff (h : t.Coherent) : t.contains name = true ↔ name ∈ t.names := by
  rw [contains, Indexed.contains_iff h, names, List.mem_map]

theorem contains_eq_false_iff (h : t.Coherent) : t.contains name = false ↔ name ∉ t.names := by
  rw [← h.contains_iff, Bool.not_eq_true]

theorem entry?_eq_some_iff (h : t.Coherent) {e : ParameterEntry} :
    t.entry? name = some e ↔ e ∈ t.entries ∧ e.name = name :=
  Indexed.bind_getElem?_eq_some_iff h

/-- An entry is found for good, whatever is added after it. -/
theorem entry?_of_entries_eq_append (h : t.Coherent) (h' : t'.Coherent)
    {added : List ParameterEntry} (hentries : t'.entries = t.entries ++ added)
    {e : ParameterEntry} (he : t.entry? name = some e) : t'.entry? name = some e := by
  obtain ⟨hmem, hname⟩ := h.entry?_eq_some_iff.mp he
  refine h'.entry?_eq_some_iff.mpr ⟨?_, hname⟩
  rw [hentries]
  exact List.mem_append_left _ hmem

theorem get?_eq_some_iff (h : t.Coherent) :
    t.get? name = some definition ↔ (name, definition) ∈ t.bindings := by
  simp only [get?, Option.map_eq_some_iff, h.entry?_eq_some_iff, bindings, List.mem_map,
    Prod.mk.injEq, and_assoc]

theorem exists_require_iff (h : t.Coherent) :
    (∃ id, t.require name = .ok id) ↔ name ∈ t.names := by
  rw [← h.contains_iff, contains, Std.HashMap.contains_eq_isSome_getElem?, require]
  cases t.index[name]? <;> simp

theorem require_of_not_mem (h : t.Coherent) (hn : name ∉ t.names) :
    t.require name = .error (.unknownParameter name) := by
  rw [names, List.mem_map] at hn
  have hnone : t.index[name]? = none :=
    (Indexed.getElem?_eq_none_iff h).mpr fun e he hen => hn ⟨e, he, hen⟩
  simp only [require, hnone]

theorem requireAll_eq_ok_iff (h : t.Coherent) {names : List String} :
    t.requireAll names = .ok () ↔ ∀ name ∈ names, name ∈ t.names := by
  induction names with
  | nil => simp [requireAll]
  | cons name rest ih =>
    rw [List.forall_mem_cons, ← ih, ← h.exists_require_iff, requireAll]
    cases t.require name <;> simp [bind, Except.bind]

/-- Of several names that are not there, the first is reported. -/
theorem requireAll_eq_error_iff (h : t.Coherent) {names : List String} {e : ParameterError} :
    t.requireAll names = .error e ↔
      ∃ missing, names.find? (· ∉ t.names) = some missing ∧ e = .unknownParameter missing := by
  induction names with
  | nil => simp [requireAll]
  | cons name rest ih =>
    by_cases hn : name ∈ t.names
    · obtain ⟨id, hid⟩ := h.exists_require_iff.mpr hn
      rw [requireAll, hid, List.find?_cons_of_neg (by simpa using hn), ← ih]
      rfl
    · rw [requireAll, h.require_of_not_mem hn, List.find?_cons_of_pos (by simpa using hn)]
      simp [bind, Except.bind, eq_comm]

end Coherent

/-! ### Inserting -/

theorem insert_eq_ok (h : t.insert name definition = (.ok id, t')) :
    t.contains name = false ∧ id.index = t.size ∧
      t' = { entries := t.entries ++ [⟨id, name, definition⟩],
             index := t.index.insert name id } := by
  unfold insert at h
  split at h
  · cases h
  · rename_i hc
    split at h
    · cases h
    · rename_i id' hid
      cases h
      exact ⟨Bool.eq_false_iff.mpr hc, Ident.ofIndex_eq_ok_iff.mp hid, rfl⟩

/-- An insertion that fails leaves the table as it was. -/
theorem eq_of_insert_error {e : ParameterError} (h : t.insert name definition = (.error e, t')) :
    t' = t := by
  unfold insert at h
  split at h
  · cases h
    rfl
  · split at h
    · cases h
      rfl
    · cases h

/-- An insertion under a new name succeeds as long as there is room. -/
theorem exists_insert (definition : Definition) (hn : t.contains name = false)
    (hs : t.size < Ident.limit) :
    ∃ id t', t.insert name definition = (.ok id, t') := by
  obtain ⟨id, hid⟩ := Ident.exists_ofIndex_iff.mpr hs
  simp only [size] at hid
  simp only [insert, hn, Bool.false_eq_true, if_false, hid]
  exact ⟨_, _, rfl⟩

/-- An insertion fails under a name that is taken, and for want of an identifier. -/
theorem Coherent.insert_eq_error_iff (h : t.Coherent) {e : ParameterError} :
    t.insert name definition = (.error e, t) ↔
      name ∈ t.names ∧ e = .nameCollision name ∨
        name ∉ t.names ∧ ∃ source, Ident.ofIndex t.names.length = .error source ∧
          e = .invalid name source := by
  have hlength : t.entries.length = t.names.length := List.length_map _ |>.symm
  rw [ParameterTable.insert, hlength]
  by_cases hmem : name ∈ t.names
  · rw [if_pos (h.contains_iff.mpr hmem)]
    simp [hmem, eq_comm]
  · rw [h.contains_eq_false_iff.mpr hmem, if_neg Bool.false_ne_true]
    cases Ident.ofIndex t.names.length with
    | error source => simp [hmem, eq_comm]
    | ok id => simp [hmem]

theorem entries_insert (h : t.insert name definition = (.ok id, t')) :
    t'.entries = t.entries ++ [⟨id, name, definition⟩] := by
  rw [(insert_eq_ok h).2.2]

theorem bindings_insert (h : t.insert name definition = (.ok id, t')) :
    t'.bindings = t.bindings ++ [(name, definition)] := by
  simp [bindings, entries_insert h]

theorem names_insert (h : t.insert name definition = (.ok id, t')) :
    t'.names = t.names ++ [name] := by
  simp [names, entries_insert h]

theorem Coherent.insert (h : t.Coherent) (hi : t.insert name definition = (.ok id, t')) :
    t'.Coherent := by
  obtain ⟨hn, hid, rfl⟩ := insert_eq_ok hi
  rw [h.contains_eq_false_iff, names, List.mem_map] at hn
  exact Indexed.concat (x := ⟨id, name, definition⟩) h (fun e he hen => hn ⟨e, he, hen⟩) hid

theorem Built.coherent (h : t.Built) : t.Coherent := by
  induction h with
  | empty => exact coherent_empty
  | insert _ hi ih => exact ih.insert hi

/-- The positions of a table are its identifiers. -/
theorem Built.indices (ht : t.Built) :
    t.entries.map (·.id.index) = List.range t.size := by
  refine List.ext_getElem (by simp [size]) fun i hi _ => ?_
  rw [List.getElem_map, List.getElem_range]
  exact ht.coherent.ident_index (List.getElem?_eq_getElem (by simpa using hi))

end WaterNetwork.ParameterTable
