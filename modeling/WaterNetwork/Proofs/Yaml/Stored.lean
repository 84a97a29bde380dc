import WaterNetwork.Proofs.Content.Node
import WaterNetwork.Proofs.Yaml.Written
import WaterNetwork.Proofs.Yaml.Node
import WaterNetwork.Yaml.Decoding

/-!
# Contents of nodes

Where any value may stand, a scalar is read as what it looks like. A text that looks like something
else is quoted, so the node of a content is read as that content: no text becomes a number, a truth
value or nothing, and no number becomes a text. A reader refuses collections that stand too deep
inside each other, so a content has to fit into the room that is left.

* `content_contentNode` — the content of the node of a content is that content.
* `Document.storable_toContent` — the content of a document is written in blocks.
-/

namespace WaterNetwork

namespace Yaml

/-! ### Texts that look like something else -/

theorem readWhole_ne_string (cs : List Char) (text : String) :
    readWhole cs ≠ .content (.string text) := by
  unfold readWhole
  split
  · split
    · simp
    · split <;> simp
  · split
    · split
      · split
        · simp
        · split <;> simp
      · simp
    · simp

/-- A plain scalar that is read as a text is read as its own one. -/
theorem eq_of_readPlainContent?_eq_string {text text' : String}
    (h : readPlainContent? text = some (.string text')) : text' = text := by
  unfold readPlainContent? at h
  split at h
  · cases h
  · split at h
    · cases h
    · split at h
      · rename_i hwhole
        cases h
        exact (readWhole_ne_string _ _ hwhole).elim
      · cases h
      · split at h <;> cases h
        rfl

theorem readPlainContent?_of_readsAsText {text : String} (h : readsAsText text = true) :
    readPlainContent? text = some (.string text) := by
  unfold readsAsText at h
  split at h
  · rename_i hread
    rw [hread, eq_of_readPlainContent?_eq_string hread]
  · cases h

/-- **A text is read as itself in the style of its form**, whatever it looks like. -/
theorem readUntaggedContent?_string (text : String) :
    readUntaggedContent? (Form.ofText text).style text = some (.string text) := by
  unfold readUntaggedContent?
  split
  · rename_i hstyle
    have hplain : Form.ofText text = .plain := by
      cases hform : Form.ofText text with
      | plain => rfl
      | _ => rw [hform] at hstyle; cases hstyle
    exact readPlainContent?_of_readsAsText (of_form_plain hplain).1
  · rfl

example : ∀ text ∈ ["12", "0x1F", "true", "~", ".inf", "", " ", "- a", "---", "a: b"],
    Form.ofText text = .singleQuoted := by decide +kernel

/-! ### Contents -/

/-- What is read from a list are its items, if each of them is read from what is written for it. -/
theorem mapM_map_eq_pure {m : Type → Type} [Monad m] [LawfulMonad m] {α β : Type} {read : β → m α}
    {write : α → β} {as : List α} (h : ∀ a ∈ as, read (write a) = pure a) :
    (as.map write).mapM read = pure as := by
  induction as with
  | nil => simp
  | cons a as ih =>
    rw [List.forall_mem_cons] at h
    simp [h.1, ih h.2]

namespace Tree

variable {t : Tree} {room : ℕ} {c : Content}

-- The node is found before the room is looked at, and so the equations of `content` are those of
-- its recursion on the room.
theorem content_scalar (t : Tree) (room : ℕ) (s : Scalar) :
    t.content room (.scalar s) = present s.content? := by
  delta content
  cases room <;> rfl

theorem present_some {α : Type} (a : α) : present (some a) = pure a := rfl

theorem content_of_isWritten (t : Tree) (room : ℕ) (h : c.IsWritten) :
    t.content room (tokenNode (scalarToken c)) = pure c := by
  obtain ⟨style, text, htoken⟩ := exists_scalarToken c
  have hread : readUntaggedContent? style text = some c := by
    cases c with
    | null => cases htoken; rfl
    | boolean value => cases value <;> cases htoken <;> rfl
    | unsigned value => cases htoken; exact readPlainContent?_unsigned value
    | float value => cases htoken; exact readPlainContent?_float value
    | string text => cases htoken; exact readUntaggedContent?_string text
    | signed | sequence | mapping => exact h.elim
  rw [htoken, tokenNode, content_scalar, Scalar.ofText]
  exact congrArg present hread

theorem content_string (t : Tree) (room : ℕ) (text : String) :
    t.content room (tokenNode (scalarToken (.string text))) = pure (.string text) :=
  content_of_isWritten t room (c := .string text) trivial

theorem content_sequence (t : Tree) (room : ℕ) (items : List Node) :
    t.content (room + 1) (.sequence false items) =
      items.mapM (t.content room) >>= fun cs => pure (.sequence cs) := by
  delta content
  rfl

theorem content_mapping (t : Tree) (room : ℕ) (entries : List (Node × Node)) :
    t.content (room + 1) (.mapping false entries) =
      (entries.mapM fun e => t.content room e.1 >>= fun key => t.content room e.2 >>= fun value =>
        pure (key, value)) >>= fun es => pure (.mapping es) := by
  delta content
  rfl

/-- **The content of the node of a content is that content.** -/
theorem content_contentNode (t : Tree) (h : Storable c) (hfits : c.Fits (room + 1)) :
    t.content room (contentNode c) = pure c := by
  induction h generalizing room with
  | scalar h => rw [contentNode_of_isWritten h, content_of_isWritten t room h]
  | emptySequence =>
    cases hfits with
    | scalar hc => exact hc.elim
    | sequence hroom =>
      obtain ⟨room, rfl⟩ := Nat.exists_eq_add_one.mpr (Nat.lt_of_succ_lt_succ hroom)
      rw [contentNode, itemNodes, content_sequence, List.mapM_nil, pure_bind]
  | @sequence items hne hitems hflat ih =>
    cases hfits with
    | scalar hc => exact hc.elim
    | sequence hroom hfits =>
      obtain ⟨room, rfl⟩ := Nat.exists_eq_add_one.mpr (Nat.lt_of_succ_lt_succ hroom)
      rw [contentNode, itemNodes_eq_map, content_sequence,
        mapM_map_eq_pure fun c hc => ih c hc (hfits c hc), pure_bind]
  | @mapping entries hne hkeys hvalues ih =>
    cases hfits with
    | scalar hc => exact hc.elim
    | mapping hroom _ hfits =>
      obtain ⟨room, rfl⟩ := Nat.exists_eq_add_one.mpr (Nat.lt_of_succ_lt_succ hroom)
      rw [contentNode, entryNodes_eq_map, content_mapping, mapM_map_eq_pure ?_, pure_bind]
      intro e he
      obtain ⟨key, hkey, -⟩ := hkeys e he
      obtain ⟨key', value⟩ := e
      subst hkey
      rw [entryNode, content_string, pure_bind, ih _ he (hfits _ he), pure_bind]

end Tree

/-! ### Documents -/

instance : DecidablePred IsKey := fun key =>
  decidable_of_iff (Form.ofKey key = .plain ∧ Cursor.byteLength key.toList ≤ 1024)
    ⟨fun ⟨hform, hshort⟩ => ⟨hform, hshort⟩, fun h => ⟨h.form, h.short⟩⟩

/-- An entry under a key that is written as it is, to a content that is written in blocks. -/
def StorableEntry (e : Content × Content) : Prop :=
  (∃ key, e.1 = .string key ∧ IsKey key) ∧ Storable e.2

theorem storableEntry_entry {key : String} {c : Content} (hkey : IsKey key) (h : Storable c) :
    StorableEntry (Content.entry key c) := ⟨⟨key, rfl, hkey⟩, h⟩

theorem storable_mapping {e : Content × Content} {es : List (Content × Content)}
    (h : ∀ e' ∈ e :: es, StorableEntry e') : Storable (.mapping (e :: es)) :=
  .mapping (List.cons_ne_nil e es) (fun e he => (h e he).1) fun e he => (h e he).2

/-- A list of values is written in blocks if its values are scalars or mappings. -/
theorem storable_sequence_map {α : Type} {as : List α} {write : α → Content}
    (h : ∀ a ∈ as, Storable (write a)) (hitem : ∀ a ∈ as, IsItem (write a)) :
    Storable (.sequence (as.map write)) := by
  cases as with
  | nil => exact .emptySequence
  | cons a as =>
    exact .sequence (List.cons_ne_nil _ _) (List.forall_mem_map.mpr h)
      (List.forall_mem_map.mpr hitem)

@[simp] theorem storable_unsigned (n : UInt64) : Storable (.unsigned n) := .scalar trivial

@[simp] theorem storable_float (x : Float) : Storable (.float x) := .scalar trivial

@[simp] theorem storable_string (text : String) : Storable (.string text) := .scalar trivial

@[simp] theorem storable_floats (xs : List Float) : Storable (.sequence (xs.map .float)) :=
  storable_sequence_map (fun x _ => storable_float x) fun _ _ => .inl trivial

@[simp] theorem storable_strings (texts : List String) :
    Storable (.sequence (texts.map .string)) :=
  storable_sequence_map (fun text _ => storable_string text) fun _ _ => .inl trivial

end Yaml

open Yaml (IsKey IsItem Storable StorableEntry)

theorem isKey_tagKey : IsKey tagKey := by decide

theorem DefinitionKind.isKey_of_mem_fields (k : DefinitionKind) :
    ∀ f ∈ k.fields, IsKey f.name := by
  cases k <;> decide +kernel

/-- A field that has been written stands under a key that is written as it is. -/
theorem Field.storableEntry_of_mem_written {ν : Type} {fields : List (Field ν)}
    {cs : List (Option Content)} (hkeys : ∀ f ∈ fields, IsKey f.name)
    (hcs : ∀ o ∈ cs, ∀ c ∈ o, Storable c) {e : Content × Content} (he : e ∈ written fields cs) :
    StorableEntry e := by
  obtain ⟨f, hf, hkey⟩ := exists_name_of_mem_written he
  exact ⟨⟨f.name, hkey, hkeys f hf⟩, hcs _ (mem_of_mem_written he) _ rfl⟩

namespace Definition

variable {d : Definition}

theorem storable_fieldContents (d : Definition) :
    ∀ o ∈ d.fieldContents, ∀ c ∈ o, Storable c := by
  cases d <;> simp [fieldContents]

theorem storableEntry_of_mem_entries {e : Content × Content} (he : e ∈ d.entries) :
    StorableEntry e := by
  rw [entries, List.mem_cons] at he
  rcases he with rfl | he
  · exact Yaml.storableEntry_entry isKey_tagKey (Yaml.storable_string _)
  · rw [fieldEntries_eq_written] at he
    exact Field.storableEntry_of_mem_written d.kind.isKey_of_mem_fields
      d.storable_fieldContents he

theorem storable_toContent (d : Definition) : Storable d.toContent :=
  Yaml.storable_mapping fun _ => storableEntry_of_mem_entries

end Definition

theorem ConstraintField.storable_toContent (f : ConstraintField) : Storable f.toContent := by
  cases f with
  | literal value => exact Yaml.storable_float value
  | reference name => exact Yaml.storable_string name
  | inline d => exact d.storable_toContent

namespace NodeDeclaration

theorem isKey_of_mem_fields (k : DeclarationKind) : ∀ f ∈ fields k, IsKey f.name := by
  cases k with
  | flow kind =>
    exact (by decide +kernel : ∀ f ∈ NodeValue.nameField :: NodeValue.flowFields, IsKey f.name)
  | delay => decide +kernel

theorem storable_fieldContents (d : NodeDeclaration) :
    ∀ o ∈ d.fieldContents, ∀ c ∈ o, Storable c := by
  cases d <;> simp [fieldContents, FlowConstraints.fieldContents,
    ConstraintField.storable_toContent]

theorem storableEntry_of_mem_fieldEntries {d : NodeDeclaration} {e : Content × Content}
    (he : e ∈ d.fieldEntries) : StorableEntry e := by
  rw [fieldEntries_eq_written] at he
  exact Field.storableEntry_of_mem_written (isKey_of_mem_fields d.kind) d.storable_fieldContents he

theorem storable_toContent (d : NodeDeclaration) : Storable d.toContent :=
  Yaml.storable_mapping (List.forall_mem_cons.mpr
    ⟨Yaml.storableEntry_entry isKey_tagKey (Yaml.storable_string _),
      fun _ => storableEntry_of_mem_fieldEntries⟩)

end NodeDeclaration

theorem NamedParameter.storable_toContent (p : NamedParameter) : Storable p.toContent := by
  refine Yaml.storable_mapping (List.forall_mem_cons.mpr
    ⟨Yaml.storableEntry_entry (by decide) (Yaml.storable_string _), fun e he => ?_⟩)
  exact Definition.storableEntry_of_mem_entries he

/-- **The content of a document is written in blocks.** -/
theorem Document.storable_toContent (d : Document) : Storable d.toContent := by
  have hparameters : Storable (.sequence (d.parameters.map NamedParameter.toContent)) :=
    Yaml.storable_sequence_map (fun p _ => p.storable_toContent) fun _ _ => .inr ⟨_, rfl⟩
  have hnodes : Storable (.sequence (d.nodes.map NodeDeclaration.toContent)) :=
    Yaml.storable_sequence_map (fun n _ => n.storable_toContent) fun _ _ => .inr ⟨_, rfl⟩
  refine Yaml.storable_mapping ?_
  simp only [List.forall_mem_cons, List.not_mem_nil, false_imp_iff, implies_true, and_true]
  exact ⟨Yaml.storableEntry_entry (by decide) (Yaml.storable_unsigned _),
    Yaml.storableEntry_entry (by decide) (Yaml.storable_string _),
    Yaml.storableEntry_entry (by decide) hparameters,
    Yaml.storableEntry_entry (by decide) hnodes⟩

end WaterNetwork
