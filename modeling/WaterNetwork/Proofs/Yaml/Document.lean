import WaterNetwork.Proofs.Storage
import WaterNetwork.Proofs.Yaml.Division
import WaterNetwork.Proofs.Yaml.Stored

/-!
# Documents that have been stored as YAML

A document that is written as a YAML text and read again is the same document, whatever its numbers
and however its names look.

* `Tree.readDocument_toContent` — a document is read from its tree.
* `decode_encode_yaml` — and from its text.
* `Document.save_load_yaml` — a valid document is saved and loaded again.
-/

namespace WaterNetwork

open WaterNetwork.Content (entry IsBeside)

namespace Yaml

namespace Tree

variable {t : Tree} {room : ℕ} {es : List (Content × Content)}

/-! ### Values asked for as what they are -/

/-- What has not been read yet may be read. -/
theorem guard_isNone (α : Type) :
    (guard ((none : Option α).isNone = true) : NodeM Unit) = pure () := rfl

theorem follow_scalar (t : Tree) (s : Scalar) : t.follow (.scalar s) = pure (.scalar s) := rfl

theorem follow_sequence (t : Tree) (b : Bool) (items : List Node) :
    t.follow (.sequence b items) = pure (.sequence b items) := rfl

theorem follow_mapping (t : Tree) (b : Bool) (entries : List (Node × Node)) :
    t.follow (.mapping b entries) = pure (.mapping b entries) := rfl

theorem readText_string (t : Tree) (text : String) :
    t.readText (tokenNode (scalarToken (.string text))) = pure text := rfl

theorem readText_contentNode (t : Tree) (text : String) :
    t.readText (contentNode (.string text)) = pure text := by
  rw [contentNode_of_isWritten (c := .string text) trivial, readText_string]

theorem readCount_unsigned (t : Tree) {limit : ℕ} {n : UInt64} (h : n.toNat < limit) :
    t.readCount limit (contentNode (.unsigned n)) = pure n.toNat := by
  have hcount : (Scalar.ofText none .plain (toString n.toNat)).count? = some n.toNat := by
    rw [Scalar.ofText, if_pos (.inl rfl), Nat.toString_eq_ofList_toDigits, String.toList_ofList,
      readUnsigned?_toDigits, Option.filter_some, if_pos (by simpa using n.toNat_lt)]
  have htoken : contentNode (.unsigned n) =
      .scalar (.ofText none .plain (toString n.toNat)) := contentNode_of_isWritten trivial
  rw [readCount, htoken, follow_scalar, pure_bind]
  dsimp only
  rw [hcount, present_some, pure_bind, guard, if_pos h, pure_bind]

/-- **A list is read** if its items are. -/
theorem readList_map {α : Type} {read : ℕ → Node → NodeM α} {write : α → Content} {as : List α}
    (h : ∀ a ∈ as, read room (contentNode (write a)) = pure a) :
    t.readList read (room + 1) (contentNode (.sequence (as.map write))) = pure as := by
  rw [contentNode, itemNodes_eq_map, List.map_map, readList, follow_sequence, pure_bind]
  exact mapM_map_eq_pure h

theorem readEntries_mapping (t : Tree) (room : ℕ) (entries : List (Node × Node)) :
    t.readEntries (room + 1) (.mapping false entries) = pure (entries, room) := rfl

/-! ### Collecting entries -/

/-- Entries that are read one by one; none of them has a given name. -/
def Collected (room : ℕ) (name : String) (es : List (Content × Content)) : Prop :=
  ∀ e ∈ es, StorableEntry e ∧ IsBeside (room + 1) name e

/-- Behind the tag, entries are only collected. -/
theorem collect_entryNodes {κ : Type} (t : Tree) (read : Content → Except Mismatch κ) (tag : κ)
    (h : Collected room tagKey es) :
    t.collect read room (some tag) (entryNodes es) = pure (tag, es) := by
  induction es with
  | nil => rfl
  | cons e es ih =>
    obtain ⟨⟨⟨-, hvalue⟩, key, hkey, hne, hfits⟩, hes⟩ := List.forall_mem_cons.mp h
    obtain ⟨key', value⟩ := e
    subst hkey
    rw [entryNodes, entryNode, collect, content_string, pure_bind]
    dsimp only
    rw [if_neg hne, content_contentNode t hvalue hfits, pure_bind, ih hes, pure_bind]

/-- Behind the name, entries are only collected. -/
theorem collectNamed_entryNodes (t : Tree) (name : String) (h : Collected room "name" es) :
    t.collectNamed room (some name) (entryNodes es) = pure (name, es) := by
  induction es with
  | nil => rfl
  | cons e es ih =>
    obtain ⟨⟨⟨-, hvalue⟩, key, hkey, hne, hfits⟩, hes⟩ := List.forall_mem_cons.mp h
    obtain ⟨key', value⟩ := e
    subst hkey
    rw [entryNodes, entryNode, collectNamed, readText_string, pure_bind, if_neg hne,
      content_contentNode t hvalue hfits, pure_bind, ih hes, pure_bind]

/-- **A tagged value** shows its tag and its fields. -/
theorem readTagged_mapping {κ : Type} {read : Content → Except Mismatch κ} {tag : κ} {name : String}
    (t : Tree) (hname : read (.string name) = .ok tag) (h : Collected room tagKey es) :
    t.readTagged read (room + 1) (contentNode (.mapping (entry tagKey (.string name) :: es))) =
      pure (tag, .fields es) := by
  have htag : t.collect read room none (entryNodes (entry tagKey (.string name) :: es)) =
      pure (tag, es) := by
    rw [entryNodes, entry, entryNode, collect, content_string, pure_bind]
    dsimp only
    rw [if_pos rfl, guard_isNone, pure_bind, readText_contentNode, pure_bind, hname, fitting,
      pure_bind, collect_entryNodes t read tag h]
  rw [contentNode, readTagged, follow_mapping, pure_bind]
  dsimp only
  rw [htag, pure_bind]

/-! ### Parts of documents -/

/-- **A declaration is read** from its tree. -/
theorem readNode_toContent (t : Tree) (hroom : 2 < room) (d : NodeDeclaration) :
    t.readNode room (contentNode d.toContent) = pure d := by
  obtain ⟨room, rfl⟩ := Nat.exists_eq_add_one.mpr (Nat.zero_lt_of_lt hroom)
  have hcollected : Collected room tagKey d.fieldEntries := fun e he =>
    ⟨NodeDeclaration.storableEntry_of_mem_fieldEntries he,
      NodeDeclaration.isBeside_of_mem_fieldEntries hroom he⟩
  rw [readNode, NodeDeclaration.toContent,
    readTagged_mapping t (NodeDeclaration.readKind_text d.kind) hcollected, pure_bind]
  show fitting (NodeDeclaration.ofBody d.kind (.fields d.fieldEntries)) = _
  rw [d.ofBody_fieldEntries, fitting]

/-- **A named parameter is read** from its tree. -/
theorem readNamed_toContent (t : Tree) (hroom : 1 < room) (p : NamedParameter) :
    t.readNamed room (contentNode p.toContent) = pure p := by
  obtain ⟨room, rfl⟩ := Nat.exists_eq_add_one.mpr (Nat.zero_lt_of_lt hroom)
  have hcollected : Collected room "name" p.definition.entries := fun e he =>
    ⟨Definition.storableEntry_of_mem_entries he, Definition.isBeside_of_mem_entries hroom he⟩
  have hdefinition : Definition.ofEntries p.definition.entries = .ok p.definition :=
    p.definition.ofContent_toContent
  have hname : t.collectNamed room none (entryNodes (entry "name" (.string p.name) ::
      p.definition.entries)) = pure (p.name, p.definition.entries) := by
    rw [entryNodes, entry, entryNode, collectNamed, readText_string, pure_bind, if_pos rfl,
      guard_isNone, pure_bind, readText_contentNode, pure_bind,
      collectNamed_entryNodes t p.name hcollected]
  rw [readNamed, NamedParameter.toContent, contentNode, readEntries_mapping, pure_bind]
  dsimp only
  rw [hname, pure_bind]
  dsimp only
  rw [hdefinition, fitting, pure_bind]

/-! ### Documents -/

/-- **A document is read** from its tree. -/
theorem readDocument_toContent (t : Tree) (hroom : 4 < room) (d : Document) :
    t.readDocument room (contentNode d.toContent) = pure d := by
  obtain ⟨room, rfl⟩ : ∃ r, room = r + 2 := ⟨room - 2, by omega⟩
  have hversion : d.version.toUInt64.toNat < 2 ^ 32 := by simpa using d.version.toNat_lt
  have hparameters : t.readList t.readNamed (room + 1)
      (contentNode (.sequence (d.parameters.map NamedParameter.toContent))) = pure d.parameters :=
    readList_map fun p _ => readNamed_toContent t (by omega) p
  have hnodes : t.readList t.readNode (room + 1)
      (contentNode (.sequence (d.nodes.map NodeDeclaration.toContent))) = pure d.nodes :=
    readList_map fun n _ => readNode_toContent t (by omega) n
  have hentries : t.readDocumentEntries (room + 1) {} (entryNodes [
      entry "version" (.unsigned d.version.toUInt64), entry "name" (.string d.name),
      entry "parameters" (.sequence (d.parameters.map NamedParameter.toContent)),
      entry "nodes" (.sequence (d.nodes.map NodeDeclaration.toContent))]) =
      pure ⟨some d.version, some d.name, some d.parameters, some d.nodes⟩ := by
    simp only [entryNodes, entry, entryNode]
    rw [readDocumentEntries, readText_string, pure_bind]
    dsimp only
    rw [guard_isNone, pure_bind, readCount_unsigned t hversion, pure_bind]
    rw [readDocumentEntries, readText_string, pure_bind]
    dsimp only
    rw [guard_isNone, pure_bind, readText_contentNode, pure_bind]
    rw [readDocumentEntries, readText_string, pure_bind]
    dsimp only
    rw [guard_isNone, pure_bind, hparameters, pure_bind]
    rw [readDocumentEntries, readText_string, pure_bind]
    dsimp only
    rw [guard_isNone, pure_bind, hnodes, pure_bind]
    simp [readDocumentEntries]
  rw [readDocument, Document.toContent, contentNode, readEntries_mapping, pure_bind]
  dsimp only
  rw [hentries, pure_bind]
  rfl

end Tree

/-! ### Texts -/

theorem document?_render (d : Document) : document? (render d.toContent) = some d := by
  obtain ⟨limit, htree⟩ := ofTokens?_contentTokens d.storable_toContent
  have htokens : Token.ofText? (render d.toContent) = some (contentTokens d.toContent) :=
    ofText?_render d.storable_toContent
  rw [document?, readText?, htokens]
  show (Tree.ofTokens? (contentTokens d.toContent) >>= _) = _
  rw [Document.toContent, htree]
  show Option.map _ (Tree.readDocument _ Tree.depthLimit (contentNode d.toContent) limit) = _
  rw [Tree.readDocument_toContent _ (by decide)]
  rfl

end Yaml

/-- **A document is read from its text.** -/
theorem decode_encode_yaml (d : Document) : Format.yaml.decode (Format.yaml.encode d) = .ok d := by
  rw [Format.encode, Format.decode, Yaml.document?_render]

namespace Document

variable {files : FileSystem} {path : Path} {d : Document}

/-- **A valid document is saved and loaded again**, as it was. Its numbers need not be finite; each
of them is the same double, and there is a single undefined one. Its names may look like anything:
none is taken for a number or is missing. -/
theorem save_load_yaml (hfiles : files.Rooted) (hpath : files.Writable path)
    (hvalid : d.validate = .ok ()) :
    ∃ files', d.save .yaml files path = .ok files' ∧ load .yaml files' path = .ok d := by
  obtain ⟨files', hsave, hread⟩ := exists_save .yaml hfiles hpath hvalid
  refine ⟨files', hsave, ?_⟩
  rw [load_of_readText hread, decode_encode_yaml]
  show d.validate.mapError _ >>= _ = _
  rw [hvalid]
  rfl

/-- A document with names that look like numbers, truth values or nothing, and with numbers that
are not finite. -/
def masquerade : Document where
  version := 1
  name := "null"
  parameters :=
    [⟨"12", .constant (1.0 / 0.0)⟩,
      ⟨"0x1F", .bounded .min "12" (some (0.0 / 0.0))⟩,
      ⟨"true", .delay ".inf" none 1 (-0.0)⟩,
      ⟨"~", .aggregated ["12", "0x1F", "true"] .max⟩,
      ⟨".inf", .negative "~"⟩]
  nodes :=
    [.flow .input "1e3"
        { cost := some (.reference "12"), maxFlow := some (.literal (-1.0 / 0.0))
          minFlow := some (.reference "~") },
      .flow .link "no" { cost := some (.inline (.division "true" ".inf")) },
      .delay "---" 2 (0.0 / 0.0)]

/-- The document is saved in a scratch directory and loaded again. -/
theorem save_load_yaml_masquerade : FileSystem.scratch.Rooted ∧
    FileSystem.scratch.Writable "model.yaml" ∧ masquerade.validate = .ok () ∧
      ∃ files', masquerade.save .yaml .scratch "model.yaml" = .ok files' ∧
        load .yaml files' "model.yaml" = .ok masquerade := by
  have hpath : FileSystem.scratch.Writable "model.yaml" :=
    FileSystem.writable_of_entry?_eq_none ["work", "run", "model", "model.yaml"] rfl rfl
  have hvalid : masquerade.validate = .ok () := rfl
  exact ⟨FileSystem.rooted_scratch, hpath, hvalid,
    save_load_yaml FileSystem.rooted_scratch hpath hvalid⟩

end Document

end WaterNetwork
