import WaterNetwork.Document.Storage
import WaterNetwork.Proofs.Content.Node
import WaterNetwork.Proofs.Json.Collected
import WaterNetwork.Proofs.Json.Tree

/-!
# Documents that have been stored as JSON

A document that is written as a JSON text and read again is the same, but for its numbers. Where a
number may be left out and has no text, it is gone; where it has to be there, the text is not read
at all; and a number that is not kept has become another one.

* `recovers_content` — the content of the tree of a content is what is left of it.
* `recovers_decode` — what is read from the text of a document.
* `Document.kept_eq_self_iff` — when nothing is lost.
-/

namespace WaterNetwork

open WaterNetwork.Content (entry keptEntry IsBeside itemNumbers entryNumbers)

/-! ### Numbers of documents -/

namespace Document

variable {d : Document} {x : Float}

/-- The numbers without which a document is not read. -/
def requiredNumbers (d : Document) : List Float :=
  d.parameters.flatMap (·.definition.requiredNumbers) ++
    d.nodes.flatMap NodeDeclaration.requiredNumbers

/-- The numbers that a document can do without. -/
def optionalNumbers (d : Document) : List Float :=
  d.parameters.flatMap (·.definition.optionalNumbers) ++
    d.nodes.flatMap NodeDeclaration.optionalNumbers

/-- A number of a document is required or optional. -/
theorem mem_numbers_iff : x ∈ d.numbers ↔ x ∈ d.requiredNumbers ∨ x ∈ d.optionalNumbers := by
  simp only [numbers, requiredNumbers, optionalNumbers, List.mem_append, List.mem_flatMap,
    Definition.mem_numbers_iff, NodeDeclaration.mem_numbers_iff, and_or_left, exists_or]
  exact or_or_or_comm

end Document

/-- **What is left of a named parameter** whose numbers come back as `back` says. -/
def NamedParameter.kept (back : Float → Option Float) (p : NamedParameter) : NamedParameter :=
  { p with definition := p.definition.kept back }

/-- **What is left of a document** whose numbers come back as `back` says. -/
def Document.kept (back : Float → Option Float) (d : Document) : Document :=
  { d with
    parameters := d.parameters.map (NamedParameter.kept back)
    nodes := d.nodes.map (NodeDeclaration.kept back) }

theorem NamedParameter.kept_eq_self_iff {back : Float → Option Float} {p : NamedParameter}
    (h : AllBack back p.definition.requiredNumbers) :
    p.kept back = p ↔ ∀ x ∈ p.definition.numbers, back x = some x := by
  rw [← Definition.kept_eq_self_iff h]
  obtain ⟨name, definition⟩ := p
  simp [kept]

/-- Nothing is lost just if all numbers come back as they were. -/
theorem Document.kept_eq_self_iff {back : Float → Option Float} {d : Document}
    (h : AllBack back d.requiredNumbers) :
    d.kept back = d ↔ ∀ x ∈ d.numbers, back x = some x := by
  rw [requiredNumbers, allBack_append_iff, allBack_flatMap_iff, allBack_flatMap_iff] at h
  have hparameters : d.parameters.map (NamedParameter.kept back) = d.parameters ↔
      ∀ x ∈ d.parameters.flatMap (·.definition.numbers), back x = some x := by
    rw [map_eq_self_iff, List.forall_mem_flatMap]
    exact forall₂_congr fun p hp => NamedParameter.kept_eq_self_iff (h.1 p hp)
  have hnodes : d.nodes.map (NodeDeclaration.kept back) = d.nodes ↔
      ∀ x ∈ d.nodes.flatMap NodeDeclaration.numbers, back x = some x := by
    rw [map_eq_self_iff, List.forall_mem_flatMap]
    exact forall₂_congr fun n hn => NodeDeclaration.kept_eq_self_iff (h.2 n hn)
  rw [numbers, List.forall_mem_append, ← hparameters, ← hnodes]
  obtain ⟨version, name, parameters, nodes⟩ := d
  simp [kept]

namespace Json

variable {α κ : Type} {read : Content → Except Mismatch κ} {tag : κ} {key name : String} {room : ℕ}
  {es : List (Content × Content)}

/-! ### Contents of trees -/

theorem enter_of_lt (hroom : 1 < room) : enter room = .ok (room - 1) := by
  rw [enter, if_neg (by omega)]

theorem recovers_contents {items : List Content}
    (h : ∀ c ∈ items, Recovers (content room (ofContent c)) (∀ x ∈ c.numbers, Legible x)
      (c.kept reread?)) :
    Recovers (contents room (ofContents items)) (∀ x ∈ itemNumbers items, Legible x)
      (items.map (Content.kept reread?)) := by
  induction items with
  | nil => exact .ok (List.forall_mem_nil _)
  | cons c items ih =>
    rw [List.forall_mem_cons] at h
    rw [ofContents, contents]
    refine Recovers.congr ?_ List.forall_mem_append.symm
    exact h.1.bind ((ih h.2).andThen rfl)

theorem recovers_entryContents {entries : List (Content × Content)}
    (hkeys : ∀ e ∈ entries, ∃ key, e.1 = .string key)
    (h : ∀ e ∈ entries, Recovers (content room (ofContent e.2)) (∀ x ∈ e.2.numbers, Legible x)
      (e.2.kept reread?)) :
    Recovers (entryContents room (ofEntries entries)) (∀ x ∈ entryNumbers entries, Legible x)
      (entries.map (keptEntry reread?)) := by
  induction entries with
  | nil => exact .ok (List.forall_mem_nil _)
  | cons e entries ih =>
    rw [List.forall_mem_cons] at hkeys h
    obtain ⟨⟨key, hkey⟩, hkeys⟩ := hkeys
    obtain ⟨key', value⟩ := e
    subst hkey
    rw [ofEntries, ofEntry_eq, entryContents, entryContent]
    have hentry := h.1.andThen (f := fun c => pure (Content.string key, c)) rfl
    refine Recovers.congr ?_ List.forall_mem_append.symm
    exact hentry.bind ((ih hkeys h.2).andThen rfl)

/-- A number that has a text comes back as what its text is read as, if that is in range. -/
theorem recovers_content_float (x : Float) :
    Recovers (content room (ofContent (.float x))) (Legible x)
      (Content.kept reread? (.float x)) := by
  rw [ofContent, Content.kept, Legible]
  split
  · rename_i hx
    cases reread? x with
    | none => exact .error fun h => Bool.false_ne_true (h hx)
    | some y => exact .ok fun _ => rfl
  · rename_i hx
    rw [reread?_of_not_finite hx]
    exact .ok fun h => (hx h).elim

/-- **The content of the tree of a content is what is left of it**, just if no text of a number is
out of range. -/
theorem recovers_content {c : Content} (h : c.Fits room) :
    Recovers (content room (ofContent c)) (∀ x ∈ c.numbers, Legible x) (c.kept reread?) := by
  induction h with
  | @scalar room c hc =>
    cases c with
    | float x => exact (recovers_content_float x).congr List.forall_mem_singleton.symm
    | signed | sequence | mapping => exact hc.elim
    | _ => exact .ok (List.forall_mem_nil _)
  | sequence hroom _ ih =>
    rw [ofContent, content, enter_of_lt hroom, Content.kept, Content.keptItems_eq_map]
    exact (recovers_contents ih).andThen rfl
  | mapping hroom hkeys _ ih =>
    rw [ofContent, content, enter_of_lt hroom, Content.kept, Content.keptEntries_eq_map]
    exact (recovers_entryContents hkeys ih).andThen rfl

/-! ### Collecting entries -/

/-- Behind the entry under its key, entries are only collected. -/
theorem Collects.recovers_ofEntries {read : Json → Except ReadFault α}
    {collect : Option α → List (Option String × Json) →
      Except ReadFault (Option α × List (Content × Content))}
    (h : Collects key room read collect) (a : α) (hes : ∀ e ∈ es, IsBeside room key e) :
    Recovers (collect (some a) (ofEntries es)) (∀ x ∈ entryNumbers es, Legible x)
      (some a, es.map (keptEntry reread?)) := by
  induction es with
  | nil =>
    rw [ofEntries, h.nil]
    exact .ok (List.forall_mem_nil _)
  | cons e es ih =>
    rw [List.forall_mem_cons] at hes
    obtain ⟨⟨name, hname, hne, hfits⟩, hes⟩ := hes
    obtain ⟨key', value⟩ := e
    subst hname
    rw [ofEntries, ofEntry_eq]
    show Recovers (collect (some a) ((some name, ofContent value) :: ofEntries es)) _ _
    rw [h.other _ _ _ _ hne]
    refine Recovers.congr ?_ List.forall_mem_append.symm
    exact (recovers_content hfits).bind ((ih hes).andThen rfl)

/-- A tagged value shows its tag and what is left of its fields. -/
theorem recovers_readTagged (type : String) (hname : read (.string name) = .ok tag)
    (hroom : 1 < room) (h : ∀ e ∈ es, IsBeside (room - 1) tagKey e) :
    Recovers (readTagged type read room (ofContent (.mapping (entry tagKey (.string name) :: es))))
      (∀ x ∈ entryNumbers es, Legible x) (tag, .fields (es.map (keptEntry reread?))) := by
  rw [ofContent, ofEntries, ofEntry_eq, readTagged, enter_of_lt hroom]
  show Recovers (collect read (room - 1) none ((some tagKey, .string name) :: ofEntries es) >>= _)
    _ _
  have htag : readTag read (.string name) = .ok tag := by
    rw [readTag, surface]
    simp only [bind, Except.bind, fitting, hname]
    rfl
  rw [collect, if_pos rfl, htag]
  exact ((collects_collect read _).recovers_ofEntries tag h).andThen rfl

/-! ### Parts of documents -/

/-- **A declaration is read back** from its tree. -/
theorem recovers_readNode (hroom : 3 < room) (d : NodeDeclaration) :
    Recovers (readNode room (ofContent d.toContent))
      ((∀ x ∈ d.numbers, Legible x) ∧ AllBack reread? d.requiredNumbers) (d.kept reread?) := by
  have hbeside : ∀ e ∈ d.fieldEntries, IsBeside (room - 1) tagKey e := fun e he =>
    NodeDeclaration.isBeside_of_mem_fieldEntries (by omega) he
  have htagged := recovers_readTagged NodeDeclaration.typeName
    (NodeDeclaration.readKind_text d.kind) (by omega) hbeside
  rw [d.entryNumbers_fieldEntries] at htagged
  exact htagged.bind ((d.recovers_ofBody reread?).mapError _)

/-- **A named parameter is read back** from its tree. -/
theorem recovers_readNamed (hroom : 2 < room) (p : NamedParameter) :
    Recovers (readNamed room (ofContent p.toContent))
      ((∀ x ∈ p.definition.numbers, Legible x) ∧ AllBack reread? p.definition.requiredNumbers)
      (p.kept reread?) := by
  have hcollected := (collects_collectNamed (room - 1)).recovers_ofEntries p.name fun e he =>
    p.definition.isBeside_of_mem_entries (by omega) he
  have hnumbers : entryNumbers p.definition.entries = p.definition.numbers :=
    p.definition.numbers_toContent
  rw [hnumbers] at hcollected
  have hdefinition := p.definition.recovers_ofContent reread?
  rw [Definition.toContent, Content.kept, Content.keptEntries_eq_map] at hdefinition
  rw [NamedParameter.toContent, ofContent, ofEntries, ofEntry_eq, readNamed,
    enter_of_lt (by omega)]
  show Recovers (collectNamed (room - 1) none ((some "name", .string p.name) :: _) >>= _) _ _
  rw [collectNamed, if_pos rfl]
  show Recovers (collectNamed (room - 1) (some p.name) _ >>= _) _ _
  exact hcollected.bind ((hdefinition.mapError ReadFault.misfit).andThen rfl)

/-- **A list is read back** if its items are. -/
theorem recovers_readList {α β : Type} {read : ℕ → Json → Except ReadFault β} {write : α → Content}
    {p : α → Prop} {kept : α → β} (hroom : 1 < room) (as : List α)
    (h : ∀ a ∈ as, Recovers (read (room - 1) (ofContent (write a))) (p a) (kept a)) :
    Recovers (readList read room (ofContent (.sequence (as.map write)))) (∀ a ∈ as, p a)
      (as.map kept) := by
  rw [ofContent, ofContents_eq_map, List.map_map, readList, enter_of_lt hroom]
  exact Recovers.mapM (ofContent ∘ write) as h

/-! ### Documents -/

theorem readVersion_unsigned (version : UInt32) :
    readVersion (.unsigned version.toUInt64) = .ok version := by
  have hlt : version.toUInt64.toNat < 2 ^ 32 := by simpa using version.toNat_lt
  rw [readVersion, readScalar, surface]
  simp only [bind, Except.bind, fitting]
  rw [Content.readNatural, if_pos hlt]
  simp [Except.map, Except.mapError]

/-- **A document is read back** from its tree. -/
theorem recovers_readDocument (d : Document) :
    Recovers (readDocument depthLimit (ofContent d.toContent))
      ((∀ x ∈ d.numbers, Legible x) ∧ AllBack reread? d.requiredNumbers) (d.kept reread?) := by
  have hversion : Recovers (readVersion _) True d.version :=
    .of_eq (readVersion_unsigned d.version)
  have hname : Recovers (readName (.string d.name)) True d.name := .of_eq rfl
  have hparameters := recovers_readList (by decide : 1 < 127) d.parameters fun p _ =>
    recovers_readNamed (by omega) p
  have hnodes := recovers_readList (by decide : 1 < 127) d.nodes fun n _ =>
    recovers_readNode (by omega) n
  have hcondition : (True ∧ True ∧
      (∀ p ∈ d.parameters, (∀ x ∈ p.definition.numbers, Legible x) ∧
        AllBack reread? p.definition.requiredNumbers) ∧
      ∀ n ∈ d.nodes, (∀ x ∈ n.numbers, Legible x) ∧ AllBack reread? n.requiredNumbers) ↔
      (∀ x ∈ d.numbers, Legible x) ∧ AllBack reread? d.requiredNumbers := by
    simp only [Document.numbers, Document.requiredNumbers, List.forall_mem_append,
      List.forall_mem_flatMap, allBack_append_iff, allBack_flatMap_iff, true_and, forall_and]
    exact and_and_and_comm
  rw [Document.toContent, ofContent]
  simp only [ofEntries, ofEntry_eq, readDocument, enter_of_lt (show 1 < depthLimit by decide)]
  show Recovers (readDocumentEntries 127 {} _ >>= _) _ _
  refine Recovers.congr ?_ hcondition
  refine Recovers.andThen (a := ⟨some d.version, some d.name, some _, some _⟩) ?_ rfl
  refine (hversion.map some).bind (f := fun version => readDocumentEntries 127 { version } _) ?_
  refine (hname.map some).bind
    (f := fun name => readDocumentEntries 127 { version := _, name } _) ?_
  refine (hparameters.map some).bind
    (f := fun parameters => readDocumentEntries 127 { version := _, name := _, parameters } _) ?_
  exact (hnodes.map some).andThen rfl

end Json

/-- **A document is read back** from its text, as far as it has been kept, just if no text of a
number is out of range and all required numbers come back. -/
theorem recovers_decode (d : Document) :
    Recovers (Format.json.decode (Format.json.encode d))
      ((∀ x ∈ d.numbers, Json.Legible x) ∧ AllBack Json.reread? d.requiredNumbers)
      (d.kept Json.reread?) := by
  rw [Format.encode, Format.decode, Json.readText, Json.ofText_pretty]
  exact ((Json.recovers_readDocument d).andThen rfl).mapError _

end WaterNetwork
