import WaterNetwork.Proofs.Yaml.Written
import WaterNetwork.Yaml.Node

/-!
# Tokens of contents are read as nodes

The tokens of a content are read as the node that mirrors it. Sequences below keys have no end of
their own: what ends them is that no further item comes, so what follows a content matters.

* `contentNode` — the node that mirrors a content.
* `Storable.readsNode` — it is what is read from the content's tokens.
* `ofTokens?_contentTokens` — and the tree of the tokens of a mapping.
-/

namespace WaterNetwork.Yaml

/-! ### Nodes of contents -/

/-- The node of a scalar's token. -/
def tokenNode : Token → Node
  | .scalar style text => .scalar (.ofText none style text)
  | _ => .scalar (.ofText none .plain "")

mutual

/-- **The node that mirrors a content.** -/
def contentNode : Content → Node
  | .sequence items => .sequence false (itemNodes items)
  | .mapping entries => .mapping false (entryNodes entries)
  | c => tokenNode (scalarToken c)

/-- The nodes of items. -/
def itemNodes : List Content → List Node
  | [] => []
  | item :: rest => contentNode item :: itemNodes rest

/-- The nodes of entries. -/
def entryNodes : List (Content × Content) → List (Node × Node)
  | [] => []
  | e :: rest => entryNode e :: entryNodes rest

/-- The nodes of an entry. -/
def entryNode : Content × Content → Node × Node
  | (key, value) => (tokenNode (scalarToken key), contentNode value)

end

theorem contentNode_of_isWritten {c : Content} (h : c.IsWritten) :
    contentNode c = tokenNode (scalarToken c) := by
  cases c with
  | signed | sequence | mapping => exact h.elim
  | _ => simp [contentNode]

theorem itemNodes_eq_map (items : List Content) : itemNodes items = items.map contentNode := by
  induction items with
  | nil => rfl
  | cons item items ih => rw [itemNodes, ih, List.map_cons]

theorem entryNodes_eq_map (es : List (Content × Content)) : entryNodes es = es.map entryNode := by
  induction es with
  | nil => rfl
  | cons e es ih => rw [entryNodes, ih, List.map_cons]

theorem exists_scalarToken (c : Content) : ∃ style text, scalarToken c = .scalar style text := by
  cases c <;> exact ⟨_, _, rfl⟩

/-! ### Steps of reading -/

/-- The reader in front of tokens, where nothing has been anchored. -/
def NodeReading.before (tokens : List Token) (events : ℕ) : NodeReading where
  tokens := tokens
  handles := Reader.defaultHandles
  events := events

open NodeReading (before)

namespace Reader

variable {fuel n n' n'' n₃ : ℕ} {rest rest' rest'' : List Token} {r : NodeReading} {b i : Bool}

theorem node_scalar (fuel : ℕ) (b i : Bool) (style : ScalarStyle) (text : String)
    (rest : List Token) (n : ℕ) :
    node (fuel + 1) b i (before (.scalar style text :: rest) n) =
      some (.scalar (.ofText none style text), before rest (n + 1)) := rfl

theorem node_emptySequence (fuel : ℕ) (b i : Bool) (rest : List Token) (n : ℕ) :
    node (fuel + 2) b i (before (.flowSequenceStart :: .flowSequenceEnd :: rest) n) =
      some (.sequence false [], before rest (n + 2)) := rfl

theorem node_mapping {entries : List (Node × Node)}
    (h : blockEntries fuel (before rest (n + 2)) = some (entries, r)) :
    node (fuel + 1) true i (before (.blockMappingStart :: rest) n) =
      some (.mapping false entries, r) := by
  cases i <;>
  · change Option.bind (blockEntries fuel (before rest (n + 2))) _ = _
    rw [h]
    rfl

theorem node_sequence {items : List Node}
    (h : indentlessItems fuel (before (.blockEntry :: rest) (n + 2)) = some (items, r)) :
    node (fuel + 1) true true (before (.blockEntry :: rest) n) =
      some (.sequence false items, r) := by
  change Option.bind (indentlessItems fuel (before (.blockEntry :: rest) (n + 2))) _ = _
  rw [h]
  rfl

theorem nodeUnless_eq {ends tokens : List Token} {node' : Node}
    (hends : tokens.head?.all ends.contains = false)
    (h : node fuel b i (before tokens n) = some (node', r)) :
    nodeUnless (fuel + 1) b i ends (before tokens n) = some (node', r) := by
  change (if tokens.head?.all ends.contains then absent else node fuel b i) (before tokens n) = _
  rw [hends]
  exact h

theorem blockEntries_nil (fuel : ℕ) (rest : List Token) (n : ℕ) :
    blockEntries (fuel + 1) (before (.blockEnd :: rest) n) = some ([], before rest n) := rfl

theorem blockEntries_cons {key value : Node} {entries : List (Node × Node)}
    (hkey : nodeUnless fuel true true [.key, .value, .blockEnd] (before rest n) =
      some (key, before (.value :: rest') n'))
    (hvalue : nodeUnless fuel true true [.key, .value, .blockEnd] (before rest' n') =
      some (value, before rest'' n''))
    (h : blockEntries fuel (before rest'' n'') = some (entries, r)) :
    blockEntries (fuel + 1) (before (.key :: rest) n) = some ((key, value) :: entries, r) := by
  change Option.bind (nodeUnless fuel true true _ (before rest n)) _ = _
  rw [hkey]
  change Option.bind (nodeUnless fuel true true _ (before rest' n')) _ = _
  rw [hvalue]
  change Option.bind (blockEntries fuel (before rest'' n'')) _ = _
  rw [h]
  rfl

theorem indentlessItems_nil (fuel : ℕ) (hrest : rest.head? ≠ some .blockEntry) (n : ℕ) :
    indentlessItems (fuel + 1) (before rest n) = some ([], before rest n) := by
  cases rest with
  | nil => rfl
  | cons token rest =>
    cases token with
    | blockEntry => exact absurd rfl hrest
    | _ => rfl

theorem indentlessItems_cons {item : Node} {items : List Node}
    (hitem : nodeUnless fuel true false [.blockEntry, .key, .value, .blockEnd] (before rest n) =
      some (item, before rest' n'))
    (h : indentlessItems fuel (before rest' n') = some (items, r)) :
    indentlessItems (fuel + 1) (before (.blockEntry :: rest) n) = some (item :: items, r) := by
  change Option.bind (nodeUnless fuel true false _ (before rest n)) _ = _
  rw [hitem]
  change Option.bind (indentlessItems fuel (before rest' n')) _ = _
  rw [h]
  rfl

end Reader

/-! ### Contents -/

section

variable {c : Content} {e : Content × Content} {es : List (Content × Content)}
  {items : List Content} {fuel : ℕ}

/-- **The tokens of a content are read as its node.** Behind a sequence no further item may come. -/
def ReadsNode (c : Content) : Prop :=
  ∀ (fuel : ℕ) (indentless : Bool) (rest : List Token) (n : ℕ),
    IsItem c ∨ (indentless = true ∧ rest.head? ≠ some .blockEntry) →
    3 * (contentTokens c).length ≤ fuel + 1 →
    ∃ n', Reader.node fuel true indentless (before (contentTokens c ++ rest) n) =
      some (contentNode c, before rest n')

theorem readsNode_of_isWritten (h : c.IsWritten) : ReadsNode c := by
  intro fuel indentless rest n _ hfuel
  obtain ⟨style, text, htoken⟩ := exists_scalarToken c
  rw [contentTokens_of_isWritten h, htoken] at hfuel ⊢
  rw [contentNode_of_isWritten h, htoken]
  rw [List.length_singleton] at hfuel
  obtain ⟨fuel, rfl⟩ : ∃ f, fuel = f + 1 := ⟨fuel - 1, by omega⟩
  exact ⟨n + 1, Reader.node_scalar fuel true indentless style text rest n⟩

theorem readsNode_emptySequence : ReadsNode (.sequence []) := by
  intro fuel indentless rest n _ hfuel
  rw [contentTokens, List.length_cons, List.length_singleton] at hfuel
  obtain ⟨fuel, rfl⟩ : ∃ f, fuel = f + 2 := ⟨fuel - 2, by omega⟩
  refine ⟨n + 2, ?_⟩
  rw [contentTokens, contentNode, itemNodes]
  exact Reader.node_emptySequence fuel true indentless rest n

/-- The tokens of a content do not look like something left out. -/
theorem Storable.head?_contentTokens (h : Storable c) (rest : List Token) :
    (contentTokens c ++ rest).head?.all [Token.key, .value, .blockEnd].contains = false ∧
      (IsItem c → (contentTokens c ++ rest).head?.all
        [Token.blockEntry, .key, .value, .blockEnd].contains = false) := by
  cases h with
  | @scalar c h =>
    obtain ⟨style, text, htoken⟩ := exists_scalarToken c
    rw [contentTokens_of_isWritten h, htoken]
    exact ⟨rfl, fun _ => rfl⟩
  | emptySequence => exact ⟨rfl, fun _ => rfl⟩
  | sequence hne hitems hflat =>
    obtain ⟨item, items, rfl⟩ := List.exists_cons_of_ne_nil hne
    rw [contentTokens, itemTokens]
    exact ⟨rfl, fun h => (not_isItem_sequence h).elim⟩
  | mapping hne hkeys hvalues =>
    rw [contentTokens]
    exact ⟨rfl, fun _ => rfl⟩

theorem Storable.length_contentTokens_pos (h : Storable c) : 0 < (contentTokens c).length := by
  rw [List.length_pos_iff]
  intro hnil
  have hhead := (h.head?_contentTokens []).1
  rw [hnil] at hhead
  cases hhead

/-- A content of an entry or of an item is read, since it is not left out. -/
theorem nodeUnless_contentTokens {indentless : Bool} {ends rest : List Token} {n : ℕ}
    (hstorable : Storable c) (h : ReadsNode c)
    (hitem : IsItem c ∨ (indentless = true ∧ rest.head? ≠ some .blockEntry))
    (hends : (contentTokens c ++ rest).head?.all ends.contains = false)
    (hfuel : 3 * (contentTokens c).length ≤ fuel) :
    ∃ n', Reader.nodeUnless fuel true indentless ends (before (contentTokens c ++ rest) n) =
      some (contentNode c, before rest n') := by
  have hpos := hstorable.length_contentTokens_pos
  obtain ⟨fuel, rfl⟩ := Nat.exists_eq_add_one.mpr (show 0 < fuel by omega)
  obtain ⟨n', hread⟩ := h fuel indentless rest n hitem hfuel
  exact ⟨n', Reader.nodeUnless_eq hends hread⟩

/-- Entries are read up to the end of their mapping. -/
theorem blockEntries_entryTokens (hkeys : ∀ e ∈ es, ∃ key, e.1 = .string key)
    (hvalues : ∀ e ∈ es, Storable e.2 ∧ ReadsNode e.2) (rest : List Token) (n : ℕ)
    (hfuel : 3 * (entryTokens es).length < fuel) :
    ∃ n', Reader.blockEntries fuel (before (entryTokens es ++ .blockEnd :: rest) n) =
      some (entryNodes es, before rest n') := by
  induction es generalizing fuel n with
  | nil =>
    obtain ⟨fuel, rfl⟩ := Nat.exists_eq_add_one.mpr (Nat.zero_lt_of_lt hfuel)
    exact ⟨n, Reader.blockEntries_nil fuel rest n⟩
  | cons e es ih =>
    rw [List.forall_mem_cons] at hkeys hvalues
    obtain ⟨key, value⟩ := e
    obtain ⟨⟨key, rfl⟩, hkeys⟩ := hkeys
    obtain ⟨⟨hstorable, hvalue⟩, hvalues⟩ := hvalues
    rw [entryTokens, valueTokens, List.length_append, List.length_append, List.length_cons,
      List.length_cons, List.length_singleton] at hfuel
    obtain ⟨fuel, rfl⟩ : ∃ f, fuel = f + 1 := ⟨fuel - 1, by omega⟩
    have htail : (entryTokens es ++ .blockEnd :: rest).head? ≠ some .blockEntry := by
      cases es with
      | nil => simp [entryTokens]
      | cons e es =>
        obtain ⟨key', value'⟩ := e
        simp [entryTokens, valueTokens]
    have hwritten : (Content.string key).IsWritten := trivial
    have hlength : (contentTokens (.string key)).length = 1 := by
      rw [contentTokens_of_isWritten hwritten, List.length_singleton]
    obtain ⟨n₁, hkey⟩ := nodeUnless_contentTokens (n := n) (.scalar hwritten)
      (readsNode_of_isWritten hwritten) (.inl (.inl hwritten))
      ((Storable.scalar hwritten).head?_contentTokens
        (.value :: (contentTokens value ++ (entryTokens es ++ .blockEnd :: rest)))).1
      (show _ ≤ fuel by omega)
    obtain ⟨n₂, hvalue⟩ := nodeUnless_contentTokens (c := value) (n := n₁) hstorable hvalue
      (.inr ⟨rfl, htail⟩) (hstorable.head?_contentTokens _).1 (show _ ≤ fuel by omega)
    obtain ⟨n₃, hrest⟩ := ih hkeys hvalues n₂ (show _ < fuel by omega)
    refine ⟨n₃, ?_⟩
    rw [contentTokens_of_isWritten hwritten, contentNode_of_isWritten hwritten] at hkey
    rw [entryTokens, valueTokens, entryNodes, entryNode]
    simpa using Reader.blockEntries_cons hkey hvalue hrest

/-- Items are read as long as further ones come. -/
theorem indentlessItems_itemTokens (hne : items ≠ [])
    (hitems : ∀ c ∈ items, IsItem c ∧ Storable c ∧ ReadsNode c) {rest : List Token} (n : ℕ)
    (hrest : rest.head? ≠ some .blockEntry) (hfuel : 3 * (itemTokens items).length ≤ fuel + 2) :
    ∃ n', Reader.indentlessItems fuel (before (itemTokens items ++ rest) n) =
      some (itemNodes items, before rest n') := by
  induction items generalizing fuel n with
  | nil => exact absurd rfl hne
  | cons item items ih =>
    rw [List.forall_mem_cons] at hitems
    obtain ⟨⟨hitem, hstorable, hreads⟩, hitems⟩ := hitems
    rw [itemTokens, List.length_cons, List.length_append] at hfuel
    obtain ⟨fuel, rfl⟩ : ∃ f, fuel = f + 1 := ⟨fuel - 1, by omega⟩
    have hpos := hstorable.length_contentTokens_pos
    obtain ⟨n₁, hread⟩ := nodeUnless_contentTokens (n := n) hstorable hreads (.inl hitem)
      ((hstorable.head?_contentTokens (itemTokens items ++ rest)).2 hitem)
      (show _ ≤ fuel by omega)
    have hmore : ∃ n', Reader.indentlessItems fuel (before (itemTokens items ++ rest) n₁) =
        some (itemNodes items, before rest n') := by
      cases items with
      | nil =>
        obtain ⟨fuel, rfl⟩ : ∃ f, fuel = f + 1 := ⟨fuel - 1, by omega⟩
        exact ⟨n₁, Reader.indentlessItems_nil fuel hrest n₁⟩
      | cons => exact ih (List.cons_ne_nil _ _) hitems n₁ (by omega)
    obtain ⟨n₂, hmore⟩ := hmore
    refine ⟨n₂, ?_⟩
    rw [itemTokens, itemNodes, List.cons_append, List.append_assoc]
    exact Reader.indentlessItems_cons hread hmore

/-- **The tokens of a storable content are read as its node.** -/
theorem Storable.readsNode (h : Storable c) : ReadsNode c := by
  induction h with
  | scalar h => exact readsNode_of_isWritten h
  | emptySequence => exact readsNode_emptySequence
  | sequence hne hitems hflat ih =>
    intro fuel indentless rest n hplace hfuel
    obtain ⟨rfl, hrest⟩ := hplace.resolve_left not_isItem_sequence
    obtain ⟨item, items, rfl⟩ := List.exists_cons_of_ne_nil hne
    rw [contentTokens] at hfuel
    have hpos : 0 < (itemTokens (item :: items)).length := by
      rw [itemTokens, List.length_cons]
      omega
    obtain ⟨fuel, rfl⟩ : ∃ f, fuel = f + 1 := ⟨fuel - 1, by omega⟩
    obtain ⟨n', hread⟩ := indentlessItems_itemTokens hne
      (fun c hc => ⟨hflat c hc, hitems c hc, ih c hc⟩) (n + 2) hrest
      (show _ ≤ fuel + 2 by omega)
    refine ⟨n', ?_⟩
    rw [contentTokens, contentNode]
    rw [itemTokens, List.cons_append] at hread ⊢
    exact Reader.node_sequence hread
  | mapping hne hkeys hvalues ih =>
    intro fuel indentless rest n _ hfuel
    rw [contentTokens, List.length_cons, List.length_append, List.length_singleton] at hfuel
    obtain ⟨fuel, rfl⟩ : ∃ f, fuel = f + 1 := ⟨fuel - 1, by omega⟩
    obtain ⟨n', hread⟩ := blockEntries_entryTokens
      (fun e he => (hkeys e he).imp fun _ h => h.1) (fun e he => ⟨hvalues e he, ih e he⟩) rest
      (n + 2) (show _ < fuel by omega)
    refine ⟨n', ?_⟩
    rw [contentTokens, contentNode, List.cons_append, List.append_assoc, List.singleton_append]
    exact Reader.node_mapping hread

/-! ### Trees -/

/-- **The tree of the tokens of a mapping** mirrors it, and nothing is anchored in it. -/
theorem ofTokens?_contentTokens (h : Storable (.mapping es)) :
    ∃ limit, Tree.ofTokens? (contentTokens (.mapping es)) =
      some { root := contentNode (.mapping es), aliasLimit := limit } := by
  have hplace : IsItem (.mapping es) := .inr ⟨es, rfl⟩
  obtain ⟨n, hread⟩ := h.readsNode (3 * (contentTokens (.mapping es)).length + 3) false [] 0
    (.inl hplace) (by omega)
  rw [List.append_nil, contentTokens] at hread
  refine ⟨100 * n, ?_⟩
  rw [contentTokens]
  change Option.bind (Option.bind (Reader.node _ true false (before _ 0)) _) _ = _
  rw [hread]
  rfl

end

end WaterNetwork.Yaml
