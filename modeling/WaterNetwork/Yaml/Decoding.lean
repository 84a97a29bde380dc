import WaterNetwork.Content.Node
import WaterNetwork.Yaml.Node
import WaterNetwork.Yaml.Token.Reader

/-!
# Reading documents and their parts from YAML texts

A document, its lists, the tag of a tagged value and the name of a named parameter are asked for as
what they are: any scalar will do for a text. The rest of a tagged value is collected first, and
there a scalar stands for what it reads like. Collections may stand inside each other to a
limited depth, and aliases are followed a limited number of times.
-/

namespace WaterNetwork.Yaml

/-- Reading of nodes, with a count of the aliases that may still be followed. -/
abbrev NodeM := StateT Nat Option

namespace Tree

/-- How many collections may stand inside each other. -/
def depthLimit : Nat := 128

/-- A value that has to be there. -/
def present {α : Type} (a? : Option α) : NodeM α := fun left => a?.map fun a => (a, left)

/-- A value that has to fit. -/
def fitting {α : Type} : Except Mismatch α → NodeM α
  | .ok a => pure a
  | .error _ => failure

/-- Follow an alias to the node that is anchored. -/
def follow (t : Tree) : Node → NodeM Node
  | .alias target => do
    let left ← get
    guard (0 < left)
    set (left - 1)
    present (t.anchored.lookup target)
  | n => pure n

/-- The content of a node, with room for a depth of collections. -/
def content (t : Tree) : Nat → Node → NodeM Content
  | room, n => do
    match ← t.follow n, room with
    | .scalar s, _ => present s.content?
    | .sequence false items, room + 1 => return .sequence (← items.mapM (t.content room))
    | .mapping false entries, room + 1 =>
      let entries ← entries.mapM fun (key, value) => do
        return (← t.content room key, ← t.content room value)
      return .mapping entries
    | _, _ => failure

/-! ### Values asked for as what they are -/

/-- Read a text: any scalar. -/
def readText (t : Tree) (n : Node) : NodeM String := do
  match ← t.follow n with
  | .scalar s => return s.text
  | _ => failure

/-- Read a count below a limit. -/
def readCount (t : Tree) (limit : Nat) (n : Node) : NodeM Nat := do
  match ← t.follow n with
  | .scalar s =>
    let count ← present s.count?
    guard (count < limit)
    return count
  | _ => failure

/-- Read a list of values; an absent scalar stands for an empty one. -/
def readList {α : Type} (t : Tree) (read : Nat → Node → NodeM α) (room : Nat) (n : Node) :
    NodeM (List α) := do
  match ← t.follow n, room with
  | .sequence _ items, room + 1 => items.mapM (read room)
  | .scalar s, _ => do
    guard s.isAbsent
    return []
  | _, _ => failure

/-- Read the entries of a mapping, and the room inside; an absent scalar stands for an empty
one. -/
def readEntries (t : Tree) (room : Nat) (n : Node) : NodeM (List (Node × Node) × Nat) := do
  match ← t.follow n, room with
  | .mapping _ entries, room + 1 => return (entries, room)
  | .scalar s, _ => do
    guard s.isAbsent
    return ([], room)
  | _, _ => failure

/-! ### Tagged values -/

/-- Read the tag among entries, and collect the other entries. -/
def collect {κ : Type} (t : Tree) (readTag : Content → Except Mismatch κ) (room : Nat) :
    Option κ → List (Node × Node) → NodeM (κ × List (Content × Content))
  | tag?, [] => do return (← present tag?, [])
  | tag?, (key, value) :: rest => do
    match ← t.content room key with
    | .string text =>
      if text = tagKey then
        guard tag?.isNone
        let tag ← fitting (readTag (.string (← t.readText value)))
        collect t readTag room (some tag) rest
      else
        let c ← t.content room value
        let (tag, others) ← collect t readTag room tag? rest
        return (tag, (.string text, c) :: others)
    | k =>
      let c ← t.content room value
      let (tag, others) ← collect t readTag room tag? rest
      return (tag, (k, c) :: others)

/-- Read a tagged value: a mapping with a tag among its entries, or a sequence that starts with
one. -/
def readTagged {κ : Type} (t : Tree) (readTag : Content → Except Mismatch κ) (room : Nat)
    (n : Node) : NodeM (κ × Body) := do
  match ← t.follow n, room with
  | .mapping false entries, room + 1 =>
    let (tag, others) ← t.collect readTag room none entries
    return (tag, .fields others)
  | .sequence false (tag :: items), room + 1 =>
    let tag ← fitting (readTag (.string (← t.readText tag)))
    return (tag, .items (← items.mapM (t.content room)))
  | _, _ => failure

/-! ### Parts of documents -/

/-- Read a definition. -/
def readDefinition (t : Tree) (room : Nat) (n : Node) : NodeM Definition := do
  let (kind, body) ← t.readTagged Definition.readKind room n
  fitting (Definition.ofBody kind body)

/-- Read a constraint field. -/
def readField (t : Tree) (room : Nat) (n : Node) : NodeM ConstraintField := do
  fitting (ConstraintField.ofContent (← t.content room n))

/-- Read a node declaration. -/
def readNode (t : Tree) (room : Nat) (n : Node) : NodeM NodeDeclaration := do
  let (kind, body) ← t.readTagged NodeDeclaration.readKind room n
  fitting (NodeDeclaration.ofBody kind body)

/-- Read the name among entries, and collect the other entries. -/
def collectNamed (t : Tree) (room : Nat) : Option String → List (Node × Node) →
    NodeM (String × List (Content × Content))
  | name?, [] => do return (← present name?, [])
  | name?, (key, value) :: rest => do
    let text ← t.readText key
    if text = "name" then
      guard name?.isNone
      collectNamed t room (some (← t.readText value)) rest
    else
      let c ← t.content room value
      let (name, others) ← collectNamed t room name? rest
      return (name, (.string text, c) :: others)

/-- Read a named parameter: its name, then the definition that the other entries make. -/
def readNamed (t : Tree) (room : Nat) (n : Node) : NodeM NamedParameter := do
  let (entries, room) ← t.readEntries room n
  let (name, others) ← t.collectNamed room none entries
  return { name, definition := ← fitting (Definition.ofEntries others) }

/-- Read a sub-index. -/
def readSubIndex (t : Tree) (n : Node) : NodeM SubIndex := do
  return ⟨UInt32.ofNat (← t.readCount (2 ^ 32) n)⟩

/-- Read a stored identifier. -/
def readIdent (t : Tree) (n : Node) : NodeM Ident := do
  present (Ident.ofStored? (← t.readCount (2 ^ 32) n))

/-! ### Documents -/

/-- The fields of a document, as far as they have been read. -/
structure DocumentFields where
  version : Option UInt32 := none
  name : Option String := none
  parameters : Option (List NamedParameter) := none
  nodes : Option (List NodeDeclaration) := none

/-- Read the entries of a document in order; unknown ones are passed over. -/
def readDocumentEntries (t : Tree) (room : Nat) :
    DocumentFields → List (Node × Node) → NodeM DocumentFields
  | d, [] => return d
  | d, (key, value) :: rest => do
    match ← t.readText key with
    | "version" =>
      guard d.version.isNone
      let version := UInt32.ofNat (← t.readCount (2 ^ 32) value)
      readDocumentEntries t room { d with version := some version } rest
    | "name" =>
      guard d.name.isNone
      let name ← t.readText value
      readDocumentEntries t room { d with name := some name } rest
    | "parameters" =>
      guard d.parameters.isNone
      let parameters ← t.readList t.readNamed room value
      readDocumentEntries t room { d with parameters := some parameters } rest
    | "nodes" =>
      guard d.nodes.isNone
      let nodes ← t.readList t.readNode room value
      readDocumentEntries t room { d with nodes := some nodes } rest
    | _ => readDocumentEntries t room d rest

/-- Read a document; lists that are missing are empty. -/
def readDocument (t : Tree) (room : Nat) (n : Node) : NodeM Document := do
  let (entries, room) ← t.readEntries room n
  let d ← t.readDocumentEntries room {} entries
  return {
    version := ← present d.version
    name := ← present d.name
    parameters := d.parameters.getD []
    nodes := d.nodes.getD [] }

/-- Read the value that a tree stands for. -/
def read? {α : Type} (t : Tree) (read : Tree → Node → NodeM α) : Option α :=
  ((read t t.root).run t.aliasLimit).map (·.1)

end Tree

/-! ### Texts -/

/-- Read the value that a text stands for. -/
def readText? {α : Type} (read : Tree → Node → NodeM α) (text : String) : Option α := do
  (← Tree.ofTokens? (← Token.ofText? text)).read? read

/-- Read a value that takes up room. -/
def roomy {α : Type} (read : Tree → Nat → Node → NodeM α) : Tree → Node → NodeM α :=
  fun t => read t Tree.depthLimit

/-- Read a definition. -/
def definition? : String → Option Definition := readText? (roomy Tree.readDefinition)

/-- Read a constraint field. -/
def field? : String → Option ConstraintField := readText? (roomy Tree.readField)

/-- Read a node declaration. -/
def node? : String → Option NodeDeclaration := readText? (roomy Tree.readNode)

/-- Read a named parameter. -/
def named? : String → Option NamedParameter := readText? (roomy Tree.readNamed)

/-- Read a document. -/
def document? : String → Option Document := readText? (roomy Tree.readDocument)

/-- Read a sub-index. -/
def subIndex? : String → Option SubIndex := readText? Tree.readSubIndex

/-- Read a stored identifier. -/
def ident? : String → Option Ident := readText? Tree.readIdent

end WaterNetwork.Yaml
