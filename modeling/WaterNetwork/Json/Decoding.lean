import WaterNetwork.Content.Node
import WaterNetwork.Json.Reader

/-!
# Reading documents and their parts from JSON texts

A document, a list of its parameters or nodes, the tag of a tagged value and the name of a named
parameter are read in the order of the text, so a fault in them comes up where it stands. The
rest of a tagged value is only collected, and read when its end has been reached: a fault in the
form of the text wins over a wrong value there.
-/

namespace WaterNetwork.Json

/-- Let a mismatch be a fault of the text. -/
def fitting {α : Type} (result : Except Mismatch α) : Except ReadFault α :=
  result.mapError .misfit

/-- Fail with a mismatch. -/
def mismatch {α : Type} (m : Mismatch) : Except ReadFault α := .error (.misfit m)

/-- Read a value from its surface, which has to be a scalar. -/
def readScalar {α : Type} (read : Content → Except Mismatch α) (j : Json) :
    Except ReadFault α := do
  fitting (read (← j.surface))

/-- Fail with the surface of a value that is not of the expected type. -/
def wrongType {α : Type} (expected : String) (j : Json) : Except ReadFault α :=
  readScalar (fun c => .error (.wrongType c.found expected)) j

/-! ### Tagged values -/

/-- Read a tag in its place; only a text will do. -/
def readTag {κ : Type} (read : Content → Except Mismatch κ) (j : Json) : Except ReadFault κ := do
  match ← j.surface with
  | .string text => fitting (read (.string text))
  | c => mismatch (.wrongType c.found "variant identifier")

/-- Read the tag among entries where it stands, and collect the other entries. -/
def collect {κ : Type} (read : Content → Except Mismatch κ) (room : Nat) :
    Option κ → List (Option String × Json) →
      Except ReadFault (Option κ × List (Content × Content))
  | tag?, [] => .ok (tag?, [])
  | _, (none, _) :: _ => .error .malformed
  | tag?, (some key, value) :: rest =>
    if key = tagKey then
      match tag? with
      | some _ => mismatch (.duplicateField tagKey)
      | none => do collect read room (some (← readTag read value)) rest
    else do
      let c ← value.content room
      let (tag?, others) ← collect read room tag? rest
      return (tag?, (.string key, c) :: others)

/-- Read a tagged value: an object with a tag among its entries, or an array that starts with
one. -/
def readTagged {κ : Type} (type : String) (read : Content → Except Mismatch κ) (room : Nat) :
    Json → Except ReadFault (κ × Body)
  | .object entries => do
    let (tag?, others) ← collect read (← enter room) none entries
    match tag? with
    | some tag => return (tag, .fields others)
    | none => mismatch (.missingField tagKey)
  | .array items => do
    let room ← enter room
    match items with
    | [] => mismatch (.missingField tagKey)
    | tag :: items => do
      let tag ← readTag read tag
      return (tag, .items (← contents room items))
  | j => wrongType s!"internally tagged enum {type}" j

/-! ### Parts of documents -/

/-- Read a sub-index. -/
def readSubIndex (j : Json) : Except ReadFault SubIndex := readScalar Content.readSubIndex j

/-- Read a stored identifier. -/
def readIdent : Json → Except ReadFault Ident :=
  readScalar fun c => do
    let n ← c.readNatural (2 ^ 32) "a nonzero u32"
    match Ident.ofStored? n with
    | some id => return id
    | none => throw (.wrongValue (.integer n) "a nonzero u32")

/-- Read a definition. -/
def readDefinition (room : Nat) (j : Json) : Except ReadFault Definition := do
  let (kind, body) ← readTagged Definition.typeName Definition.readKind room j
  fitting (Definition.ofBody kind body)

/-- Read a constraint field; all of it is collected before its form is chosen. -/
def readField (room : Nat) (j : Json) : Except ReadFault ConstraintField := do
  fitting (ConstraintField.ofContent (← j.content room))

/-- Read a node declaration. -/
def readNode (room : Nat) (j : Json) : Except ReadFault NodeDeclaration := do
  let (kind, body) ← readTagged NodeDeclaration.typeName NodeDeclaration.readKind room j
  fitting (NodeDeclaration.ofBody kind body)

/-- Read the name among entries where it stands, and collect the other entries. -/
def collectNamed (room : Nat) : Option String → List (Option String × Json) →
    Except ReadFault (Option String × List (Content × Content))
  | name?, [] => .ok (name?, [])
  | _, (none, _) :: _ => .error .malformed
  | name?, (some key, value) :: rest =>
    if key = "name" then
      match name? with
      | some _ => mismatch (.duplicateField "name")
      | none => do
        let name ← readScalar (Content.readText "a string") value
        collectNamed room (some name) rest
    else do
      let c ← value.content room
      let (name?, others) ← collectNamed room name? rest
      return (name?, (.string key, c) :: others)

/-- Read a named parameter: its name, then the definition that the other entries make. -/
def readNamed (room : Nat) : Json → Except ReadFault NamedParameter
  | .object entries => do
    let (name?, others) ← collectNamed (← enter room) none entries
    match name? with
    | some name => return { name, definition := ← fitting (Definition.ofEntries others) }
    | none => mismatch (.missingField "name")
  | j => wrongType "struct NamedParameter" j

/-! ### Documents -/

/-- Read the items of an array in order. -/
def readList {α : Type} (read : Nat → Json → Except ReadFault α) (room : Nat) :
    Json → Except ReadFault (List α)
  | .array items => do
    let room ← enter room
    items.mapM (read room)
  | j => wrongType "a sequence" j

/-- The fields of a document, as far as they have been read. -/
structure PartialDocument where
  version : Option UInt32 := none
  name : Option String := none
  parameters : Option (List NamedParameter) := none
  nodes : Option (List NodeDeclaration) := none

/-- Read a version. -/
def readVersion : Json → Except ReadFault UInt32 :=
  readScalar fun c => (c.readNatural (2 ^ 32) "u32").map UInt32.ofNat

/-- Read a name. -/
def readName : Json → Except ReadFault String := readScalar (Content.readText "a string")

/-- Read a value for a field that has none yet. -/
def readOnce {α : Type} (field : String) (old : Option α) (read : Json → Except ReadFault α)
    (j : Json) : Except ReadFault (Option α) :=
  match old with
  | some _ => mismatch (.duplicateField field)
  | none => (read j).map some

/-- Read the entries of a document in order; unknown ones are passed over. -/
def readDocumentEntries (room : Nat) : PartialDocument → List (Option String × Json) →
    Except ReadFault PartialDocument
  | d, [] => .ok d
  | _, (none, _) :: _ => .error .malformed
  | d, (some key, value) :: rest => do
    match key with
    | "version" =>
      let version ← readOnce key d.version readVersion value
      readDocumentEntries room { d with version } rest
    | "name" =>
      let name ← readOnce key d.name readName value
      readDocumentEntries room { d with name } rest
    | "parameters" =>
      let parameters ← readOnce key d.parameters (readList readNamed room) value
      readDocumentEntries room { d with parameters } rest
    | "nodes" =>
      let nodes ← readOnce key d.nodes (readList readNode room) value
      readDocumentEntries room { d with nodes } rest
    | _ => if value.isWhole then readDocumentEntries room d rest else throw .malformed

/-- The document whose fields have been read; lists that are missing are empty. -/
def PartialDocument.complete (d : PartialDocument) : Except Mismatch Document :=
  match d.version, d.name with
  | none, _ => .error (.missingField "version")
  | _, none => .error (.missingField "name")
  | some version, some name =>
    .ok { version, name, parameters := d.parameters.getD [], nodes := d.nodes.getD [] }

/-- Read the item of an array at a position, unless the array is too short. -/
def readItem {α : Type} (read : Json → Except ReadFault α) (items : List Json) (i : Nat) :
    Except ReadFault (Option α) :=
  match items[i]? with
  | some j => (read j).map some
  | none => .ok none

/-- Read a document: an object, or an array of its fields, where lists may be left off. -/
def readDocument (room : Nat) : Json → Except ReadFault Document
  | .object entries => do
    fitting (← readDocumentEntries (← enter room) {} entries).complete
  | .array items => do
    let room ← enter room
    let expected := "struct NetworkDocument with 4 elements"
    let some version ← readItem readVersion items 0 | mismatch (.wrongLength 0 expected)
    let some name ← readItem readName items 1 | mismatch (.wrongLength 1 expected)
    let parameters ← readItem (readList readNamed room) items 2
    let nodes ← readItem (readList readNode room) items 3
    if items.length > 4 then throw .malformed
    return { version, name, parameters := parameters.getD [], nodes := nodes.getD [] }
  | j => wrongType "struct NetworkDocument" j

/-! ### Texts -/

/-- Read the value that a whole text stands for. -/
def readText {α : Type} (read : Json → Except ReadFault α) (text : String) :
    Except ReadFault α := do
  let (j, ends) := ofText text
  let a ← read j
  if ends then return a else throw .malformed

end WaterNetwork.Json
