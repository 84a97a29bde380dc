import WaterNetwork.Content.Mismatch

/-!
# Reading fields

A record is read from a list of fields, each with a name, a way to read its value, and what to
take if it is absent. Named entries are read in the order of the text, so the first fault of the
text is the one reported; what is missing is noticed at the end, in the order of the fields.
Entries without names are taken to be the fields in order. How the key of an entry picks a field
differs from record to record and is left to a key rule.
-/

namespace WaterNetwork

/-! ### Single values -/

namespace Content

/-- Read a number. -/
def readNumber (c : Content) : Except Mismatch Float :=
  match c.number? with
  | some x => .ok x
  | none => .error (.wrongType c.found "f64")

/-- Read a text; `expected` says what kind of text. -/
def readText (expected : String) : Content → Except Mismatch String
  | string text => .ok text
  | c => .error (.wrongType c.found expected)

/-- Read a whole number below a limit. -/
def readNatural (limit : Nat) (expected : String) : Content → Except Mismatch Nat
  | unsigned n =>
    if n.toNat < limit then .ok n.toNat else .error (.wrongValue (.integer n.toNat) expected)
  | signed n =>
    if 0 ≤ n.toInt ∧ n.toInt < limit then .ok n.toInt.toNat
    else .error (.wrongValue (.integer n.toInt) expected)
  | c => .error (.wrongType c.found expected)

/-- Read a value that may be null. -/
def readOptional {α : Type} (read : Content → Except Mismatch α) :
    Content → Except Mismatch (Option α)
  | null => .ok none
  | c => (read c).map some

/-- Read the items of a sequence. -/
def readSequence {α : Type} (read : Content → Except Mismatch α) (expected : String) :
    Content → Except Mismatch (List α)
  | sequence items => items.mapM read
  | c => .error (.wrongType c.found expected)

/-- Read the name of one of several variants; a position in their list serves as well. -/
def readVariant {α : Type} (variants : List α) (name : α → String) :
    Content → Except Mismatch α
  | string text =>
    match variants.find? (name · == text) with
    | some v => .ok v
    | none => .error (.unknownVariant text (variants.map name))
  | unsigned n =>
    match variants[n.toNat]? with
    | some v => .ok v
    | none =>
      .error (.wrongValue (.integer n.toNat) s!"variant index 0 <= i < {variants.length}")
  | c => .error (.wrongType c.found "variant identifier")

end Content

/-! ### Fields -/

/-- A field of a record whose values are read into `ν`. -/
structure Field (ν : Type) where
  name : String
  read : Content → Except Mismatch ν
  /-- The value of an absent field; without one the field has to be there. -/
  fallback : Option ν := none

/-- Which field the key of an entry picks: none if the entry is passed over. -/
abbrev KeyRule := Content → Except Mismatch (Option Nat)

namespace KeyRule

/-- The position of a name in a list. -/
def position? (names : List String) (name : String) : Option Nat := names.findIdx? (· == name)

/-- Every key has to name a field; a position serves as well. -/
def closed (names : List String) : KeyRule
  | .string text =>
    match position? names text with
    | some i => .ok (some i)
    | none => .error (.unknownField text names)
  | .unsigned n =>
    if n.toNat < names.length then .ok (some n.toNat)
    else .error (.wrongValue (.integer n.toNat) s!"field index 0 <= i < {names.length}")
  | c => .error (.wrongType c.found "field identifier")

/-- Keys that name no field are passed over; a position serves as well. -/
def openTo (names : List String) : KeyRule
  | .string text => .ok (position? names text)
  | .unsigned n => .ok (if n.toNat < names.length then some n.toNat else none)
  | c => .error (.wrongType c.found "field identifier")

/-- Keys that name no field are passed over; a position names none. -/
def named (names : List String) : KeyRule
  | .string text => .ok (position? names text)
  | .unsigned _ => .ok none
  | c => .error (.wrongType c.found "field identifier")

/-- Only texts are looked at; all other keys are passed over. -/
def textual (names : List String) : KeyRule
  | .string text => .ok (position? names text)
  | _ => .ok none

end KeyRule

namespace Field

variable {ν : Type}

/-- Read entries into slots, one slot for each field. -/
def readEntries (rule : KeyRule) (fields : List (Field ν)) :
    List (Option ν) → List (Content × Content) → Except Mismatch (List (Option ν))
  | slots, [] => .ok slots
  | slots, (key, value) :: rest => do
    match ← rule key with
    | none => readEntries rule fields slots rest
    | some i =>
      match fields[i]?, slots[i]? with
      | some field, some none =>
        let v ← field.read value
        readEntries rule fields (slots.set i (some v)) rest
      | some field, _ => .error (.duplicateField field.name)
      | none, _ => readEntries rule fields slots rest

/-- Fill the empty slots. -/
def fill : List (Field ν) → List (Option ν) → Except Mismatch (List ν)
  | field :: fields, slot :: slots => do
    match slot.or field.fallback with
    | some v => return v :: (← fill fields slots)
    | none => .error (.missingField field.name)
  | _, _ => .ok []

/-- Read a record from named entries. -/
def readMapping (rule : KeyRule) (fields : List (Field ν)) (entries : List (Content × Content)) :
    Except Mismatch (List ν) := do
  fill fields (← readEntries rule fields (fields.map fun _ => none) entries)

/-- Read fields from the front of a list of items, from position `i`; `expected` is what to say
if a field is missing. -/
def readInOrder (expected : String) : Nat → List (Field ν) → List Content → Except Mismatch (List ν)
  | _, [], _ => .ok []
  | i, field :: fields, item :: items => do
    let v ← field.read item
    return v :: (← readInOrder expected (i + 1) fields items)
  | i, field :: fields, [] =>
    match field.fallback with
    | some v => do return v :: (← readInOrder expected (i + 1) fields [])
    | none => .error (.wrongLength i expected)

/-- Read a record from items in order; there must be no more of them than fields. -/
def readItems (type : String) (fields : List (Field ν)) (items : List Content) :
    Except Mismatch (List ν) := do
  let values ← readInOrder s!"{type} with {elementCount fields.length}" 0 fields items
  if items.length > fields.length then
    throw (.wrongLength items.length s!"{elementCount fields.length} in sequence")
  return values

/-- Read a record from a body of either form. -/
def readBody (rule : KeyRule) (type : String) (fields : List (Field ν)) :
    Body → Except Mismatch (List ν)
  | .fields entries => readMapping rule fields entries
  | .items items => readItems type fields items

end Field

/-! ### Tags -/

/-- The key of a tag. -/
def tagKey : String := "type"

namespace Content

/-- Take the tag out of a list of entries, wherever it stands; it has to be there once. -/
def splitTag {κ : Type} (readTag : Content → Except Mismatch κ) :
    Option κ → List (Content × Content) → Except Mismatch (κ × List (Content × Content))
  | none, [] => .error (.missingField tagKey)
  | some tag, [] => .ok (tag, [])
  | tag?, (.string key, value) :: rest =>
    if key = tagKey then
      match tag? with
      | some _ => .error (.duplicateField tagKey)
      | none => do splitTag readTag (some (← readTag value)) rest
    else do
      let (tag, others) ← splitTag readTag tag? rest
      return (tag, (.string key, value) :: others)
  | tag?, (key, value) :: rest => do
    let (tag, others) ← splitTag readTag tag? rest
    return (tag, (key, value) :: others)

/-- Read a tagged value: entries with a tag among them, or items after a tag. -/
def readTagged {κ : Type} (type : String) (readTag : Content → Except Mismatch κ) :
    Content → Except Mismatch (κ × Body)
  | mapping entries => do
    let (tag, others) ← splitTag readTag none entries
    return (tag, .fields others)
  | sequence [] => .error (.missingField tagKey)
  | sequence (tag :: items) => do return (← readTag tag, .items items)
  | c => .error (.wrongType c.found s!"internally tagged enum {type}")

end Content

end WaterNetwork
