import WaterNetwork.Content.Mismatch

/-!
# JSON texts as trees

A JSON text is read from the front, and a fault is reported where it stands. The tree of a text
therefore goes as far as the text can be read: where the text breaks off, a `cut` stands in the
place of the value that should come next, and nothing follows it. A reader of the tree walks it
in the order of the text and meets a wrong value before a cut that comes later.

A number too large for a double, or a text with half of a surrogate pair, has no value but does
not break the text off: it can be passed over.
-/

namespace WaterNetwork

/-- A JSON text as far as it can be read. -/
inductive Json where
  | null
  | boolean (value : Bool)
  | unsigned (value : UInt64)
  | signed (value : Int64)
  | float (value : Float)
  | string (text : String)
  | array (items : List Json)
  /-- Entries in the order of the text; a key may be a text without value. -/
  | object (entries : List (Option String × Json))
  /-- A scalar that has no value. -/
  | valueless
  /-- The text breaks off here. -/
  | cut

/-- Why a text is not read. -/
inductive ReadFault where
  /-- The text is not well formed. -/
  | malformed
  /-- The text is well formed up to a value that does not say what it should. -/
  | misfit (mismatch : Mismatch)

namespace Json

/-! ### Contents of trees -/

/-- How many collections may stand inside each other, less one that is never entered. -/
def depthLimit : Nat := 128

/-- Enter a collection: less room is left inside, and there has to be some. -/
def enter (room : Nat) : Except ReadFault Nat :=
  if room ≤ 1 then .error .malformed else .ok (room - 1)

mutual

/-- The content of a tree, with room for the collections in it. -/
def content (room : Nat) : Json → Except ReadFault Content
  | null => .ok .null
  | boolean value => .ok (.boolean value)
  | unsigned value => .ok (.unsigned value)
  | signed value => .ok (.signed value)
  | float value => .ok (.float value)
  | string text => .ok (.string text)
  | array items => do
    let room ← enter room
    return .sequence (← contents room items)
  | object entries => do
    let room ← enter room
    return .mapping (← entryContents room entries)
  | valueless | cut => .error .malformed

/-- The contents of items. -/
def contents (room : Nat) : List Json → Except ReadFault (List Content)
  | [] => .ok []
  | item :: rest => do
    let c ← content room item
    return c :: (← contents room rest)

/-- The contents of entries. -/
def entryContents (room : Nat) :
    List (Option String × Json) → Except ReadFault (List (Content × Content))
  | [] => .ok []
  | e :: rest => do
    let c ← entryContent room e
    return c :: (← entryContents room rest)

/-- The content of an entry. -/
def entryContent (room : Nat) : Option String × Json → Except ReadFault (Content × Content)
  | (some key, value) => do return (.string key, ← content room value)
  | (none, _) => .error .malformed

end

/-- What a value shows of itself before it is entered: a collection shows its kind only. -/
def surface : Json → Except ReadFault Content
  | null => .ok .null
  | boolean value => .ok (.boolean value)
  | unsigned value => .ok (.unsigned value)
  | signed value => .ok (.signed value)
  | float value => .ok (.float value)
  | string text => .ok (.string text)
  | array _ => .ok (.sequence [])
  | object _ => .ok (.mapping [])
  | valueless | cut => .error .malformed

mutual

/-- Whether a value can be passed over: the text does not break off inside. -/
def isWhole : Json → Bool
  | cut => false
  | array items => areWhole items
  | object entries => entriesAreWhole entries
  | _ => true

/-- Whether all items can be passed over. -/
def areWhole : List Json → Bool
  | [] => true
  | item :: rest => isWhole item && areWhole rest

/-- Whether all entries can be passed over. -/
def entriesAreWhole : List (Option String × Json) → Bool
  | [] => true
  | e :: rest => entryIsWhole e && entriesAreWhole rest

/-- Whether an entry can be passed over. -/
def entryIsWhole : Option String × Json → Bool
  | (_, value) => isWhole value

end

end Json

end WaterNetwork
