import WaterNetwork.Number.Double

/-!
# Contents

A content is a value of a document before it is known what the value is for: a scalar, a
sequence, or a mapping with its entries in the order of the text. Keys may be of any kind and may
come more than once; whether that is a fault is decided by whoever reads the mapping.
-/

namespace WaterNetwork

/-- A value of a document. -/
inductive Content where
  | null
  | boolean (value : Bool)
  | unsigned (value : UInt64)
  /-- A whole number read with a minus sign. -/
  | signed (value : Int64)
  | float (value : Float)
  | string (text : String)
  | sequence (items : List Content)
  | mapping (entries : List (Content × Content))

namespace Content

/-- The number that a content stands for where any number may stand; whole numbers are rounded to
the nearest double. -/
def number? : Content → Option Float
  | unsigned n => some (Number.ofInt n.toNat)
  | signed n => some (Number.ofInt n.toInt)
  | float x => some x
  | _ => none

/-- An entry whose key is a text. -/
def entry (key : String) (value : Content) : Content × Content := (string key, value)

end Content

/-- The part of a tagged value that is not its tag: named fields, or fields in order. -/
inductive Body where
  | fields (entries : List (Content × Content))
  | items (values : List Content)

end WaterNetwork
