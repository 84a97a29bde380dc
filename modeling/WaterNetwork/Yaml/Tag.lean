/-!
# YAML tags

A tag is an address. It is written in ASCII, but by escapes any byte can stand in it, so that a tag
is a sequence of bytes and need not be a text. A zero byte ends it. Tags that start with an
exclamation mark are local to a document; a local tag that is a text names a kind of value of its
own, and no part of a document is of such a kind.
-/

namespace WaterNetwork.Yaml

/-- A tag, or a part of one. -/
structure Tag where
  bytes : List UInt8
  zero_notMem : 0 ∉ bytes
  deriving DecidableEq

namespace Tag

/-- The tag that bytes make up: those in front of the first zero. -/
def ofBytes (bytes : List UInt8) : Tag where
  bytes := bytes.takeWhile (· != 0)
  zero_notMem h := by simpa using List.all_eq_true.1 List.all_takeWhile 0 h

/-- The tag that a text spells. -/
def ofString (text : String) : Tag := ofBytes (text.toList.flatMap String.utf8EncodeChar)

instance : Append Tag where
  append a b := {
    bytes := a.bytes ++ b.bytes
    zero_notMem := by simp [a.zero_notMem, b.zero_notMem] }

/-- Whether nothing is left of a tag. -/
def isEmpty (tag : Tag) : Bool := tag.bytes.isEmpty

/-- Whether a tag starts with the mark of local tags. -/
def isLocal (tag : Tag) : Bool := tag.bytes.head? == some '!'.toUInt8

/-- Whether a tag is local and a text, and so names a kind of value of its own. -/
def isLocalName (tag : Tag) : Bool := tag.isLocal && tag.bytes.toByteArray.validateUTF8

/-- The mark of local tags alone. -/
def localMark : Tag := ofString "!"

/-- The tag by which a document asks for one of the basic kinds of scalars. -/
def core (name : String) : Tag := ofString "tag:yaml.org,2002:" ++ ofString name

end Tag

end WaterNetwork.Yaml
