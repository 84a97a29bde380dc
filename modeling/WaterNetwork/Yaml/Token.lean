import WaterNetwork.Yaml.Tag

/-!
# YAML tokens

The tokens of a YAML text. Blocks that are marked by indentation alone have tokens for their
beginning and end, and the key of a mapping has one even if no mark stands in front of it.
-/

namespace WaterNetwork.Yaml

/-- How a scalar is written. -/
inductive ScalarStyle where
  | plain
  /-- Between single or double quotes. -/
  | quoted
  /-- As a block whose line breaks are kept. -/
  | literal
  /-- As a block whose lines are joined. -/
  | folded
  deriving DecidableEq

/-- A token. -/
inductive Token where
  | version (major minor : Nat)
  | tagHandle (handle : String) (expansion : Tag)
  | documentStart
  | documentEnd
  | blockSequenceStart
  | blockMappingStart
  | blockEnd
  | flowSequenceStart
  | flowSequenceEnd
  | flowMappingStart
  | flowMappingEnd
  | blockEntry
  | flowEntry
  | key
  | value
  | alias (name : String)
  | anchor (name : String)
  | tag (handle : String) (suffix : Tag)
  | scalar (style : ScalarStyle) (text : String)
  deriving DecidableEq

end WaterNetwork.Yaml
