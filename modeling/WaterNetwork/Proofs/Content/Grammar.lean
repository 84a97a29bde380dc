import Mathlib.Data.List.Forall2
import WaterNetwork.Content.Definition
import WaterNetwork.Content.Node
import WaterNetwork.Document

/-!
# The grammar of documents

Which contents stand for a definition, a constraint field, a named parameter or a node, and for
which one. A value has named parts, each of which is absent or has a content. As a record it
lists the parts that are there as entries, in any order; without names it lists them in their
own order, and only the last ones may be absent.

* `IsDefinition` — a definition is strict: its entries are its parts and nothing else.
* `IsField`, `IsNamed` — what stands for a constraint field and for a named parameter.
* `IsNode` — a node is open: entries that are no parts of it do not matter.

Nothing here says how a value is read. In a content that has been collected, a position in the
list of variants stands for a variant as well as its name does (`IsVariant`).
-/

namespace WaterNetwork

namespace Content

/-! ### Records -/

/-- The entries of a mapping from texts. -/
def keyed (entries : List (String × Content)) : List (Content × Content) :=
  entries.map fun e => entry e.1 e.2

/-- A mapping from texts. -/
def record (entries : List (String × Content)) : Content := mapping (keyed entries)

/-- The contents that stand under a key. -/
def under (key : String) (entries : List (String × Content)) : List Content :=
  (entries.filter (·.1 = key)).map (·.2)

/-- The entries of the parts that are there. -/
def given (parts : List (String × Option Content)) : List (String × Content) :=
  parts.filterMap fun (key, c?) => c?.map (key, ·)

/-- **Parts in their order**: the items are those that are there, and only the last parts are
absent. -/
def InOrder (parts : List (String × Option Content)) (items : List Content) : Prop :=
  ∃ absent, parts.map (·.2) = items.map some ++ List.replicate absent none

/-! ### Single values -/

/-- A number. A whole number stands for the nearest double. -/
inductive IsNumber : Content → Float → Prop where
  | unsigned (n : UInt64) : IsNumber (.unsigned n) (Number.ofInt n.toNat)
  | signed (n : Int64) : IsNumber (.signed n) (Number.ofInt n.toInt)
  | float (x : Float) : IsNumber (.float x) x

/-- A whole number that is not negative. -/
inductive IsNatural : Content → Nat → Prop where
  | unsigned (n : UInt64) : IsNatural (.unsigned n) n.toNat
  | signed {n : Int64} : 0 ≤ n.toInt → IsNatural (.signed n) n.toInt.toNat

/-- A text. -/
inductive IsText : Content → String → Prop where
  | intro (text : String) : IsText (.string text) text

/-- A sub-index is a whole number of 32 bits. -/
def IsSubIndex (c : Content) (s : SubIndex) : Prop := c.IsNatural s.value.toNat

/-- A value that may be absent; null stands for nothing. -/
inductive IsOptional {α : Type} (Is : Content → α → Prop) : Option Content → Option α → Prop where
  | absent : IsOptional Is none none
  | null : IsOptional Is (some .null) none
  | present {c : Content} {a : α} : Is c a → IsOptional Is (some c) (some a)

/-- A number that is zero if it is absent. Null does not stand for it. -/
inductive IsNumberOrZero : Option Content → Float → Prop where
  | absent : IsNumberOrZero none 0.0
  | present {c : Content} {x : Float} : c.IsNumber x → IsNumberOrZero (some c) x

/-- One of several variants: its name, or its position in their list. -/
inductive IsVariant {α : Type} (variants : List α) (name : α → String) : Content → α → Prop where
  | name {v : α} : v ∈ variants → IsVariant variants name (.string (name v)) v
  | position {n : UInt64} {v : α} : variants[n.toNat]? = some v →
    IsVariant variants name (.unsigned n) v

/-- An aggregation: its name, alone or as the only key of a mapping to nothing. -/
inductive IsAggregation : Content → Aggregation → Prop where
  | name (function : Aggregation) : IsAggregation (.string function.text) function
  | null {key : Content} {function : Aggregation} :
    IsVariant Aggregation.all Aggregation.text key function →
    IsAggregation (.mapping [(key, .null)]) function
  | empty {key : Content} {function : Aggregation} :
    IsVariant Aggregation.all Aggregation.text key function →
    IsAggregation (.mapping [(key, .mapping [])]) function

/-- The kind of a definition. -/
def IsKind : Content → DefinitionKind → Prop :=
  IsVariant DefinitionKind.all DefinitionKind.text

end Content

open Content

/-! ### Definitions -/

/-- **The parts of a definition**, next to its type. -/
inductive Definition.HasParts : Definition → List (String × Option Content) → Prop where
  | constant {c : Content} {value : Float} : c.IsNumber value →
    HasParts (.constant value) [("value", some c)]
  | monthlyProfile {cs : List Content} {values : Vector Float 12} :
    List.Forall₂ IsNumber cs values.toList →
    HasParts (.monthlyProfile values) [("values", some (.sequence cs))]
  | timeseries {url : Path} {c? : Option Content} {column : Option String} :
    IsOptional IsText c? column →
    HasParts (.timeseries url column) [("url", some (.string url)), ("column", c?)]
  | bounded {bound : Bound} {parameter : String} {c? : Option Content}
    {threshold : Option Float} : IsOptional IsNumber c? threshold →
    HasParts (.bounded bound parameter threshold)
      [("parameter", some (.string parameter)), ("threshold", c?)]
  | negative {parameter : String} :
    HasParts (.negative parameter) [("parameter", some (.string parameter))]
  | aggregated {parameters : List String} {c : Content} {function : Aggregation} :
    c.IsAggregation function →
    HasParts (.aggregated parameters function)
      [("parameters", some (.sequence (parameters.map .string))), ("agg_func", some c)]
  | division {numerator denominator : String} :
    HasParts (.division numerator denominator)
      [("numerator", some (.string numerator)), ("denominator", some (.string denominator))]
  | delay {node : String} {c? : Option Content} {sub : Option SubIndex} {c : Content}
    {steps : UInt64} {x : Content} {initialValue : Float} :
    IsOptional IsSubIndex c? sub → c.IsNatural steps.toNat → x.IsNumber initialValue →
    HasParts (.delay node sub steps initialValue)
      [("node", some (.string node)), ("sub_index", c?), ("delay", some c),
        ("initial_value", some x)]

namespace Content

/-- **What stands for a definition**, with the given content as its type. -/
inductive IsDefinition (type : Content) (d : Definition) : Content → Prop where
  | record {parts : List (String × Option Content)} {entries : List (String × Content)} :
    d.HasParts parts → entries.Perm (given ((tagKey, some type) :: parts)) →
    IsDefinition type d (record entries)
  | sequence {parts : List (String × Option Content)} {items : List Content} :
    d.HasParts parts → InOrder parts items → IsDefinition type d (.sequence (type :: items))

/-- **What stands for a named parameter**: the entries of a definition and its name. -/
inductive IsNamed (p : NamedParameter) : Content → Prop where
  | record {type : Content} {parts : List (String × Option Content)}
    {entries : List (String × Content)} :
    type.IsKind p.definition.kind → p.definition.HasParts parts →
    entries.Perm (given (("name", some (.string p.name)) :: (tagKey, some type) :: parts)) →
    IsNamed p (record entries)

/-- **What stands for a constraint field**: a number, a text or a definition. -/
inductive IsField : Content → ConstraintField → Prop where
  | literal {c : Content} {x : Float} : c.IsNumber x → IsField c (.literal x)
  | reference (name : String) : IsField (.string name) (.reference name)
  | inline {type c : Content} {d : Definition} : type.IsKind d.kind → IsDefinition type d c →
    IsField c (.inline d)

end Content

/-! ### Nodes -/

/-- **The parts of a node**, next to its type. -/
inductive NodeDeclaration.HasParts : NodeDeclaration → List (String × Option Content) → Prop where
  | flow {kind : NodeKind} {name : String} {c₁ c₂ c₃ : Option Content}
    {cost maxFlow minFlow : Option ConstraintField} :
    IsOptional IsField c₁ cost → IsOptional IsField c₂ maxFlow → IsOptional IsField c₃ minFlow →
    HasParts (.flow kind name { cost, maxFlow, minFlow })
      [("name", some (.string name)), ("cost", c₁), ("max_flow", c₂), ("min_flow", c₃)]
  | delay {name : String} {c : Content} {steps : UInt64} {c? : Option Content}
    {initialValue : Float} : c.IsNatural steps.toNat → IsNumberOrZero c? initialValue →
    HasParts (.delay name steps initialValue)
      [("name", some (.string name)), ("delay", some c), ("initial_value", c?)]

namespace Content

/-- The entries whose keys are names of parts. -/
def named (parts : List (String × Option Content)) (entries : List (String × Content)) :
    List (String × Content) :=
  entries.filter (·.1 ∈ parts.map (·.1))

/-- **What stands for a node**: entries among which are its type and its parts. A delay may also be
written without names. -/
inductive IsNode (d : NodeDeclaration) : Content → Prop where
  | record {parts : List (String × Option Content)} {entries : List (String × Content)} :
    d.HasParts parts →
    (named ((tagKey, some (.string d.kind.text)) :: parts) entries).Perm
      (given ((tagKey, some (.string d.kind.text)) :: parts)) →
    IsNode d (record entries)
  | sequence {parts : List (String × Option Content)} {items : List Content} :
    d.kind = .delay → d.HasParts parts → InOrder parts items →
    IsNode d (.sequence (.string d.kind.text :: items))

end Content

end WaterNetwork
