import WaterNetwork.Ident
import WaterNetwork.Path

/-!
# Parameter definitions

A parameter is declared, not computed: its definition says what the simulation is to evaluate.
Some kinds combine other parameters, which they name; `references` lists these names and
`check` tests the values that a definition carries itself.
-/

namespace WaterNetwork

/-- The kinds of definition, in the order in which they are listed. -/
inductive DefinitionKind where
  | constant
  | monthlyProfile
  | timeseries
  | max
  | min
  | negative
  | negativeMax
  | negativeMin
  | aggregated
  | division
  | delay
  deriving DecidableEq

namespace DefinitionKind

/-- Every kind. -/
def all : List DefinitionKind :=
  [constant, monthlyProfile, timeseries, max, min, negative, negativeMax, negativeMin, aggregated,
    division, delay]

/-- The name of a kind. -/
def text : DefinitionKind → String
  | constant => "Constant"
  | monthlyProfile => "MonthlyProfile"
  | timeseries => "Timeseries"
  | max => "Max"
  | min => "Min"
  | negative => "Negative"
  | negativeMax => "NegativeMax"
  | negativeMin => "NegativeMin"
  | aggregated => "Aggregated"
  | division => "Division"
  | delay => "Delay"

/-- The kind of a name. -/
def ofText? (name : String) : Option DefinitionKind := all.find? (·.text == name)

theorem ofText?_text (k : DefinitionKind) : ofText? k.text = some k := by
  cases k <;> rfl

end DefinitionKind

/-- How several operands become one value. -/
inductive Aggregation where
  | sum
  | product
  | mean
  | min
  | max
  deriving DecidableEq

namespace Aggregation

/-- Every aggregation. -/
def all : List Aggregation := [sum, product, mean, min, max]

/-- The name of an aggregation. -/
def text : Aggregation → String
  | sum => "sum"
  | product => "product"
  | mean => "mean"
  | min => "min"
  | max => "max"

/-- The aggregation of a name. -/
def ofText? (name : String) : Option Aggregation := all.find? (·.text == name)

theorem ofText?_text (a : Aggregation) : ofText? a.text = some a := by cases a <;> rfl

end Aggregation

/-- How a parameter is held against a threshold: itself or its negation, from below or above. -/
inductive Bound where
  | max
  | min
  | negativeMax
  | negativeMin
  deriving DecidableEq

/-- The kind of definition that a bound makes. -/
def Bound.kind : Bound → DefinitionKind
  | max => .max
  | min => .min
  | negativeMax => .negativeMax
  | negativeMin => .negativeMin

/-- A parameter as it is declared. -/
inductive Definition where
  | constant (value : Float)
  /-- A value for each month, January first. -/
  | monthlyProfile (values : Vector Float 12)
  /-- Values in a data file; a relative path starts at the directory of the model. -/
  | timeseries (url : Path) (column : Option String)
  /-- A parameter held against a threshold, which is zero where none is given. -/
  | bounded (bound : Bound) (parameter : String) (threshold : Option Float)
  | negative (parameter : String)
  | aggregated (parameters : List String) (function : Aggregation)
  | division (numerator denominator : String)
  /-- The flow into a terminal, a number of timesteps ago. -/
  | delay (node : String) (sub : Option SubIndex) (steps : UInt64) (initialValue : Float)

namespace Definition

/-- The kind of a definition. -/
def kind : Definition → DefinitionKind
  | constant _ => .constant
  | monthlyProfile _ => .monthlyProfile
  | timeseries _ _ => .timeseries
  | bounded b _ _ => b.kind
  | negative _ => .negative
  | aggregated _ _ => .aggregated
  | division _ _ => .division
  | delay _ _ _ _ => .delay

/-- The parameters that a definition combines, in the order in which it names them. -/
def references : Definition → List String
  | bounded _ parameter _ => [parameter]
  | negative parameter => [parameter]
  | aggregated parameters _ => parameters
  | division numerator denominator => [numerator, denominator]
  | constant _ | monthlyProfile _ | timeseries _ _ | delay _ _ _ _ => []

/-- The numbers that a definition carries. -/
def numbers : Definition → List Float
  | constant value => [value]
  | monthlyProfile values => values.toList
  | bounded _ _ threshold => threshold.toList
  | delay _ _ _ initialValue => [initialValue]
  | timeseries _ _ | negative _ | aggregated _ _ | division _ _ => []

/-- Check the values that a definition carries itself. -/
def check : Definition → Except ValueError Unit
  | constant value => (ensureFinite "constant value" value).map fun _ => ()
  | monthlyProfile values => ensureAllFinite "monthly profile" values.toList
  | timeseries url _ =>
    if url = "" then .error (.invalidArgument "timeseries url must not be empty") else .ok ()
  | bounded _ _ (some threshold) => (ensureFinite "threshold" threshold).map fun _ => ()
  | bounded _ _ none => .ok ()
  | aggregated parameters _ =>
    if parameters.isEmpty then
      .error (.invalidArgument "aggregated parameter needs at least one operand")
    else .ok ()
  | negative _ | division _ _ => .ok ()
  | delay _ _ steps initialValue =>
    if steps = 0 then .error (.invalidArgument "delay must be at least one timestep")
    else (ensureFinite "delay initial value" initialValue).map fun _ => ()

end Definition

/-! ### Constraint fields -/

/-- The value of a cost or of a flow bound, as declared: a number, the name of a parameter, or a
definition on the spot. -/
inductive ConstraintField where
  | literal (value : Float)
  | reference (name : String)
  | inline (definition : Definition)

/-- The numbers that a constraint field carries. -/
def ConstraintField.numbers : ConstraintField → List Float
  | literal value => [value]
  | reference _ => []
  | inline d => d.numbers

end WaterNetwork
