import WaterNetwork.Number.Double
import WaterNetwork.Number.Decimal

/-!
# Shortest digits

Among all decimals that round to a given double, take those with the fewest digits, and of
these the one nearest to the double's exact value. The search walks the decimal grids from
coarse to fine; on each grid only the two neighbours of the exact value need testing, because
if any point of the grid lies in the interval of decimals that round to the double, one of
these two does.
-/

namespace WaterNetwork.Number

/-- Which neighbour is taken when the exact value lies half way between two digits. -/
inductive Tie where
  | up
  | toEven

/-- A quarter of the spacing of doubles around a value is the common unit of the interval:
its exact value, and the two ends, included or not. -/
structure Interval where
  low : Nat
  value : Nat
  high : Nat
  closed : Bool
  /-- The unit is `2 ^ exponent`. -/
  exponent : Int

/-- The decimals that round to a dyadic magnitude lie between the midpoints to its two
neighbours; the neighbour below is only half as far away at the foot of a binade. -/
def Interval.around (m : Dyadic) : Interval where
  low := 4 * m.significand - if m.significand = 2 ^ 52 ∧ m.exponent > -1074 then 1 else 2
  value := 4 * m.significand
  high := 4 * m.significand + 2
  closed := m.significand % 2 == 0
  exponent := m.exponent - 2

/-- The factors that bring multiples of `2 ^ binary` and of `10 ^ decimal` to one unit. -/
def commonUnit (binary decimal : Int) : Nat × Nat :=
  (2 ^ binary.toNat * 10 ^ (-decimal).toNat, 2 ^ (-binary).toNat * 10 ^ decimal.toNat)

/-- Whether a multiple of `10 ^ grid` lies in an interval. -/
def Interval.lies (i : Interval) (grid : Int) (n : Nat) : Bool :=
  let (unit, step) := commonUnit i.exponent grid
  if i.closed then i.low * unit ≤ n * step && n * step ≤ i.high * unit
  else i.low * unit < n * step && n * step < i.high * unit

/-- The multiple of `10 ^ grid` nearest to the interval's value among those that lie in the
interval, if any does. -/
def Interval.onGrid? (i : Interval) (tie : Tie) (grid : Int) : Option Nat :=
  let (unit, step) := commonUnit i.exponent grid
  let value := i.value * unit
  let below := value / step
  let twice := 2 * (value % step)
  let nearer :=
    if twice < step then below
    else if twice > step then below + 1
    else match tie with
      | .up => below + 1
      | .toEven => below + below % 2
  [nearer, below, below + 1].find? (i.lies grid)

/-- The exponent of the first decimal digit of `significand * 2 ^ exponent`. -/
def floorLog10 (m : Dyadic) : Int :=
  let num := m.significand * 2 ^ m.exponent.toNat
  let den := 2 ^ (-m.exponent).toNat
  if den ≤ num then digitCount (num / den) - 1
  else -(digitCount ((den - 1) / num) : Int)

/-- Search the grids `10 ^ grid`, `10 ^ (grid - 1)`, … for the first with a point in the
interval. -/
def Interval.search (i : Interval) (tie : Tie) (grid : Int) : Nat → Nat × Int
  | 0 => ((i.onGrid? tie grid).getD 0, grid)
  | fuel + 1 =>
    match i.onGrid? tie grid with
    | some n => (n, grid)
    | none => i.search tie (grid - 1) fuel

/-- The shortest digits of a positive magnitude, as digits and the exponent of the last one.
The search starts one grid above the first digit, where a magnitude just below a power of ten
may already find that power; seventeen digits always suffice for a double. -/
def shortest (tie : Tie) (m : Dyadic) : Nat × Int :=
  (Interval.around m).search tie (floorLog10 m + 1) 17

end WaterNetwork.Number
