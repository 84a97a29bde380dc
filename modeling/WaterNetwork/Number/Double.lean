/-!
# Doubles

A double is read through its bit pattern: a sign, an eleven-bit exponent field and a
fifty-two-bit fraction. Every question the library asks of a number (is it finite, which
digits name it, which double is nearest to a decimal) is settled on these fields in exact
natural-number arithmetic.
-/

namespace WaterNetwork

-- A power of natural numbers is that of the core library in every module, so that a definition
-- means the same where it is run and where something is proved about it: a module of proofs also
-- sees the powers of monoids.
attribute [scoped instance (high)] instPowNat
attribute [default_instance high + 1] instPowNat

namespace Number

/-! ### Fields of the bit pattern -/

/-- The exponent field of a double. -/
def exponentField (x : Float) : Nat := x.toBits.toNat / 2 ^ 52 % 2 ^ 11

/-- The fraction field of a double. -/
def fractionField (x : Float) : Nat := x.toBits.toNat % 2 ^ 52

/-- The sign bit of a double; it is set on `-0.0` too. -/
def isNegative (x : Float) : Bool := x.toBits.toNat / 2 ^ 63 == 1

/-- A double is finite unless all bits of its exponent field are set. -/
def isFinite (x : Float) : Bool := exponentField x != 2047

/-! ### What a double stands for -/

/-- The magnitude `significand * 2 ^ exponent`. -/
structure Dyadic where
  significand : Nat
  exponent : Int

/-- What a double stands for, its sign apart. -/
inductive Magnitude where
  /-- A number; zero has significand zero. -/
  | finite (value : Dyadic)
  | infinite
  | undefined

/-- Read the exponent and fraction fields: the leading one of a normal number is implied,
and subnormal numbers share the exponent of the smallest normal ones. -/
def magnitude (x : Float) : Magnitude :=
  match exponentField x, fractionField x with
  | 2047, 0 => .infinite
  | 2047, _ => .undefined
  | 0, f => .finite ⟨f, -1074⟩
  | e, f => .finite ⟨2 ^ 52 + f, e - 1075⟩

/-! ### The nearest double to a quotient -/

/-- Round `num / den` to the nearest natural number, a half going to the even neighbour. -/
def roundHalfEven (num den : Nat) : Nat :=
  let q := num / den
  let twice := 2 * (num % den)
  if twice < den then q
  else if twice > den then q + 1
  else q + q % 2

/-- The greatest `e` with `2 ^ e ≤ num / den`, for positive `num` and `den`. -/
def floorLog2 (num den : Nat) : Int :=
  let guess : Int := num.log2 - den.log2
  let reaches := if guess < 0 then den ≤ num * 2 ^ guess.natAbs else den * 2 ^ guess.natAbs ≤ num
  if reaches then guess else guess - 1

/-- The bits, sign apart, of the double nearest to `num / den`. The significand is rounded on
the grid of its binade, or of the subnormal numbers; adding it to the exponent field lets a
carry move to the next binade by itself, and past the last binade stands infinity. -/
def nearestBits (num den : Nat) : Nat :=
  if num = 0 then 0
  else
    let grid := max (floorLog2 num den - 52) (-1074)
    let significand :=
      if grid < 0 then roundHalfEven (num * 2 ^ grid.natAbs) den
      else roundHalfEven num (den * 2 ^ grid.natAbs)
    min ((grid + 1074).toNat * 2 ^ 52 + significand) (2047 * 2 ^ 52)

/-- The double nearest to `num / den` with the given sign. -/
def nearest (negative : Bool) (num den : Nat) : Float :=
  Float.ofBits (UInt64.ofNat ((if negative then 2 ^ 63 else 0) + nearestBits num den))

/-- The double nearest to an integer. -/
def ofInt (n : Int) : Float := nearest (n < 0) n.natAbs 1

end Number

end WaterNetwork
