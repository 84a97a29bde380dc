import WaterNetwork.Number.Layout

/-!
# Faults of single values

A number that is not finite, or an argument outside its range, together with the checks that
report numbers. A list is checked from the front, so its first number that is not finite is the
one reported.
-/

namespace WaterNetwork

/-- Why a single value is refused. -/
inductive ValueError where
  /-- A number that is infinite or undefined; `what` names its role. -/
  | nonFinite (what : String) (value : Float)
  /-- An argument outside its range. -/
  | invalidArgument (what : String)

/-- The wording of a fault. -/
def ValueError.message : ValueError → String
  | .nonFinite what value => s!"Non-finite numeric value for {what}: {Number.plain.text value}"
  | .invalidArgument what => s!"Invalid argument: {what}"

/-- Pass a finite number through and refuse any other. -/
def ensureFinite (what : String) (value : Float) : Except ValueError Float :=
  if Number.isFinite value then .ok value else .error (.nonFinite what value)

/-- Check every number of a list. -/
def ensureAllFinite (what : String) : List Float → Except ValueError Unit
  | [] => .ok ()
  | value :: rest =>
    if Number.isFinite value then ensureAllFinite what rest else .error (.nonFinite what value)

theorem ensureAllFinite_eq_ok_iff {what : String} {xs : List Float} :
    ensureAllFinite what xs = .ok () ↔ ∀ x ∈ xs, Number.isFinite x = true := by
  induction xs with
  | nil => simp [ensureAllFinite]
  | cons x xs ih =>
    by_cases h : Number.isFinite x = true <;> simp [ensureAllFinite, h, ih]

end WaterNetwork
