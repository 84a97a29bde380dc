import WaterNetwork.ValueError

/-!
# Identifiers

An identifier is a position in a list of registered things, counted from zero. What is stored
is the position plus one, a nonzero 32-bit number, so the last admissible position is
`2 ^ 32 - 2`. A sub-index picks one terminal of a node that has several.
-/

namespace WaterNetwork

/-- The position of a node in its network or of a parameter in its table. -/
structure Ident where
  index : Nat
  inRange : index + 1 < 2 ^ 32
  deriving DecidableEq

namespace Ident

/-- Identifiers are counted in 32 bits, zero left aside. -/
def limit : Nat := 2 ^ 32 - 1

/-- The identifier of a position. -/
def ofIndex (index : Nat) : Except ValueError Ident :=
  if h : index + 1 < 2 ^ 32 then .ok ⟨index, h⟩
  else .error (.invalidArgument "index exceeds the id range")

/-- The number that stands for an identifier in documents. -/
def stored (id : Ident) : Nat := id.index + 1

/-- The identifier that a stored number stands for. -/
def ofStored? (n : Nat) : Option Ident :=
  if h : 0 < n ∧ n < 2 ^ 32 then some ⟨n - 1, by omega⟩ else none

/-- An identifier is shown as its position. -/
def text (id : Ident) : String := toString id.index

/-- The form of an identifier that also says what it is. -/
def labelled (id : Ident) : String := s!"Id({id.index})"

theorem ofIndex_eq_ok_iff {n : Nat} {id : Ident} : ofIndex n = .ok id ↔ id.index = n := by
  unfold ofIndex
  split
  · rename_i h
    constructor
    · rintro ⟨⟩; rfl
    · rintro rfl; rfl
  · rename_i h
    simp only [reduceCtorEq, false_iff]
    rintro rfl
    exact h id.inRange

theorem exists_ofIndex_iff {n : Nat} : (∃ id, ofIndex n = .ok id) ↔ n < limit := by
  simp only [ofIndex_eq_ok_iff, limit]
  constructor
  · rintro ⟨id, rfl⟩; have := id.inRange; omega
  · intro h; exact ⟨⟨n, by omega⟩, rfl⟩

/-- Insert an identifier into an increasing list, unless it is there already. -/
def insertSorted (id : Ident) : List Ident → List Ident
  | [] => [id]
  | other :: rest =>
    if id.index < other.index then id :: other :: rest
    else if id.index = other.index then other :: rest
    else other :: insertSorted id rest

/-- The identifiers of a list in increasing order, each once. -/
def sortedSet (ids : List Ident) : List Ident := ids.foldr insertSorted []

end Ident

/-- The terminal of a node with several terminals. -/
structure SubIndex where
  value : UInt32
  deriving DecidableEq

/-- The text of an optional sub-index. -/
def SubIndex.optionText : Option SubIndex → String
  | some s => toString s.value.toNat
  | none => "None"

end WaterNetwork
