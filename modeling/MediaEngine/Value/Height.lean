import MediaEngine.Value

/-!
# The height of values

Records with members of any value are written as long as no such value is too high.
-/

namespace MediaEngine

namespace Value

mutual

/-- How many values lie inside each other at most, the value itself included. -/
def height : Value → Nat
  | .list items => 1 + itemsHeight items
  | .object members => 1 + membersHeight members
  | _ => 1

/-- The height of the highest item. -/
def itemsHeight : List Value → Nat
  | [] => 0
  | v :: rest => max v.height (itemsHeight rest)

/-- The height of the highest member. -/
def membersHeight : List (String × Value) → Nat
  | [] => 0
  | (_, v) :: rest => max v.height (membersHeight rest)

end

/-- The greatest height of a value that is written. -/
def heightLimit : Nat := 255

/-- Whether a value may be written. -/
def isWritable (v : Value) : Bool := decide (v.height ≤ heightLimit)

end Value

/-- Whether every member of an object may be written. -/
def Members.areWritable (m : Members) : Bool := m.all (·.2.isWritable)

/-- Why a record is not written. -/
inductive HeightError where
  /-- A value in it is too high. -/
  | tooHigh
  /-- A value is too high in a record of one of several kinds. Such a record is tried more than once, and
      the second time the value is come across again and taken for one that holds itself. -/
  | metAgain
  deriving DecidableEq

/-- The wording. -/
def HeightError.message : HeightError → String
  | .tooHigh => "Maximum serialization depth exceeded"
  | .metAgain => "Circular reference detected (id repeated)"

/-- What is written of a record if all its values may be. -/
def writtenIf (writable : Bool) (written : Value) : Except HeightError Value :=
  if writable then .ok written else .error .tooHigh

end MediaEngine
