import MediaEngine.Decimal.Text

/-!
# Numbers

A number is a whole number of any size or a double, and the two are kept apart. Arithmetic of whole
numbers is exact; where a double takes part the whole number is converted first, and a whole number
beyond the doubles has no conversion. Comparison is exact and never fails.
-/

namespace MediaEngine

/-- Why an arithmetic operation has no result. -/
inductive ArithmeticError where
  /-- A whole number is too large for a double. -/
  | wholeTooLarge
  /-- The quotient of two whole numbers is too large for a double. -/
  | quotientTooLarge
  /-- The divisor is a zero. -/
  | divisionByZero
  deriving DecidableEq

/-- The wording of an arithmetic error. -/
def ArithmeticError.message : ArithmeticError → String
  | .wholeTooLarge => "int too large to convert to float"
  | .quotientTooLarge => "integer division result too large for a float"
  | .divisionByZero => "float division by zero"

/-- A whole number of any size, or a double. -/
inductive Number where
  | int (n : Int)
  | float (x : Binary64)
  deriving DecidableEq

instance : Inhabited Number := ⟨.int 0⟩

namespace Number

/-- The first whole number beyond 64 bits with a sign, `2 ^ 63`. -/
def wordLimit : Int := 0x8000000000000000

/-- The decimal digits of a whole number, with its sign. -/
def intText (n : Int) : String :=
  String.ofList (if n < 0 then '-' :: Decimal.digits n.natAbs else Decimal.digits n.natAbs)

/-- The text of a number: all digits of a whole number, the shortest text of a double. -/
def text : Number → String
  | .int n => intText n
  | .float x => x.text

/-- The number as a double. -/
def toDouble : Number → Except ArithmeticError Binary64
  | .float x => .ok x
  | .int n => (Binary64.ofInt? n).elim (.error .wholeTooLarge) .ok

/-- Whether the number is finite, asked of its double. -/
def isFinite (n : Number) : Except ArithmeticError Bool := return (← n.toDouble).isFinite

/-- Whether the number is the value that is not a number, asked of its double. -/
def isNaN (n : Number) : Except ArithmeticError Bool := return (← n.toDouble).isNaN

/-- The place on the number line. -/
def extent : Number → Option Extent
  | .int n => some (.within (n * Binary64.one))
  | .float x => x.extent

/-- The exact strict order. -/
def lt (x y : Number) : Bool :=
  match x.extent, y.extent with
  | some a, some b => a.lt b
  | _, _ => false

/-- The exact order; nothing is ordered with the value that is not a number. -/
def le (x y : Number) : Bool :=
  match x.extent, y.extent with
  | some a, some b => !b.lt a
  | _, _ => false

/-- The larger of the two; the first where they are equal or cannot be compared. -/
def max (x y : Number) : Number := if x.lt y then y else x

/-- The smaller of the two; the first where they are equal or cannot be compared. -/
def min (x y : Number) : Number := if y.lt x then y else x

/-- The zero among doubles. -/
def zero : Number := .float Binary64.zero

/-- The difference. -/
def sub : Number → Number → Except ArithmeticError Number
  | .int a, .int b => .ok (.int (a - b))
  | x, y => do return .float ((← x.toDouble).sub (← y.toDouble))

/-- The product. -/
def mul : Number → Number → Except ArithmeticError Number
  | .int a, .int b => .ok (.int (a * b))
  | x, y => do return .float ((← x.toDouble).mul (← y.toDouble))

/-- The quotient of two whole numbers, correctly rounded. -/
def intQuotient (a b : Int) : Except ArithmeticError Binary64 :=
  if b = 0 then .error .divisionByZero
  else
    let q := Binary64.round (decide (a < 0) != decide (b < 0)) (a.natAbs * Binary64.one) b.natAbs
    if q.isFinite then .ok q else .error .quotientTooLarge

/-- The quotient as a double. -/
def div : Number → Number → Except ArithmeticError Binary64
  | .int a, .int b => intQuotient a b
  | x, y => do
    let a ← x.toDouble
    let b ← y.toDouble
    if b.isZero then throw .divisionByZero
    return a.div b

/-- Whether the number is a zero of either kind. -/
def isZero : Number → Bool
  | .int n => n == 0
  | .float x => x.isZero

end Number

end MediaEngine
