import MediaEngine.Text.Blank
import MediaEngine.Text.Digit

/-!
# Whole numbers in texts

The reader of operator input: white space at both ends, an optional sign, then decimal digits of any script,
with single underscores allowed between digits. At most 4300 digits are read.
-/

namespace MediaEngine.Text

/-- The most digits that a whole number in a text may have. -/
def digitLimit : Nat := 4300

/-- The digits in front of a text and what follows. Directly after a digit one underscore may stand, if
    a digit comes after it. -/
def digitsFrom (digit : Char → Option Nat) (afterDigit : Bool) : List Char → List Nat × List Char
  | [] => ([], [])
  | c :: rest =>
    match digit c with
    | some d =>
      let (ds, tail) := digitsFrom digit true rest
      (d :: ds, tail)
    | none =>
      if c = '_' ∧ afterDigit = true then
        match digitsFrom digit false rest with
        | ([], _) => ([], c :: rest)
        | (ds, tail) => (ds, tail)
      else ([], c :: rest)

/-- The digits in front of a text, with single underscores between them, and what follows. -/
def digitRun (digit : Char → Option Nat) (cs : List Char) : List Nat × List Char :=
  digitsFrom digit false cs

/-- The number that digits of base ten write. -/
def ofDigits (ds : List Nat) : Nat := ds.foldl (fun n d => n * 10 + d) 0

/-- A sign in front, and what follows it. -/
def splitSign : List Char → Bool × List Char
  | '-' :: rest => (true, rest)
  | '+' :: rest => (false, rest)
  | cs => (false, cs)

/-- A natural number with a sign. -/
def signedInt (negative : Bool) (n : Nat) : Int := if negative then -(n : Int) else n

/-- The whole number that a text writes. -/
def readInt? (s : String) : Option Int :=
  let (negative, cs) := splitSign (trimBy isWhiteSpace s.toList)
  match digitRun digitValue? cs with
  | ([], _) => none
  | (ds, []) => if ds.length ≤ digitLimit then some (signedInt negative (ofDigits ds)) else none
  | _ => none

end MediaEngine.Text
