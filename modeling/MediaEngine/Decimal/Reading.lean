import MediaEngine.Binary64
import MediaEngine.Text.Integer

/-!
# Decimal texts read as doubles

The reader takes a decimal with an optional sign, point and exponent, single underscores between digits,
and the words for the infinities and for the value that is not a number. Which characters are trimmed
and which are digits is the caller's choice.
-/

namespace MediaEngine.Decimal
open Text

/-- The exponent at the end of a decimal: none at all, or a letter, an optional sign and digits. -/
def exponent? (digit : Char → Option Nat) : List Char → Option Int
  | [] => some 0
  | c :: rest =>
    if c = 'e' ∨ c = 'E' then
      let (negative, cs) := splitSign rest
      match digitRun digit cs with
      | ([], _) => none
      | (ds, []) => some (signedInt negative (ofDigits ds))
      | _ => none
    else none

/-- What follows the digits in front of the point. -/
def fractionRun (digit : Char → Option Nat) : List Char → List Nat × List Char
  | '.' :: rest => digitRun digit rest
  | cs => ([], cs)

/-- An unsigned decimal. -/
def unsigned? (digit : Char → Option Nat) (negative : Bool) (cs : List Char) : Option Binary64 :=
  let (whole, rest) := digitRun digit cs
  let (fraction, tail) := fractionRun digit rest
  if whole.isEmpty && fraction.isEmpty then none
  else
    (exponent? digit tail).map fun e =>
      Binary64.ofDecimal negative (ofDigits (whole ++ fraction)) (e - fraction.length)

/-- The double that a text writes. -/
def readDouble? (blank : Char → Bool) (digit : Char → Option Nat) (s : String) : Option Binary64 :=
  let (negative, cs) := splitSign (trimBy blank s.toList)
  let word := String.ofList (cs.map Char.toLower)
  if word = "nan" then some .nan
  else if word = "inf" ∨ word = "infinity" then some (.infinite negative)
  else unsigned? digit negative cs

end MediaEngine.Decimal
