import MediaEngine.Schema.Checked
import MediaEngine.Text.Integer
import MediaEngine.Text.Separated

/-!
# Whole numbers in the texts of records

A text writes a whole number plainly, with a minus or no sign and digits that do not start with a zero, or
loosely: then it is tidied first. Blanks at both ends, a plus, zeros in front with the underscores between
them, a fraction of zeros, and underscores that separate are taken away, and what is left has to be
plain. Only a plain text can be too long.
-/

namespace MediaEngine.Schema
open Text

/-- One of the digits `1` to `9`. -/
def isLeadingDigit (c : Char) : Bool := '1' ≤ c && c ≤ '9'

/-- The digits in front of a text, behind a minus or no sign, if they do not start with a zero. -/
def leadingDigits (cs : List Char) : List Char :=
  let unsigned := match cs with
    | '-' :: rest => rest
    | _ => cs
  if unsigned.head?.any isLeadingDigit then unsigned.takeWhile Char.isDigit else []

/-- A zero alone, or digits that start with another one. -/
def plainNat? (cs : List Char) : Option Nat :=
  if cs = ['0'] then some 0
  else if cs.head?.any isLeadingDigit && cs.all Char.isDigit && cs.length ≤ digitLimit then
    some (ofDigits (cs.filterMap plainDigit?))
  else none

/-- A whole number that is written plainly. -/
def plainInt? (cs : List Char) : Option Int :=
  match cs with
  | '-' :: rest => (plainNat? rest).map (signedInt true)
  | _ => (plainNat? cs).map (signedInt false)

/-- What is left behind a zero and the zeros and underscores that follow it. A digit or a minus there
    starts the number; in front of a point, and at the end, the last character is kept. -/
def behindZeros? (last : Char) : List Char → Option (List Char)
  | [] => some [last]
  | c :: rest =>
    if c = '0' ∨ c = '_' then behindZeros? c rest
    else if isLeadingDigit c ∨ c = '-' then some (c :: rest)
    else if c = '.' then some (last :: c :: rest)
    else none

/-- A text without the zeros in front; it has to start with a digit or a minus. -/
def withoutZeros? : List Char → Option (List Char)
  | '0' :: rest => behindZeros? '0' rest
  | c :: rest => if isLeadingDigit c ∨ c = '-' then some (c :: rest) else none
  | [] => none

/-- A text without the point and all behind it, where that is one or more zeros. -/
def withoutZeroFraction (cs : List Char) : List Char :=
  match cs.dropWhile (· != '.') with
  | _ :: zeros =>
    if !zeros.isEmpty && zeros.all (· == '0') then cs.takeWhile (· != '.') else cs
  | [] => cs

/-- The digits of a loosely written number behind its sign. -/
def tidied? (cs : List Char) : Option (List Char) :=
  (withoutZeros? cs).map fun rest =>
    let whole := withoutZeroFraction rest
    (joined? whole).getD whole

/-- A whole number that is written loosely. A minus behind the zeros counts as well, but a second one
    does not. -/
def looseInt? (cs : List Char) : Option Int :=
  match trimBy isWhiteSpace cs with
  | '+' :: '-' :: _ => none
  | '+' :: rest => (tidied? rest).bind plainInt?
  | '-' :: rest => (tidied? rest).bind fun digits => plainInt? ('-' :: digits)
  | rest => (tidied? rest).bind plainInt?

/-- The whole number that a text writes. -/
def integerText (s : String) : Checked Int :=
  let cs := s.toList
  if digitLimit < (leadingDigits cs).length then .problem .oversizedInteger
  else
    match (plainInt? cs).or (looseInt? cs) with
    | some n => .ok n
    | none => .problem .unreadableInteger

end MediaEngine.Schema
