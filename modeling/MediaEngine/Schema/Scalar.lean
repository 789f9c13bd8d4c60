import MediaEngine.Schema.Integer
import MediaEngine.Decimal.Reading

/-!
# Reading single values

How a text, a number, a whole number, a truth value or one of a fixed choice is read from a value. Texts
that write a number or a truth value count as that number or truth value.
-/

namespace MediaEngine.Schema
open Text

/-- A text as it is. -/
def readText : Value → Checked String
  | .text s => .ok s
  | _ => .problem .notText

/-- Anything at all. -/
def readAny (v : Value) : Checked Value := .ok v

/-- The double that a text writes: blanks at both ends are allowed, or underscores that separate, but not
    both. -/
def doubleText? (cs : List Char) : Option Binary64 :=
  let plain (blank : Char → Bool) (cs : List Char) : Option Binary64 :=
    if cs.contains '_' then none else Decimal.readDouble? blank plainDigit? (String.ofList cs)
  (plain isWhiteSpace cs).or ((joined? cs).bind (plain fun _ => false))

/-- A double: a number, a truth value counted as one or zero, or a text that writes a number. -/
def readDouble : Value → Checked Binary64
  | .number n =>
    match n.toDouble with
    | .ok x => .ok x
    | .error _ => .problem .notNumber
  | .bool b => .ok (Binary64.ofNat (if b then 1 else 0))
  | .text s =>
    match doubleText? s.toList with
    | some x => .ok x
    | none => .problem .unreadableNumber
  | _ => .problem .notNumber

/-- The whole number that a double is, within the range of 64 bits. -/
def integerOfDouble : Binary64 → Checked Int
  | .finite s u _ =>
    if u % Binary64.one ≠ 0 then .problem .fractionalInteger
    else if u < Number.wordLimit.toNat * Binary64.one then .ok (signedInt s (u / Binary64.one))
    else .problem .oversizedInteger
  | _ => .problem .infiniteInteger

/-- A whole number: a number without a fraction, a truth value counted as one or zero, or a text. -/
def readInteger : Value → Checked Int
  | .number (.int n) => .ok n
  | .number (.float x) => integerOfDouble x
  | .bool b => .ok (if b then 1 else 0)
  | .text s => integerText s
  | _ => .problem .notInteger

/-- The words that count as true, in lower case. -/
def trueWords : List String := ["1", "t", "true", "y", "yes", "on"]

/-- The words that count as false, in lower case. -/
def falseWords : List String := ["0", "f", "false", "n", "no", "off"]

/-- A truth value among whole numbers: one or zero. -/
def truthOfInt (n : Int) : Checked Bool :=
  if n = 1 then .ok true else if n = 0 then .ok false else .problem .unreadableTruth

/-- A truth value: itself, one or zero, or a word for it. -/
def readTruth : Value → Checked Bool
  | .bool b => .ok b
  | .number (.int n) =>
    if -Number.wordLimit ≤ n ∧ n < Number.wordLimit then truthOfInt n else .problem .notTruth
  | .number (.float x) =>
    match integerOfDouble x with
    | .ok n => truthOfInt n
    | .bad _ => .problem .notTruth
  | .text s =>
    let word := String.ofList (s.toList.map Char.toLower)
    if trueWords.contains word then .ok true
    else if falseWords.contains word then .ok false
    else .problem .unreadableTruth
  | _ => .problem .notTruth

/-- The value that a text of a fixed choice stands for. -/
def pick {α : Type} (choices : List (String × α)) (otherwise : Problem) : Value → Checked α
  | .text s =>
    match choices.lookup s with
    | some a => .ok a
    | none => .problem otherwise
  | _ => .problem otherwise

/-- One text of a fixed choice. -/
def readChoice {α : Type} (choices : List (String × α)) : Value → Checked α :=
  pick choices (.notChoice (choices.map (·.1)))

/-- One name of an enumeration. -/
def readMember {α : Type} (names : List (String × α)) : Value → Checked α :=
  pick names (.notMember (names.map (·.1)))

/-- Nothing, or a value that is read. -/
def orNothing {α : Type} (read : Value → Checked α) : Value → Checked (Option α)
  | .null => .ok none
  | v => (read v).map some

/-- A list, each item read the same way. -/
def readList {α : Type} (read : Value → Checked α) : Value → Checked (List α)
  | .list items => readItems read 0 items
  | _ => .problem .notList

/-- An object with any members. -/
def readObject : Value → Checked Members
  | .object members => .ok members
  | _ => .problem .notObject

end MediaEngine.Schema
