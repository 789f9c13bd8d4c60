import MediaEngine.Value
import MediaEngine.Decimal.Reading

/-!
# Reading JSON texts

Besides the standard grammar the words for the numbers that are not finite are read. Of several members
with one key the last value counts, in the place of the first. How deep lists and objects may nest is the
caller's choice. A failure tells what was expected and what was left of the text there, which gives its
position.
-/

namespace MediaEngine.Json
open Text

/-- What is wrong with a text. -/
inductive Problem where
  | byteOrderMark
  | expectedValue
  | expectedKey
  | expectedColon
  | expectedComma
  | unterminatedText
  | controlCharacter
  | badEscape
  | badCodeEscape
  | extraData
  /-- A whole number has more digits than are read. -/
  | tooManyDigits (count : Nat)
  /-- More lists and objects lie inside each other than are read. -/
  | tooDeep
  deriving DecidableEq

/-- The wording. -/
def Problem.message : Problem → String
  | byteOrderMark => "Unexpected UTF-8 BOM (decode using utf-8-sig)"
  | expectedValue => "Expecting value"
  | expectedKey => "Expecting property name enclosed in double quotes"
  | expectedColon => "Expecting ':' delimiter"
  | expectedComma => "Expecting ',' delimiter"
  | unterminatedText => "Unterminated string starting at"
  | controlCharacter => "Invalid control character at"
  | badEscape => "Invalid \\escape"
  | badCodeEscape => "Invalid \\uXXXX escape"
  | extraData => "Extra data"
  | tooManyDigits count =>
    "Exceeds the limit (" ++ Number.intText digitLimit ++
      " digits) for integer string conversion: value has " ++ Number.intText count ++
      " digits; use sys.set_int_max_str_digits() to increase the limit"
  | tooDeep => "Lists and objects nest too deep"

/-- A problem, and what is left of the text at its place. -/
structure Failure where
  problem : Problem
  left : List Char

/-- The blanks that may stand between tokens. -/
def isSpace (c : Char) : Bool := c == ' ' || c == '\t' || c == '\n' || c == '\r'

/-- The text behind its leading blanks. -/
def skip (cs : List Char) : List Char := cs.dropWhile isSpace

/-- The value of a hexadecimal digit. -/
def hexDigit? (c : Char) : Option Nat :=
  if '0' ≤ c ∧ c ≤ '9' then some (c.toNat - '0'.toNat)
  else if 'a' ≤ c ∧ c ≤ 'f' then some (c.toNat - 'a'.toNat + 10)
  else if 'A' ≤ c ∧ c ≤ 'F' then some (c.toNat - 'A'.toNat + 10)
  else none

/-- The code unit in front of a text that goes on behind it. -/
def codeUnit? : List Char → Option (Nat × List Char)
  | a :: b :: c :: d :: e :: rest => do
    let a ← hexDigit? a
    let b ← hexDigit? b
    let c ← hexDigit? c
    let d ← hexDigit? d
    return (((a * 16 + b) * 16 + c) * 16 + d, e :: rest)
  | _ => none

/-- The character that a short escape stands for. -/
def shortEscape? : Char → Option Char
  | '"' => some '"'
  | '\\' => some '\\'
  | '/' => some '/'
  | 'b' => some (Char.ofNat 8)
  | 'f' => some (Char.ofNat 12)
  | 'n' => some '\n'
  | 'r' => some '\r'
  | 't' => some '\t'
  | _ => none

/-- The character of a code unit; half of a pair alone has none of its own. -/
def unitChar (u : Nat) : Char :=
  if 0xD800 ≤ u ∧ u < 0xE000 then Char.ofNat 0xFFFD else Char.ofNat u

/-- The character of the code escape at the front, its letter included; two halves of a pair are one
    character. -/
def codeEscape (cs : List Char) : Except Failure (Char × List Char) :=
  match codeUnit? cs.tail with
  | none => .error ⟨.badCodeEscape, cs⟩
  | some (u, rest) =>
    match rest with
    | '\\' :: 'u' :: more =>
      if 0xD800 ≤ u ∧ u < 0xDC00 ∧ 4 < more.length then
        match codeUnit? more with
        | none => .error ⟨.badCodeEscape, 'u' :: more⟩
        | some (w, tail) =>
          if 0xDC00 ≤ w ∧ w < 0xE000 then
            .ok (Char.ofNat (0x10000 + (u - 0xD800) * 0x400 + (w - 0xDC00)), tail)
          else .ok (unitChar u, rest)
      else .ok (unitChar u, rest)
    | _ => .ok (unitChar u, rest)

/-- The rest of a quoted text that starts at `start`. The fuel is the number of characters left. -/
def quotedFrom (start : List Char) : Nat → List Char → Except Failure (List Char × List Char)
  | 0, _ => .error ⟨.unterminatedText, start⟩
  | _ + 1, [] => .error ⟨.unterminatedText, start⟩
  | fuel + 1, c :: rest =>
    if c = '"' then .ok ([], rest)
    else if c = '\\' then
      match rest with
      | [] => .error ⟨.unterminatedText, start⟩
      | e :: more =>
        if e = 'u' then do
          let (d, tail) ← codeEscape rest
          let (ds, left) ← quotedFrom start fuel tail
          return (d :: ds, left)
        else
          match shortEscape? e with
          | none => .error ⟨.badEscape, c :: rest⟩
          | some d => do
            let (ds, left) ← quotedFrom start fuel more
            return (d :: ds, left)
    else if c < ' ' then .error ⟨.controlCharacter, c :: rest⟩
    else do
      let (ds, left) ← quotedFrom start fuel rest
      return (c :: ds, left)

/-- A quoted text, from its first quote on. -/
def quotedText (cs : List Char) : Except Failure (String × List Char) := do
  let (ds, left) ← quotedFrom cs cs.length cs.tail
  return (String.ofList ds, left)

/-- A word of the grammar and the value it stands for. -/
def words : List (List Char × Value) :=
  [("null".toList, .null), ("true".toList, .bool true), ("false".toList, .bool false),
   ("NaN".toList, .double .nan), ("Infinity".toList, .double (.infinite false)),
   ("-Infinity".toList, .double (.infinite true))]

/-- The digits of a whole number: a zero alone, or digits that start with another one. -/
def wholeDigits (cs : List Char) : List Char × List Char :=
  match cs with
  | '0' :: rest => (['0'], rest)
  | _ => cs.span Char.isDigit

/-- A point and the digits behind it, if there are any. -/
def fractionDigits (cs : List Char) : List Char × List Char :=
  match cs with
  | '.' :: rest =>
    match rest.span Char.isDigit with
    | ([], _) => ([], cs)
    | (ds, left) => (ds, left)
  | _ => ([], cs)

/-- An exponent with a digit, if there is one. -/
def exponentDigits (cs : List Char) : Option Int × List Char :=
  match cs with
  | c :: rest =>
    if c = 'e' ∨ c = 'E' then
      let (negative, unsigned) := splitSign rest
      match unsigned.span Char.isDigit with
      | ([], _) => (none, cs)
      | (ds, left) => (some (signedInt negative (ofDigits (ds.filterMap plainDigit?))), left)
    else (none, cs)
  | [] => (none, [])

/-- A number: whole if it has neither a fraction nor an exponent. -/
def numberFrom (cs : List Char) : Except Failure (Value × List Char) :=
  let (negative, unsigned) := match cs with
    | '-' :: rest => (true, rest)
    | _ => (false, cs)
  match wholeDigits unsigned with
  | ([], _) => .error ⟨.expectedValue, cs⟩
  | (whole, rest) =>
    let (fraction, rest) := fractionDigits rest
    let (exponent, left) := exponentDigits rest
    if fraction.isEmpty && exponent.isNone then
      if digitLimit < whole.length then .error ⟨.tooManyDigits whole.length, cs⟩
      else .ok (.int (signedInt negative (ofDigits (whole.filterMap plainDigit?))), left)
    else
      let digits := ofDigits ((whole ++ fraction).filterMap plainDigit?)
      .ok (.double (Binary64.ofDecimal negative digits (exponent.getD 0 - fraction.length)), left)

mutual

/-- The value at the front. The fuel bounds the values that are begun in what is left; the depth is how many
    lists and objects may still lie inside each other. -/
def valueFrom : Nat → Nat → List Char → Except Failure (Value × List Char)
  | 0, _, cs => .error ⟨.expectedValue, cs⟩
  | fuel + 1, depth, cs =>
    match cs with
    | '"' :: _ => do
      let (s, left) ← quotedText cs
      return (.text s, left)
    | '[' :: rest =>
      match depth, skip rest with
      | 0, _ => .error ⟨.tooDeep, cs⟩
      | _ + 1, ']' :: left => .ok (.list [], left)
      | depth + 1, inner => do
        let (items, left) ← itemsFrom fuel depth inner
        return (.list items, left)
    | '\x7b' :: rest =>
      match depth, skip rest with
      | 0, _ => .error ⟨.tooDeep, cs⟩
      | _ + 1, '\x7d' :: left => .ok (.object [], left)
      | depth + 1, inner => do
        let (members, left) ← membersFrom fuel depth [] inner
        return (.object members, left)
    | _ =>
      match words.find? fun w => w.1.isPrefixOf cs with
      | some (word, v) => .ok (v, cs.drop word.length)
      | none => numberFrom cs

/-- The items of a list, from one of them on. -/
def itemsFrom : Nat → Nat → List Char → Except Failure (List Value × List Char)
  | 0, _, cs => .error ⟨.expectedValue, cs⟩
  | fuel + 1, depth, cs => do
    let (v, rest) ← valueFrom fuel depth cs
    match skip rest with
    | ']' :: left => return ([v], left)
    | ',' :: more =>
      let (vs, left) ← itemsFrom fuel depth (skip more)
      return (v :: vs, left)
    | other => throw ⟨.expectedComma, other⟩

/-- The members of an object, from one of them on, added to those before. -/
def membersFrom : Nat → Nat → Members → List Char → Except Failure (Members × List Char)
  | 0, _, _, cs => .error ⟨.expectedValue, cs⟩
  | fuel + 1, depth, before, cs =>
    match cs with
    | '"' :: _ => do
      let (key, rest) ← quotedText cs
      match skip rest with
      | ':' :: more =>
        let (v, rest) ← valueFrom fuel depth (skip more)
        let members := Members.set key v before
        match skip rest with
        | '\x7d' :: left => return (members, left)
        | ',' :: more => membersFrom fuel depth members (skip more)
        | other => throw ⟨.expectedComma, other⟩
      | other => throw ⟨.expectedColon, other⟩
    | _ => .error ⟨.expectedKey, cs⟩

end

/-- Where a problem is: the line and column counted from one, and the position from zero. -/
structure Location where
  line : Nat
  column : Nat
  position : Nat
  deriving DecidableEq

/-- The location behind the characters before it. -/
def Location.after (before : List Char) : Location where
  line := before.count '\n' + 1
  column := (before.reverse.takeWhile (· != '\n')).length + 1
  position := before.length

/-- A problem and its location. -/
structure ParseError where
  problem : Problem
  location : Location
  deriving DecidableEq

/-- The wording with the location. -/
def ParseError.message (e : ParseError) : String :=
  e.problem.message ++ ": line " ++ Number.intText e.location.line ++ " column " ++
    Number.intText e.location.column ++ " (char " ++ Number.intText e.location.position ++ ")"

/-- The location of a failure within the whole text. -/
def Failure.locate (whole : List Char) (f : Failure) : ParseError :=
  ⟨f.problem, .after (whole.take (whole.length - f.left.length))⟩

/-- The value that a whole text writes, in which no more lists and objects than `depth` lie inside each
    other. -/
def parseChars (depth : Nat) (cs : List Char) : Except Failure Value := do
  if cs.head? = some (Char.ofNat 0xFEFF) then throw ⟨.byteOrderMark, cs⟩
  let (v, rest) ← valueFrom (2 * cs.length + 1) depth (skip cs)
  match skip rest with
  | [] => return v
  | left => throw ⟨.extraData, left⟩

/-- Reads a text as JSON of some depth. -/
def parseWithin (depth : Nat) (s : String) : Except ParseError Value :=
  match parseChars depth s.toList with
  | .ok v => .ok v
  | .error f => .error (f.locate s.toList)

/-- Reads a text as JSON. -/
def parse (s : String) : Except ParseError Value := parseWithin s.length s

end MediaEngine.Json
