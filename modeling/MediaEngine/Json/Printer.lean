import MediaEngine.Value

/-!
# Values as JSON texts

A text uses plain characters only: all others are written by their codes in UTF-16. Numbers are written as
their texts, and the three that are not finite by words. Lists and objects stand on one line, or are broken
into indented lines.
-/

namespace MediaEngine.Json

/-- The UTF-16 code units of a character. -/
def units16 (c : Char) : List Nat :=
  let n := c.toNat
  if n < 0x10000 then [n]
  else [0xD800 + (n - 0x10000) / 0x400, 0xDC00 + (n - 0x10000) % 0x400]

/-- A code unit written in four hexadecimal digits. -/
def unitEscape (u : Nat) : List Char := '\\' :: 'u' :: Text.hex 4 u

/-- One character inside a quoted text. -/
def escapeChar (c : Char) : List Char :=
  if c = '"' then ['\\', '"']
  else if c = '\\' then ['\\', '\\']
  else if c = '\n' then ['\\', 'n']
  else if c = '\r' then ['\\', 'r']
  else if c = '\t' then ['\\', 't']
  else if c.toNat = 8 then ['\\', 'b']
  else if c.toNat = 12 then ['\\', 'f']
  else if ' ' ≤ c ∧ c ≤ '~' then [c]
  else (units16 c).flatMap unitEscape

/-- A text in double quotes. -/
def quote (s : String) : List Char := '"' :: s.toList.flatMap escapeChar ++ ['"']

/-- A number. -/
def number : Number → List Char
  | .int n => (Number.intText n).toList
  | .float .nan => "NaN".toList
  | .float (.infinite s) => (if s then "-Infinity" else "Infinity").toList
  | .float x => x.text.toList

/-- How lists and objects are laid out: on one line, or one item a line behind some blanks a level. -/
inductive Layout where
  | line
  | indented (width : Nat)

/-- The widest indentation there is, in either direction. -/
def indentLimit : Int := Number.wordLimit

/-- The layout that an indentation asks for; a negative one breaks lines as zero does. `none` for an
    indentation beyond the limit. -/
def Layout.ofIndent? : Option Int → Option Layout
  | none => some .line
  | some n => if -indentLimit ≤ n ∧ n < indentLimit then some (.indented n.toNat) else none

namespace Layout

/-- What stands in front of the first item, and behind the last one, on a level. -/
def lineBreak (l : Layout) (level : Nat) : List Char :=
  match l with
  | .line => []
  | .indented width => '\n' :: List.replicate (width * level) ' '

/-- What stands between two items on a level. -/
def between (l : Layout) (level : Nat) : List Char :=
  match l with
  | .line => [',', ' ']
  | .indented _ => ',' :: l.lineBreak level

end Layout

mutual

/-- A value on a level. -/
def write (l : Layout) (level : Nat) : Value → List Char
  | .null => "null".toList
  | .bool b => (if b then "true" else "false").toList
  | .number n => number n
  | .text s => quote s
  | .list [] => ['[', ']']
  | .list (v :: rest) =>
    '[' :: l.lineBreak (level + 1) ++ write l (level + 1) v ++ writeItems l (level + 1) rest ++
      l.lineBreak level ++ [']']
  | .object [] => ['\x7b', '\x7d']
  | .object ((k, v) :: rest) =>
    '\x7b' :: l.lineBreak (level + 1) ++ quote k ++ [':', ' '] ++ write l (level + 1) v ++
      writeMembers l (level + 1) rest ++ l.lineBreak level ++ ['\x7d']

/-- The items behind the first one. -/
def writeItems (l : Layout) (level : Nat) : List Value → List Char
  | [] => []
  | v :: rest => l.between level ++ write l level v ++ writeItems l level rest

/-- The members behind the first one. -/
def writeMembers (l : Layout) (level : Nat) : List (String × Value) → List Char
  | [] => []
  | (k, v) :: rest =>
    l.between level ++ quote k ++ [':', ' '] ++ write l level v ++ writeMembers l level rest

end

/-- The JSON text of a value. -/
def render (l : Layout) (v : Value) : String := String.ofList (write l 0 v)

end MediaEngine.Json
