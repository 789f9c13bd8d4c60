/-!
# Letter case

The case forms of a text as far as plain Latin letters come out of them: enough to look for plain words
whatever the case they are written in. Besides the letters themselves two characters have a lower case
form with a plain letter, and ten an upper case form of plain letters only.
-/

namespace MediaEngine.Text

/-- The lower case form of one character. -/
def lowerChar (c : Char) : List Char :=
  if c.toNat = 0x212A then ['k']
  else if c.toNat = 0x130 then ['i', Char.ofNat 0x307]
  else [c.toLower]

/-- The upper case form of one character. -/
def upperChar (c : Char) : List Char :=
  match c.toNat with
  | 0xDF => ['S', 'S']
  | 0x131 => ['I']
  | 0x17F => ['S']
  | 0xFB00 => ['F', 'F']
  | 0xFB01 => ['F', 'I']
  | 0xFB02 => ['F', 'L']
  | 0xFB03 => ['F', 'F', 'I']
  | 0xFB04 => ['F', 'F', 'L']
  | 0xFB05 => ['S', 'T']
  | 0xFB06 => ['S', 'T']
  | _ => [c.toUpper]

/-- The lower case form of a text. -/
def lower (s : String) : List Char := s.toList.flatMap lowerChar

/-- The upper case form of a text. -/
def upper (s : String) : String := String.ofList (s.toList.flatMap upperChar)

/-- Whether one list of characters stands somewhere inside another. -/
def occursIn (word : List Char) : List Char → Bool
  | [] => word.isEmpty
  | c :: rest => word.isPrefixOf (c :: rest) || occursIn word rest

end MediaEngine.Text
