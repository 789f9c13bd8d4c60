/-!
# Texts inside filter arguments

A backslash and a colon mean something inside a filter argument, so a text that stands in one has each of
them marked by a backslash in front.
-/

namespace MediaEngine.FilterText

/-- The characters that need a mark. -/
def isSpecial (c : Char) : Bool := c == '\\' || c == ':'

/-- The characters with every special one marked. -/
def mark : List Char → List Char
  | [] => []
  | c :: rest => if isSpecial c then '\\' :: c :: mark rest else c :: mark rest

/-- The text as it stands in a filter argument. -/
def escape (s : String) : String := String.ofList (mark s.toList)

end MediaEngine.FilterText
