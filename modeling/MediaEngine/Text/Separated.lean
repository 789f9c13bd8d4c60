import MediaEngine.Text.Blank
import MediaEngine.Text.Case

/-!
# Underscores in numbers

A text that writes a number may hold underscores for the eye. They count as separators if each stands
alone, none at the front and none at the end; where they stand otherwise does not matter.
-/

namespace MediaEngine.Text

/-- Whether the underscores of a text are separators. -/
def areSeparators (cs : List Char) : Bool :=
  cs.head? != some '_' && cs.getLast? != some '_' && !occursIn ['_', '_'] cs

/-- A text without its underscores, if they are separators. -/
def joined? (cs : List Char) : Option (List Char) :=
  if areSeparators cs then some (cs.filter (· != '_')) else none

end MediaEngine.Text
