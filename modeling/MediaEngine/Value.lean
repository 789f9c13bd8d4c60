import MediaEngine.Number
import MediaEngine.Text.Quoted

/-!
# Values

The data that chains, options, metadata and job results are written in: nothing, truth values, numbers,
texts, lists, and objects whose members keep the order they were written in.
-/

namespace MediaEngine

/-- A piece of data of any shape. -/
inductive Value where
  | null
  | bool (b : Bool)
  | number (n : Number)
  | text (s : String)
  | list (items : List Value)
  | object (members : List (String × Value))

/-- The members of an object, in order. -/
abbrev Members := List (String × Value)

namespace Value

instance : Inhabited Value := ⟨.null⟩

/-- A whole number. -/
def int (n : Int) : Value := .number (.int n)

/-- A count. -/
def nat (n : Nat) : Value := .number (.int n)

/-- A double. -/
def double (x : Binary64) : Value := .number (.float x)

/-- A text, or nothing. -/
def textOr (s : Option String) : Value := (s.map Value.text).getD .null

/-- A double, or nothing. -/
def doubleOr (x : Option Binary64) : Value := (x.map Value.double).getD .null

/-- A whole number, or nothing. -/
def intOr (n : Option Int) : Value := (n.map Value.int).getD .null

/-- An object, or nothing. -/
def objectOr (m : Option Members) : Value := (m.map Value.object).getD .null

/-- The kind of a value, as messages name it. -/
def kindName : Value → String
  | .null => "NoneType"
  | .bool _ => "bool"
  | .number (.int _) => "int"
  | .number (.float _) => "float"
  | .text _ => "str"
  | .list _ => "list"
  | .object _ => "dict"

/-- Whether the value is nothing, false, a zero, or empty. -/
def isVoid : Value → Bool
  | .null => true
  | .bool b => !b
  | .number n => n.isZero
  | .text s => s.isEmpty
  | .list items => items.isEmpty
  | .object members => members.isEmpty

mutual

/-- The value with every number that is not finite replaced by nothing, inside lists and objects too. -/
def finiteOnly : Value → Value
  | .null => .null
  | .bool b => .bool b
  | .number (.int n) => .number (.int n)
  | .number (.float x) => if x.isFinite then .number (.float x) else .null
  | .text s => .text s
  | .list items => .list (finiteItems items)
  | .object members => .object (finiteMembers members)

/-- The items with every number that is not finite replaced by nothing. -/
def finiteItems : List Value → List Value
  | [] => []
  | v :: rest => finiteOnly v :: finiteItems rest

/-- The members with every number that is not finite replaced by nothing. -/
def finiteMembers : List (String × Value) → List (String × Value)
  | [] => []
  | (k, v) :: rest => (k, finiteOnly v) :: finiteMembers rest

end

mutual

/-- The value in one line of text, texts in quotes. -/
def shown : Value → String
  | .null => "None"
  | .bool b => if b then "True" else "False"
  | .number n => n.text
  | .text s => Text.quoted s
  | .list items => "[" ++ shownItems items ++ "]"
  | .object members => "\x7b" ++ shownMembers members ++ "\x7d"

/-- The items separated by commas. -/
def shownItems : List Value → String
  | [] => ""
  | [v] => shown v
  | v :: w :: rest => shown v ++ ", " ++ shownItems (w :: rest)

/-- The members separated by commas. -/
def shownMembers : List (String × Value) → String
  | [] => ""
  | [(k, v)] => Text.quoted k ++ ": " ++ shown v
  | (k, v) :: m :: rest => Text.quoted k ++ ": " ++ shown v ++ ", " ++ shownMembers (m :: rest)

end

/-- The value as a message: a text as itself, anything else in one line. -/
def plain : Value → String
  | .text s => s
  | v => v.shown

end Value

namespace Members

/-- The value under a key. -/
def find? (m : Members) (key : String) : Option Value := List.lookup key m

/-- The members with a key set: in its place if it is there, at the end otherwise. -/
def set (key : String) (value : Value) : Members → Members
  | [] => [(key, value)]
  | (k, v) :: rest => if k = key then (k, value) :: rest else (k, v) :: set key value rest

end Members

end MediaEngine
