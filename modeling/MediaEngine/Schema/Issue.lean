import MediaEngine.Value

/-!
# Issues found in a value

An issue is a place inside a value and what is wrong there. Every kind of issue has a short code and a
wording; a report lists all the issues of one value under a title.
-/

namespace MediaEngine.Schema

/-- One step on the way to a place: a member of an object, or an item of a list. -/
inductive Place where
  | key (name : String)
  | index (i : Nat)
  deriving DecidableEq

/-- What is wrong at a place. -/
inductive Problem where
  | missing
  | unexpectedKey
  | notText
  | notNumber
  | unreadableNumber
  | notInteger
  | unreadableInteger
  | fractionalInteger
  | infiniteInteger
  | oversizedInteger
  | notTruth
  | unreadableTruth
  /-- None of the texts of a fixed choice. -/
  | notChoice (choices : List String)
  /-- None of the names of an enumeration. -/
  | notMember (names : List String)
  | notList
  | notObject
  /-- No object, where a record of this title is read. -/
  | notRecord (title : String)
  /-- No object, where the kind of the record is still to be told. -/
  | notTagged
  /-- The member that tells the kind of a record names none of the expected kinds. -/
  | unknownTag (tag : String) (discriminator : String) (expected : List String)
  /-- The member that tells the kind of a record is missing or no text. -/
  | noTag (discriminator : String)
  | notMoment
  | unreadableMoment (reason : String)
  /-- A moment is written, but there is none such. -/
  | impossibleMoment (reason : String)
  deriving DecidableEq

/-- A problem at a place; the place is given from the outside inward. -/
structure Issue where
  place : List Place
  problem : Problem
  deriving DecidableEq

/-- Texts in single quotes, separated by commas, the last one by `or`. -/
def alternatives : List String → String
  | [] => ""
  | [a] => "'" ++ a ++ "'"
  | [a, b] => "'" ++ a ++ "' or '" ++ b ++ "'"
  | a :: rest => "'" ++ a ++ "', " ++ alternatives rest

/-- Texts in single quotes, separated by commas. -/
def enumerated (names : List String) : String :=
  ", ".intercalate (names.map fun n => "'" ++ n ++ "'")

namespace Problem

/-- The short code of a problem. -/
def code : Problem → String
  | missing => "missing"
  | unexpectedKey => "extra_forbidden"
  | notText => "string_type"
  | notNumber => "float_type"
  | unreadableNumber => "float_parsing"
  | notInteger => "int_type"
  | unreadableInteger => "int_parsing"
  | fractionalInteger => "int_from_float"
  | infiniteInteger => "finite_number"
  | oversizedInteger => "int_parsing_size"
  | notTruth => "bool_type"
  | unreadableTruth => "bool_parsing"
  | notChoice _ => "literal_error"
  | notMember _ => "enum"
  | notList => "list_type"
  | notObject => "dict_type"
  | notRecord _ => "model_type"
  | notTagged => "model_attributes_type"
  | unknownTag .. => "union_tag_invalid"
  | noTag _ => "union_tag_not_found"
  | notMoment => "datetime_type"
  | unreadableMoment _ => "datetime_from_date_parsing"
  | impossibleMoment _ => "datetime_parsing"

/-- The wording of a problem. -/
def message : Problem → String
  | missing => "Field required"
  | unexpectedKey => "Extra inputs are not permitted"
  | notText => "Input should be a valid string"
  | notNumber => "Input should be a valid number"
  | unreadableNumber => "Input should be a valid number, unable to parse string as a number"
  | notInteger => "Input should be a valid integer"
  | unreadableInteger => "Input should be a valid integer, unable to parse string as an integer"
  | fractionalInteger => "Input should be a valid integer, got a number with a fractional part"
  | infiniteInteger => "Input should be a finite number"
  | oversizedInteger => "Unable to parse input string as an integer, exceeded maximum size"
  | notTruth => "Input should be a valid boolean"
  | unreadableTruth => "Input should be a valid boolean, unable to interpret input"
  | notChoice choices => "Input should be " ++ alternatives choices
  | notMember names => "Input should be " ++ alternatives names
  | notList => "Input should be a valid list"
  | notObject => "Input should be a valid dictionary"
  | notRecord title => "Input should be a valid dictionary or instance of " ++ title
  | notTagged => "Input should be a valid dictionary or object to extract fields from"
  | unknownTag tag discriminator expected =>
    "Input tag '" ++ tag ++ "' found using " ++ discriminator ++
      " does not match any of the expected tags: " ++ enumerated expected
  | noTag discriminator => "Unable to extract tag using discriminator " ++ discriminator
  | notMoment => "Input should be a valid datetime"
  | unreadableMoment reason => "Input should be a valid datetime or date, " ++ reason
  | impossibleMoment reason => "Input should be a valid datetime, " ++ reason

end Problem

/-- The text of one step. -/
def Place.text : Place → String
  | .key name => name
  | .index i => Number.intText i

/-- The two lines of an issue: its place, then its wording and code. -/
def Issue.text (i : Issue) : String :=
  let place := if i.place.isEmpty then "" else "\n" ++ ".".intercalate (i.place.map Place.text)
  place ++ "\n  " ++ i.problem.message ++ " [type=" ++ i.problem.code ++ "]"

/-- All the issues of a value that was read as a record of a title. -/
structure Report where
  title : String
  issues : List Issue
  deriving DecidableEq

/-- The text of a report: how many issues there are, then each of them. -/
def Report.text (r : Report) : String :=
  let count := Number.intText r.issues.length
  let noun := if r.issues.length = 1 then " validation error for " else " validation errors for "
  count ++ noun ++ r.title ++ String.join (r.issues.map Issue.text)

end MediaEngine.Schema
