import MediaEngine.Moment.Timestamp
import MediaEngine.Schema.Record

/-!
# Reading moments

A moment is written as a date, alone or with a time of day and an offset, or as a timestamp, which a
number is too. A year zero can be written but is no year of a moment.
-/

namespace MediaEngine.Moment
open Schema Text

/-! ### Dates -/

/-- The number of two digits. -/
def twoDigits? : List Char → Option (Nat × List Char)
  | a :: b :: rest => do
    let x ← plainDigit? a
    let y ← plainDigit? b
    return (x * 10 + y, rest)
  | _ => none

/-- The fewest bytes of a text with a date. -/
def dateBytes : Nat := 10

/-- A date and what follows it, or what is wrong with it. -/
def readDate (s : String) : Except String (Date × List Char) := do
  if s.utf8ByteSize < dateBytes then throw "input is too short"
  let some (century, rest) := twoDigits? s.toList | throw "invalid character in year"
  let some (year, rest) := twoDigits? rest | throw "invalid character in year"
  let '-' :: rest := rest | throw "invalid date separator, expected `-`"
  let some (month, rest) := twoDigits? rest | throw "invalid character in month"
  let '-' :: rest := rest | throw "invalid date separator, expected `-`"
  let some (day, rest) := twoDigits? rest | throw "invalid character in day"
  let year := century * 100 + year
  if month < 1 ∨ 12 < month then throw "month value is outside expected range of 1-12"
  if day < 1 ∨ daysInMonth year month < day then throw "day value is outside expected range"
  return (⟨year, month, day⟩, rest)

/-! ### Times of day and offsets -/

/-- The microseconds of a fraction of a second; digits past the sixth are dropped. -/
def fractionMicros (ds : List Char) : Nat :=
  let six := (ds ++ List.replicate 6 '0').take 6
  ofDigits (six.filterMap plainDigit?)

/-- The seconds of a time of day, if there are any, in microseconds, and what follows. A point or a comma
    stands in front of their fraction. -/
def readSeconds? : List Char → Option (Nat × List Char)
  | ':' :: rest => do
    let (second, rest) ← twoDigits? rest
    if 59 < second then none
    match rest with
    | c :: more =>
      if c = '.' ∨ c = ',' then
        match more.span Char.isDigit with
        | ([], _) => none
        | (ds, left) => some (second * microsPerSecond + fractionMicros ds, left)
      else some (second * microsPerSecond, rest)
    | [] => some (second * microsPerSecond, [])
  | rest => some (0, rest)

/-- A time of day in microseconds, and what follows. -/
def readTime? (cs : List Char) : Option (Nat × List Char) := do
  let (hour, rest) ← twoDigits? cs
  let ':' :: rest := rest | none
  let (minute, rest) ← twoDigits? rest
  if 23 < hour ∨ 59 < minute then none
  let (second, rest) ← readSeconds? rest
  return ((hour * 3600 + minute * 60) * microsPerSecond + second, rest)

/-- The hours and minutes of an offset, in seconds. -/
def offsetSeconds? (cs : List Char) : Option Int := do
  let (hours, rest) ← twoDigits? cs
  let rest := match rest with
    | ':' :: more => more
    | _ => rest
  let (minutes, rest) ← twoDigits? rest
  if rest.isEmpty ∧ hours < 24 ∧ minutes < 60 then some ((hours * 3600 + minutes * 60 : Nat) : Int)
  else none

/-- The signs of an offset: a plus, a hyphen or the sign for minus; true where the place is behind
    universal time. -/
def offsetSign? (c : Char) : Option Bool :=
  if c = '+' then some false
  else if c = '-' ∨ c = '\u2212' then some true
  else none

/-- An offset at the end of a moment: none at all, universal time, or hours and minutes. -/
def readOffset? : List Char → Option (Option Int)
  | [] => some none
  | ['Z'] => some (some 0)
  | ['z'] => some (some 0)
  | c :: rest => do
    let behind ← offsetSign? c
    let seconds ← offsetSeconds? rest
    return some (if behind then -seconds else seconds)

/-- The separators that may stand between a date and a time. -/
def isDateTimeSeparator (c : Char) : Bool := c == 'T' || c == 't' || c == ' ' || c == '_'

/-- A time of day and an offset behind a date. -/
def readClock? : List Char → Option (Nat × Option Int)
  | [] => some (0, none)
  | c :: rest => do
    if !isDateTimeSeparator c then none
    let (micros, rest) ← readTime? rest
    return (micros, ← readOffset? rest)

/-! ### Moments -/

/-- A moment refused for its timestamp. -/
def impossible (e : TimestampError) : Checked Moment := .problem (.impossibleMoment e.message)

/-- The moment of a timestamp in a text, or what is wrong with it. A timestamp with a point that is out of
    range is judged as a date. -/
def readTimestamp (reason : String) : TimestampText → Checked Moment
  | .whole n =>
    match ofWhole n with
    | .ok m => .ok m
    | .error .yearZero => impossible .yearZero
    | .error e => .problem (.unreadableMoment e.message)
  | .pointed x =>
    match ofDouble x with
    | .ok m => .ok m
    | .error .yearZero => impossible .yearZero
    | .error _ => .problem (.unreadableMoment reason)

/-- A moment that a text writes. -/
def readText (s : String) : Checked Moment :=
  match readDate s with
  | .error reason =>
    match timestampText? s.toList with
    | some t => readTimestamp reason t
    | none => .problem (.unreadableMoment reason)
  | .ok (date, rest) =>
    match readClock? rest with
    | none => .problem (.unreadableMoment "unexpected extra characters at the end of the input")
    | some (micros, offset) =>
      if date.year = 0 then impossible .yearZero else .ok ⟨date, micros, offset⟩

/-- A moment that a number stands for. -/
def readNumber (n : Number) : Checked Moment :=
  match ofNumber? n with
  | some (.ok m) => .ok m
  | some (.error e) => impossible e
  | none => .problem .notMoment

/-- A moment read from a value. -/
def read : Value → Checked Moment
  | .text s => readText s
  | .number n => readNumber n
  | _ => .problem .notMoment

end MediaEngine.Moment
