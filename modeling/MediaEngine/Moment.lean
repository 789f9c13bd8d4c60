import MediaEngine.Value

/-!
# Moments

A moment is a date, a time of day in microseconds, and possibly the offset from universal time at the
place. Two moments with an offset are compared in universal time and two without as they stand; a moment
with an offset and one without cannot be compared.
-/

namespace MediaEngine

/-- Whether a year of the Gregorian calendar has a leap day. -/
def isLeapYear (y : Nat) : Bool := y % 4 == 0 && (y % 100 != 0 || y % 400 == 0)

/-- The days of a month. -/
def daysInMonth (y m : Nat) : Nat :=
  match m with
  | 2 => if isLeapYear y then 29 else 28
  | 4 | 6 | 9 | 11 => 30
  | _ => 31

/-- The days before a year, counted from the first day of year one. -/
def daysBeforeYear (y : Nat) : Nat := 365 * (y - 1) + (y - 1) / 4 - (y - 1) / 100 + (y - 1) / 400

/-- The days of a year before a month. -/
def daysBeforeMonth (y : Nat) : Nat → Nat
  | 0 => 0
  | m + 1 => if m = 0 then 0 else daysBeforeMonth y m + daysInMonth y m

/-- A day of the calendar. -/
structure Date where
  year : Nat
  month : Nat
  day : Nat
  deriving DecidableEq

/-- The days from the first day of year one to a date. -/
def Date.toDays (d : Date) : Nat := daysBeforeYear d.year + daysBeforeMonth d.year d.month + (d.day - 1)

/-- The month and day of a day of a year, from a month on. -/
def Date.within (year : Nat) : Nat → Nat → Nat → Date
  | 0, month, rest => ⟨year, month, rest + 1⟩
  | fuel + 1, month, rest =>
    if rest < daysInMonth year month then ⟨year, month, rest + 1⟩
    else within year fuel (month + 1) (rest - daysInMonth year month)

/-- The date that lies a number of days after the first day of year one. The year is found from the mean
    length of a year, to within one. -/
def Date.ofDays (days : Nat) : Date :=
  let estimate := days * 400 / 146097 + 1
  let year :=
    if daysBeforeYear (estimate + 1) ≤ days then estimate + 1
    else if daysBeforeYear estimate ≤ days then estimate
    else estimate - 1
  Date.within year 11 1 (days - daysBeforeYear year)

/-- The microseconds of a second, and of a day. -/
def microsPerSecond : Nat := 1000000
def microsPerDay : Nat := 86400 * microsPerSecond

/-- A date and a time of day, with the seconds by which the place is ahead of universal time if they are
    known. -/
structure Moment where
  date : Date
  micros : Nat
  offset : Option Int
  deriving DecidableEq

namespace Moment

/-- The microseconds from the start of year one, at the place. -/
def localMicros (m : Moment) : Int := m.date.toDays * microsPerDay + m.micros

/-- The microseconds from the start of year one in universal time; without an offset, at the place. -/
def instant (m : Moment) : Int := m.localMicros - (m.offset.getD 0) * microsPerSecond

/-- Whether one moment is later than another; `none` where they cannot be compared. -/
def later? (a b : Moment) : Option Bool :=
  if a.offset.isSome = b.offset.isSome then some (decide (b.instant < a.instant)) else none

/-- The earliest moment, in universal time. -/
def earliest : Moment := ⟨⟨1, 1, 1⟩, 0, some 0⟩

/-- The moment a number of milliseconds after the start of 2024, in universal time. -/
def ofClock (milliseconds : Nat) : Moment :=
  let total := milliseconds * 1000
  ⟨Date.ofDays ((Date.mk 2024 1 1).toDays + total / microsPerDay), total % microsPerDay, some 0⟩

/-- A number with zeros in front up to a width. -/
def padded (width n : Nat) : String := String.ofList (Decimal.padded width n)

/-- The date and time without the offset; the microseconds only where they are not zero. -/
def localText (m : Moment) : String :=
  let second := m.micros / microsPerSecond
  let fraction := m.micros % microsPerSecond
  padded 4 m.date.year ++ "-" ++ padded 2 m.date.month ++ "-" ++ padded 2 m.date.day ++ "T" ++
    padded 2 (second / 3600) ++ ":" ++ padded 2 (second / 60 % 60) ++ ":" ++ padded 2 (second % 60) ++
    (if fraction = 0 then "" else "." ++ padded 6 fraction)

/-- An offset in hours and minutes. -/
def offsetText (seconds : Int) : String :=
  let minutes := seconds.natAbs / 60
  (if seconds < 0 then "-" else "+") ++ padded 2 (minutes / 60) ++ ":" ++ padded 2 (minutes % 60)

/-- The text with the offset in hours and minutes. -/
def isoText (m : Moment) : String := m.localText ++ (m.offset.map offsetText).getD ""

/-- The text with the letter `Z` for universal time. -/
def text (m : Moment) : String :=
  match m.offset with
  | some 0 => m.localText ++ "Z"
  | _ => m.isoText

/-- A moment, or nothing, as a value. -/
def valueOr (m : Option Moment) : Value := (m.map fun m => Value.text m.text).getD .null

end Moment

end MediaEngine
