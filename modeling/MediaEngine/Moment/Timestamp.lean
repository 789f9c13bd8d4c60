import MediaEngine.Moment
import MediaEngine.Decimal.Reading

/-!
# Timestamps

A timestamp is a number of seconds since the start of 1970 in universal time; one beyond a limit counts
milliseconds. What lies behind its last whole second or millisecond is rounded to microseconds.
-/

namespace MediaEngine
open Text

/-- Why a timestamp is no moment. -/
inductive TimestampError where
  /-- It lies in the year before year one. -/
  | yearZero
  | tooEarly
  | tooLate
  | notNumber
  deriving DecidableEq

/-- The wording. -/
def TimestampError.message : TimestampError → String
  | .yearZero => "year 0 is out of range"
  | .tooEarly => "dates before 0000 are not supported as unix timestamps"
  | .tooLate => "dates after 9999 are not supported as unix timestamps"
  | .notNumber => "NaN values not permitted"

namespace Moment

/-- The greatest timestamp, in either direction, that counts seconds. -/
def secondsLimit : Nat := 20000000000

/-- The seconds of a day. -/
def secondsPerDay : Nat := 86400

/-- The seconds from the start of year one to the start of 1970. -/
def epochSeconds : Int := (Date.mk 1970 1 1).toDays * secondsPerDay

/-- The seconds from the start of year one to the end of year 9999. -/
def lastSeconds : Int := (Date.mk 10000 1 1).toDays * secondsPerDay

/-- The seconds of year zero, which has a leap day. -/
def yearZeroSeconds : Int := 366 * secondsPerDay

/-- The moment some seconds and microseconds after the start of 1970. A million microseconds and more
    count as seconds. -/
def ofSeconds (seconds : Int) (micros : Nat) : Except TimestampError Moment :=
  let total := seconds + epochSeconds + (micros / microsPerSecond : Nat)
  if total < -yearZeroSeconds then .error .tooEarly
  else if total < 0 then .error .yearZero
  else if lastSeconds ≤ total then .error .tooLate
  else
    .ok ⟨Date.ofDays (total.toNat / secondsPerDay),
      total.toNat % secondsPerDay * microsPerSecond + micros % microsPerSecond, some 0⟩

/-- The moment some milliseconds and microseconds after the start of 1970. -/
def ofMillis (millis : Int) (micros : Nat) : Except TimestampError Moment :=
  ofSeconds (millis.fdiv 1000) ((millis.fmod 1000).toNat * 1000 + micros)

/-- The moment of a timestamp that is a whole number. -/
def ofWhole (n : Int) : Except TimestampError Moment :=
  if n.natAbs ≤ secondsLimit then ofSeconds n 0 else ofMillis n 0

/-- The microseconds of a fraction of a span, whose length is given in microseconds; rounded, a half up. -/
def microsOf (span : Nat) (fraction : Binary64) : Nat :=
  match fraction.mul (.ofNat span) with
  | .finite false u _ => (2 * u + Binary64.one) / (2 * Binary64.one)
  | _ => 0

/-- The moment of a timestamp that is a double. The fraction counts from the whole number at or below it, so
    it is never negative. -/
def ofDouble : Binary64 → Except TimestampError Moment
  | .nan => .error .notNumber
  | .infinite negative => .error (if negative then .tooEarly else .tooLate)
  | .finite negative units _ =>
    let total := Binary64.signed negative units
    let whole := total.fdiv Binary64.one
    let fraction := Binary64.round false (total.fmod Binary64.one).toNat 1
    if units ≤ secondsLimit * Binary64.one then ofSeconds whole (microsOf microsPerSecond fraction)
    else ofMillis whole (microsOf 1000 fraction)

/-- The moment of a timestamp that is a number; a whole number beyond the doubles is none. -/
def ofNumber? : Number → Option (Except TimestampError Moment)
  | .float x => some (ofDouble x)
  | .int n => if (Binary64.ofInt? n).isSome then some (ofWhole n) else none

/-! ### Timestamps in texts -/

/-- A timestamp as a text writes it. -/
inductive TimestampText where
  | whole (n : Int)
  /-- A decimal with a point. -/
  | pointed (x : Binary64)

/-- The timestamp that a text writes: a sign or none, then digits alone or a decimal with a point. The
    number in front of the point fits into 64 bits. -/
def timestampText? (cs : List Char) : Option TimestampText :=
  let (negative, unsigned) := splitSign cs
  let (whole, rest) := unsigned.span Char.isDigit
  let n := signedInt negative (ofDigits (whole.filterMap plainDigit?))
  if n < -Number.wordLimit ∨ Number.wordLimit ≤ n then none
  else
    match rest with
    | [] => if whole.isEmpty then none else some (.whole n)
    | '.' :: _ =>
      if rest.contains '_' then none
      else (Decimal.unsigned? plainDigit? negative unsigned).map .pointed
    | _ => none

end Moment

end MediaEngine
