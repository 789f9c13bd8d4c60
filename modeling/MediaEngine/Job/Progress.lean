import MediaEngine.Value

/-!
# The progress of a job

Progress is the part of the total time that is done. An estimate of the total stands in until the total is
known; once a total was set, estimates are ignored for good.
-/

namespace MediaEngine.Job

/-- What a job has done so far, in milliseconds. -/
structure Progress where
  output : Binary64
  total : Option Binary64
  estimate : Option Binary64
  /-- A total was set once. -/
  locked : Bool
  deriving DecidableEq

/-- A time that counts: a positive finite number as a double, and zero for anything else. -/
def usableTime : Value → Except ArithmeticError Binary64
  | .number n => do
    let x ← n.toDouble
    return if x.isFinite && Binary64.zero.lt x then x else .zero
  | _ => .ok .zero

/-- A time that counts, or nothing. -/
def usableTimeOr : Value → Except ArithmeticError (Option Binary64)
  | .null => .ok none
  | v => return some (← usableTime v)

namespace Progress

/-- The progress of a job that has not started, with an estimate. -/
def start (estimate : Value) : Except ArithmeticError Progress :=
  return ⟨.zero, none, ← usableTimeOr estimate, false⟩

/-- Sets the time that is done. -/
def setOutput (p : Progress) (v : Value) : Except ArithmeticError Progress :=
  return { p with output := ← usableTime v }

/-- Sets the total, which ends all estimates; nothing takes a total back. -/
def setTotal (p : Progress) : Value → Except ArithmeticError Progress
  | .null => .ok { p with total := none }
  | v => return { p with total := some (← usableTime v), estimate := none, locked := true }

/-- Sets the estimate, unless a total was set before. -/
def setEstimate (p : Progress) (v : Value) : Except ArithmeticError Progress :=
  if p.locked then .ok p else return { p with estimate := ← usableTimeOr v }

/-- What the time that is done is measured against. -/
def denominator (p : Progress) : Option Binary64 := p.total.orElse fun _ => p.estimate

/-- The part that is done, from zero to one; zero where nothing is known of the whole. -/
def ratio (p : Progress) : Binary64 :=
  match p.denominator with
  | none => .zero
  | some d =>
    if Binary64.zero.lt d then
      let raw := p.output.div d
      if raw.isFinite then Binary64.zero.max ((Binary64.ofNat 1).min raw) else .zero
    else .zero

/-- Progress as a value. -/
def toValue (p : Progress) : Value :=
  .object [("ratio", .double p.ratio), ("output_time_ms", .double p.output),
    ("total_time_ms", .doubleOr p.total), ("estimated_total_time_ms", .doubleOr p.estimate)]

end Progress

end MediaEngine.Job
