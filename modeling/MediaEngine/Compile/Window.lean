import MediaEngine.Chain.Node

/-!
# The trim window

The last trim node sets the bounds, and any trim node can make the cut strict. A bound counts only if it
is a finite number that is not negative. A fast cut seeks in front of the source and guards the length of
the result; a strict cut is a filter stage.
-/

namespace MediaEngine
open Chain

/-- The bounds in force, in milliseconds, and whether the cut is strict. -/
structure TrimWindow where
  start : Option Number
  stop : Option Number
  strict : Bool
  deriving DecidableEq

/-- The number that a bound sets, if it sets one. -/
def usableBound : Value → Except ArithmeticError (Option Number)
  | .number n => do
    if ← n.isFinite then return if n.lt (.int 0) then none else some n
    else return none
  | _ => .ok none

namespace TrimWindow

/-- The window of all trim nodes together. -/
def ofTrims (trims : List Trim) : Except ArithmeticError TrimWindow :=
  match trims.getLast? with
  | none => .ok ⟨none, none, false⟩
  | some last => do
    let start ← usableBound last.start
    let stop ← usableBound last.stop
    return ⟨start, stop, trims.any (·.strict)⟩

/-- Where the window starts; a start of zero is the zero among doubles. -/
def startOrZero (w : TrimWindow) : Number :=
  match w.start with
  | some n => if n.isZero then .zero else n
  | none => .zero

/-- The length of a window that has an end, never negative. -/
def length (w : TrimWindow) : Except ArithmeticError (Option Number) :=
  match w.stop with
  | none => .ok none
  | some stop => do return some (Number.zero.max (← stop.sub w.startOrZero))

end TrimWindow

/-- Milliseconds as seconds with three places. -/
def seconds (milliseconds : Number) : Except ArithmeticError String :=
  return (← milliseconds.div (.int 1000)).threePlaces

namespace TrimWindow

/-- The options in front of the source: of a fast cut its start, and its length if it has an end. -/
def inputArgs (w : TrimWindow) : Except ArithmeticError (List String) :=
  match w.strict, w.start with
  | false, some start => do
    let seek ← seconds start
    match ← w.length with
    | none => return ["-ss", seek]
    | some length => return ["-ss", seek, "-t", ← seconds length]
  | _, _ => .ok []

/-- The options in front of the result: of a fast cut with both bounds the length that is played. -/
def outputArgs (w : TrimWindow) (speed : Binary64) : Except ArithmeticError (List String) :=
  match w.strict, w.start, w.stop with
  | false, some _, some _ => do
    match ← w.length with
    | none => return []
    | some length => return ["-t", ← seconds (.float (← length.div (.float speed)))]
  | _, _, _ => .ok []

/-- The parameters of the filter of a strict cut, if a bound is set. -/
def strictParams (w : TrimWindow) : Except ArithmeticError (Option Members) :=
  match w.strict, w.start, w.stop with
  | false, _, _ => .ok none
  | true, none, none => .ok none
  | true, _, none => do
    return some [("mode", .text "strict-start"), ("start_ms", .number w.startOrZero),
      ("start", .text (← seconds w.startOrZero)), ("setpts", .text "PTS-STARTPTS")]
  | true, _, some stop => do
    return some [("mode", .text "strict-range"), ("start_ms", .number w.startOrZero),
      ("start", .text (← seconds w.startOrZero)), ("end_ms", .number stop),
      ("end", .text (← seconds stop)), ("setpts", .text "PTS-STARTPTS")]

end TrimWindow

end MediaEngine
