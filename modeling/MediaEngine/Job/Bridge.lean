import MediaEngine.Job.Progress

/-!
# Preview frames and encoder time

Two signals tell how far a job is: the time of the encoder, and the number of the preview frame that is
shown. Both drive one progress; a frame moves it only if the two disagree by more than a tolerance.
-/

namespace MediaEngine.Job

/-- Why a bridge refuses an input. -/
inductive BridgeError where
  | badFps
  | badFrameIndex
  | arithmetic (error : ArithmeticError)
  /-- Something that cannot be compared with a number of this kind. -/
  | notOrdered (kindName : String) (other : String)
  deriving DecidableEq

/-- The wording. -/
def BridgeError.message : BridgeError → String
  | badFps => "PreviewProgressBridge requires fps > 0"
  | badFrameIndex => "frame_index must be a non-negative integer"
  | arithmetic e => e.message
  | notOrdered kindName other =>
    "'>' not supported between instances of '" ++ kindName ++ "' and '" ++ other ++ "'"

/-- What joins preview frames and encoder time, in milliseconds. -/
structure Bridge where
  frameDuration : Binary64
  tolerance : Binary64
  lastPreview : Binary64
  lastEncoder : Number
  deriving DecidableEq

/-- The arithmetic of a bridge. -/
def bridging {α : Type} : Except ArithmeticError α → Except BridgeError α
  | .ok a => .ok a
  | .error e => .error (.arithmetic e)

/-- What a value counts as when it is compared with another kind of number; a truth value counts as one or
    zero. -/
def ordered (other : String) : Value → Except BridgeError Number
  | .number n => .ok n
  | .bool b => .ok (.int (if b then 1 else 0))
  | v => .error (.notOrdered v.kindName other)

/-- A frame rate, which has to be positive and finite. -/
def usableFps : Value → Except BridgeError Binary64
  | .number n => do
    let x ← bridging n.toDouble
    if x.isFinite && Binary64.zero.lt x then return x else throw .badFps
  | _ => .error .badFps

/-- The frames that are tolerated: a number that is not negative, one where nothing is given. -/
def toleratedFrames : Value → Except BridgeError Number
  | .null => .ok (.int 1)
  | v => return Number.zero.max (← ordered "float" v)

/-- The number of frames that a bridge sets a total by: a positive number, if one is given. -/
def totalFrames (v : Value) : Except BridgeError (Option Number) :=
  if v.isVoid then .ok none
  else do
    let n ← ordered "int" v
    return if Number.lt (.int 0) n then some n else none

namespace Bridge

/-- A bridge on a progress. The progress is given its total if the number of frames is known. -/
def build (fps tolerance frames : Value) (p : Progress) : Except BridgeError (Bridge × Progress) := do
  let rate ← usableFps fps
  let frameDuration := (Binary64.ofNat 1000).div rate
  let tolerated ← toleratedFrames tolerance
  let tolerance ← bridging (do (← tolerated.mul (.float frameDuration)).toDouble)
  let bridge : Bridge := ⟨frameDuration, tolerance, .zero, .zero⟩
  match ← totalFrames frames with
  | none => return (bridge, p)
  | some n =>
    let total ← bridging (n.mul (.float frameDuration))
    return (bridge, ← bridging (p.setTotal (.number total)))

/-- The encoder's time, brought up to zero, as the bridge remembers it. -/
def encoderTime (v : Value) : Except BridgeError Number := return Number.zero.max (← ordered "float" v)

/-- What the progress is told of the encoder's time: a truth value that counts as one is passed on as it
    is. -/
def encoderOutput (v : Value) (time : Number) : Value :=
  match v with
  | .bool true => v
  | _ => .number time

/-- Takes the encoder's time over. The bridge remembers the time also where the progress refuses it. -/
def recordEncoder (b : Bridge) (p : Progress) (v : Value) : Bridge × Except BridgeError Progress :=
  match encoderTime v with
  | .error e => (b, .error e)
  | .ok time =>
    ({ b with lastEncoder := time }, bridging (p.setOutput (encoderOutput v time)))

/-- The number of a frame, which has to be whole and not negative. -/
def frameIndex : Value → Except BridgeError Int
  | .number (.int n) => if 0 ≤ n then .ok n else .error .badFrameIndex
  | _ => .error .badFrameIndex

/-- How far a time is from the output of a progress. -/
def drift (time : Binary64) (p : Progress) : Binary64 := (time.sub p.output).abs

/-- Takes over that a frame was shown. -/
def recordFrame (b : Bridge) (p : Progress) (v : Value) : Bridge × Except BridgeError Progress :=
  match (do
    let i ← frameIndex v
    bridging (do (← (Number.int (i + 1)).mul (.float b.frameDuration)).toDouble)) with
  | .error e => (b, .error e)
  | .ok time =>
    let b := { b with lastPreview := time }
    if b.tolerance.lt (drift time p) then (b, bridging (p.setOutput (.double time))) else (b, .ok p)

/-- Whether the later of the two signals is within the tolerance of the progress. -/
def isInSync (b : Bridge) (p : Progress) : Except ArithmeticError Bool := do
  let reference := (Number.float b.lastPreview).max b.lastEncoder
  let gap ← (← reference.sub (.float p.output)).toDouble
  return gap.abs.le b.tolerance

end Bridge

end MediaEngine.Job
