import MediaEngine.Schema.Record

/-!
# Results of jobs

The body of a job returns nothing or an object. Four members have a meaning; all others are kept as they
are. Where a member is written in both spellings, the one with underscores is one of the others.
-/

namespace MediaEngine.Job
open Schema

/-- What the body of a job returned. -/
structure RunResult where
  outputPath : Option String
  totalTime : Option Binary64
  outputTime : Option Binary64
  payload : Value
  extra : Members

/-- Why a returned value is no result. -/
inductive ResultError where
  | invalid (report : Report)
  /-- Neither an object nor nothing, but something of this kind. -/
  | notResult (kindName : String)
  deriving DecidableEq

/-- The wording. -/
def ResultError.message : ResultError → String
  | invalid report => report.text
  | notResult kindName => "Job body must return JobRunResult, dict or None, got " ++ kindName

namespace RunResult

def outputPathKey : Key := ⟨"output_path", "outputPath"⟩
def totalTimeKey : Key := ⟨"total_time_ms", "totalTimeMs"⟩
def outputTimeKey : Key := ⟨"output_time_ms", "outputTimeMs"⟩
def payloadKey : Key := .only "result"

/-- The keys that have a meaning. -/
def keys : List Key := [outputPathKey, totalTimeKey, outputTimeKey, payloadKey]

/-- The result of a body that returns nothing. -/
def empty : RunResult := ⟨none, none, none, .null, []⟩

/-- Whether a key is the spelling under which a member with a meaning is found. -/
def isUsed (m : Members) (key : String) : Bool :=
  keys.any fun k => (k.find? m).any fun (found, _) => found == key

/-- The members without a meaning. -/
def extras (m : Members) : Members := m.filter fun (key, _) => !isUsed m key

/-- The result of an object. -/
def readMembers (m : Members) : Checked RunResult :=
  RunResult.mk <$> nullable outputPathKey readText m <*> nullable totalTimeKey readDouble m
    <*> nullable outputTimeKey readDouble m <*> withDefault payloadKey readAny .null m
    <*> .ok (extras m)

/-- The title of results in reports. -/
def title : String := "JobRunResult"

/-- The result that a returned value means. A result that is returned as one is taken as it is; none of these values is one. -/
def ofValue : Value → Except ResultError RunResult
  | .null => .ok empty
  | .object m =>
    match (readMembers m).titled title with
    | .ok r => .ok r
    | .error report => .error (.invalid report)
  | v => .error (.notResult v.kindName)

/-- A result as a value, the members without a meaning kept apart. -/
def toValue (r : RunResult) : Value :=
  .object [("output_path", .textOr r.outputPath), ("total_time_ms", .doubleOr r.totalTime),
    ("output_time_ms", .doubleOr r.outputTime), ("result", r.payload), ("extra", .object r.extra)]

end RunResult

end MediaEngine.Job
