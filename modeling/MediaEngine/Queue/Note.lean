import MediaEngine.Job

/-!
# Notes

Whatever can be observed while a queue works is noted, in order: what scripts tell, what listeners hear,
how a job that was handed in was answered, and what the queue writes to its log.
-/

namespace MediaEngine.Queue

/-- Which jobs were cancelled together: the active ones that were asked to stop, and those that waited. -/
structure Cancellation where
  active : List JobId
  waiting : List JobId
  deriving DecidableEq

/-- A line of the log. -/
inductive LogLine where
  /-- A job was turned away. -/
  | refused (name : String) (waiting : Nat) (limit : Int)
  | queued (name : String) (id : JobId) (position : Nat)
  | started (name : String) (id : JobId) (running : Nat)
  /-- An active job was asked to stop. -/
  | asked (id : JobId)
  /-- A job ends that has ended. -/
  | ended (id : JobId) (status : Job.Status)
  | finished (name : String) (id : JobId) (status : Job.Status) (detail : Option String)
  | listenerFailed (kind : Job.EventKind) (id : JobId)
  deriving DecidableEq

namespace LogLine

/-- How serious a line is. -/
def level : LogLine → Job.Level
  | refused .. => .warn
  | queued .. => .info
  | started .. => .info
  | asked _ => .info
  | ended .. => .warn
  | finished _ _ status _ => status.level
  | listenerFailed .. => .error

/-- A job by its name and number. -/
def jobText (name : String) (id : JobId) : String := "Job '" ++ name ++ "' (" ++ id.text ++ ")"

/-- The line without what stands in front of every line. -/
def body : LogLine → String
  | refused name waiting limit =>
    "Rejected '" ++ name ++ "': queue full (" ++ Number.intText waiting ++ "/" ++
      Number.intText limit ++ ")"
  | queued name id position =>
    jobText name id ++ " queued at position " ++ Number.intText position
  | started name id running => jobText name id ++ " started, running: " ++ Number.intText running
  | asked id => "Cancellation requested for running job " ++ id.text
  | ended id status => "Job " ++ id.text ++ " already finalized as " ++ status.text
  | finished name id status detail =>
    jobText name id ++ " " ++ status.text ++ (detail.map (": " ++ ·)).getD ""
  | listenerFailed kind id => "Listener failed on " ++ kind.text ++ " for job " ++ id.text

/-- The text of a line. -/
def text (l : LogLine) : String := "[JobQueue] " ++ l.body

/-- The name of the level of a line, as the log writes it. -/
def levelText (l : LogLine) : String :=
  match l.level with
  | .info => "INFO"
  | .warn => "WARNING"
  | .error => "ERROR"

end LogLine

/-- Something that was observed. -/
inductive Note where
  /-- A script told a value, under a word that says what it is. -/
  | told (who what : String) (value : Value)
  /-- A listener was told of an event. -/
  | heard (who : String) (event : Job.Event)
  /-- A script handed a job in and was answered. -/
  | answered (who : String) (answer : Except Job.Fault JobId)
  | logged (line : LogLine)

/-- Jobs that were cancelled together as a value; the first active one is named once more. -/
def Cancellation.toValue (c : Cancellation) : Value :=
  .object [("running_job_id", .textOr ((c.active.head?).map JobId.text)),
    ("running_job_ids", .list (c.active.map fun id => .text id.text)),
    ("queued_job_ids", .list (c.waiting.map fun id => .text id.text))]

end MediaEngine.Queue
