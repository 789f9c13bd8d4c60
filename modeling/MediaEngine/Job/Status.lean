import MediaEngine.Text.Quoted

/-!
# The status of a job

A job waits, runs, possibly cools down while its preview is made, and ends completed, failed or canceled.
A running job that was asked to stop is cancelling until it ends.
-/

namespace MediaEngine.Job

/-- Where a job stands. -/
inductive Status where
  | queued
  | running
  | cancelling
  | coolingDown
  | completed
  | failed
  | canceled
  deriving DecidableEq

/-- How serious a note is. -/
inductive Level where
  | info
  | warn
  | error
  deriving DecidableEq

namespace Status

/-- The name of a status. -/
def text : Status → String
  | queued => "queued"
  | running => "running"
  | cancelling => "cancelling"
  | coolingDown => "coolingDown"
  | completed => "completed"
  | failed => "failed"
  | canceled => "canceled"

/-- All statuses by name. -/
def choices : List (String × Status) :=
  [queued, running, cancelling, coolingDown, completed, failed, canceled].map fun s => (s.text, s)

/-- The status of a name. -/
def ofText? (s : String) : Option Status := choices.lookup s

/-- The wording for a name that no status has. -/
def unknownMessage (s : String) : String := Text.quoted s ++ " is not a valid JobState"

/-- Whether a job of this status has ended. -/
def isTerminal : Status → Bool
  | completed | failed | canceled => true
  | _ => false

/-- How serious the note about a job that ends with this status is. -/
def level : Status → Level
  | failed => .error
  | canceled | cancelling => .warn
  | _ => .info

end Status

namespace Level

/-- The name of a level. -/
def text : Level → String
  | info => "info"
  | warn => "warn"
  | error => "error"

/-- All levels by name. -/
def choices : List (String × Level) := [info, warn, error].map fun l => (l.text, l)

end Level

end MediaEngine.Job
