import MediaEngine.Job.History
import MediaEngine.Text.Case

/-!
# Warnings about a queue

A queue warns that it is full, because it turned a job away or because it is at its capacity, and it warns
of the latest job that waited too long.
-/

namespace MediaEngine.Job
open Schema

/-- The limits that a queue shows. -/
structure Limits where
  maxParallelJobs : Int
  maxQueueLength : Int
  queueTimeout : Int
  deriving DecidableEq

/-- That a job was turned away, and how many were waiting. -/
structure FullEvent where
  occurredAt : Moment
  queuedJobs : Int
  deriving DecidableEq

namespace Limits

def parallelKey : Key := .only "max_parallel_jobs"
def lengthKey : Key := .only "max_queue_length"
def timeoutKey : Key := .only "queue_timeout_ms"

/-- The title of limits in reports. -/
def title : String := "QueueLimits"

def readMembers (m : Members) : Checked Limits :=
  Limits.mk <$> required parallelKey readInteger m <*> required lengthKey readInteger m
    <*> required timeoutKey readInteger m <* closed [parallelKey, lengthKey, timeoutKey] m

/-- Limits read from a value. -/
def read : Value → Checked Limits := record title readMembers

/-- Limits as a value. -/
def toValue (l : Limits) : Value :=
  .object [(parallelKey.name, .int l.maxParallelJobs), (lengthKey.name, .int l.maxQueueLength),
    (timeoutKey.name, .int l.queueTimeout)]

end Limits

namespace FullEvent

def occurredAtKey : Key := .only "occurred_at"
def queuedJobsKey : Key := .only "queued_jobs"

/-- The title of the event in reports. -/
def title : String := "QueueFullEvent"

def readMembers (m : Members) : Checked FullEvent :=
  FullEvent.mk <$> required occurredAtKey Moment.read m <*> required queuedJobsKey readInteger m
    <* closed [occurredAtKey, queuedJobsKey] m

/-- An event read from a value. -/
def read : Value → Checked FullEvent := record title readMembers

/-- An event as a value. -/
def toValue (e : FullEvent) : Value :=
  .object [(occurredAtKey.name, .text e.occurredAt.text), (queuedJobsKey.name, .int e.queuedJobs)]

end FullEvent

/-- What a warning is about. -/
inductive WarningKind where
  | full
  | timeout
  deriving DecidableEq

/-- The name of what a warning is about. -/
def WarningKind.text : WarningKind → String
  | full => "QUEUE_FULL"
  | timeout => "QUEUE_TIMEOUT"

/-- A warning shown next to a queue. -/
structure Warning where
  kind : WarningKind
  level : Level
  message : String
  occurredAt : Moment
  deriving DecidableEq

/-- A warning as a value. -/
def Warning.toValue (w : Warning) : Value :=
  .object [("type", .text w.kind.text), ("level", .text w.level.text), ("message", .text w.message),
    ("occurred_at", .text w.occurredAt.isoText)]

/-- Two entries whose moments cannot be compared. -/
inductive WarningError where
  | incomparable
  deriving DecidableEq

/-- The words by which an entry tells that a job waited too long, in lower case. -/
def timeoutMarker : List Char := "queue timeout".toList

/-- Whether a text tells that a job waited too long. -/
def mentionsTimeout (s : Option String) : Bool :=
  s.any fun s => Text.occursIn timeoutMarker (Text.lower s)

namespace Entry

/-- Whether the entry is of a job that waited too long. -/
def isTimeout (e : Entry) : Bool := mentionsTimeout e.message || mentionsTimeout e.errorMessage

/-- When the job ended, or else when it started. -/
def moment? (e : Entry) : Option Moment := e.finishedAt.orElse fun _ => e.startedAt

/-- The moment by which entries are compared. -/
def eventMoment (e : Entry) : Moment := e.moment?.getD .earliest

end Entry

/-- The later of the latest entry so far and one more; the former where neither is later. -/
def laterEntry (latest : Option Entry) (e : Entry) : Except WarningError (Option Entry) :=
  match latest with
  | none => .ok (some e)
  | some l =>
    match e.eventMoment.later? l.eventMoment with
    | none => .error .incomparable
    | some later => .ok (some (if later then e else l))

/-- The latest entry of a job that waited too long. -/
def latestTimeout (history : List Entry) : Except WarningError (Option Entry) :=
  (history.filter Entry.isTimeout).foldlM laterEntry none

/-- The warning that a queue is full. -/
def fullWarning (limits : Limits) (queued : Int) (event : Option FullEvent) (now : Moment) :
    Option Warning :=
  match event with
  | some e =>
    some ⟨.full, .warn, "Queue full: admission rejected with " ++ Number.intText e.queuedJobs ++ "/" ++
      Number.intText limits.maxQueueLength ++ " waiting", e.occurredAt⟩
  | none =>
    if limits.maxQueueLength ≤ queued then
      some ⟨.full, .warn, "Queue is at capacity (" ++ Number.intText queued ++ "/" ++
        Number.intText limits.maxQueueLength ++ ")", now⟩
    else none

/-- The message of an entry, or one that stands in for it. -/
def timeoutMessage (e : Entry) : String :=
  match e.message with
  | some m => if m.isEmpty then "Queue timeout exceeded" else m
  | none => "Queue timeout exceeded"

/-- The warning about an entry of a job that waited too long. -/
def timeoutWarning (e : Entry) (now : Moment) : Warning :=
  ⟨.timeout, e.level, timeoutMessage e, e.moment?.getD now⟩

/-- The warnings about a queue; none where its limits are not known. -/
def warnings (history : List Entry) (limits : Option Limits) (queued : Int)
    (event : Option FullEvent) (now : Moment) : Except WarningError (List Warning) :=
  match limits with
  | none => .ok []
  | some limits => do
    let latest ← latestTimeout history
    return (fullWarning limits queued event now).toList ++
      (latest.map fun e => timeoutWarning e now).toList

end MediaEngine.Job
