import MediaEngine.Queue

/-!
# Views of a queue

An overview tells which jobs are active, wait and have ended; a view shows all that a queue lets others
see. Both are written as values.
-/

namespace MediaEngine.Queue

/-- The numbers of jobs as values. -/
def idValues (ids : List JobId) : Value := .list (ids.map fun id => .text id.text)

/-- The overview: active jobs and the history with their statuses, waiting jobs, and how many waited
    when a job was last turned away. -/
def overview (q : Queue) : Members :=
  [("active", .list ((q.jobsOf q.active).map fun j => .list [.text j.id.text, .text j.status.text])),
    ("queued", idValues q.waiting),
    ("history", .list (q.history.map fun e => .list [.text e.jobId, .text e.status.text])),
    ("full_event", .intOr (q.fullEvent.map (·.queuedJobs)))]

/-- The numbers of the entries that a supplied store shows; nothing where none was supplied. A store that
    was supplied but is not used stays empty. -/
def suppliedStore (q : Queue) : Option Job.Store → Value
  | none => .null
  | some s => if s.isVoid then .list [] else .list (q.history.map fun e => .text e.jobId)

/-- All that a queue lets others see, as it is written. -/
def view (q : Queue) (supplied : Option Job.Store) : Except HeightError Members := do
  let active ← q.activeSnapshots.mapM Job.Snapshot.write
  let waiting ← q.waitingSnapshots.mapM Job.Snapshot.write
  let history ← q.history.mapM Job.Entry.write
  return [("active_job", active.head?.getD .null),
    ("active", .list active),
    ("queued", .list waiting),
    ("running_count", .nat q.active.length),
    ("queued_count", .nat q.waiting.length),
    ("history", .list history),
    ("limits", q.limits.toValue),
    ("settings", q.settings.toValue),
    ("full_event", (q.fullEvent.map Job.FullEvent.toValue).getD .null),
    ("store", q.suppliedStore supplied)]

/-- All that a queue lets others see, which is copied before it is written. -/
def shown (q : Queue) (copies : Copying) (supplied : Option Job.Store) : Except Job.Fault Members :=
  if q.isCopied copies then (q.view supplied).mapError .height else .error .uncopyable

end MediaEngine.Queue
