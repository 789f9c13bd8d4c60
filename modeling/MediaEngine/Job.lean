import MediaEngine.Job.History
import MediaEngine.Job.Script
import MediaEngine.Job.Token

/-!
# Jobs

A job is a submission that was admitted: its progress, its token, where it stands, and how it ended. A
snapshot of it is what others are shown, an event is what they are told, and an entry is what the history
keeps.
-/

namespace MediaEngine

/-- The number of a job, in the order of admission. -/
abbrev JobId := Nat

/-- The number of a task, in the order of creation. -/
abbrev TaskId := Nat

/-- The name of a job by its number. -/
def JobId.text (id : JobId) : String := "job-" ++ Number.intText id

/-- Which metadata can be copied: copying goes down into every value, and surroundings bound how deep. -/
abbrev Copying := Members → Bool

/-- All metadata can be copied. -/
def Copying.total : Copying := fun _ => true

/-- Metadata can be copied down to a depth. -/
def Copying.toDepth (depth : Nat) : Copying := fun m => decide ((Value.object m).height ≤ depth)

/-- A callback on the token of a job: it notes the reason under a label. -/
structure CancelNote where
  who : String
  label : Value

/-- A job that was admitted. -/
structure Job where
  id : JobId
  submission : Job.Submission
  progress : Job.Progress
  bridge : Option Job.Bridge
  token : Job.Token CancelNote TaskId
  status : Job.Status
  /-- The metadata, which the submitter may still change. -/
  metadata : Option Members
  startedAt : Option Nat
  finishedAt : Option Nat
  errorMessage : Option String
  message : Option String
  /-- The job has ended, and how it ended is settled. -/
  finalized : Bool

namespace Job

/-- What others are shown of a job. -/
structure Snapshot where
  id : JobId
  name : String
  status : Status
  progress : Progress
  metadata : Option Members

/-- What listeners are told. -/
structure Event where
  kind : EventKind
  snapshot : Snapshot

/-- A job that has just been admitted. -/
def admitted (id : JobId) (submission : Submission) (progress : Progress) : Job where
  id := id
  submission := submission
  progress := progress
  bridge := none
  token := .fresh
  status := .queued
  metadata := submission.metadata
  startedAt := none
  finishedAt := none
  errorMessage := none
  message := none
  finalized := false

/-- The name of a job. -/
def name (j : Job) : String := j.submission.name

/-- The job once it runs. -/
def started (j : Job) (now : Nat) : Job := { j with status := .running, startedAt := some now }

/-- The message of a job that ends: the one that is given; for a canceled job, else the reason of its
    token. -/
def finalMessage (j : Job) (status : Status) (message : Option String) : Option String :=
  match message, status with
  | none, .canceled => j.token.reason
  | _, _ => message

/-- The job once it has ended. -/
def ended (j : Job) (now : Nat) (status : Status) (errorMessage message : Option String) : Job :=
  { j with
    finalized := true
    status := status
    finishedAt := some now
    errorMessage := errorMessage
    message := j.finalMessage status message }

/-- The metadata of a job can be copied. -/
def isCopied (j : Job) (copies : Copying) : Bool := j.metadata.all copies

/-- The snapshot of a job. It has a copy of the metadata, so there is one only where they can be copied. -/
def snapshot (j : Job) : Snapshot := ⟨j.id, j.name, j.status, j.progress, j.metadata⟩

/-- The entry of a job that has ended, with the path of its result. It has a copy of the metadata, as a snapshot has. -/
def entry (j : Job) (outputPath : Option String) : Entry where
  jobId := j.id.text
  name := j.name
  status := j.status
  outputPath := outputPath
  errorMessage := j.errorMessage
  startedAt := j.startedAt.map Moment.ofClock
  finishedAt := j.finishedAt.map Moment.ofClock
  metadata := j.metadata
  level := j.status.level
  message := j.message

/-- What is told of how a job ended, if anything is. -/
def detail (j : Job) : Option String :=
  match j.errorMessage.filter (!·.isEmpty) with
  | some e => some e
  | none => j.message.filter (!·.isEmpty)

/-- A snapshot as a value. -/
def Snapshot.toValue (s : Snapshot) : Value :=
  .object [("job_id", .text s.id.text), ("name", .text s.name), ("status", .text s.status.text),
    ("progress", s.progress.toValue),
    ("metadata", .objectOr (s.metadata.map Value.finiteMembers))]

/-- A snapshot as it is written. -/
def Snapshot.write (s : Snapshot) : Except HeightError Value :=
  writtenIf (s.metadata.all Members.areWritable) s.toValue

/-- An event as a value: what happened, the job, its status, its ratio and its metadata. -/
def Event.toValue (e : Event) : Value :=
  .list [.text e.kind.text, .text e.snapshot.id.text, .text e.snapshot.status.text,
    .double e.snapshot.progress.ratio, .objectOr e.snapshot.metadata]

end Job

end MediaEngine
