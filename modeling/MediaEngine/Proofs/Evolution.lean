import MediaEngine.Proofs.Acts
import MediaEngine.Proofs.Jobs

/-! # How a scheduler evolves

What listeners, scripts and the queue do while one event is told or one step is taken is a tree: a
listener may hand a job in, of which others are told, who may cancel all jobs, of which others are told.
`Evolves` describes these trees once, by what happens to jobs. Whether the tree was cut short, because
the task that grew it was cancelled, is an index: nothing follows in a tree that was. -/

namespace MediaEngine
open Job

/-- The job whose task this is. -/
def Work.owner? : Work → Option JobId
  | .job owner _ => some owner
  | .waitIdle .. => none

/-- A note that neither asks a job to stop nor tells how one ended. -/
def Queue.Note.isPlain : Queue.Note → Bool
  | .heard _ event => event.kind != .finished
  | .logged (.asked _) => false
  | _ => true

/-- A step by which a listener may be cut short: it stops like a cancelled task, or calls back into the
    queue. -/
def Job.Step.mayBreak : Step → Bool
  | .fail fault => fault.isTaskCancelled
  | .cancelAll => true
  | .enqueue _ => true
  | .enqueueOrStop _ => true
  | _ => false

namespace Scheduler
variable {s t u : Scheduler}

/-- A task of a job that is not over. -/
def Lives (s : Scheduler) (i : TaskId) (id : JobId) : Prop :=
  ∃ t, s.tasks[i]? = some t ∧ t.work.owner? = some id ∧ t.turn ≠ .over

/-- A job that waits, or will be admitted. -/
def Upcoming (s : Scheduler) (id : JobId) : Prop := id ∈ s.queue.waiting ∨ s.queue.nextId ≤ id

/-- The scheduler after the entry of a job was handed to the store. -/
def keep (s : Scheduler) (id : JobId) (path : Option String) : Scheduler :=
  match s.queue.job? id with
  | none => s
  | some j => s.mapQueue (·.hand (j.entry path) (s.queue.store.record? (j.entry path)))

/-- Every job stays where it is: none is admitted, moves, or ends. -/
structure Stays (s t : Scheduler) : Prop where
  continues : Queue.Continues s.queue t.queue
  jobs : List.Forall₂ Tuned s.queue.jobs t.queue.jobs
  nextId : s.queue.nextId ≤ t.queue.nextId
  waiting : t.queue.waiting = s.queue.waiting
  active : t.queue.active = s.queue.active
  filed : ∀ e ∈ t.queue.recorded, e ∈ s.queue.recorded ∨ ∃ id ∈ s.queue.ids, e.jobId = id.text
  brokenOff : t.queue.brokenOff = s.queue.brokenOff

/-- Every job stays where it is, and besides no entry is kept, no job is asked to stop, and no task of a
    job is created. -/
structure Steady (s t : Scheduler) : Prop extends Stays s t where
  store : t.queue.store = s.queue.store
  recorded : t.queue.recorded = s.queue.recorded
  lives : ∀ i id, t.Lives i id → s.Lives i id
  notes : ∃ ns, t.notes = s.notes ++ ns ∧ ∀ n ∈ ns, n.isPlain

/-- What follows once all were told that a job started: its task is created. -/
def Spawned (id : JobId) : Bool → Scheduler → Scheduler → Prop
  | true, t, u => u = t
  | false, t, u => u = t.spawn (.job id .fresh)

/-- What follows once all were told that a job is asked to stop: its token is signalled. -/
def Asked (id : JobId) : Bool → Scheduler → Scheduler → Prop
  | true, t, u => u = t
  | false, t, u => ∃ v, Steady t v ∧ v.queue.isCancelled id = true ∧ u = v.noted (.logged (.asked id))

/-- What follows once all were told that a job ended: its entry is handed to the store. -/
def Kept (id : JobId) (path : Option String) : Bool → Scheduler → Scheduler → Prop
  | true, t, u => u = t ∧ id ∈ t.queue.brokenOff
  | false, t, u => Steady (t.keep id path) u

end Scheduler

open Scheduler in
/-- A scheduler evolves into another while an event may be told; `true` means that it was cut short. -/
inductive Evolves : Option Event → Bool → Scheduler → Scheduler → Prop
  | steady {told s t} : Steady s t → Evolves told false s t
  | halt {told s} : Evolves told true s s
  | trans {told b s t u} : Evolves told false s t → Evolves told b t u → Evolves told b s u
  /-- A listener is told of the event. -/
  | hear {event s} (who : String) : Evolves (some event) false s (s.noted (.heard who event))
  /-- A listener that was told of the event stopped like a cancelled task. -/
  | breakOff {event s t} : Evolves (some event) true s t → Evolves (some event) true s (t.mapQueue (·.breakOff event))
  | enroll {told s} (submission : Submission) (progress : Progress) : s.queue.isFull = false →
      Evolves told false s (s.mapQueue fun q => q.draw.enlist (.admitted q.nextId submission progress))
  | start {told b s t u id q now l} : s.queue.startNext? = some (id, q) →
      Evolves none b { s with queue := q.recover.activate id now, loop := l } t → Spawned id b t u →
      Evolves told b s u
  | ask {told b s t u id j} : id ∈ s.queue.active → s.queue.job? id = some j →
      j.status ≠ .cancelling → j.status ≠ .canceled →
      Evolves none b (s.mapQueue (·.update id fun j => { j with status := .cancelling })) t → Asked id b t u →
      Evolves told b s u
  /-- A job that waits ends. -/
  | leave {told b s t u id j now message path l} : id ∈ s.queue.waiting → s.queue.job? id = some j →
      Evolves (some ⟨.finished, (j.ended now .canceled none message).snapshot⟩) b
        { s with queue := (s.queue.withdraw id).update id (·.ended now .canceled none message), loop := l } t →
      Kept id path b t u → Evolves told b s u

open Scheduler in
/-- A job ends: how it ended is settled, listeners are told, and unless that was cut short its entry is
    kept. -/
def Ends (id : JobId) (status : Job.Status) (path errorMessage message : Option String) (b : Bool)
    (s u : Scheduler) : Prop :=
  ∃ j now t, s.queue.job? id = some j ∧ j.finalized = false ∧
    Evolves (some ⟨.finished, (j.ended now status errorMessage message).snapshot⟩) b
      (s.mapQueue (·.update id (·.ended now status errorMessage message))) t ∧
    Kept id path b t u

end MediaEngine
