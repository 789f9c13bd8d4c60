import MediaEngine.Scheduler.Task

/-!
# Commands

A command is what is done to a scheduler from outside. It is answered with a reply or a fault, an
overview of the queue, and all that was noted in the meantime. A run is the answers of commands that are
given one after the other.
-/

namespace MediaEngine.Scheduler
open Job

/-- Something that is done to a scheduler. -/
inductive Command where
  /-- Hands a job in. -/
  | enqueue (submission : Submission)
  /-- Hands a job in where nothing could run it. -/
  | enqueueOutside (submission : Submission)
  | cancelAll
  /-- Lets tasks take their turns until none is ready. -/
  | settle
  /-- Lets time pass. -/
  | advance (milliseconds : Nat)
  | openGate (name : String)
  /-- Cancels the task of a job. -/
  | kill (job : String)
  /-- Starts a task that waits until the queue is idle. -/
  | waitIdle (name : String)
  /-- Cancels such a task. -/
  | cancelWait (name : String)
  | subscribe (listener : Listener)
  | unsubscribe (name : String)
  | view
  | warnings
  /-- Changes everything that a view shows; a view is a copy, and so nothing happens. -/
  | changeViews
  /-- Changes the metadata of the latest job of a name. -/
  | setMetadata (job key : String) (value : Value)

/-- How many steps can follow from a command. -/
def Command.weight : Command → Nat
  | .enqueue s => s.weight
  | .enqueueOutside s => s.weight
  | .waitIdle _ => 2
  | .subscribe l => l.weight
  | _ => 1

/-- The reply to a command. -/
inductive Reply where
  | done
  | admitted (job : JobId)
  | cancelled (jobs : Queue.Cancellation)
  | flag (b : Bool)
  | view (members : Members)
  | warnings (list : List Warning)

/-- A reply as a value. -/
def Reply.toValue : Reply → Value
  | .done => .null
  | .admitted job => .text job.text
  | .cancelled jobs => jobs.toValue
  | .flag b => .bool b
  | .view members => .object members
  | .warnings list => .list (list.map Warning.toValue)

/-- Whether a task is the one of a job, known by its name. -/
def Work.isOf (job : String) : Work → Bool
  | .job owner _ => owner.text == job
  | _ => false

/-- Whether a task waits for the queue to be idle and then tells so under a name. -/
def Work.waitsAs (name : String) : Work → Bool
  | .waitIdle n _ => n == name
  | _ => false

/-- The latest task of some kind. -/
def latestTask? (s : Scheduler) (p : Work → Bool) : Option TaskId :=
  match s.tasks.reverse.dropWhile fun t => !p t.work with
  | [] => none
  | _ :: rest => some rest.length

/-- Cancels the latest task of some kind; a name stands for it in the fault if there is none. -/
def killLatest (name : String) (p : Work → Bool) : Act Bool := do
  match (← get).latestTask? p with
  | none => throw (.unknownName name)
  | some task => killTask task

/-- Changes the metadata of the latest job of a name. -/
def setMetadata (name key : String) (value : Value) : Act Unit := do
  match (← queueNow).latest? name with
  | none => throw (.unknownName name)
  | some job =>
    match job.metadata with
    | none => throw .noMetadata
    | some m => onQueue (·.update job.id fun j => { j with metadata := some (Members.set key value m) })

/-- Obeys a command. `supplied` is the store that was supplied for the queue. -/
def obey (supplied : Option Store) (notify : Notify) : Command → Act Reply
  | .enqueue submission => return .admitted (← enqueue notify true submission)
  | .enqueueOutside submission => return .admitted (← enqueue notify false submission)
  | .cancelAll => return .cancelled (← cancelAll notify)
  | .settle => do
    settle notify
    return .done
  | .advance milliseconds => do
    advance notify milliseconds
    return .done
  | .openGate name => do
    openGate name
    return .done
  | .kill job => return .flag (← killLatest job (Work.isOf job))
  | .waitIdle name => do
    createTask (.waitIdle name false)
    return .done
  | .cancelWait name => return .flag (← killLatest name (Work.waitsAs name))
  | .subscribe listener => do
    onQueue (·.subscribe listener)
    return .done
  | .unsubscribe name => do
    unsubscribe name
    return .done
  | .view => return .view (← yieldOr ((← queueNow).shown notify.copies supplied))
  | .warnings => do
    let q ← queueNow
    return .warnings (← yieldOr ((q.warnings (← timeNow)).mapError fun _ => Fault.incomparable))
  | .changeViews => return .done
  | .setMetadata name key value => do
    setMetadata name key value
    return .done

/-- What is told of a command: its answer, the overview, and the notes. -/
structure Response where
  answer : Except Fault Reply
  overview : Members
  notes : List Queue.Note

/-- Gives a command to a scheduler where some metadata may have no copy. The response has only the notes that were
    added. -/
def giveWithin (copies : Copying) (supplied : Option Store) (s : Scheduler) (c : Command) : Response × Scheduler :=
  let (answer, t) := (obey supplied (notifyWithin copies s.budget) c).run s
  (⟨answer, t.queue.overview, t.notes.drop s.notes.length⟩, t)

/-- Gives commands to a scheduler, one after the other. -/
def giveAllWithin (copies : Copying) (supplied : Option Store) (s : Scheduler) : List Command → List Response × Scheduler
  | [] => ([], s)
  | c :: rest =>
    let (response, s) := s.giveWithin copies supplied c
    let (responses, s) := giveAllWithin copies supplied s rest
    (response :: responses, s)

/-- Gives a command to a scheduler where all metadata can be copied. -/
def give (supplied : Option Store) (s : Scheduler) (c : Command) : Response × Scheduler := s.giveWithin .total supplied c

/-- Gives commands to a scheduler, one after the other, where all metadata can be copied. -/
def giveAll (supplied : Option Store) (s : Scheduler) (commands : List Command) : List Response × Scheduler :=
  s.giveAllWithin .total supplied commands

/-- More steps than can follow from some commands. -/
def budgetOf (commands : List Command) : Nat := commands.foldl (fun n c => n + c.weight) 1

/-- How deep metadata may be so that they are copied in these surroundings. Every value inside another one takes two calls,
    and a thousand calls may lie inside each other, some of them those of the queue. -/
def copyDepth : Nat := 490

/-- The answers to commands of a new queue, and the scheduler in the end; `none` if the history of the
    queue is beyond the capacity. -/
def run? (settings : Settings) (supplied : Option Store) (directory : String)
    (commands : List Command) : Option (List Response × Scheduler) :=
  (Store.chosen? supplied settings.historyLimit).map fun store =>
    (start settings store directory (budgetOf commands)).giveAllWithin (.toDepth copyDepth) supplied commands

end MediaEngine.Scheduler
