import MediaEngine.Loop
import MediaEngine.Queue.Note
import MediaEngine.Queue.View

/-!
# Schedulers

A scheduler is a queue at work: the queue, the loop on which its jobs take turns, the tasks, and the
notes of what was observed. An act changes a scheduler and either yields something or ends with a fault;
what it changed before the fault stays changed.
-/

namespace MediaEngine

/-- What a timer does. -/
inductive TimerAction where
  /-- Drops a job that has waited too long. -/
  | expire (job : JobId)
  /-- Lets a task that sleeps go on. -/
  | wake (task : TaskId)
  deriving DecidableEq

/-- How far the task of a job is. -/
inductive Phase where
  | fresh
  /-- The body has these steps left. -/
  | body (rest : List Job.Step)
  /-- The body has a result, and the preview has these steps left. -/
  | preview (result : Job.RunResult) (rest : List Job.Step)

/-- What a task does. -/
inductive Work where
  | job (id : JobId) (phase : Phase)
  /-- Waits until the queue is idle, and then says so. -/
  | waitIdle (name : String) (parked : Bool)

/-- What a task waits for. -/
inductive Await where
  | gate (name : String)
  | token (job : JobId)
  | timer
  | idle
  deriving DecidableEq

/-- Whether a task takes its turn, waits, or has ended. -/
inductive Turn where
  | ready
  | waiting (for_ : Await)
  | over
  deriving DecidableEq

/-- A task; `killed` means that its next turn begins with the fault of a cancelled task. -/
structure Task where
  work : Work
  turn : Turn
  killed : Bool

/-- The task once it is ready; a task that is over stays over. -/
def Task.woken (t : Task) : Task := if t.turn = .over then t else { t with turn := .ready }

/-- A queue at work. -/
structure Scheduler where
  queue : Queue
  loop : Loop TimerAction
  tasks : List Task
  notes : List Queue.Note
  /-- The directory in which chains are compiled. -/
  directory : String
  /-- More steps than the scripts at hand can take. -/
  budget : Nat

/-- What changes a scheduler. -/
abbrev Act := ExceptT Job.Fault (StateM Scheduler)

/-- How those who subscribed are told of an event of a job. What they are shown is a copy, and so is what the
    history keeps. -/
structure Notify where
  tell : Job.EventKind → JobId → Act Unit
  copies : Copying

instance : CoeFun Notify fun _ => Job.EventKind → JobId → Act Unit := ⟨Notify.tell⟩

namespace Scheduler

/-- A scheduler at time zero. -/
def start (settings : Settings) (store : Job.Store) (directory : String) (budget : Nat) : Scheduler where
  queue := .start settings store
  loop := .start
  tasks := []
  notes := []
  directory := directory
  budget := budget

/-! ### Acts on the parts -/

/-- Changes the queue. -/
def onQueue (f : Queue → Queue) : Act Unit := modify fun s => { s with queue := f s.queue }

/-- Changes the loop. -/
def onLoop (f : Loop TimerAction → Loop TimerAction) : Act Unit :=
  modify fun s => { s with loop := f s.loop }

/-- Changes a task. -/
def onTask (task : TaskId) (f : Task → Task) : Act Unit :=
  modify fun s => { s with tasks := s.tasks.modify task f }

/-- Adds a note. -/
def note (n : Queue.Note) : Act Unit := modify fun s => { s with notes := s.notes ++ [n] }

/-- Writes a line to the log. -/
def log (line : Queue.LogLine) : Act Unit := note (.logged line)

/-- The queue as it is. -/
def queueNow : Act Queue := return (← get).queue

/-- The time. -/
def timeNow : Act Nat := return (← get).loop.now

/-- Yields what was computed, or ends with the fault. -/
def yieldOr {α : Type} : Except Job.Fault α → Act α
  | .ok a => return a
  | .error f => throw f

/-- Carries out an act and yields how it ended, which is never a fault. -/
def outcome {α : Type} (x : Act α) : Act (Except Job.Fault α) := ExceptT.lift x.run

/-! ### Tasks -/

/-- Creates a task, which is ready. -/
def createTask (work : Work) : Act Unit :=
  modify fun s =>
    { s with
      tasks := s.tasks ++ [⟨work, .ready, false⟩]
      loop := s.loop.wake [s.tasks.length] }

/-- Makes tasks that waited ready. -/
def wake (tasks : List TaskId) : Act Unit :=
  modify fun s =>
    { s with
      tasks := tasks.foldl (fun ts t => ts.modify t Task.woken) s.tasks
      loop := s.loop.wake tasks }

/-- Opens a gate and makes the tasks that wait for it ready. -/
def openGate (gate : String) : Act Unit := do
  let through := (← get).loop.awaiting gate
  onLoop (·.openGate gate)
  wake through

/-- Signals the token of a job: the tasks that wait for it are ready, and its callbacks note the reason.
    Yields whether the token was not signalled before. -/
def signalToken (id : JobId) (reason : Option String) : Act Bool := do
  match (← queueNow).job? id with
  | none => return false
  | some job =>
    match job.token.signal reason with
    | none => return false
    | some signal =>
      onQueue (·.update id fun j => { j with token := signal.token })
      wake signal.waiters
      signal.callbacks.forM fun c =>
        note (.told c.who "on_cancel" (.list [c.label, .textOr reason]))
      return true

end Scheduler

end MediaEngine
