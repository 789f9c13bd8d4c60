import MediaEngine.Scheduler.Notify

/-!
# Tasks

The task of a job plays its body and then its preview. However that ends, by a result, by a fault, or
because the task was cancelled, the job ends, its slot is given to the next one, and those who wait for
the queue to be idle go on. A task that is cancelled before its first turn never does any of this.
-/

namespace MediaEngine.Scheduler
open Job

/-- How the turn of a job ends. -/
inductive TurnEnd where
  | waiting (pause : Pause) (phase : Phase)
  /-- The job has ended. -/
  | over

/-- Who plays the body of a job. -/
def bodyPlayer (j : Job) : Player := ⟨j.name, some j.id, none⟩

/-- Who plays the preview of a job. -/
def previewPlayer (j : Job) (result : RunResult) : Player :=
  ⟨j.name ++ "/preview", some j.id, some result⟩

/-- Takes the times of a result over into the progress: first the total, then the time that is done. -/
def takeTimes (j : Job) (result : RunResult) : Act Unit := do
  match result.totalTime with
  | none => pure ()
  | some t => moveSilently j.id (·.setTotal (.double t))
  match result.outputTime with
  | none => pure ()
  | some t => moveSilently j.id (·.setOutput (.double t))
where
  /-- Changes the progress of a job without telling it. -/
  moveSilently (id : JobId) (f : Progress → Except ArithmeticError Progress) : Act Unit := do
    match (← queueNow).job? id with
    | none => return
    | some job => setProgress id (← yieldOr ((f job.progress).mapError Fault.arithmetic))

/-- What follows a preview: a signalled token means that it was cancelled, else the job is completed. -/
def previewed (notify : Notify) (j : Job) (result : RunResult) : Act TurnEnd := do
  if (← queueNow).isCancelled j.id then throw (.cancelled "Preview cancelled")
  else
    finish notify j.id .completed result.outputPath none none
    return .over

/-- Plays the preview of a job on. -/
def playPreview (notify : Notify) (j : Job) (result : RunResult) (steps : List Step) : Act TurnEnd := do
  match ← play notify (previewPlayer j result) steps with
  | .waiting pause rest => return .waiting pause (.preview result rest)
  | .returned _ => previewed notify j result

/-- What follows the body: its value has to be a result; a signalled token wins over it; then comes the
    preview, if there is one. -/
def settleBody (notify : Notify) (j : Job) (value : Value) : Act TurnEnd := do
  let result ← yieldOr ((RunResult.ofValue value).mapError Fault.result)
  takeTimes j result
  if (← queueNow).isCancelled j.id then
    cancel notify j.id none
    return .over
  else
    match j.submission.preview with
    | .waiting steps =>
      setStatus notify j.id .coolingDown
      playPreview notify j result steps
    | .immediate steps =>
      setStatus notify j.id .coolingDown
      playAtOnce notify (previewPlayer j result) steps
      previewed notify j result
    | _ =>
      finish notify j.id .completed result.outputPath none none
      return .over

/-- Plays the body of a job on. -/
def playBody (notify : Notify) (j : Job) (steps : List Step) : Act TurnEnd := do
  match ← play notify (bodyPlayer j) steps with
  | .waiting pause rest => return .waiting pause (.body rest)
  | .returned value => settleBody notify j value

/-- Plays a job on from where it is; a task that was cancelled stops with a fault at once. -/
def playJob (notify : Notify) (j : Job) (phase : Phase) (killed : Bool) : Act TurnEnd :=
  if killed then throw .taskCancelled
  else
    match phase with
    | .fresh => playBody notify j (j.submission.body.getD [])
    | .body rest => playBody notify j rest
    | .preview result rest => playPreview notify j result rest

/-- Ends a job that stopped with a fault. A job that was asked to stop counts as canceled. -/
def absorb (notify : Notify) (id : JobId) (fault : Fault) : Act Unit := do
  if fault.meansCancelled || (← queueNow).isCancelled id then cancel notify id none
  else finish notify id .failed none (some fault.description) none

/-- Gives the slot of a job to the next one. -/
def vacate (notify : Notify) (id : JobId) : Act Unit := do
  onQueue (·.release id)
  startWaiting notify
  releaseParked

/-- Lets a task wait. -/
def pauseTask (task : TaskId) (job : JobId) : Pause → Act Unit
  | .turn => onLoop (·.wake [task])
  | .sleep milliseconds => do
    let now ← timeNow
    onTask task fun t => { t with turn := .waiting .timer }
    onLoop (·.arm (now + milliseconds) (.wake task))
  | .gate name => do
    onTask task fun t => { t with turn := .waiting (.gate name) }
    onLoop (·.await name task)
  | .token => do
    onTask task fun t => { t with turn := .waiting (.token job) }
    onQueue (·.update job fun j => { j with token := j.token.park task })

/-- The turn of the task of a job. -/
def runJob (notify : Notify) (task : TaskId) (id : JobId) (phase : Phase) (killed : Bool) :
    Act Unit := do
  match (← queueNow).job? id with
  | none => return
  | some job =>
    match ← outcome (playJob notify job phase killed) with
    | .ok (.waiting pause phase) =>
      onTask task fun t => { t with work := .job id phase }
      pauseTask task id pause
    | .ok .over =>
      onTask task fun t => { t with turn := .over }
      -- Nobody awaits the task, so a fault in what follows is lost.
      let _ ← outcome (vacate notify id)
    | .error fault =>
      onTask task fun t => { t with turn := .over }
      let _ ← outcome (absorb notify id fault)
      let _ ← outcome (vacate notify id)

/-- The turn of a task that waits for the queue to be idle. -/
def runWaitIdle (task : TaskId) (name : String) (parked killed : Bool) : Act Unit := do
  if killed then onTask task fun t => { t with turn := .over }
  else if parked || (← queueNow).isIdle then
    onTask task fun t => { t with turn := .over }
    note (.told name "idle" .null)
  else
    onTask task fun t => { t with work := .waitIdle name true, turn := .waiting .idle }
    onQueue fun q => { q with parked := q.parked ++ [task] }

/-- The turn of a task. A task that is over takes none, and one that was cancelled before its first turn
    is over without having done anything. -/
def runTask (notify : Notify) (task : TaskId) : Act Unit := do
  match (← get).tasks[task]? with
  | none => return
  | some t =>
    if t.turn = .over then return
    else
      onTask task fun t => { t with killed := false }
      match t.work, t.killed with
      -- Its job has not ended, and keeps its slot.
      | .job _ .fresh, true => onTask task fun t => { t with turn := .over }
      | .job owner phase, killed => runJob notify task owner phase killed
      | .waitIdle name parked, killed => runWaitIdle task name parked killed

/-- Takes a task away from what it waits for. -/
def withdrawTask (task : TaskId) : Await → Act Unit
  | .gate _ => onLoop (·.leave task)
  | .token job => onQueue (·.update job fun j => { j with token := j.token.unpark task })
  | .timer => onLoop (·.disarm (.wake task))
  | .idle => onQueue fun q => { q with parked := q.parked.erase task }

/-- Cancels a task: its next turn begins with a fault. Yields whether the task was not over. -/
def killTask (task : TaskId) : Act Bool := do
  match (← get).tasks[task]? with
  | none => return false
  | some t =>
    match t.turn with
    | .over => return false
    | .ready =>
      onTask task fun t => { t with killed := true }
      return true
    | .waiting a =>
      onTask task fun t => { t with killed := true }
      -- It is woken to learn of it.
      withdrawTask task a
      wake [task]
      return true

/-! ### Turns and time -/

/-- Lets tasks take their turns, at most a number of them. -/
def settleUpTo (notify : Notify) : Nat → Act Unit
  | 0 => return
  | n + 1 => do
    match (← get).loop.next? with
    | none => return
    | some (task, loop) =>
      onLoop fun _ => loop
      let _ ← outcome (runTask notify task)
      settleUpTo notify n

/-- Lets tasks take their turns until none is ready. -/
def settle (notify : Notify) : Act Unit := do settleUpTo notify (← get).budget

/-- What a timer does when it fires. -/
def fire (notify : Notify) : TimerAction → Act Unit
  | .expire job => do let _ ← outcome (expire notify job)
  | .wake task => wake [task]

/-- Fires the timers due by a time, the first one first, at most a number of them; after each of them
    tasks take their turns. -/
def fireUpTo (notify : Notify) (time : Nat) : Nat → Act Unit
  | 0 => return
  | n + 1 => do
    match (← get).loop.fire? time with
    | none => return
    | some (action, loop) =>
      onLoop fun _ => loop
      fire notify action
      -- What the timer has set off comes before the next timer.
      settle notify
      fireUpTo notify time n

/-- Lets time pass. -/
def advance (notify : Notify) (milliseconds : Nat) : Act Unit := do
  settle notify
  let time := (← timeNow) + milliseconds
  fireUpTo notify time (← get).budget
  onLoop (·.moveTo time)

end MediaEngine.Scheduler
