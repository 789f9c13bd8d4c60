import MediaEngine.Scheduler

/-!
# Operations of a queue

Handing a job in, starting those that wait, ending one, cancelling all, and dropping one that has waited
too long. Each is written for any way of telling listeners, since what listeners do may call for further
operations before this one goes on.
-/

namespace MediaEngine.Scheduler
open Queue

/-! ### Ends of jobs -/

/-- Keeps the entry of a job that has ended. The entry shows the job as it is by now. -/
def record (id : JobId) (outputPath : Option String) : Act Unit := do
  let q ← queueNow
  match q.job? id with
  | none => return
  | some job =>
    let entry := job.entry outputPath
    let store := q.store.record? entry
    onQueue (·.hand entry store)
    -- The entry is made in either case; where the store refuses it, only the history lacks it.
    if store.isSome then log (.finished job.name id job.status job.detail)
    else throw (.refusedByStore job.name)

/-- Keeps the entry of a job that has ended, with a copy of its metadata if there is one. -/
def file (copies : Copying) (id : JobId) (outputPath : Option String) : Act Unit := do
  match (← queueNow).job? id with
  | none => return
  | some job =>
    if job.isCopied copies then record id outputPath
    else
      onQueue (·.breakOff ⟨.finished, job.snapshot⟩)
      throw .uncopyable

/-- Ends a job: it is settled how, listeners are told, and the entry is kept. A job that has ended does
    not end again. -/
def finish (notify : Notify) (id : JobId) (status : Job.Status) (outputPath errorMessage message :
    Option String) : Act Unit := do
  match (← queueNow).job? id with
  | none => return
  | some job =>
    if job.finalized then log (.ended id job.status)
    else
      let now ← timeNow
      onQueue (·.update id (·.ended now status errorMessage message))
      -- The job has ended by now, even if a listener breaks the rest off.
      notify .finished id
      file notify.copies id outputPath

/-- Ends a job as canceled. -/
def cancel (notify : Notify) (id : JobId) (message : Option String) : Act Unit :=
  finish notify id .canceled none none message

/-- Gives a job another status and tells listeners. -/
def setStatus (notify : Notify) (id : JobId) (status : Job.Status) : Act Unit := do
  onQueue (·.update id fun j => { j with status := status })
  notify .status id

/-- Lets the tasks go on that wait for the queue to be idle, if it is. -/
def releaseParked : Act Unit := do
  let q ← queueNow
  if q.isIdle then
    onQueue fun q => { q with parked := [] }
    wake q.parked

/-! ### Starts of jobs -/

/-- Starts a job that no longer waits. -/
def startJob (notify : Notify) (id : JobId) : Act Unit := do
  let now ← timeNow
  onQueue (·.activate id now)
  let q ← queueNow
  log (.started (((q.job? id).map Job.name).getD "") id q.active.length)
  notify .started id
  createTask (.job id .fresh)

/-- Starts jobs that wait, the first one first, as long as there are slots; at most a number of jobs. -/
def startUpTo (notify : Notify) : Nat → Act Unit
  | 0 => return
  | n + 1 => do
    match (← queueNow).startNext? with
    | none => return
    | some (id, q) =>
      -- One job less waits, so a refusal may be forgotten.
      onQueue fun _ => q.recover
      onLoop (·.disarm (.expire id))
      startJob notify id
      startUpTo notify n

/-- Starts jobs that wait until there are no more slots or none waits. -/
def startWaiting (notify : Notify) : Act Unit := do
  let s ← get
  startUpTo notify (s.queue.waiting.length + s.budget)

/-! ### Admission -/

/-- Lets a job expire if it waits for too long. -/
def armExpiry (id : JobId) : Act Unit := do
  let settings := (← queueNow).settings
  if settings.expires then
    let _ ← yieldOr (settings.timeoutSeconds.mapError Job.Fault.arithmetic)
    let now ← timeNow
    onLoop fun l => (l.disarm (.expire id)).arm (now + settings.queueTimeout.toNat) (.expire id)

/-- Hands a job in. A full queue is noticed first; then a job needs something that runs it, a number, and
    its progress. -/
def enqueue (notify : Notify) (running : Bool) (submission : Job.Submission) : Act JobId := do
  match submission.defect with
  | some part => throw (.notRunnable part)
  | none =>
    let q ← queueNow
    if q.isFull then
      let now ← timeNow
      onQueue (·.refuse now)
      log (.refused submission.name q.waiting.length q.settings.maxQueueLength)
      throw (.full q.settings.maxQueueLength)
    else if !running then throw .noLoop
    else
      let id := q.nextId
      -- The number is used up even if no progress can be made of the estimate.
      onQueue (·.draw)
      let progress ← yieldOr ((Job.Progress.start submission.estimate).mapError Job.Fault.arithmetic)
      onQueue (·.enlist (.admitted id submission progress))
      log (.queued submission.name id (q.waiting.length + 1))
      notify .queued id
      -- Whatever listeners have done to the job by now, its timer is set.
      armExpiry id
      startWaiting notify
      return id

/-! ### Cancellation -/

/-- Why the tokens of active jobs are signalled when all jobs are cancelled. -/
def cancelAllReason : String := "Cancel All"

/-- What is told of the jobs that waited when all jobs were cancelled. -/
def cancelAllMessage : String := "Canceled via Cancel All"

/-- Asks an active job to stop, unless it was asked before. Yields whether it was asked. -/
def ask (notify : Notify) (id : JobId) : Act Bool := do
  match (← queueNow).job? id with
  | none => return false
  | some job =>
    if job.status = .cancelling ∨ job.status = .canceled then return false
    else
      setStatus notify id .cancelling
      let _ ← signalToken id (some cancelAllReason)
      log (.asked id)
      return true

/-- Asks jobs to stop, in order, and yields those that were not asked before. -/
def askAll (notify : Notify) : List JobId → Act (List JobId)
  | [] => return []
  | id :: rest => do
    if ← ask notify id then return id :: (← askAll notify rest) else askAll notify rest

/-- Cancels jobs that wait, the first one first, at most a number of them, and yields them. -/
def cancelUpTo (notify : Notify) : Nat → Act (List JobId)
  | 0 => return []
  | n + 1 => do
    match (← queueNow).shift? with
    | none => return []
    | some (id, q) =>
      onQueue fun _ => q
      onLoop (·.disarm (.expire id))
      cancel notify id (some cancelAllMessage)
      onQueue (·.recover)
      return id :: (← cancelUpTo notify n)

/-- Cancels all jobs: the active ones are asked to stop, and those that wait end at once. -/
def cancelAll (notify : Notify) : Act Cancellation := do
  let asked ← askAll notify (← queueNow).active
  let s ← get
  let dropped ← cancelUpTo notify (s.queue.waiting.length + s.budget)
  releaseParked
  return ⟨asked, dropped⟩

/-! ### Expiry -/

/-- What is told of a job that has waited too long. -/
def expiryMessage (seconds : Int) : String :=
  "Queue timeout exceeded (" ++ Number.intText seconds ++ "s)"

/-- Drops a job that has waited too long. Nothing happens to a job that does not wait. -/
def expire (notify : Notify) (id : JobId) : Act Unit := do
  let q ← queueNow
  if q.waiting.contains id then
    onQueue (·.withdraw id)
    -- The job waits no longer, even if its timeout cannot be told.
    let seconds ← yieldOr (q.settings.timeoutWhole.mapError Job.Fault.arithmetic)
    cancel notify id (some (expiryMessage seconds))
    onQueue (·.recover)
    releaseParked

end MediaEngine.Scheduler
