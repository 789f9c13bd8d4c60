import MediaEngine.Job
import MediaEngine.Job.Store
import MediaEngine.Job.Warning
import MediaEngine.Settings

/-!
# Queues

A queue holds every job that was admitted. Some of them wait, in order of admission; some are active, in
order of start; the others have ended. It also holds the tasks that wait for it to become idle, the
subscriptions, the latest refusal as long as no further job may wait, the store of its history, what was
handed to that store, and whose end was broken off.
-/

namespace MediaEngine

/-- A listener that was subscribed, and how often it has acted. -/
structure Subscription where
  listener : Job.Listener
  fired : Nat

/-- Whether the listener of a subscription acts on an event: it waits for events of this kind, of this job
    if it names one, and has not acted as often as it may. -/
def Subscription.actsOn (s : Subscription) (event : Job.Event) : Bool :=
  s.listener.kind == some event.kind && s.listener.job.all (· == event.snapshot.name) &&
    decide (s.fired < s.listener.times)

/-- A queue. -/
structure Queue where
  settings : Settings
  jobs : List Job
  nextId : JobId
  waiting : List JobId
  active : List JobId
  /-- The tasks that wait until the queue is idle, in order. -/
  parked : List TaskId
  /-- Every subscription there was; it is known by its position. -/
  subscriptions : List Subscription
  /-- The subscriptions in force, in order. -/
  subscribed : List Nat
  fullEvent : Option Job.FullEvent
  store : Job.Store
  /-- Every entry that was handed to the store, in order, whether or not the store took it. -/
  recorded : List Job.Entry
  /-- The jobs whose end was broken off: a listener stopped like a cancelled task, so that not all were told of it, or
      there was no copy of the metadata. -/
  brokenOff : List JobId

namespace Queue

/-- A queue without jobs. -/
def start (settings : Settings) (store : Job.Store) : Queue where
  settings := settings
  jobs := []
  nextId := 1
  waiting := []
  active := []
  parked := []
  subscriptions := []
  subscribed := []
  fullEvent := none
  store := store
  recorded := []
  brokenOff := []

/-! ### Jobs -/

/-- The job of a number. -/
def job? (q : Queue) (id : JobId) : Option Job := q.jobs.find? (·.id == id)

/-- The queue with one job changed. -/
def update (q : Queue) (id : JobId) (f : Job → Job) : Queue :=
  { q with jobs := q.jobs.map fun j => if j.id = id then f j else j }

/-- The latest job of a name. -/
def latest? (q : Queue) (name : String) : Option Job := q.jobs.reverse.find? (·.name == name)

/-- The jobs of some numbers. -/
def jobsOf (q : Queue) (ids : List JobId) : List Job := ids.filterMap q.job?

/-- Whether the token of a job is signalled. -/
def isCancelled (q : Queue) (id : JobId) : Bool := (q.job? id).any (·.token.cancelled)

/-! ### Waiting and active jobs -/

/-- Whether as many jobs wait as may wait. -/
def isFull (q : Queue) : Bool := decide (q.settings.maxQueueLength ≤ q.waiting.length)

/-- Whether one more job may be active. -/
def hasSlot (q : Queue) : Bool := decide ((q.active.length : Int) < q.settings.maxParallelJobs)

/-- Whether no job waits and none is active. -/
def isIdle (q : Queue) : Bool := q.active.isEmpty && q.waiting.isEmpty

/-- Draws the next number. -/
def draw (q : Queue) : Queue := { q with nextId := q.nextId + 1 }

/-- Lets a new job wait, behind all that do. -/
def enlist (q : Queue) (j : Job) : Queue :=
  { q with jobs := q.jobs ++ [j], waiting := q.waiting ++ [j.id] }

/-- Remembers that a job was turned away. -/
def refuse (q : Queue) (now : Nat) : Queue :=
  { q with fullEvent := some ⟨.ofClock now, q.waiting.length⟩ }

/-- Forgets the latest refusal once a further job may wait. -/
def recover (q : Queue) : Queue := if q.isFull then q else { q with fullEvent := none }

/-- The job that has waited longest, and the queue in which it no longer waits. -/
def shift? (q : Queue) : Option (JobId × Queue) :=
  match q.waiting with
  | [] => none
  | id :: rest => some (id, { q with waiting := rest })

/-- The job that starts next if there is a slot, and the queue in which it no longer waits. -/
def startNext? (q : Queue) : Option (JobId × Queue) := if q.hasSlot then q.shift? else none

/-- Takes a job out of those that wait. -/
def withdraw (q : Queue) (id : JobId) : Queue := { q with waiting := q.waiting.erase id }

/-- Makes a job active. -/
def activate (q : Queue) (id : JobId) (now : Nat) : Queue :=
  { q with active := q.active ++ [id] }.update id (·.started now)

/-- Takes a job out of those that are active. -/
def release (q : Queue) (id : JobId) : Queue := { q with active := q.active.erase id }

/-- Remembers that not all were told of an event, if it is the end of a job. -/
def breakOff (q : Queue) (event : Job.Event) : Queue :=
  if event.kind = .finished then { q with brokenOff := q.brokenOff ++ [event.snapshot.id] } else q

/-- Hands an entry to the store; `none` stands for a store that refused it. -/
def hand (q : Queue) (entry : Job.Entry) (store : Option Job.Store) : Queue :=
  { q with recorded := q.recorded ++ [entry], store := store.getD q.store }

/-! ### Subscriptions -/

/-- Puts a subscription in force, behind all others. -/
def enforce (q : Queue) (index : Nat) : Queue := { q with subscribed := q.subscribed ++ [index] }

/-- Subscribes a listener. -/
def subscribe (q : Queue) (listener : Job.Listener) : Queue :=
  { q.enforce q.subscriptions.length with subscriptions := q.subscriptions ++ [⟨listener, 0⟩] }

/-- The latest subscription of a name, in force or not. -/
def subscription? (q : Queue) (name : String) : Option Nat :=
  let before := q.subscriptions.reverse.dropWhile (·.listener.name != name)
  match before with
  | [] => none
  | _ :: rest => some rest.length

/-- Ends a subscription. -/
def unsubscribe (q : Queue) (index : Nat) : Queue := { q with subscribed := q.subscribed.erase index }

/-- Counts that a listener has acted. -/
def countFiring (q : Queue) (index : Nat) : Queue :=
  { q with subscriptions := q.subscriptions.modify index fun s => { s with fired := s.fired + 1 } }

/-! ### Views -/

/-- The limits that a queue shows. -/
def limits (q : Queue) : Job.Limits :=
  ⟨q.settings.maxParallelJobs, q.settings.maxQueueLength, q.settings.queueTimeout⟩

/-- The entries of the history, the newest first. -/
def history (q : Queue) : List Job.Entry := q.store.entries

/-- The metadata of all jobs that are active or wait can be copied. -/
def isCopied (q : Queue) (copies : Copying) : Bool := (q.jobsOf (q.active ++ q.waiting)).all (·.isCopied copies)

/-- The snapshots of the active jobs, in order of start. -/
def activeSnapshots (q : Queue) : List Job.Snapshot := (q.jobsOf q.active).map Job.snapshot

/-- The snapshots of the jobs that wait, in order of admission. -/
def waitingSnapshots (q : Queue) : List Job.Snapshot := (q.jobsOf q.waiting).map Job.snapshot

/-- The warnings about the queue at a time. -/
def warnings (q : Queue) (now : Nat) : Except Job.WarningError (List Job.Warning) :=
  Job.warnings q.history (some q.limits) q.waiting.length q.fullEvent (.ofClock now)

end Queue

end MediaEngine
