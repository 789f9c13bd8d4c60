import MediaEngine.Proofs.Copies
import MediaEngine.Proofs.Evolution.Leads

/-! # Operations, for any way of telling

The operations of a queue are written for any way of telling listeners. Here what telling them comes to is a
relation of its own (`Telling`), and the operations are followed once for all relations that allow their parts:
what a relation has to allow so that it tells how active jobs are asked to stop is `Asks`, how all jobs are cancelled
`Sweeps`, how jobs that wait are dropped with any message `Drops`, how jobs are started `Begins`, handed in too `Enlists`, and all of
this `Fills`. The parts in which listeners are told of nothing are named as schedulers. -/

namespace MediaEngine
open Job Queue

/-- What telling listeners of an event of a job comes to; `true` means that it was cut short. -/
abbrev Telling := EventKind → JobId → Bool → Scheduler → Scheduler → Prop

namespace Scheduler
variable {s t : Scheduler} {id : JobId} {j : Job}

/-! ## Parts of operations -/

/-- The scheduler once a job was turned away. -/
def refusing (s : Scheduler) (submission : Submission) : Scheduler :=
  (s.mapQueue (·.refuse s.loop.now)).noted
    (.logged (.refused submission.name s.queue.waiting.length s.queue.settings.maxQueueLength))

/-- The scheduler once a job waits in it as the next one. -/
def admitting (s : Scheduler) (submission : Submission) (progress : Job.Progress) : Scheduler :=
  (s.mapQueue fun q => q.draw.enlist (.admitted q.nextId submission progress)).noted
    (.logged (.queued submission.name s.queue.nextId (s.queue.waiting.length + 1)))

/-- The scheduler once a job that waited has ended. -/
def leaving (s : Scheduler) (id : JobId) (message : Option String) (l : Loop TimerAction) : Scheduler :=
  { s with queue := (s.queue.withdraw id).update id (·.ended l.now .canceled none message), loop := l }

/-- The scheduler once the entry of a job was handed to the store, and that is logged if the store took it. -/
def recording (s : Scheduler) (id : JobId) (path : Option String) : Scheduler := ((record id path).on s).2

/-- The scheduler once besides the latest refusal is forgotten, which needs a store that took the entry. -/
def closing (s : Scheduler) (id : JobId) : Scheduler :=
  match (record id none).on s with
  | (.ok _, t) => t.mapQueue Queue.recover
  | (.error _, t) => t

/-- The scheduler once those go on who wait for the queue to be idle, if it is. -/
def unparking (s : Scheduler) : Scheduler :=
  if s.queue.isIdle then (s.mapQueue fun q => { q with parked := [] }).rousing s.queue.parked else s

theorem releaseParked_unparking : releaseParked.on s = (.ok (), s.unparking) := by
  unfold releaseParked unparking
  rw [Act.on_queueNow_bind]
  split <;> rfl

/-- The store takes the entry, and that is logged; or it refuses it. -/
theorem record_cases (id : JobId) (path : Option String) :
    (s.queue.job? id = none ∧ (record id path).on s = (.ok (), s)) ∨
    ∃ j, s.queue.job? id = some j ∧
      ((∃ store, s.queue.store.record? (j.entry path) = some store ∧ (record id path).on s =
          (.ok (), (s.mapQueue (·.hand (j.entry path) (some store))).noted (.logged (.finished j.name id j.status j.detail)))) ∨
        (s.queue.store.record? (j.entry path) = none ∧
          (record id path).on s = (.error (.refusedByStore j.name), s.mapQueue (·.hand (j.entry path) none)))) := by
  unfold record
  rw [Act.on_queueNow_bind]
  cases hj : s.queue.job? id with
  | none => exact .inl ⟨rfl, rfl⟩
  | some j =>
    refine .inr ⟨j, rfl, ?_⟩
    cases hs : s.queue.store.record? (j.entry path) with
    | none =>
      refine .inr ⟨rfl, ?_⟩
      simp only [hs]
      rfl
    | some store =>
      refine .inl ⟨store, rfl, ?_⟩
      simp only [hs]
      rfl

theorem record_unbroken (id : JobId) (path : Option String) : Broken ((record id path).on s).1 = false := by
  rcases record_cases (s := s) id path with ⟨-, h⟩ | ⟨j, -, ⟨store, -, h⟩ | ⟨-, h⟩⟩ <;> rw [h] <;> rfl

/-- What follows once all were told that a job is asked to stop: its token is signalled, and that is logged. -/
def Halted (id : JobId) : Bool → Scheduler → Scheduler → Prop
  | true, t, u => u = t
  | false, t, u => u = (t.signalling id (some cancelAllReason)).noted (.logged (.asked id))

/-- What follows once all were told that a job ended: its entry is handed to the store. -/
def Recorded (id : JobId) (path : Option String) : Bool → Scheduler → Scheduler → Prop
  | true, t, u => u = t
  | false, t, u => u = t.recording id path

/-- What follows once all were told that a job ended that waited. -/
def Closes (id : JobId) : Bool → Scheduler → Scheduler → Prop
  | true, t, u => u = t
  | false, t, u => u = t.closing id

end Scheduler

open Scheduler in
/-- Listeners are told in this way, all metadata can be copied for them, and only the fault of a cancelled task comes
    back. -/
structure Tells (N : Telling) (notify : Notify) : Prop where
  copies : notify.copies = .total
  leads : ∀ kind id s, Leads (N kind id) s (notify kind id)
  fault : ∀ kind id s e t, (notify kind id).on s = (.error e, t) → e = .taskCancelled

open Scheduler in
/-- A relation that tells how active jobs are asked to stop, listeners being told in this way. -/
class Asks (N : Telling) (R : Bool → Scheduler → Scheduler → Prop) : Prop extends Traces R where
  ask {b s t u id j} : Fit s → id ∈ s.queue.active → s.queue.job? id = some j →
    j.status ≠ .cancelling → j.status ≠ .canceled →
    N .status id b (s.mapQueue (·.update id fun j => { j with status := .cancelling })) t → Halted id b t u → R b s u

open Scheduler in
/-- A relation that tells how jobs that wait are dropped, with any message. -/
class Drops (N : Telling) (R : Bool → Scheduler → Scheduler → Prop) : Prop extends Asks N R where
  leave {b s t u id j message l} : Fit s → id ∈ s.queue.waiting → s.queue.job? id = some j →
    l = s.loop ∨ l = s.loop.disarm (.expire id) → N .finished id b (s.leaving id message l) t → Closes id b t u → R b s u
  unpark {s} : R false s s.unparking

open Scheduler in
/-- A relation that tells how all jobs are cancelled, where a job that waits leaves with the message of that. -/
class Sweeps (N : Telling) (R : Bool → Scheduler → Scheduler → Prop) : Prop extends Asks N R where
  leave {b s t u id j} : Fit s → id ∈ s.queue.waiting → s.queue.job? id = some j →
    N .finished id b (s.leaving id (some cancelAllMessage) (s.loop.disarm (.expire id))) t → Closes id b t u → R b s u
  unpark {s} : R false s s.unparking

instance {N : Telling} {R : Bool → Scheduler → Scheduler → Prop} [Drops N R] : Sweeps N R where
  leave hfit hid hj := Drops.leave hfit hid hj (.inr rfl)
  unpark := Drops.unpark N

open Scheduler in
/-- A relation that tells how jobs are started. -/
class Begins (N : Telling) (R : Bool → Scheduler → Scheduler → Prop) : Prop extends Traces R where
  start {b s t u id q} : Fit s → s.queue.startNext? = some (id, q) → N .started id b (s.taking id q) t → Spawned id b t u →
    R b s u

open Scheduler in
/-- A relation that tells how jobs are handed in and started. -/
class Enlists (N : Telling) (R : Bool → Scheduler → Scheduler → Prop) : Prop extends Begins N R where
  refuse {s} (submission : Submission) : s.queue.isFull = true → R false s (s.refusing submission)
  enter {b s t} {submission : Submission} {progress : Progress} : Fit s → s.queue.isFull = false →
    N .queued s.queue.nextId b (s.admitting submission progress) t → R b s t
  arm {s id x} : s.queue.settings.timeoutSeconds = .ok x → R false s (s.arming id)

/-- A relation that tells all that the queue is called on for. -/
class Fills (N : Telling) (R : Bool → Scheduler → Scheduler → Prop) : Prop extends Drops N R, Enlists N R

namespace Scheduler
variable {N : Telling} {R : Bool → Scheduler → Scheduler → Prop} {notify : Notify} {s t : Scheduler} {id : JobId} {j : Job}

/-! ## Ends of jobs -/

/-- A job that has not ended ends: how it ended is settled, listeners are told, and its entry is handed to the store. -/
theorem finish_told (hn : Tells N notify) (hfit : Fit s) (hid : id ∉ s.queue.waiting)
    (hj : s.queue.job? id = some j) (hopen : j.finalized = false) (status : Job.Status)
    (path errorMessage message : Option String) :
    ∃ r t u, (finish notify id status path errorMessage message).on s = (r, u) ∧
      N .finished id (Broken r) (s.mapQueue (·.update id (·.ended s.loop.now status errorMessage message))) t ∧
      Recorded id path (Broken r) t u ∧ (Broken r = false → r = ((record id path).on t).1) := by
  let s₁ := s.mapQueue (·.update id (·.ended s.loop.now status errorMessage message))
  have hfit₁ : Fit s₁ := hfit.update (by intro; rfl) hid s.loop
  have hfinish : (finish notify id status path errorMessage message).on s =
      (notify .finished id >>= fun _ => record id path).on s₁ := by
    unfold finish
    rw [Act.on_queueNow_bind, hj]
    simp only [hopen, hn.copies, file_total]
    rfl
  have he := hn.leads .finished id s₁ hfit₁
  rw [hfinish]
  rcases hr : (notify .finished id).on s₁ with ⟨e | ⟨⟩, t⟩ <;> rw [hr] at he
  · cases hn.fault _ _ _ _ _ hr
    exact ⟨_, t, t, Act.on_bind_error hr, he, rfl, fun h => by cases h⟩
  · refine ⟨((record id path).on t).1, t, t.recording id path, Act.on_bind_ok hr, ?_, ?_, fun _ => rfl⟩ <;>
      rw [record_unbroken]
    · exact he
    · rfl

/-- A job that has ended does not end again. -/
theorem finish_again (hj : s.queue.job? id = some j) (hend : j.finalized = true) (status : Job.Status)
    (path errorMessage message : Option String) :
    (finish notify id status path errorMessage message).on s = (.ok (), s.noted (.logged (.ended id j.status))) := by
  unfold finish
  rw [Act.on_queueNow_bind, hj]
  simp [hend]

/-- A job is dropped, and a further one may wait. -/
def drop (notify : Notify) (id : JobId) (message : String) : Act Unit := do
  cancel notify id (some message)
  onQueue (·.recover)

/-- A job that waited ends as canceled: listeners are told, its entry is handed to the store, and a further job may wait. -/
theorem drop_closes (hn : Tells N notify) (hfit : Fit s) (hid : id ∈ s.queue.waiting) (message : String)
    (l : Loop TimerAction) :
    ∃ j r t u, s.queue.job? id = some j ∧
      (drop notify id message).on { s with queue := s.queue.withdraw id, loop := l } = (r, u) ∧
      N .finished id (Broken r) (s.leaving id (some message) l) t ∧ Closes id (Broken r) t u := by
  obtain ⟨j, hj, hopen⟩ := hfit.waits id hid
  obtain ⟨r, t, u, hr, he, hu, hrec⟩ := finish_told hn (hfit.withdraw id l) (hfit.not_mem_withdraw id)
    hj hopen .canceled none none (some message)
  have hr' : (cancel notify id (some message)).on { s with queue := s.queue.withdraw id, loop := l } = (r, u) := hr
  cases hb : Broken r with
  | true =>
    rw [hb] at he hu
    cases r with
    | ok => cases hb
    | error e =>
      refine ⟨j, .error e, t, u, hj, Act.on_bind_error hr', ?_⟩
      rw [hb]
      exact ⟨he, hu⟩
  | false =>
    rw [hb] at he hu
    cases hu
    have hclose : ∃ r', (drop notify id message).on { s with queue := s.queue.withdraw id, loop := l } = (r', t.closing id) ∧
        Broken r' = false := by
      rw [drop, Act.on_bind, hr']
      unfold closing recording
      rw [hrec hb]
      have hun := record_unbroken (s := t) id none
      rcases hx : (record id none).on t with ⟨e | ⟨⟩, v⟩
      · rw [hx] at hun
        exact ⟨_, rfl, hun⟩
      · exact ⟨_, rfl, rfl⟩
    obtain ⟨r', hr'', hb'⟩ := hclose
    refine ⟨j, r', t, _, hj, hr'', ?_⟩
    rw [hb']
    exact ⟨he, rfl⟩

/-- A job that waited ends as canceled, and a further job may wait. -/
theorem drop_told [Drops N R] (hn : Tells N notify) (hfit : Fit s) (hid : id ∈ s.queue.waiting) {l : Loop TimerAction}
    (hl : l = s.loop ∨ l = s.loop.disarm (.expire id)) (message : String) :
    ∃ r u, (drop notify id message).on { s with queue := s.queue.withdraw id, loop := l } = (r, u) ∧ R (Broken r) s u := by
  obtain ⟨j, r, t, u, hj, hr, he, hu⟩ := drop_closes hn hfit hid message l
  exact ⟨r, u, hr, Drops.leave hfit hid hj hl he hu⟩

/-! ## Starts of jobs -/

/-- Starting the first job that waits: it is active when all are told, and then its task is created. -/
theorem startJob_eq (id : JobId) (q : Queue) :
    (startJob notify id).on { s with queue := q.recover, loop := s.loop.disarm (.expire id) } =
      (notify .started id >>= fun _ => createTask (.job id .fresh)).on (s.taking id q) := rfl

/-- The first job that waits starts. -/
theorem startJob_told [Begins N R] (hn : Tells N notify) (hfit : Fit s) {q : Queue} (hq : s.queue.startNext? = some (id, q)) :
    ∃ r u, (startJob notify id).on { s with queue := q.recover, loop := s.loop.disarm (.expire id) } = (r, u) ∧
      R (Broken r) s u := by
  have hnotify := hn.leads .started id (s.taking id q) (hfit.taking hq)
  rw [startJob_eq]
  rcases hr : (notify .started id).on (s.taking id q) with ⟨e | ⟨⟩, t⟩ <;> rw [hr] at hnotify
  · cases hn.fault _ _ _ _ _ hr
    exact ⟨_, t, Act.on_bind_error hr, Begins.start hfit hq hnotify rfl⟩
  · exact ⟨.ok (), t.spawn (.job id .fresh), Act.on_bind_ok hr, Begins.start hfit hq hnotify rfl⟩

theorem startUpTo_none (hq : s.queue.startNext? = none) (n : Nat) : (startUpTo notify (n + 1)).on s = (.ok (), s) := by
  rw [startUpTo, Act.on_queueNow_bind, hq]
  rfl

theorem startUpTo_some {q : Queue} (hq : s.queue.startNext? = some (id, q)) (n : Nat) :
    (startUpTo notify (n + 1)).on s = (startJob notify id >>= fun _ => startUpTo notify n).on
      { s with queue := q.recover, loop := s.loop.disarm (.expire id) } := by
  rw [startUpTo, Act.on_queueNow_bind, hq]
  rfl

theorem startUpTo_told [Begins N R] (hn : Tells N notify) (n : Nat) : Leads R s (startUpTo notify n) := by
  induction n generalizing s with
  | zero => exact Leads.pure ()
  | succ n ih =>
    cases hq : s.queue.startNext? with
    | none => exact Leads.unchanged (startUpTo_none hq n) rfl
    | some next =>
      obtain ⟨id, q⟩ := next
      exact Leads.joint (startUpTo_some hq n) (fun hfit => startJob_told hn hfit hq) fun _ _ => ih

theorem startWaiting_told [Begins N R] (hn : Tells N notify) : Leads R s (startWaiting notify) :=
  startUpTo_told hn _

/-! ## Admission -/

/-- The timer of a job that waits is armed, or is not needed, unless the timeout cannot be computed. -/
theorem armExpiry_on (id : JobId) :
    (∃ t, (armExpiry id).on s = (.ok (), t) ∧ ((t = s ∧ s.queue.settings.expires = false) ∨
      (t = s.arming id ∧ ∃ x, s.queue.settings.timeoutSeconds = .ok x))) ∨
    ∃ e, (armExpiry id).on s = (.error (.arithmetic e), s) ∧ s.queue.settings.expires = true ∧
      s.queue.settings.timeoutSeconds = .error e := by
  unfold armExpiry
  rw [Act.on_queueNow_bind]
  dsimp only
  cases hx : s.queue.settings.expires with
  | false => exact .inl ⟨s, rfl, .inl ⟨rfl, rfl⟩⟩
  | true =>
    cases h : s.queue.settings.timeoutSeconds with
    | error e => exact .inr ⟨e, Act.on_bind_error (Act.on_yieldOr _), rfl, rfl⟩
    | ok x => exact .inl ⟨s.arming id, Act.on_bind_ok (Act.on_yieldOr _), .inr ⟨rfl, x, rfl⟩⟩

variable (N) in
theorem armExpiry_told [Enlists N R] (id : JobId) : Leads R s (armExpiry id) := by
  rcases armExpiry_on (s := s) id with ⟨t, ht, ⟨rfl, -⟩ | ⟨rfl, x, hx⟩⟩ | ⟨e, he, -⟩
  · exact Leads.unchanged ht rfl
  · exact Leads.of_on ht fun _ => Enlists.arm N hx
  · exact Leads.unchanged he rfl

/-- What an admitted job sets off: all are told that it is queued, its timer is armed, and jobs start. -/
def afterAdmission (notify : Notify) (id : JobId) : Act JobId := do
  notify .queued id
  armExpiry id
  startWaiting notify
  return id

theorem enqueue_defect {running : Bool} {submission : Submission} {part : Runnable}
    (hd : submission.defect = some part) :
    (enqueue notify running submission).on s = (.error (.notRunnable part), s) := by
  rw [enqueue, hd]; rfl

/-- A full queue turns a job away and remembers that it did. -/
theorem enqueue_full {running : Bool} {submission : Submission} (hd : submission.defect = none)
    (hf : s.queue.isFull = true) :
    (enqueue notify running submission).on s = (.error (.full s.queue.settings.maxQueueLength), s.refusing submission) := by
  rw [enqueue, hd]
  simp only [Act.on_queueNow_bind, hf]
  rfl

theorem enqueue_outside {submission : Submission} (hd : submission.defect = none) (hf : s.queue.isFull = false) :
    (enqueue notify false submission).on s = (.error .noLoop, s) := by
  rw [enqueue, hd]
  simp only [Act.on_queueNow_bind, hf]
  rfl

/-- An estimate that cannot be computed costs a number and nothing else. -/
theorem enqueue_estimate {submission : Submission} {e : ArithmeticError} (hd : submission.defect = none)
    (hf : s.queue.isFull = false) (hp : Job.Progress.start submission.estimate = .error e) :
    (enqueue notify true submission).on s = (.error (.arithmetic e), s.mapQueue draw) := by
  rw [enqueue, hd]
  simp only [Act.on_queueNow_bind, hf, hp]
  rfl

theorem enqueue_admits {submission : Submission} {progress : Job.Progress} (hd : submission.defect = none)
    (hf : s.queue.isFull = false) (hp : Job.Progress.start submission.estimate = .ok progress) :
    (enqueue notify true submission).on s =
      (afterAdmission notify s.queue.nextId).on (s.admitting submission progress) := by
  rw [enqueue, hd]
  simp only [Act.on_queueNow_bind, hf, hp]
  rfl

theorem Fit.admitting (hf : Fit s) (submission : Submission) (progress : Job.Progress) : Fit (s.admitting submission progress) :=
  (hf.enroll submission progress).stays (.of_queue rfl)

variable (N) in
/-- Nothing is handed in where nothing could run it. -/
theorem enqueue_outside_told [Enlists N R] (submission : Submission) : Leads R s (enqueue notify false submission) := by
  cases hd : submission.defect with
  | some part => exact Leads.unchanged (enqueue_defect hd) rfl
  | none =>
    cases hf : s.queue.isFull with
    | true => exact Leads.of_on (enqueue_full hd hf) fun _ => Enlists.refuse N submission hf
    | false => exact Leads.unchanged (enqueue_outside hd hf) rfl

theorem enqueue_told [Enlists N R] (hn : Tells N notify) (submission : Submission) : Leads R s (enqueue notify true submission) := by
  cases hd : submission.defect with
  | some part => exact Leads.unchanged (enqueue_defect hd) rfl
  | none =>
    cases hf : s.queue.isFull with
    | true => exact Leads.of_on (enqueue_full hd hf) fun _ => Enlists.refuse N submission hf
    | false =>
      cases hp : Job.Progress.start submission.estimate with
      | error e => exact Leads.of_on (enqueue_estimate hd hf hp) fun _ => Traces.touch .draw
      | ok progress =>
        refine Leads.joint (enqueue_admits hd hf hp) (fun hfit => ⟨_, _, rfl, ?_⟩) fun _ _ =>
          Leads.bind (armExpiry_told N _) fun _ _ _ _ => Leads.bind (startWaiting_told hn) fun _ _ _ _ => Leads.pure _
        exact Enlists.enter hfit hf (hn.leads .queued _ _ (hfit.admitting submission progress))

/-! ## Cancellation -/

section Cancellation

theorem ask_told [Asks N R] (hn : Tells N notify) (hid : id ∈ s.queue.active) : Leads R s (ask notify id) := by
  cases hj : s.queue.job? id with
  | none => exact Leads.unchanged (r := .ok false) (by rw [ask, Act.on_queueNow_bind, hj]; rfl) rfl
  | some j =>
    by_cases hst : j.status = .cancelling ∨ j.status = .canceled
    · refine Leads.unchanged (r := .ok false) ?_ rfl
      rw [ask, Act.on_queueNow_bind, hj]
      simp only [hst]
      rfl
    intro hfit
    let s₁ := s.mapQueue (·.update id fun j => { j with status := .cancelling })
    have hfit₁ : Fit s₁ := hfit.update (by intro; rfl) (fun hw => hfit.apart id hid (.inl hw)) s.loop
    have hask : (ask notify id).on s = (notify .status id >>= fun _ => do
        let _ ← signalToken id (some cancelAllReason)
        log (.asked id)
        return true).on s₁ := by
      rw [ask, Act.on_queueNow_bind, hj]
      simp only [hst]
      rfl
    obtain ⟨hst₁, hst₂⟩ := not_or.mp hst
    have hnotify := hn.leads .status id s₁ hfit₁
    rw [hask]
    rcases hr : (notify .status id).on s₁ with ⟨e | ⟨⟩, t⟩ <;> rw [hr] at hnotify
    · cases hn.fault _ _ _ _ _ hr
      rw [Act.on_bind_error hr]
      exact Asks.ask hfit hid hj hst₁ hst₂ hnotify rfl
    · obtain ⟨c, hv⟩ := signalling_on (s := t) id (some cancelAllReason)
      rw [Act.on_bind_ok hr, Act.on_bind_ok hv]
      exact Asks.ask hfit hid hj hst₁ hst₂ hnotify rfl

/-- Those who are asked were active when the asking began, and still are. -/
theorem askAll_told [Asks N R] (hn : Tells N notify) (ids : List JobId) (hids : ∀ id ∈ ids, id ∈ s.queue.active) :
    Leads R s (askAll notify ids) := by
  induction ids generalizing s with
  | nil => exact Leads.pure []
  | cons id rest ih =>
    unfold askAll
    refine Leads.bind (ask_told hn (hids id List.mem_cons_self)) fun asked t _ he => ?_
    have hrest : Leads R t (askAll notify rest) :=
      ih fun i hi => Traces.active he (hids i (List.mem_cons_of_mem _ hi))
    cases asked
    · exact hrest
    · exact Leads.bind hrest fun _ _ _ _ => Leads.pure _

/-- Whether one more job was asked changes what is yielded, and nothing else. -/
theorem askAll_cons {asked : Bool} {rest : List JobId} (h : (ask notify id).on s = (.ok asked, t)) :
    (askAll notify (id :: rest)).on s =
      (((askAll notify rest).on t).1.map fun ids => if asked then id :: ids else ids, ((askAll notify rest).on t).2) := by
  rw [askAll, Act.on_bind_ok h]
  cases asked <;> simp only [Bool.false_eq_true, if_true, if_false]
  · rcases (askAll notify rest).on t with ⟨_ | _, _⟩ <;> rfl
  · exact Act.on_map _ _

/-! ### Jobs that wait -/

theorem cancelUpTo_none (hw : s.queue.waiting = []) (n : Nat) : (cancelUpTo notify n).on s = (.ok [], s) := by
  cases n with
  | zero => rfl
  | succ n =>
    rw [cancelUpTo, Act.on_queueNow_bind, shift?, hw]
    rfl

theorem cancelUpTo_cons {rest : List JobId} (hw : s.queue.waiting = id :: rest) (n : Nat) :
    (cancelUpTo notify (n + 1)).on s = (drop notify id cancelAllMessage >>= fun _ => do
      return id :: (← cancelUpTo notify n)).on { s with queue := s.queue.withdraw id, loop := s.loop.disarm (.expire id) } := by
  rw [cancelUpTo, Act.on_queueNow_bind, shift?, withdraw_first hw, hw, drop, bind_assoc]
  rfl

theorem cancelUpTo_told [Sweeps N R] (hn : Tells N notify) (n : Nat) : Leads R s (cancelUpTo notify n) := by
  induction n generalizing s with
  | zero => exact Leads.pure []
  | succ n ih =>
    cases hw : s.queue.waiting with
    | nil => exact Leads.unchanged (cancelUpTo_none hw _) rfl
    | cons id rest =>
      have hid : id ∈ s.queue.waiting := hw ▸ List.mem_cons_self
      refine Leads.joint (cancelUpTo_cons hw n) (fun hfit => ?_) fun _ _ => Leads.bind ih fun _ _ _ _ => Leads.pure _
      obtain ⟨j, r, t, u, hj, hr, he, hu⟩ := drop_closes hn hfit hid cancelAllMessage (s.loop.disarm (.expire id))
      exact ⟨r, u, hr, Sweeps.leave hfit hid hj he hu⟩

/-- What is left to do to cancel all jobs once the active ones are asked to stop. -/
def afterAsking (notify : Notify) (asked : List JobId) : Act Cancellation := do
  let s ← get
  let dropped ← cancelUpTo notify (s.queue.waiting.length + s.budget)
  releaseParked
  return ⟨asked, dropped⟩

theorem cancelAll_asks : (cancelAll notify).on s = (askAll notify s.queue.active >>= afterAsking notify).on s := rfl

theorem afterAsking_told [Sweeps N R] (hn : Tells N notify) (asked : List JobId) : Leads R s (afterAsking notify asked) :=
  Leads.same (Act.on_get_bind _) (Leads.bind (cancelUpTo_told hn _) fun _ _ _ _ =>
    Leads.step releaseParked_unparking (Sweeps.unpark N) (Leads.pure _))

theorem cancelAll_told [Sweeps N R] (hn : Tells N notify) : Leads R s (cancelAll notify) :=
  Leads.bind (x := askAll notify s.queue.active) (askAll_told hn _ fun _ h => h) fun asked _ _ _ => afterAsking_told hn asked

/-! ### Jobs that have waited too long -/

theorem expire_idle (h : id ∉ s.queue.waiting) : (expire notify id).on s = (.ok (), s) := by
  unfold expire
  rw [Act.on_queueNow_bind, if_neg (by simpa using h)]
  rfl

/-- A job that has waited too long is dropped, where the timeout can be told in whole seconds, and then those go on who wait
    for the queue to be idle. -/
theorem expire_drops {seconds : Int} (hid : id ∈ s.queue.waiting) (ht : s.queue.settings.timeoutWhole = .ok seconds)
    (l : Loop TimerAction) : (expire notify id).on { s with loop := l } =
      (drop notify id (expiryMessage seconds) >>= fun _ => releaseParked).on { s with queue := s.queue.withdraw id, loop := l } := by
  unfold expire
  rw [Act.on_queueNow_bind, if_pos (by simpa using hid), ht, drop, bind_assoc]
  rfl

theorem expire_told [Drops N R] (hn : Tells N notify) {seconds : Int} (ht : s.queue.settings.timeoutWhole = .ok seconds) :
    Leads R s (expire notify id) := by
  by_cases hid : id ∈ s.queue.waiting
  · exact Leads.joint (expire_drops hid ht s.loop) (fun hfit => drop_told hn hfit hid (.inl rfl) (expiryMessage seconds)) fun _ _ =>
      Leads.of_on releaseParked_unparking fun _ => Drops.unpark N
  · exact Leads.unchanged (expire_idle hid) rfl

/-- The job that has waited too long leaves, all are told, and the end is kept; after that those may go on who wait for the
    queue to be idle. -/
theorem expire_closes (hn : Tells N notify) (hfit : Fit s) (hid : id ∈ s.queue.waiting) {seconds : Int}
    (ht : s.queue.settings.timeoutWhole = .ok seconds) (l : Loop TimerAction) :
    ∃ j b t u, s.queue.job? id = some j ∧ N .finished id b (s.leaving id (some (expiryMessage seconds)) l) t ∧
      Closes id b t u ∧ (((expire notify id).on { s with loop := l }).2 = u ∨
        ((expire notify id).on { s with loop := l }).2 = u.unparking) := by
  obtain ⟨j, r, t, u, hj, hr, he, hu⟩ := drop_closes hn hfit hid (expiryMessage seconds) l
  refine ⟨j, _, t, u, hj, he, hu, ?_⟩
  rw [expire_drops hid ht]
  cases r with
  | error e => exact .inl (congrArg Prod.snd (Act.on_bind_error hr))
  | ok =>
    rw [Act.on_bind_ok hr, releaseParked_unparking]
    exact .inr rfl

end Cancellation

end Scheduler

end MediaEngine
