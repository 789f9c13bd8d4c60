import MediaEngine.Proofs.Turned
import MediaEngine.Scheduler.Command

/-! # Runs

A run is any sequence of moves: a command that takes effect at once, the turn of a task, the firing of a
timer. Which task goes next and which timer fires is left open here, and so is when; the order the loop
keeps is one of those allowed. -/

namespace MediaEngine.Scheduler
open Job

/-- A command that takes effect at once, and does not stand for the turns and timers that follow. -/
def Command.isImmediate : Command → Bool
  | .settle => false
  | .advance _ => false
  | _ => true

/-- One move of a run. Listeners may act to any depth. -/
inductive Moves : Scheduler → Scheduler → Prop
  | obey {s} (supplied : Option Store) (depth : Nat) (c : Command) : c.isImmediate = true →
      Moves s ((obey supplied (notifyUpTo depth) c).on s).2
  | turn {s} (depth : Nat) (task : TaskId) : Moves s ((runTask (notifyUpTo depth) task).on s).2
  | fire {s} (depth : Nat) (action : TimerAction) : Moves s ((fire (notifyUpTo depth) action).on s).2
  /-- The clock goes on, timers are taken off it, and tasks are taken up in some order. -/
  | loop {s} (l : Loop TimerAction) : Moves s { s with loop := l }

/-- Moves one after the other. -/
inductive Reaches (s : Scheduler) : Scheduler → Prop
  | refl : Reaches s s
  | move {t u} : Reaches s t → Moves t u → Reaches s u

/-- A state of a run of a queue that began empty, between two moves. -/
def Reachable (settings : Settings) (store : Store) (s : Scheduler) : Prop :=
  ∃ directory budget, Reaches (start settings store directory budget) s

variable {s t u : Scheduler} {id : JobId}

theorem Reaches.trans (h₁ : Reaches s t) (h₂ : Reaches t u) : Reaches s u := by
  induction h₂ with
  | refl => exact h₁
  | move _ hm ih => exact ih.move hm

/-! ## What a move keeps -/

/-- What a move, and so a run, leaves behind: every number is placed, and one that was neither upcoming
    nor active is left alone. -/
structure Passes (s t : Scheduler) : Prop where
  settled : Settled t
  continues : Queue.Continues s.queue t.queue
  rest : ∀ i, ¬ s.Upcoming i → i ∉ s.queue.active → Frame none true s t i

theorem Passes.refl (hs : Settled s) : Passes s s :=
  ⟨hs, .refl _, fun i hu _ => .of_same (.refl s i) hu⟩

theorem Passes.trans (h₁ : Passes s t) (h₂ : Passes t u) : Passes s u where
  settled := h₂.settled
  continues := h₁.continues.trans h₂.continues
  rest i hu ha := by
    have hf := h₁.rest i hu ha
    exact hf.trans (h₂.rest i hf.past fun h => ha (hf.active.mp h))

theorem Passes.of_evolves {b : Bool} (hs : Settled s) (h : Evolves none b s t) : Passes s t where
  settled := h.settled hs
  continues := h.continues
  rest i hu _ := ((h.onward hs.fit hs.fresh Past.none i).weaken).frame hu

theorem Passes.of_steady (hs : Settled s) (h : Steady s t) : Passes s t := .of_evolves hs (.steady h)

theorem Passes.of_leads {α : Type} {x : Act α} (hs : Settled s) (h : Leads (Evolves none) s x) : Passes s (x.on s).2 :=
  .of_evolves hs (h hs.fit)

theorem Passes.of_turned (hs : Settled s) (h : Turned id s t) (ha : id ∈ s.queue.active) : Passes s t where
  settled := h.settled hs
  continues := h.continues
  rest i hu hi := (h.others i fun he => hi (he ▸ ha)).frame hu

/-! ## Commands -/

section Moves
variable {notify : Notify}

theorem calm_withdrawTask (task : TaskId) (a : Await) : Calm Inert s (withdrawTask task a) := by
  cases a with
  | gate name => exact Calm.of_on rfl rfl (.loop fun _ hm _ _ => hm)
  | token job =>
    have tuned : ∀ j : Job, Tuned j { j with token := j.token.unpark task } := fun j =>
      { Tuned.refl j with signalled := fun h => h, reason := fun _ => rfl }
    exact Calm.onQueue (Inert.update tuned fun _ => rfl)
  | timer => exact Calm.of_on rfl rfl (.loop fun _ hm _ _ => List.mem_of_mem_filter hm)
  | idle => exact Calm.onQueue (Inert.park _)

theorem calm_kill (task : TaskId) : Calm Inert s (onTask task fun t => { t with killed := true }) :=
  Calm.of_on (Act.on_onTask _ _) rfl (.onTask (fun _ => rfl) (fun _ => rfl) fun _ h => h)

theorem calm_wake (tasks : List TaskId) : Calm Inert s (wake tasks) := Calm.of_on rfl rfl (.wake tasks)

theorem calm_killTask (task : TaskId) : Calm Inert s (killTask task) := by
  refine Calm.resume (Act.on_get_bind _) ?_
  cases s.tasks[task]? with
  | none => exact Calm.pure false
  | some t =>
    dsimp only
    split
    · exact Calm.pure false
    · exact Calm.bind (calm_kill task) fun _ _ => Calm.pure true
    · exact Calm.bind (calm_kill task) fun _ _ => Calm.bind (calm_withdrawTask task _) fun _ _ =>
        Calm.bind (calm_wake _) fun _ _ => Calm.pure true

theorem calm_killLatest (name : String) (p : Work → Bool) : Calm Inert s (killLatest name p) := by
  refine Calm.resume (Act.on_get_bind _) ?_
  cases s.latestTask? p with
  | none => exact Calm.throw rfl
  | some task => exact calm_killTask task

theorem calm_setMetadata (name key : String) (value : Value) : Calm Inert s (setMetadata name key value) := by
  refine Calm.resume (Act.on_queueNow_bind _) ?_
  cases s.queue.latest? name with
  | none => exact Calm.throw rfl
  | some job =>
    dsimp only
    split
    · exact Calm.throw rfl
    · exact Calm.onQueue (Inert.update (fun j => { Tuned.refl j with }) fun _ => rfl)

section Commands

/-- A command that takes effect at once, other than to hand a job in or to cancel all. -/
theorem obey_rest_leads {R : Bool → Scheduler → Scheduler → Prop} [Tracks R] (supplied : Option Store) {c : Command}
    (hc : c.isImmediate = true) (he : ∀ submission, c ≠ .enqueue submission ∧ c ≠ .enqueueOutside submission)
    (ha : c ≠ .cancelAll) : Leads R s (obey supplied notify c) := by
  have replies : ∀ {s : Scheduler} {α : Type} {x : Act α} {f : α → Reply}, Calm Inert s x →
      Leads R s (do return f (← x)) := fun hx => (Calm.bind hx fun _ _ => Calm.pure _).leads_inert
  cases c with
  | enqueue submission => exact absurd rfl (he submission).1
  | enqueueOutside submission => exact absurd rfl (he submission).2
  | cancelAll => exact absurd rfl ha
  | settle | advance _ => cases hc
  | openGate name => exact replies (calm_openGate name)
  | kill job => exact replies (calm_killLatest job _)
  | waitIdle name => exact replies (Calm.of_on (Act.on_createTask _) rfl .spawn)
  | cancelWait name => exact replies (calm_killLatest name _)
  | subscribe listener => exact replies (Calm.onQueue (.subscribe listener))
  | unsubscribe name => exact replies (calm_unsubscribe name)
  | view => exact Leads.same (Act.on_queueNow_bind _) (replies (Calm.yieldOr (s.queue.shown_unbroken supplied)))
  | warnings =>
    refine Leads.same (Act.on_queueNow_bind _) ?_
    refine Leads.same (Act.on_timeNow_bind _) (replies (Calm.yieldOr ?_))
    cases s.queue.warnings s.loop.now <;> rfl
  | changeViews => exact Leads.pure _
  | setMetadata name key value => exact replies (calm_setMetadata name key value)

variable {R : Option Event → Bool → Scheduler → Scheduler → Prop} {c : Command}

/-- A command that takes effect at once, other than to hand a job in. -/
theorem obey_other_leads [Cancels R] (hn : Notifies R notify) (supplied : Option Store) (hc : c.isImmediate = true)
    (he : ∀ submission, c ≠ .enqueue submission) : Leads (R none) s (obey supplied notify c) := by
  cases c with
  | enqueue submission => exact absurd rfl (he submission)
  | enqueueOutside submission => exact Leads.bind (enqueue_outside_leads submission) fun _ _ _ _ => Leads.pure _
  | cancelAll => exact Leads.bind (cancelAll_leads hn) fun _ _ _ _ => Leads.pure _
  | _ => exact obey_rest_leads supplied hc (fun _ => ⟨nofun, nofun⟩) nofun

/-- A command that takes effect at once is told by any relation that tells what the queue does. -/
theorem obey_leads [Grows R] (hn : Notifies R notify) (supplied : Option Store) (hc : c.isImmediate = true) :
    Leads (R none) s (obey supplied notify c) := by
  cases c with
  | enqueue submission => exact Leads.bind (enqueue_leads hn submission) fun _ _ _ _ => Leads.pure _
  | _ => exact obey_other_leads hn supplied hc fun _ h => by cases h

end Commands

/-! ## Turns -/

/-- What is inert leaves every number where it was placed. -/
theorem Settled.inert (hs : Settled s) (h : Inert s t) : Settled t := (Passes.of_steady hs h.toSteady).settled

theorem Settled.working (hs : Settled s) {task : TaskId} (hl : s.Lives task id) :
    Working s id ∧ ∀ i, s.Lives i id → i = task := by
  cases hs.placed id with
  | upcoming _ hb | skipped _ _ _ hb | stray _ _ _ _ _ hb _ => exact absurd hl (hb.idle task)
  | gone _ _ _ _ _ hn _ => exact absurd hl (hn task)
  | active j ha _ _ _ _ _ hone => exact ⟨⟨hs.fit, hs.fresh, ha, hs.placed id⟩, fun i hi => hone i task hi hl⟩

theorem runWaitIdle_calm {x : Task} {task : TaskId} (hx : s.tasks[task]? = some x) (hw : x.work.phase? = none) (name : String)
    (parked killed : Bool) : Calm Inert s (runWaitIdle task name parked killed) := by
  have hover : Calm Inert s (onTask task fun t => { t with turn := .over }) :=
    Calm.of_on (Act.on_onTask _ _) rfl (retire_inert s task)
  unfold runWaitIdle
  split
  · exact hover
  · refine Calm.resume (Act.on_queueNow_bind _) ?_
    split
    · exact Calm.bind hover fun _ _ => Calm.note rfl
    · refine Calm.bind (Calm.of_on (Act.on_onTask _ _) rfl ?_) fun _ _ => Calm.onQueue (Inert.park _)
      refine .tasks (lives_modify fun _ _ _ ho _ => by cases ho) (Inert.phase?_modify fun t ht => ?_) fun _ hm _ _ => hm
      cases hx.symm.trans ht
      exact hw.symm

/-- The job that a task plays on in its turn, from where, and whether the task was cancelled. -/
def playing? (s : Scheduler) (task : TaskId) : Option (JobId × Phase × Bool) :=
  match s.tasks[task]? with
  | none => none
  | some t =>
    if t.turn = .over then none
    else
      match t.work, t.killed with
      | .job _ .fresh, true => none
      | .job id phase, killed => some (id, phase, killed)
      | .waitIdle _ _, _ => none

/-- The scheduler once a task takes its turn: the task need not be cancelled again. -/
def heeding (s : Scheduler) (task : TaskId) : Scheduler :=
  { s with tasks := s.tasks.modify task fun t => { t with killed := false } }

theorem heeding_inert (s : Scheduler) (task : TaskId) : Inert s (s.heeding task) :=
  .onTask (fun _ => rfl) (fun _ => rfl) fun _ h => h

theorem heeding_task {x : Task} {task : TaskId} (hx : s.tasks[task]? = some x) :
    (s.heeding task).tasks[task]? = some { x with killed := false } := by
  change (s.tasks.modify task _)[task]? = _
  rw [List.getElem?_modify_eq, hx]
  rfl

/-- A task that plays no job on changes nothing of note. -/
theorem runTask_idle (hfit : Fit s) {task : TaskId} (h : s.playing? task = none) : Inert s ((runTask notify task).on s).2 := by
  unfold runTask
  rw [Act.on_get_bind]
  unfold playing? at h
  cases hx : s.tasks[task]? with
  | none => exact .refl s
  | some x =>
    obtain ⟨work, turn, killed⟩ := x
    rw [hx] at h
    dsimp only at h ⊢
    by_cases hover : turn = .over
    · rw [if_pos hover]
      exact .refl s
    · rw [if_neg hover] at h ⊢
      rw [Act.on_bind_ok (Act.on_onTask _ _)]
      refine (heeding_inert s task).trans ?_
      cases work with
      | waitIdle name parked =>
        obtain ⟨r, t, hr, -, ht⟩ := runWaitIdle_calm (heeding_task hx) rfl name parked killed
          (hfit.stays (heeding_inert s task).toStays)
        change Inert _ ((runWaitIdle task name parked killed).on (s.heeding task)).2
        rw [hr]
        exact ht
      | job owner phase =>
        cases phase with
        | fresh =>
          cases killed with
          | true => exact retire_inert _ task
          | false => cases h
        | body rest => cases h
        | preview result rest => cases h

variable (notify) in
/-- A task that plays a job on. -/
theorem playing_on {task : TaskId} {phase : Phase} {killed : Bool} (h : s.playing? task = some (id, phase, killed)) :
    (s.heeding task).Lives task id ∧ (s.heeding task).phase? task = some (id, phase) ∧
      (runTask notify task).on s = (runJob notify task id phase killed).on (s.heeding task) := by
  unfold runTask
  rw [Act.on_get_bind]
  unfold playing? at h
  cases hx : s.tasks[task]? with
  | none => rw [hx] at h; cases h
  | some x =>
    obtain ⟨work, turn, killed'⟩ := x
    rw [hx] at h
    dsimp only at h ⊢
    by_cases hover : turn = .over
    · rw [if_pos hover] at h
      cases h
    · rw [if_neg hover] at h ⊢
      rw [Act.on_bind_ok (Act.on_onTask _ _)]
      have holds (phase : Phase) (hwork : work = .job id phase) :
          (s.heeding task).Lives task id ∧ (s.heeding task).phase? task = some (id, phase) := by
        subst hwork
        refine ⟨⟨_, heeding_task hx, rfl, hover⟩, ?_⟩
        rw [phase?, heeding_task hx]
        rfl
      -- A job that never began is not played once its task is cancelled; in the other phases it is played to learn of it.
      cases work with
      | waitIdle name parked => cases h
      | job owner phase =>
        cases phase with
        | fresh =>
          cases killed' with
          | true => cases h
          | false =>
            cases h
            obtain ⟨hlives, hphase⟩ := holds _ rfl
            exact ⟨hlives, hphase, rfl⟩
        | body rest | preview result rest =>
          cases h
          obtain ⟨hlives, hphase⟩ := holds _ rfl
          exact ⟨hlives, hphase, rfl⟩

theorem runTask_passes (hn : Notifies Evolves notify) (hs : Settled s) (task : TaskId) : Passes s ((runTask notify task).on s).2 := by
  cases h : s.playing? task with
  | none => exact .of_steady hs (runTask_idle hs.fit h).toSteady
  | some playing =>
    obtain ⟨id, phase, killed⟩ := playing
    obtain ⟨hlives, -, hrun⟩ := playing_on notify h
    have hp : Passes s (s.heeding task) := .of_steady hs (heeding_inert s task).toSteady
    obtain ⟨hwork, hown⟩ := hp.settled.working hlives
    rw [hrun]
    exact hp.trans (.of_turned hp.settled (runJob_turned hn hwork hown phase killed) hwork.active)

/-! ## Timers -/

/-- A job is dropped without having ended where the timeout cannot be told. -/
theorem withdraw_passes (hs : Settled s) (hid : id ∈ s.queue.waiting) (ht : ¬ s.queue.settings.Timely) :
    Passes s (s.mapQueue (·.withdraw id)) := by
  obtain ⟨j, hj, ho⟩ := hs.fit.waits id hid
  have hup : s.Upcoming id := .inl hid
  have hfit : Fit (s.mapQueue (·.withdraw id)) := hs.fit.withdraw id s.loop
  have hsame : ∀ i, i ≠ id → Same s (s.mapQueue (·.withdraw id)) i := fun i hi => same_withdraw s.loop hi
  have hpast := hs.fit.past_withdraw hid s.loop
  have hb := hs.fresh id hup
  refine ⟨⟨hfit, fun i => ?_⟩, .of_knows (fun _ j hj => ⟨j, hj, rfl⟩) rfl rfl rfl, fun i hu _ => .of_same (hsame i fun h => hu (h ▸ hup)) hu⟩
  by_cases hi : i = id
  · subst hi
    exact .stray j hpast (fun ha => hs.fit.apart i ha hup) hj ho 
      ⟨hb.entries, hb.idle, hb.unasked, hb.untold.told, hb.untold.brokenOff⟩ ht
  · exact (hs.placed i).same (hsame i hi)

variable (notify) in
/-- Where the timeout cannot be told, a job that has waited too long is dropped and nothing else happens. -/
theorem expire_untimely (id : JobId) {e : ArithmeticError} (ht : s.queue.settings.timeoutWhole = .error e) :
    ((expire notify id).on s).2 = s ∨
      (id ∈ s.queue.waiting ∧ ¬ s.queue.settings.Timely ∧ ((expire notify id).on s).2 = s.mapQueue (·.withdraw id)) := by
  unfold expire
  rw [Act.on_queueNow_bind]
  split
  · rename_i hid
    refine .inr ⟨by simpa using hid, fun ⟨n, hok⟩ => ?_, ?_⟩
    · rw [ht] at hok
      cases hok
    · rw [Act.on_bind_ok (Act.on_onQueue _), ht]
      rfl
  · exact .inl rfl

theorem fire_passes (hn : Notifies Evolves notify) (hs : Settled s) (action : TimerAction) :
    Passes s ((fire notify action).on s).2 := by
  cases action with
  | wake task => exact .of_leads hs (calm_wake [task]).leads_inert
  | expire id =>
    change Passes s ((expire notify id).on s).2
    cases ht : s.queue.settings.timeoutWhole with
    | ok seconds => exact .of_leads hs (expire_leads hn ht)
    | error e =>
      rcases expire_untimely notify id ht with h | ⟨hw, hno, h⟩ <;> rw [h]
      · exact .refl hs
      · exact withdraw_passes hs hw hno

/-! ## Runs -/

theorem Moves.passes (h : Moves s t) (hs : Settled s) : Passes s t := by
  cases h with
  | obey supplied depth c hc => exact .of_leads hs (obey_leads (notifyUpTo_notifies depth) supplied hc)
  | turn depth task => exact runTask_passes (notifyUpTo_notifies depth) hs task
  | fire depth action => exact fire_passes (notifyUpTo_notifies depth) hs action
  | loop l => exact .of_steady hs { Steady.refl s with }

theorem Reaches.passes (h : Reaches s t) (hs : Settled s) : Passes s t := by
  induction h with
  | refl => exact .refl hs
  | move _ hm ih => exact ih.trans (hm.passes ih.settled)

theorem start_settled (settings : Settings) (store : Store) (directory : String) (budget : Nat) :
    Settled (start settings store directory budget) where
  fit := .start settings store directory budget
  placed id := by
    have hb : Blank (start settings store directory budget) id := by
      refine ⟨rfl, fun i hi => ?_, fun ha => ?_, fun status ht => ?_, fun hb => by cases hb⟩
      · obtain ⟨t, ht, -⟩ := hi
        cases ht
      · cases ha
      · obtain ⟨who, event, hm, -⟩ := ht
        cases hm
    by_cases h0 : 1 ≤ id
    · exact .upcoming (.inr h0) hb
    · refine .skipped (fun hu => ?_) rfl (fun ha => by cases ha) hb
      rcases hu with hw | hn
      · cases hw
      · exact h0 hn

theorem Reachable.settled {settings : Settings} {store : Store} (h : Reachable settings store s) : Settled s := by
  obtain ⟨directory, budget, hr⟩ := h
  exact (hr.passes (start_settled settings store directory budget)).settled

theorem Reachable.settings {settings : Settings} {store : Store} (h : Reachable settings store s) :
    s.queue.settings = settings := by
  obtain ⟨directory, budget, hr⟩ := h
  exact (hr.passes (start_settled settings store directory budget)).continues.settings

end Moves

/-! ## Commands that stand for turns and timers -/

/-- A relation that tells what a run does: what a command does at once, what the task does whose turn is next, and
    what the timer does that fires next, where this can be copied. -/
structure Drives (copies : Copying) (P : Scheduler → Scheduler → Prop) : Prop where
  refl (s : Scheduler) : P s s
  trans {s t u : Scheduler} : P s t → P t u → P s u
  obey {s : Scheduler} (supplied : Option Store) (depth : Nat) (c : Command) : c.isImmediate = true →
    P s ((obey supplied (notifyWithin copies depth) c).on s).2
  turn {s : Scheduler} {task : TaskId} {l : Loop TimerAction} (depth : Nat) : s.loop.next? = some (task, l) →
    P s ((runTask (notifyWithin copies depth) task).on { s with loop := l }).2
  fire {s : Scheduler} {action : TimerAction} {time : Nat} {l : Loop TimerAction} (depth : Nat) : s.loop.fire? time = some (action, l) →
    P s ((fire (notifyWithin copies depth) action).on { s with loop := l }).2
  moveTo {s : Scheduler} (time : Nat) : P s { s with loop := s.loop.moveTo time }

theorem fire_on {notify : Notify} (action : TimerAction) :
    (fire notify action).on s = (.ok (), ((fire notify action).on s).2) := by
  cases action <;> rfl

namespace Drives
variable {copies : Copying} {P : Scheduler → Scheduler → Prop} (hP : Drives copies P)
include hP

theorem settleUpTo (depth n : Nat) : ∃ t, (settleUpTo (notifyWithin copies depth) n).on s = (.ok (), t) ∧ P s t := by
  induction n generalizing s with
  | zero => exact ⟨s, rfl, hP.refl s⟩
  | succ n ih =>
    unfold Scheduler.settleUpTo
    rw [Act.on_get_bind]
    cases hnext : s.loop.next? with
    | none => exact ⟨s, rfl, hP.refl s⟩
    | some next =>
      obtain ⟨task, l⟩ := next
      obtain ⟨u, hu, hr⟩ := ih (s := ((runTask (notifyWithin copies depth) task).on { s with loop := l }).2)
      exact ⟨u, hu, hP.trans (hP.turn depth hnext) hr⟩

theorem settle (depth : Nat) : ∃ t, (settle (notifyWithin copies depth)).on s = (.ok (), t) ∧ P s t :=
  hP.settleUpTo depth _

theorem fireUpTo (depth time n : Nat) : ∃ t, (fireUpTo (notifyWithin copies depth) time n).on s = (.ok (), t) ∧ P s t := by
  induction n generalizing s with
  | zero => exact ⟨s, rfl, hP.refl s⟩
  | succ n ih =>
    unfold Scheduler.fireUpTo
    rw [Act.on_get_bind]
    cases hfire : s.loop.fire? time with
    | none => exact ⟨s, rfl, hP.refl s⟩
    | some next =>
      obtain ⟨action, l⟩ := next
      obtain ⟨t, ht, hr⟩ := hP.settle (s := ((Scheduler.fire (notifyWithin copies depth) action).on { s with loop := l }).2) depth
      obtain ⟨u, hu, hr'⟩ := ih (s := t)
      refine ⟨u, ?_, hP.trans (hP.trans (hP.fire depth hfire) hr) hr'⟩
      dsimp only
      rw [Act.on_bind_ok (Act.on_onLoop _), Act.on_bind_ok (fire_on action), Act.on_bind_ok ht, hu]

/-- What a command does is told, whether it takes effect at once or stands for turns and timers. -/
theorem command (supplied : Option Store) (depth : Nat) (c : Command) :
    P s ((Scheduler.obey supplied (notifyWithin copies depth) c).on s).2 := by
  cases hc : c.isImmediate with
  | true => exact hP.obey supplied depth c hc
  | false =>
    cases c with
    | settle =>
      obtain ⟨t, ht, hr⟩ := hP.settle (s := s) depth
      rw [Scheduler.obey, Act.on_bind_ok ht]
      exact hr
    | advance milliseconds =>
      obtain ⟨t, ht, hr⟩ := hP.settle (s := s) depth
      obtain ⟨u, hu, hr'⟩ := hP.fireUpTo (s := t) depth (t.loop.now + milliseconds) t.budget
      have hadvance : (advance (notifyWithin copies depth) milliseconds).on s =
          (.ok (), { u with loop := u.loop.moveTo (t.loop.now + milliseconds) }) := by
        rw [advance, Act.on_bind_ok ht]
        dsimp only
        rw [Act.on_timeNow_bind, Act.on_get_bind, Act.on_bind_ok hu]
        rfl
      rw [Scheduler.obey, Act.on_bind_ok hadvance]
      exact hP.trans (hP.trans hr hr') (hP.moveTo _)
    | _ => cases hc

theorem giveAll (supplied : Option Store) (s : Scheduler) (commands : List Command) :
    P s (s.giveAllWithin copies supplied commands).2 := by
  induction commands generalizing s with
  | nil => exact hP.refl s
  | cons c rest ih => exact hP.trans (hP.command supplied s.budget c) (ih _)

end Drives

theorem reaches_drives : Drives .total Reaches where
  refl _ := .refl
  trans := .trans
  obey supplied depth c hc := .move .refl (.obey supplied depth c hc)
  turn {_ task l} depth _ := (Reaches.refl.move (.loop l)).move (.turn depth task)
  fire {_ action _ l} depth _ := (Reaches.refl.move (.loop l)).move (.fire depth action)
  moveTo _ := .move .refl (.loop _)

theorem giveAll_reaches (supplied : Option Store) (s : Scheduler) (commands : List Command) :
    Reaches s (s.giveAll supplied commands).2 := reaches_drives.giveAll supplied s commands

end MediaEngine.Scheduler
