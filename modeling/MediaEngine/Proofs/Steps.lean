import MediaEngine.Proofs.Course
import MediaEngine.Proofs.Slots

/-! # Steps of a run

A step of a run is the turn of the task that is next, a command, or the timer that fires next (`Step`), and
every step comes to one of a few things (`Deed`). -/

namespace MediaEngine.Scheduler
open Job

variable {N : Telling} {s t u : Scheduler} {id : JobId}

/-- A step of a run, as the loop keeps order: a command that takes effect at once, the turn of the task that is next,
    the firing of the timer that is due first, or that time passes. -/
inductive Step (s : Scheduler) : Scheduler → Prop
  | obey (supplied : Option Store) (depth : Nat) (c : Command) : c.isImmediate = true →
      Step s ((obey supplied (notifyUpTo depth) c).on s).2
  | turn {task : TaskId} {l : Loop TimerAction} (depth : Nat) : s.loop.next? = some (task, l) →
      Step s ((runTask (notifyUpTo depth) task).on { s with loop := l }).2
  | fire {action : TimerAction} {time : Nat} {l : Loop TimerAction} (depth : Nat) : s.loop.fire? time = some (action, l) →
      Step s ((fire (notifyUpTo depth) action).on { s with loop := l }).2
  | moveTo (time : Nat) : Step s { s with loop := s.loop.moveTo time }

/-- Steps one after the other. -/
abbrev Runs : Scheduler → Scheduler → Prop := Relation.ReflTransGen Step

/-- What commands do is a run. -/
theorem runs_drives : Drives .total Runs where
  refl _ := .refl
  trans := .trans
  obey supplied depth c hc := .single (.obey supplied depth c hc)
  turn depth h := .single (.turn depth h)
  fire depth h := .single (.fire depth h)
  moveTo time := .single (.moveTo time)

/-- What is told of all that commands do is told of a run. -/
theorem Runs.driven {P : Scheduler → Scheduler → Prop} (hP : Drives .total P) (h : Runs s t) : P s t := by
  induction h with
  | refl => exact hP.refl s
  | tail _ hstep ih =>
    refine hP.trans ih ?_
    cases hstep with
    | obey supplied depth c hc => exact hP.obey supplied depth c hc
    | turn depth hnext => exact hP.turn depth hnext
    | fire depth hfire => exact hP.fire depth hfire
    | moveTo time => exact hP.moveTo time

theorem Step.sound (h : Step s t) (hs : Settled s) (ht : Timed s) : Settled t ∧ Timed t ∧ Moments s t := by
  cases h with
  | obey supplied depth c hc => exact moments_drives.obey supplied depth c hc hs ht
  | turn depth hnext => exact moments_drives.turn depth hnext hs ht
  | fire depth hfire => exact moments_drives.fire depth hfire hs ht
  | moveTo time => exact moments_drives.moveTo time hs ht

theorem Runs.sound (h : Runs s t) (hs : Settled s) (ht : Timed s) : Settled t ∧ Timed t ∧ Moments s t := by
  induction h with
  | refl => exact ⟨hs, ht, .refl⟩
  | tail _ h ih =>
    obtain ⟨hs', ht', hm⟩ := ih
    obtain ⟨hs'', ht'', hm'⟩ := h.sound hs' ht'
    exact ⟨hs'', ht'', hm.trans hm'⟩

/-- What is reached by steps of a run can be reached. -/
theorem Runs.reaches (h : Runs s t) : Reaches s t := by
  induction h with
  | refl => exact .refl
  | tail _ h ih =>
    cases h with
    | obey supplied depth c hc => exact ih.move (.obey supplied depth c hc)
    | turn depth _ => exact (ih.move (.loop _)).move (.turn depth _)
    | fire depth _ => exact (ih.move (.loop _)).move (.fire depth _)
    | moveTo time => exact ih.move (.loop _)

theorem start_timed (settings : Settings) (store : Store) (directory : String) (budget : Nat) :
    Timed (start settings store directory budget) := fun _ ⟨_, hm, _⟩ => by cases hm

section Start
variable {settings : Settings} {store : Store} {directory : String} {budget : Nat}

/-- What every state of a run has. -/
theorem Runs.basics (h : Runs (start settings store directory budget) s) : Settled s ∧ Timed s ∧ s.queue.Limited := by
  obtain ⟨hs, ht, hm⟩ := h.sound (start_settled settings store directory budget) (start_timed settings store directory budget)
  exact ⟨hs, ht, limited_moments (start_limited settings store directory budget) hm⟩

/-- What a run does is a row of moments. -/
theorem Runs.moments (h : Runs (start settings store directory budget) s) :
    Moments (start settings store directory budget) s :=
  (h.sound (start_settled settings store directory budget) (start_timed settings store directory budget)).2.2

/-- A queue keeps the settings with which it was made. -/
theorem Runs.settings_eq (h : Runs (start settings store directory budget) s) : s.queue.settings = settings :=
  h.moments.continues.settings

end Start

/-! ## What a step comes to -/

/-- The scheduler once a task was cancelled; it learns of it in its next turn. -/
def doomed (s : Scheduler) (task : TaskId) : Scheduler :=
  { s with tasks := s.tasks.modify task fun x => { x with killed := true } }

/-- The scheduler once a task no longer waits for something. -/
def withdrawn (s : Scheduler) (task : TaskId) (a : Await) : Scheduler := ((withdrawTask task a).on s).2

/-- A task is cancelled; if it waits, its next turn comes at once. -/
inductive Kills (task : TaskId) (s : Scheduler) : Scheduler → Prop
  | ready {x : Task} : s.tasks[task]? = some x → x.turn = .ready → Kills task s (s.doomed task)
  | waiting {x : Task} {a : Await} : s.tasks[task]? = some x → x.turn = .waiting a →
      Kills task s (((s.doomed task).withdrawn task a).rousing [task])

/-- The scheduler after the turn of a task that waits for the queue to be idle. -/
def idling (s : Scheduler) (task : TaskId) (name : String) (parked killed : Bool) : Scheduler :=
  ((runWaitIdle task name parked killed).on s).2

/-- The scheduler once a task waits for the queue to be idle. -/
def parking (s : Scheduler) (task : TaskId) (name : String) : Scheduler :=
  { s with
    tasks := s.tasks.modify task fun x => { x with work := .waitIdle name true, turn := .waiting .idle }
    queue := { s.queue with parked := s.queue.parked ++ [task] } }

/-- It learns that it was cancelled, it tells that the queue is idle, or it waits for that. -/
theorem idling_cases (s : Scheduler) (task : TaskId) (name : String) (parked killed : Bool) :
    (killed = true ∧ s.idling task name parked killed = s.retire task) ∨
    (killed = false ∧ (parked = true ∨ s.queue.isIdle = true) ∧
      s.idling task name parked killed = (s.retire task).noted (.told name "idle" .null)) ∨
    (killed = false ∧ parked = false ∧ s.queue.isIdle = false ∧ s.idling task name parked killed = s.parking task name) := by
  unfold idling runWaitIdle
  cases killed with
  | true => exact .inl ⟨rfl, rfl⟩
  | false =>
    cases parked with
    | true => exact .inr (.inl ⟨rfl, .inl rfl, rfl⟩)
    | false =>
      cases hidle : s.queue.isIdle with
      | true =>
        refine .inr (.inl ⟨rfl, .inr rfl, ?_⟩)
        simp only [Bool.false_eq_true, if_false, Act.on_queueNow_bind, hidle, Bool.or_true, if_true]
        rfl
      | false =>
        refine .inr (.inr ⟨rfl, rfl, rfl, ?_⟩)
        simp only [Bool.false_eq_true, if_false, Act.on_queueNow_bind, hidle, Bool.or_false]
        rfl

/-- The scheduler once a job has other metadata. -/
def annotated (s : Scheduler) (id : JobId) (m : Members) : Scheduler :=
  s.mapQueue (·.update id fun j => { j with metadata := some m })

theorem annotated_inert (s : Scheduler) (id : JobId) (m : Members) : Inert s (s.annotated id m) :=
  .update (fun j => { Tuned.refl j with }) fun _ => rfl

theorem setMetadata_cases (name key : String) (value : Value) : ((setMetadata name key value).on s).2 = s ∨
    ∃ id m, ((setMetadata name key value).on s).2 = s.annotated id m := by
  unfold setMetadata
  rw [Act.on_queueNow_bind]
  cases s.queue.latest? name with
  | none => exact .inl rfl
  | some job =>
    dsimp only
    cases job.metadata with
    | none => exact .inl rfl
    | some m => exact .inr ⟨job.id, Members.set key value m, rfl⟩

theorem Kills.inert {task : TaskId} (h : Kills task s t) (hf : Fit s) : Inert s t := by
  have hdoom : Inert s (s.doomed task) := .onTask (fun _ => rfl) (fun _ => rfl) fun _ h => h
  cases h with
  | ready => exact hdoom
  | @waiting x a =>
    have hwithdraw : Inert (s.doomed task) ((s.doomed task).withdrawn task a) := by
      obtain ⟨r, t, hr, -, hi⟩ := calm_withdrawTask (s := s.doomed task) task a (hf.stays hdoom.toStays)
      rw [withdrawn, hr]
      exact hi
    exact (hdoom.trans hwithdraw).trans (.wake [task])

theorem idling_inert {task : TaskId} {x : Task} (hf : Fit s) (hx : s.tasks[task]? = some x) (hw : x.work.phase? = none) (name : String)
    (parked killed : Bool) : Inert s (s.idling task name parked killed) := by
  obtain ⟨r, t, hr, -, hi⟩ := runWaitIdle_calm hx hw name parked killed hf
  rw [idling, hr]
  exact hi

/-- The turn of a task that came to wait for the queue to be idle is inert. -/
theorem idling_turn {task : TaskId} {x : Task} {name : String} {parked : Bool} (hf : Fit s) (hx : s.tasks[task]? = some x)
    (hwork : x.work = .waitIdle name parked) (l : Loop TimerAction) :
    Inert (heeding { s with loop := l } task) ((heeding { s with loop := l } task).idling task name parked x.killed) := by
  have hfit : Fit (heeding { s with loop := l } task) := hf.stays (.of_queue rfl)
  have hnone : { x with killed := false }.work.phase? = none := congrArg Work.phase? hwork
  exact idling_inert hfit (heeding_task (s := { s with loop := l }) hx) hnone name parked x.killed

/-- What a step comes to, telling listeners and what the queue is called on for being told in these ways. -/
inductive Deed (N : Telling) (R : Bool → Scheduler → Scheduler → Prop) (s : Scheduler) : Scheduler → Prop
  | does {b : Bool} {t : Scheduler} : R b s t → Deed N R s t
  | kills {task : TaskId} {t : Scheduler} : Kills task s t → Deed N R s t
  /-- Who handed a job in changes its metadata. -/
  | annotates (id : JobId) (m : Members) : Deed N R s (s.annotated id m)
  /-- A task is created that waits for the queue to be idle. -/
  | joins (name : String) : Deed N R s (s.spawn (.waitIdle name false))
  /-- A task that is over takes no turn. -/
  | rests {task : TaskId} {l : Loop TimerAction} : s.loop.next? = some (task, l) →
      (∀ x, s.tasks[task]? = some x → x.turn = .over) → Deed N R s { s with loop := l }
  /-- A task that was cancelled before its first turn does nothing. -/
  | drops {task : TaskId} {l : Loop TimerAction} {x : Task} {id : JobId} : s.loop.next? = some (task, l) →
      s.tasks[task]? = some x → x.turn ≠ .over → x.work = .job id .fresh → x.killed = true →
      Deed N R s ((heeding { s with loop := l } task).retire task)
  | plays {task : TaskId} {l : Loop TimerAction} {x : Task} {id : JobId} {phase : Phase} {j : Job} {t : Scheduler} :
      s.loop.next? = some (task, l) → s.tasks[task]? = some x → x.turn ≠ .over → x.work = .job id phase →
      (x.killed = true → phase.isFresh = false) → (heeding { s with loop := l } task).Underway id j →
      TurnOf N task id phase x.killed (heeding { s with loop := l } task) t → Deed N R s t
  | waits {task : TaskId} {l : Loop TimerAction} {x : Task} {name : String} {parked : Bool} : s.loop.next? = some (task, l) →
      s.tasks[task]? = some x → x.turn ≠ .over → x.work = .waitIdle name parked →
      Deed N R s ((heeding { s with loop := l } task).idling task name parked x.killed)
  | expires {id : JobId} {time : Nat} {l : Loop TimerAction} {b : Bool} {t : Scheduler} :
      s.loop.fire? time = some (.expire id, l) → R b { s with loop := l } t → Deed N R s t
  | wakes {task : TaskId} {time : Nat} {l : Loop TimerAction} : s.loop.fire? time = some (.wake task, l) →
      Deed N R s (rousing { s with loop := l } [task])
  | moveTo (time : Nat) : Deed N R s { s with loop := s.loop.moveTo time }

/-- What a command comes to that takes effect at once, what the queue is called on for being told in this way. -/
inductive Bidden (R : Bool → Scheduler → Scheduler → Prop) (s : Scheduler) : Scheduler → Prop
  | does {b : Bool} {t : Scheduler} : R b s t → Bidden R s t
  | kills {task : TaskId} {t : Scheduler} : Kills task s t → Bidden R s t
  | annotates (id : JobId) (m : Members) : Bidden R s (s.annotated id m)
  | joins (name : String) : Bidden R s (s.spawn (.waitIdle name false))

theorem Bidden.deed {R : Bool → Scheduler → Scheduler → Prop} (h : Bidden R s t) : Deed N R s t := by
  cases h with
  | does h => exact .does h
  | kills h => exact .kills h
  | annotates id m => exact .annotates id m
  | joins name => exact .joins name

/-- All that the queue is called on for is told by the relation. -/
structure Answers (R : Bool → Scheduler → Scheduler → Prop) (notify : Notify) : Prop extends Serves R notify where
  outside : ∀ submission s, Leads R s (Scheduler.enqueue notify false submission)
  expire : ∀ id s, s.queue.settings.Timely → Leads R s (Scheduler.expire notify id)

section Deeds
variable {notify : Notify} {task : TaskId} {R : Bool → Scheduler → Scheduler → Prop}

theorem does_answers (hn : Tells (Along N) notify) : Answers (Does N) notify where
  toServes := serves_does hn
  outside submission _ := enqueue_outside_told (Along N) submission
  expire _ _ := fun ⟨_, ht⟩ => expire_told hn ht

/-- A task that is not over is cancelled. -/
theorem killTask_kills {x : Task} (hx : s.tasks[task]? = some x) (hlive : x.turn ≠ .over) :
    Kills task s ((killTask task).on s).2 := by
  unfold killTask
  rw [Act.on_get_bind, hx]
  dsimp only
  cases hturn : x.turn with
  | «over» => exact absurd hturn hlive
  | ready => exact .ready hx hturn
  | waiting a =>
    have hwithdraw : (withdrawTask task a).on (s.doomed task) = (.ok (), (s.doomed task).withdrawn task a) := by
      cases a <;> rfl
    have hkill := Kills.waiting hx hturn
    rw [Act.on_bind_ok (Act.on_onTask _ _)]
    change Kills task s ((withdrawTask task a >>= fun _ => _).on (s.doomed task)).2
    rw [Act.on_bind_ok hwithdraw]
    exact hkill

theorem killLatest_cases (name : String) (p : Work → Bool) : ((killLatest name p).on s).2 = s ∨
    ∃ task, Kills task s ((killLatest name p).on s).2 := by
  unfold killLatest
  rw [Act.on_get_bind]
  cases s.latestTask? p with
  | none => exact .inl rfl
  | some task =>
    dsimp only
    rcases Classical.em (∃ x, s.tasks[task]? = some x ∧ x.turn ≠ .over) with ⟨x, hx, hlive⟩ | hno
    · exact .inr ⟨task, killTask_kills hx hlive⟩
    · refine .inl ?_
      unfold killTask
      rw [Act.on_get_bind]
      cases hx : s.tasks[task]? with
      | none => rfl
      | some x =>
        have hover : x.turn = .over := Decidable.byContradiction fun h => hno ⟨x, hx, h⟩
        dsimp only
        rw [hover]
        rfl

theorem obey_bidden [Traces R] (hr : Serves R notify) (hout : ∀ submission, Leads R s (Scheduler.enqueue notify false submission))
    (hf : Fit s) (supplied : Option Store) {c : Command} (hc : c.isImmediate = true) :
    Bidden R s ((obey supplied notify c).on s).2 := by
  have does : ∀ {x : Act Reply}, Leads R s x → Bidden R s (x.on s).2 := fun h => .does (h hf)
  have replies : ∀ {α : Type} {x : Act α} {f : α → Reply}, Calm Touches s x → Bidden R s ((do return f (← x) : Act Reply).on s).2 :=
    fun hx => does (Calm.bind hx fun _ _ => Calm.pure _).leads
  -- The answer to a call that cancels a task is made from what it returns, and changes nothing.
  have kills : ∀ (name : String) (p : Work → Bool), Bidden R s ((do return .flag (← killLatest name p) : Act Reply).on s).2 := by
    intro name p
    have hsame : ((do return .flag (← killLatest name p) : Act Reply).on s).2 = ((killLatest name p).on s).2 := by
      rw [Act.on_bind]
      rcases (killLatest name p).on s with ⟨_ | _, t⟩ <;> rfl
    rw [hsame]
    rcases killLatest_cases (s := s) name p with h | ⟨task, h⟩
    · rw [h]
      exact .does Traces.refl
    · exact .kills h
  cases c with
  | enqueue submission => exact does (Leads.bind (hr.enqueue submission s) fun _ _ _ _ => Leads.pure _)
  | enqueueOutside submission => exact does (Leads.bind (hout submission) fun _ _ _ _ => Leads.pure _)
  | cancelAll => exact does (Leads.bind (hr.cancelAll s) fun _ _ _ _ => Leads.pure _)
  | settle | advance _ => cases hc
  | openGate name => exact replies (calm_openGate name)
  | kill job => exact kills job _
  | waitIdle name => exact .joins name
  | cancelWait name => exact kills name _
  | subscribe listener => exact replies (Calm.onQueue (Modest.touch (.subscribe listener)))
  | unsubscribe name => exact replies (calm_unsubscribe name)
  | view =>
    exact does (Leads.same (Act.on_queueNow_bind _)
      (Leads.bind (Calm.yieldOr (s.queue.shown_unbroken supplied)).leads fun _ _ _ _ => Leads.pure _))
  | warnings =>
    refine does (Leads.same (Act.on_queueNow_bind _) ?_)
    refine Leads.same (Act.on_timeNow_bind _) (Leads.bind (Calm.yieldOr ?_).leads fun _ _ _ _ => Leads.pure _)
    cases s.queue.warnings s.loop.now <;> rfl
  | changeViews => exact .does Traces.refl
  | setMetadata name key value =>
    have hsame : ((do setMetadata name key value; return .done : Act Reply).on s).2 = ((setMetadata name key value).on s).2 := by
      rw [Act.on_bind]
      rcases (setMetadata name key value).on s with ⟨_ | _, t⟩ <;> rfl
    change Bidden R s ((do setMetadata name key value; return .done : Act Reply).on s).2
    rw [hsame]
    rcases setMetadata_cases (s := s) name key value with h | ⟨id, m, h⟩
    · rw [h]
      exact .does Traces.refl
    · rw [h]
      exact .annotates id m

theorem obey_deed [Traces R] (ha : Answers R notify) (hf : Fit s) (supplied : Option Store) {c : Command}
    (hc : c.isImmediate = true) : Deed N R s ((obey supplied notify c).on s).2 :=
  (obey_bidden ha.toServes (fun submission => ha.outside submission s) hf supplied hc).deed

theorem runTask_deed (hn : Tells (Along N) notify) (hs : Settled s) {l : Loop TimerAction} (hnext : s.loop.next? = some (task, l)) :
    Deed N R s ((runTask notify task).on { s with loop := l }).2 := by
  have hsettled : Settled (heeding { s with loop := l } task) := hs.inert (.turning hnext)
  unfold runTask
  rw [Act.on_get_bind]
  cases hx : s.tasks[task]? with
  | none => exact .rests hnext fun _ h => by rw [hx] at h; cases h
  | some x =>
    dsimp only
    by_cases hover : x.turn = .over
    · rw [if_pos hover]
      exact .rests hnext fun y hy => by cases hx.symm.trans hy; exact hover
    · rw [if_neg hover, Act.on_bind_ok (Act.on_onTask _ _)]
      change Deed N R s (Act.on _ (heeding { s with loop := l } task)).2
      have plays : ∀ {id phase}, x.work = .job id phase → (x.killed = true → phase.isFresh = false) →
          Deed N R s ((runJob notify task id phase x.killed).on (heeding { s with loop := l } task)).2 := fun {id phase} hwork hk => by
        have hlives : (heeding { s with loop := l } task).Lives task id :=
          ⟨_, heeding_task (s := { s with loop := l }) hx, congrArg Work.owner? hwork, hover⟩
        obtain ⟨hw, -⟩ := hsettled.working hlives
        obtain ⟨j, hj, hopen, -⟩ := hw.job
        have hu : (heeding { s with loop := l } task).Underway id j := ⟨hsettled.fit, hw.active, hj, hopen⟩
        exact .plays hnext hx hover hwork hk hu (runJob_turnOf hn hu task phase x.killed)
      split
      · rename_i hwork hkilled
        exact .drops hnext hx hover hwork hkilled
      · rename_i phase hwork hno
        refine plays hwork fun hk => ?_
        cases phase with
        | fresh => exact absurd rfl (hno hk)
        | body | preview => rfl
      · rename_i hwork
        exact .waits hnext hx hover hwork

theorem fire_deed (ha : Answers R notify) (hs : Settled s) (ht : Timed s) {action : TimerAction} {time : Nat}
    {l : Loop TimerAction} (hfire : s.loop.fire? time = some (action, l)) :
    Deed N R s ((fire notify action).on { s with loop := l }).2 := by
  obtain ⟨⟨timer, htimer, haction⟩, hsub⟩ := fire?_set hfire
  cases action with
  | wake task => exact .wakes hfire
  | expire id =>
    have hl : Inert s { s with loop := l } := .loop fun timer hm _ _ => hsub timer hm
    exact .expires hfire (ha.expire id _ (ht id ⟨timer, htimer, haction⟩) (hs.fit.stays hl.toStays))

/-- Every step comes to something, whatever telling listeners comes to, and what the queue is called on for. -/
theorem Step.comes [Traces R] (h : Step s t) (hn : ∀ depth, Tells (Along N) (notifyUpTo depth))
    (ha : ∀ depth, Answers R (notifyUpTo depth)) (hs : Settled s) (ht : Timed s) : Deed N R s t := by
  cases h with
  | obey supplied depth c hc => exact obey_deed (ha depth) hs.fit supplied hc
  | turn depth hnext => exact runTask_deed (hn depth) hs hnext
  | fire depth hfire => exact fire_deed (ha depth) hs ht hfire
  | moveTo time => exact .moveTo time

theorem Step.deed (h : Step s t) (hn : ∀ depth, Tells (Along N) (notifyUpTo depth)) (hs : Settled s) (ht : Timed s) :
    Deed N (Does N) s t := h.comes hn (fun depth => does_answers (hn depth)) hs ht

end Deeds

end MediaEngine.Scheduler
