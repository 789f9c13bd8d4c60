import MediaEngine.Proofs.Lapses

/-! # Timers of jobs that wait

When a job is handed in, all are told that it waits, and then its timer is set; whatever takes it out of those that wait
takes its timer away. So between two steps exactly those who wait have a timer, one each and in the same order, unless a
listener breaks off to be told that a job waits (`Synced`). Where jobs do not expire there are no such timers at all. -/

namespace MediaEngine
open Job

/-- The job that a timer drops. -/
def TimerAction.expiring? : TimerAction → Option JobId
  | .expire job => some job
  | .wake _ => none

/-- The jobs that timers drop, in order. -/
def expiring (timers : List (Timer TimerAction)) : List JobId := timers.filterMap (·.action.expiring?)

variable {timers : List (Timer TimerAction)} {timer : Timer TimerAction} {id : JobId}

theorem mem_expiring : id ∈ expiring timers ↔ ∃ timer ∈ timers, timer.action = .expire id := by
  rw [expiring, List.mem_filterMap]
  refine exists_congr fun timer => and_congr_right fun _ => ?_
  cases timer.action <;> simp [TimerAction.expiring?]

/-- The timers with one action are taken away, and with them the job that they drop, if they drop one. -/
theorem expiring_disarm (l : Loop TimerAction) (action : TimerAction) :
    expiring (l.disarm action).timers = (expiring l.timers).filter fun id => action ≠ .expire id := by
  change expiring (l.timers.filter fun timer => timer.action != action) = _
  induction l.timers with
  | nil => rfl
  | cons timer rest ih =>
    obtain ⟨due, other⟩ := timer
    by_cases h : other = action
    · subst h
      cases other <;> simpa [expiring, TimerAction.expiring?] using ih
    · cases other <;> simpa [expiring, TimerAction.expiring?, h, Ne.symm h] using ih

theorem expiring_arm (l : Loop TimerAction) (due : Nat) (action : TimerAction) :
    expiring (l.arm due action).timers = expiring l.timers ++ action.expiring?.toList := by
  rw [Loop.arm, expiring, List.filterMap_append, expiring]
  cases action <;> rfl

/-- Of timers that drop a job each, one is taken away. -/
theorem expiring_erase (hn : (expiring timers).Nodup) (hm : timer ∈ timers) :
    expiring (timers.erase timer) = (expiring timers).diff timer.action.expiring?.toList := by
  induction timers with
  | nil => cases hm
  | cons first rest ih =>
    by_cases hfirst : first = timer
    · subst hfirst
      rw [List.erase_cons_head]
      obtain ⟨due, action⟩ := first
      cases action with
      | expire id =>
        change expiring rest = (id :: expiring rest).diff [id]
        rw [List.diff_cons, List.erase_cons_head, List.diff_nil]
      | wake task => rfl
    · rw [List.erase_cons_tail (by simpa using hfirst)]
      have hrest : timer ∈ rest := (List.mem_cons.mp hm).resolve_left (Ne.symm hfirst)
      obtain ⟨due, action⟩ := first
      cases action with
      | wake task => exact ih hn hrest
      | expire i =>
        obtain ⟨hnot, hn⟩ := List.nodup_cons.mp (show (i :: expiring rest).Nodup from hn)
        change i :: expiring (rest.erase timer) = (i :: expiring rest).diff timer.action.expiring?.toList
        rw [ih hn hrest]
        cases ha : timer.action with
        | wake task => rfl
        | expire id =>
          -- No job has two timers, so the first one is not of the same job.
          have hne : i ≠ id := fun h => hnot (h ▸ mem_expiring.mpr ⟨timer, hrest, ha⟩)
          change i :: (expiring rest).diff [id] = (i :: expiring rest).diff [id]
          rw [List.diff_cons, List.diff_nil, List.diff_cons, List.diff_nil, List.erase_cons_tail (by simpa using hne)]

namespace Scheduler
variable {s t u : Scheduler} {j : Job} {b : Bool} {task : TaskId} {phase : Phase} {own : Option JobId}

/-- The jobs whose timers are set, in order. -/
def expiries (s : Scheduler) : List JobId := expiring s.loop.timers

theorem mem_expiries : id ∈ s.expiries ↔ s.Expects id := mem_expiring

/-- Those who wait have a timer each, in order, and nobody else; where jobs do not expire nobody has. -/
def Synced (s : Scheduler) : Prop := s.expiries = if s.queue.settings.expires then s.queue.waiting else []

/-- Neither those that wait nor their timers differ. -/
structure Bides (s t : Scheduler) : Prop where
  settings : t.queue.settings = s.queue.settings
  waiting : t.queue.waiting = s.queue.waiting
  expiries : t.expiries = s.expiries

theorem Bides.synced (h : Bides s t) (hs : s.Synced) : t.Synced := by
  rw [Synced, h.expiries, h.settings, h.waiting]
  exact hs

end Scheduler

/-- If jobs expire, no listener calls back or breaks off to be told that a job waits, and the timeout can be told in seconds. -/
def Queue.Punctual (q : Queue) : Prop :=
  q.settings.expires = true → q.Quiet ∧ q.Spares .queued ∧ ∃ x, q.settings.timeoutSeconds = .ok x

theorem Queue.Punctual.before {q r : Queue} (h : r.Punctual) (hs : r.settings = q.settings) (hl : q.listeners <+: r.listeners) :
    q.Punctual := by
  intro he
  rw [← hs] at he ⊢
  obtain ⟨hquiet, hspares, htimeout⟩ := h he
  exact ⟨hquiet.before hl, hspares.before hl, htimeout⟩

namespace Scheduler
variable {s t u : Scheduler} {j : Job} {b : Bool} {task : TaskId} {phase : Phase} {own : Option JobId}

theorem Unfolds.punctual (h : Unfolds own s t) (hp : t.queue.Punctual) : s.queue.Punctual :=
  hp.before h.continues.settings h.listeners

/-- If in the end all is punctual, the timers are kept. -/
def Syncs (s t : Scheduler) : Prop := t.queue.Punctual → s.Synced → t.Synced

/-- What happens in a row, timers being kept. -/
abbrev Syncing (own : Option JobId) (_ : Bool) (s t : Scheduler) : Prop := Unfolds own s t ∧ Syncs s t

/-- Listeners are told, timers being kept; and where they do not call back, it is known how. -/
abbrev syncing : Telling := fun kind id b s t => Syncs s t ∧ Softly Spread kind id b s t

theorem Bides.syncs (h : Bides s t) : Syncs s t := fun _ hs => h.synced hs

theorem Syncing.trans {c : Bool} (h₁ : Syncing own b s t) (h₂ : Syncing own c t u) : Syncing own c s u :=
  ⟨h₁.1.trans h₂.1, fun hp hs => h₂.2 hp (h₁.2 (h₂.1.punctual hp) hs)⟩

namespace Bides

theorem refl (s : Scheduler) : Bides s s := ⟨rfl, rfl, rfl⟩

theorem trans (h₁ : Bides s t) (h₂ : Bides t u) : Bides s u :=
  ⟨h₂.settings.trans h₁.settings, h₂.waiting.trans h₁.waiting, h₂.expiries.trans h₁.expiries⟩

theorem of_abides (h : Abides s t) (ht : t.loop.timers = s.loop.timers) : Bides s t :=
  ⟨h.settings, h.waiting, congrArg expiring ht⟩

theorem of_queue (hq : t.queue = s.queue) (ht : t.loop.timers = s.loop.timers) : Bides s t :=
  ⟨congrArg Queue.settings hq, congrArg Queue.waiting hq, congrArg expiring ht⟩

theorem touch (h : Touch s t) : Bides s t := of_abides h.inert.abides (by cases h <;> rfl)

theorem signalling (hf : Fit s) (id : JobId) (reason : Option String) : Bides s (s.signalling id reason) := by
  refine of_abides (signalling_signals hf id reason).abides ?_
  unfold Scheduler.signalling
  rcases signalToken_eq (s := s) id reason with ⟨h, -⟩ | ⟨k, -, -, h⟩ <;> rw [h]
  rfl

theorem halted (hf : Fit s) (h : Halted id b s t) : Bides s t := by
  cases b <;> cases h
  · exact (signalling hf id _).trans (of_queue rfl rfl)
  · exact refl s

theorem spawned (h : Spawned id b s t) : Bides s t := by
  cases b <;> cases h <;> exact of_queue rfl rfl

theorem recorded {path : Option String} (h : Recorded id path b s t) : Bides s t := by
  cases b <;> cases h
  · unfold recording
    rcases record_cases (s := s) id path with ⟨-, h⟩ | ⟨k, -, ⟨store, -, h⟩ | ⟨-, h⟩⟩ <;> rw [h] <;> exact ⟨rfl, rfl, rfl⟩
  · exact refl s

theorem recover (s : Scheduler) : Bides s (s.mapQueue Queue.recover) := by
  obtain ⟨e, he⟩ := Queue.recover_eq s.queue
  exact ⟨by rw [mapQueue_queue, he], by rw [mapQueue_queue, he], rfl⟩

theorem closes (h : Closes id b s t) : Bides s t := by
  cases b <;> cases h
  · unfold closing
    rcases record_cases (s := s) id none with ⟨-, h⟩ | ⟨k, -, ⟨store, -, h⟩ | ⟨-, h⟩⟩ <;> rw [h]
    · exact recover s
    · exact Bides.trans (t := (s.mapQueue (·.hand (k.entry none) (some store))).noted _) ⟨rfl, rfl, rfl⟩ (recover _)
    · exact ⟨rfl, rfl, rfl⟩
  · exact refl s

theorem unparking (s : Scheduler) : Bides s s.unparking :=
  of_abides (unparking_inert s).abides (by unfold Scheduler.unparking; split <;> rfl)

theorem showing (s : Scheduler) (id : JobId) (status : Job.Status) : Bides s (s.showing id status) := ⟨rfl, rfl, rfl⟩

theorem breakOff (s : Scheduler) (event : Event) : Bides s (s.mapQueue (·.breakOff event)) := by
  obtain ⟨ids, hq, -⟩ := s.queue.breakOff_eq event
  exact ⟨by rw [mapQueue_queue, hq], by rw [mapQueue_queue, hq], rfl⟩

theorem informed (s : Scheduler) (event : Event) (index : Nat) : Bides s (s.informed event index) :=
  of_queue (informed_queue s event index) (congrArg Loop.timers (informed_loop s event index))

end Bides

/-! ## Jobs that leave those that wait -/

/-- Whoever leaves those that wait takes its timer along. -/
theorem Synced.leaves (hs : s.Synced) (hn : s.queue.waiting.Nodup) (hset : t.queue.settings = s.queue.settings)
    (hw : t.queue.waiting = s.queue.waiting.erase id) (ht : t.loop.timers = (s.loop.disarm (.expire id)).timers) : t.Synced := by
  rw [Synced, expiries, ht, expiring_disarm, hset, hw, hn.erase_eq_filter]
  change s.expiries.filter _ = _
  rw [hs]
  split
  · refine List.filter_congr fun i _ => ?_
    by_cases hi : i = id
    · simp [hi]
    · simp [hi, Ne.symm hi]
  · rfl

theorem Syncs.leaving (hf : Fit s) (id : JobId) (message : Option String) :
    Syncs s (s.leaving id message (s.loop.disarm (.expire id))) := fun _ hs => hs.leaves hf.once_waiting rfl rfl rfl

theorem Syncs.taking (hf : Fit s) {q : Queue} (hq : s.queue.startNext? = some (id, q)) : Syncs s (s.taking id q) := by
  obtain ⟨rest, e, hw, he⟩ := taking_eq hq
  have hwaiting : (s.taking id q).queue.waiting = s.queue.waiting.erase id := by
    rw [he, hw, List.erase_cons_head]
    rfl
  exact fun _ hs => hs.leaves hf.once_waiting (by rw [he]; rfl) hwaiting rfl

/-! ## Jobs that are handed in -/

/-- What becomes of the timer of a job once all were told that it waits. -/
def Armed (id : JobId) : Bool → Scheduler → Scheduler → Prop
  | true, t, u => u = t
  | false, t, u => (u = t ∧ (t.queue.settings.expires = true → ∀ x, t.queue.settings.timeoutSeconds ≠ .ok x)) ∨
      (u = t.arming id ∧ t.queue.settings.expires = true ∧ ∃ x, t.queue.settings.timeoutSeconds = .ok x)

theorem armExpiry_armed (id : JobId) : ∃ r u, (armExpiry id).on s = (r, u) ∧ Broken r = false ∧ Armed id false s u := by
  unfold armExpiry
  rw [Act.on_queueNow_bind]
  dsimp only
  cases he : s.queue.settings.expires with
  | false => exact ⟨_, s, rfl, rfl, .inl ⟨rfl, fun h => by rw [he] at h; cases h⟩⟩
  | true =>
    cases h : s.queue.settings.timeoutSeconds with
    | error e => exact ⟨_, s, Act.on_bind_error (Act.on_yieldOr _), rfl, .inl ⟨rfl, fun _ x hx => by rw [h] at hx; cases hx⟩⟩
    | ok x => exact ⟨_, s.arming id, Act.on_bind_ok (Act.on_yieldOr _), rfl, .inr ⟨rfl, he, x, h⟩⟩

theorem Armed.queue (h : Armed id b s t) : t.queue = s.queue := by
  cases b with
  | true => rw [h]
  | false => rcases h with ⟨rfl, -⟩ | ⟨rfl, -⟩ <;> rfl

theorem Armed.unfolds (h : Armed id b s t) : Unfolds own s t := by
  cases b with
  | true => exact h ▸ .refl
  | false =>
    rcases h with ⟨rfl, -⟩ | ⟨rfl, -, x, hx⟩
    · exact .refl
    · exact .one (.arm hx)

/-- The timer of a job that is the last one to wait is set behind all others. -/
theorem Synced.arms (hs : s.Synced) (hf : Fit s) (he : s.queue.settings.expires = true) (hset : t.queue.settings = s.queue.settings)
    (hw : t.queue.waiting = s.queue.waiting ++ [s.queue.nextId]) (ht : t.loop.timers = s.loop.timers) :
    (t.arming s.queue.nextId).Synced := by
  have hsame : t.expiries = s.queue.waiting := by
    rw [expiries, ht]
    exact hs.trans (if_pos he)
  have hnew : ∀ i ∈ s.queue.waiting, i ≠ s.queue.nextId := fun i hi => Nat.ne_of_lt (hf.waiting_lt hi)
  change expiring ((t.loop.disarm _).arm _ _).timers = if t.queue.settings.expires then t.queue.waiting else []
  rw [expiring_arm, expiring_disarm, hset, he, hw]
  change t.expiries.filter _ ++ _ = _
  rw [hsame, List.filter_eq_self.mpr fun i hi => by simpa using (hnew i hi).symm]
  rfl

/-- A job is handed in: all are told that it waits, and its timer is set. -/
theorem Syncs.admits (hf : Fit s) {submission : Submission} {progress : Progress}
    (h : syncing .queued s.queue.nextId b (s.admitting submission progress) t) (hset : t.queue.settings = s.queue.settings)
    (hu : Armed s.queue.nextId b t u) : Syncs s u := by
  intro hp hs
  rw [hu.queue] at hp
  cases he : s.queue.settings.expires with
  | true =>
    obtain ⟨hquiet, hspares, x, hx⟩ := hp (hset ▸ he)
    -- Nobody breaks off, and the timeout can be told, so the timer is set in any case.
    have hspread := h.2 hquiet
    cases hspread.whole hspares
    rcases hu with ⟨-, hno⟩ | ⟨rfl, -⟩
    · exact absurd hx (hno (hset ▸ he) x)
    · exact hs.arms hf he hset hspread.hushed.waiting hspread.timers
  | false =>
    have hnone : t.queue.settings.expires = false := hset ▸ he
    have hadmitted : (s.admitting submission progress).Synced := by
      rw [Synced, he] at hs
      change s.expiries = if s.queue.settings.expires then _ else []
      rw [he]
      exact hs
    have ht : t.Synced := h.1 hp hadmitted
    cases b with
    | true => exact hu ▸ ht
    | false =>
      rcases hu with ⟨rfl, -⟩ | ⟨-, hexpires, -⟩
      · exact ht
      · rw [hnone] at hexpires
        cases hexpires

/-! ## What scripts do -/

instance (own : Option JobId) : Traces (Syncing own) where
  fit h := h.1.fit
  active h := h.1.active
  refl := ⟨.refl, (Bides.refl _).syncs⟩
  touch h := ⟨.inert h.inert, (Bides.touch h).syncs⟩
  signal hf hid := ⟨.one (.signal hid (signalling_signals hf _ _)), (Bides.signalling hf _ _).syncs⟩
  halt := ⟨.refl, (Bides.refl _).syncs⟩
  trans := Syncing.trans

theorem Syncing.of_bides (hu : Unfolds own s t) (h : Bides s t) : Syncing own b s t := ⟨hu, h.syncs⟩

theorem Syncing.told {kind : EventKind} (h : Along syncing kind id b s t) : Syncing own b s t := ⟨h.1.within, h.2.1⟩

instance (own : Option JobId) : Sweeps (Along syncing) (Syncing own) where
  ask {b s t u id j} hf hid hj hst hst' h hu := by
    have hshow : Syncing own false s (s.showing id .cancelling) := .of_bides (showing_unfolds hid hj hst hst') (.showing s id _)
    have htold : Syncing own b s t := hshow.trans (.told h)
    exact htold.trans (.of_bides (hu.unfolds (htold.1.fit hf) (htold.1.active hid)) (.halted (htold.1.fit hf) hu))
  leave {b s t u id j} hf hid hj h hu := by
    have hleave : Syncing own false s (s.leaving id (some cancelAllMessage) (s.loop.disarm (.expire id))) :=
      ⟨leaving_unfolds hid hj (.inr rfl) _, .leaving hf id _⟩
    exact (hleave.trans (.told h)).trans (.of_bides hu.unfolds (.closes hu))
  unpark := .of_bides (.inert (unparking_inert _)) (.unparking _)

instance (own : Option JobId) : Begins (Along syncing) (Syncing own) where
  start {b s t u id q} hf hq h hu := by
    have htake : Syncing own false s (s.taking id q) := ⟨.one (.take hq), .taking hf hq⟩
    exact (htake.trans (.told h)).trans (.of_bides (hu.unfolds (Unfolds.active h.1 (mem_taking hq))) (.spawned hu))

section Operations
variable {notify : Notify}

theorem Syncing.refusing (s : Scheduler) (submission : Submission) : Syncing own b s (s.refusing submission) :=
  .of_bides (.inert ((Inert.refuse _).trans (.noted rfl rfl))) ⟨rfl, rfl, rfl⟩

theorem enqueue_syncs (hn : Tells (Along syncing) notify) (submission : Submission) :
    Leads (Syncing own) s (enqueue notify true submission) := by
  cases hd : submission.defect with
  | some part => exact Leads.unchanged (enqueue_defect hd) rfl
  | none =>
    cases hfull : s.queue.isFull with
    | true => exact Leads.of_on (enqueue_full hd hfull) fun _ => .refusing s submission
    | false =>
      cases hp : Job.Progress.start submission.estimate with
      | error e => exact Leads.of_on (enqueue_estimate hd hfull hp) fun _ => Traces.touch .draw
      | ok progress =>
        have hadmits : (enqueue notify true submission).on s = ((do
            notify .queued s.queue.nextId
            armExpiry s.queue.nextId : Act Unit) >>= fun _ => do
              startWaiting notify
              return s.queue.nextId).on (s.admitting submission progress) := by
          rw [enqueue_admits hd hfull hp, afterAdmission, bind_assoc]
        -- The job waits before its timer is set, so the two are told as one.
        refine Leads.joint hadmits (fun hf => ?_) fun _ _ => Leads.bind (startWaiting_told hn) fun _ _ _ _ => Leads.pure _
        have hleads := hn.leads .queued s.queue.nextId _ (hf.admitting submission progress)
        have henter : Unfolds none s (s.admitting submission progress) := admitting_unfolds submission progress hfull
        rcases hr : (notify .queued s.queue.nextId).on (s.admitting submission progress) with ⟨e | ⟨⟩, t⟩ <;> rw [hr] at hleads
        · have hrow : Unfolds none s t := henter.trans hleads.1
          cases hn.fault _ _ _ _ _ hr
          exact ⟨_, t, Act.on_bind_error hr, hrow.within, .admits hf hleads.2 hrow.continues.settings rfl⟩
        · have hrow : Unfolds none s t := henter.trans hleads.1
          obtain ⟨r, u, hu, hb, harmed⟩ := armExpiry_armed (s := t) s.queue.nextId
          exact ⟨r, u, (Act.on_bind_ok hr).trans hu, hrow.within.trans harmed.unfolds,
            .admits hf hleads.2 hrow.continues.settings harmed⟩

theorem enqueue_outside_syncs (submission : Submission) : Leads (Syncing own) s (enqueue notify false submission) := by
  cases hd : submission.defect with
  | some part => exact Leads.unchanged (enqueue_defect hd) rfl
  | none =>
    cases hfull : s.queue.isFull with
    | true => exact Leads.of_on (enqueue_full hd hfull) fun _ => .refusing s submission
    | false => exact Leads.unchanged (enqueue_outside hd hfull) rfl

theorem syncing_serves (hn : Tells (Along syncing) notify) : Serves (Syncing own) notify where
  enqueue submission _ := enqueue_syncs hn submission
  cancelAll _ := cancelAll_told hn

end Operations

theorem syncing_served : Served fun _ s t => Syncs s t where
  traces := inferInstanceAs (Traces (Syncing none))
  hear event index := (Bides.informed _ event index).syncs
  breakOff {s t} event _ h hp hs := by
    have hbreak : Unfolds none t (t.mapQueue (·.breakOff event)) := .one (.breakOff event)
    exact (Bides.breakOff t event).synced (h (hbreak.punctual hp) hs)
  serves n hn := syncing_serves (hn.both (notifyUpTo_softly n))

/-- However deep listeners may act, timers are kept. -/
theorem notifyUpTo_syncing (n : Nat) : Tells (Along syncing) (notifyUpTo n) :=
  (syncing_served.tells n).both (notifyUpTo_softly n)

/-! ## Turns -/

theorem Bides.pausing (s : Scheduler) (task : TaskId) (id : JobId) (pause : Pause) (phase : Phase) :
    Bides s (s.pausing task id pause phase) := by
  cases pause with
  | turn | gate _ | token => exact ⟨rfl, rfl, rfl⟩
  | sleep milliseconds => exact ⟨rfl, rfl, (expiring_arm _ _ _).trans (List.append_nil _)⟩

section Turns
variable {notify : Notify}

theorem syncing_owns (hn : Tells (Along syncing) notify) (id : JobId) : Owns (Syncing (some id)) notify id where
  toServes := syncing_serves hn
  cools s ha hc := by
    have hcool : Syncing (some id) false s (s.showing id .coolingDown) := .of_bides (.one (.cool rfl ha hc)) (.showing s id _)
    exact Leads.step (Act.on_onQueue _) hcool fun hf => .told (hn.leads .status id _ hf)
  ends status path errorMessage message s ha := by
    refine Leads.fit_of fun hfit => ?_
    cases hj : s.queue.job? id with
    | none => exact Leads.unchanged (r := .ok ()) (by rw [finish, Act.on_queueNow_bind, hj]; rfl) rfl
    | some j =>
      cases hfin : j.finalized with
      | true => exact Leads.of_on (finish_again hj hfin _ _ _ _) fun _ => .of_bides (.inert (.noted rfl rfl)) ⟨rfl, rfl, rfl⟩
      | false =>
        obtain ⟨r, t, u, hr, ht, hu, -⟩ := finish_told hn hfit (fun hw => hfit.apart id ha (.inl hw)) hj hfin status path
          errorMessage message
        refine Leads.of_on hr fun _ => ?_
        have hend : Syncing (some id) false s (s.mapQueue (·.update id (·.ended s.loop.now status errorMessage message))) :=
          .of_bides (.one (.finish rfl ha hj hfin)) ⟨rfl, rfl, rfl⟩
        exact (hend.trans (.told ht)).trans (.of_bides hu.unfolds (.recorded hu))

/-- The slot of a job is given to those that wait. -/
theorem vacate_syncs (hn : Tells (Along syncing) notify) (hf : Fit s) (id : JobId) :
    Unfolds none (s.mapQueue (·.release id)) ((vacate notify id).on s).2 ∧ Syncs s ((vacate notify id).on s).2 := by
  have hfill : Leads (Syncing none) (s.mapQueue (·.release id)) (do
      startWaiting notify
      releaseParked) :=
    Leads.bind (startWaiting_told hn) fun _ _ _ _ =>
      Leads.of_on releaseParked_unparking fun _ => .of_bides (.inert (unparking_inert _)) (.unparking _)
  obtain ⟨hrow, hsyncs⟩ := hfill (hf.release id)
  have hrelease : Bides s (s.mapQueue (·.release id)) := ⟨rfl, rfl, rfl⟩
  exact ⟨hrow, fun hp hs => hsyncs hp (hrelease.synced hs)⟩

theorem runJob_syncs (hn : Tells (Along syncing) notify) (hf : Fit s) (ha : id ∈ s.queue.active) (task : TaskId)
    (phase : Phase) (killed : Bool) : Syncs s ((runJob notify task id phase killed).on s).2 := by
  cases hj : s.queue.job? id with
  | none =>
    rw [runJob, Act.on_queueNow_bind, hj]
    exact (Bides.refl s).syncs
  | some j =>
    have hplay := playJob_leads (syncing_owns hn id) (Queue.job?_id hj) ha phase killed hf
    have hran := runJob_ran notify task hj phase killed
    generalize (playJob notify j phase killed).on s = rt at hplay hran
    generalize ((runJob notify task id phase killed).on s).2 = u at hran
    have hretired : Syncing (some id) false s (rt.2.retire task) :=
      Syncing.trans hplay (.of_bides (.inert (retire_inert rt.2 task)) (.of_queue rfl rfl))
    -- What follows the turn is done in a queue in which a slot is free, so no row leads there from the one before.
    have vacated : ∀ {v : Scheduler}, Syncing (some id) false s v → Syncs s ((vacate notify id).on v).2 := fun {v} hv hp hs => by
      obtain ⟨hrow, hvacate⟩ := vacate_syncs hn (hv.1.fit hf) id
      have hpv : v.queue.Punctual := hrow.punctual (s := v.mapQueue (·.release id)) hp
      exact hvacate hp (hv.2 hpv hs)
    cases hran with
    | @waits pause phase t =>
      intro hp hs
      have hpause := Bides.pausing t task id pause phase
      obtain ⟨g, -, hi⟩ := pausing_inert t task id pause phase
      have hrow : Unfolds none { t with tasks := t.tasks.modify task g } (t.pausing task id pause phase) := .inert hi
      have hpt : t.queue.Punctual := hrow.punctual hp
      exact hpause.synced (hplay.2 hpt hs)
    | ended => exact vacated hretired
    | @stops fault t =>
      exact vacated (hretired.trans (absorb_leads (syncing_owns hn id) (hretired.1.active ha) fault (hretired.1.fit hf)))

theorem Bides.idling (s : Scheduler) (task : TaskId) (name : String) (parked killed : Bool) :
    Bides s (s.idling task name parked killed) := by
  rcases idling_cases s task name parked killed with ⟨-, h⟩ | ⟨-, -, h⟩ | ⟨-, -, -, h⟩ <;> rw [h] <;> exact ⟨rfl, rfl, rfl⟩

/-- A task that plays no job on. -/
theorem runTask_bides {task : TaskId} (h : s.playing? task = none) : Bides s ((runTask notify task).on s).2 := by
  unfold runTask
  rw [Act.on_get_bind]
  unfold playing? at h
  cases hx : s.tasks[task]? with
  | none => exact .refl s
  | some x =>
    obtain ⟨work, turn, killed⟩ := x
    rw [hx] at h
    dsimp only at h ⊢
    by_cases hover : turn = .over
    · rw [if_pos hover]
      exact .refl s
    · rw [if_neg hover] at h ⊢
      rw [Act.on_bind_ok (Act.on_onTask _ _)]
      have hheed : Bides s (s.heeding task) := ⟨rfl, rfl, rfl⟩
      refine hheed.trans ?_
      cases work with
      | waitIdle name parked => exact .idling (s.heeding task) task name parked killed
      | job id phase =>
        cases phase with
        | fresh =>
          cases killed with
          | true => exact ⟨rfl, rfl, rfl⟩
          | false => cases h
        | body | preview => cases h

theorem runTask_syncs (hn : Tells (Along syncing) notify) (hs : Settled s) (task : TaskId) : Syncs s ((runTask notify task).on s).2 := by
  cases h : s.playing? task with
  | none => exact (runTask_bides h).syncs
  | some playing =>
    obtain ⟨id, phase, killed⟩ := playing
    obtain ⟨hlives, -, hrun⟩ := playing_on notify h
    have hheed : Bides s (s.heeding task) := ⟨rfl, rfl, rfl⟩
    have hsettled := hs.inert (heeding_inert s task)
    rw [hrun]
    exact fun hp hs => runJob_syncs hn hsettled.fit (hsettled.working hlives).1.active task phase killed hp (hheed.synced hs)

theorem Bides.kills {task : TaskId} (h : Kills task s t) : Bides s t := by
  cases h with
  | ready => exact ⟨rfl, rfl, rfl⟩
  | @waiting x a =>
    have hwithdraw : Bides (s.doomed task) ((s.doomed task).withdrawn task a) := by
      cases a with
      | gate | token | idle => exact ⟨rfl, rfl, rfl⟩
      | timer => exact ⟨rfl, rfl, (expiring_disarm _ _).trans (List.filter_eq_self.mpr fun _ _ => rfl)⟩
    have hdoom : Bides s (s.doomed task) := ⟨rfl, rfl, rfl⟩
    exact hdoom.trans (hwithdraw.trans ⟨rfl, rfl, rfl⟩)

theorem Bidden.syncs (h : Bidden (Syncing none) s t) : Syncs s t := by
  cases h with
  | does h => exact h.2
  | kills h => exact (Bides.kills h).syncs
  | annotates | joins => exact Bides.syncs ⟨rfl, rfl, rfl⟩

end Turns

/-! ## Runs -/

/-- A timer fires, and the others are kept. -/
theorem fired_expiring {l l' : Loop TimerAction} {time : Nat} {action : TimerAction} (hn : (expiring l.timers).Nodup)
    (hfire : l.fire? time = some (action, l')) : expiring l'.timers = (expiring l.timers).diff action.expiring?.toList := by
  unfold Loop.fire? at hfire
  cases hbest : Loop.earliest l.timers with
  | none => rw [hbest] at hfire; cases hfire
  | some timer =>
    rw [hbest] at hfire
    dsimp only at hfire
    split at hfire <;> cases hfire
    exact expiring_erase hn (mem_of_earliest hbest)

/-- No job has two timers. -/
theorem Synced.once (h : s.Synced) (hf : Fit s) : s.expiries.Nodup := by
  rw [h]
  split
  · exact hf.once_waiting
  · exact List.nodup_nil

theorem Synced.fired (h : s.Synced) (hf : Fit s) {l : Loop TimerAction} {time : Nat} (hfire : s.loop.fire? time = some (.expire id, l)) :
    expiring l.timers = if s.queue.settings.expires then s.queue.waiting.erase id else [] := by
  rw [fired_expiring (h.once hf) hfire]
  change s.expiries.diff [id] = _
  rw [h, List.diff_cons, List.diff_nil]
  split <;> rfl

section Firing
variable {notify : Notify} {l : Loop TimerAction} {time : Nat}

theorem expire_syncs (hn : Tells (Along syncing) notify) (hf : Fit s) (ht : s.queue.settings.Timely)
    (hfire : s.loop.fire? time = some (.expire id, l)) : Syncs s ((expire notify id).on { s with loop := l }).2 := by
  intro hp hs
  have hleft := hs.fired hf hfire
  by_cases hid : id ∈ s.queue.waiting
  · obtain ⟨seconds, hseconds⟩ := ht
    obtain ⟨j, b, t, u, hj, htold, hclose, hlast⟩ := expire_closes hn hf hid hseconds l
    have hleave : (s.leaving id (some (expiryMessage seconds)) l).Synced := hleft
    have hlast : Bides u ((expire notify id).on { s with loop := l }).2 ∧ Inert u ((expire notify id).on { s with loop := l }).2 := by
      rcases hlast with hv | hv <;> rw [hv]
      · exact ⟨.refl u, .refl u⟩
      · exact ⟨.unparking u, unparking_inert u⟩
    have hrow : Unfolds none t ((expire notify id).on { s with loop := l }).2 := hclose.unfolds.tail (.inert hlast.2)
    exact hlast.1.synced ((Bides.closes hclose).synced (htold.2.1 (hrow.punctual hp) hleave))
  · rw [expire_idle (s := { s with loop := l }) hid]
    change expiring l.timers = if s.queue.settings.expires then s.queue.waiting else []
    rw [hleft, List.erase_of_not_mem hid]

end Firing

theorem Step.syncs (h : Step s t) (hs : Settled s) (ht : Timed s) : Syncs s t := by
  cases h with
  | obey supplied depth c hc =>
    exact (obey_bidden (syncing_serves (notifyUpTo_syncing depth)) enqueue_outside_syncs hs.fit supplied hc).syncs
  | @turn task l depth hnext =>
    have hsl : Settled { s with loop := l } := hs.inert (.next hnext)
    have hloop : Bides s { s with loop := l } := .of_queue rfl (next?_timers hnext)
    exact fun hp hsync => runTask_syncs (notifyUpTo_syncing depth) hsl task hp (hloop.synced hsync)
  | @fire action time l depth hfire =>
    cases action with
    | expire id =>
      obtain ⟨⟨timer, htimer, haction⟩, -⟩ := fire?_set hfire
      exact expire_syncs (notifyUpTo_syncing depth) hs.fit (ht id ⟨timer, htimer, haction⟩) hfire
    | wake task =>
      intro _ hsync
      have hkept : expiring l.timers = s.expiries := fired_expiring (hsync.once hs.fit) hfire
      have hwake : Bides s (rousing { s with loop := l } [task]) := ⟨rfl, rfl, hkept⟩
      exact hwake.synced hsync
  | moveTo time => exact Bides.syncs ⟨rfl, rfl, rfl⟩

/-- In every state of a run exactly those who wait have a timer that drops them, one each, if jobs expire, no listener calls
    back or breaks off to be told that a job waits, and the timeout can be told in seconds. If jobs do not expire, there are
    no such timers, whatever listeners do. -/
theorem Runs.synced {settings : Settings} {store : Store} {directory : String} {budget : Nat}
    (h : Runs (start settings store directory budget) s) (hp : s.queue.Punctual) : s.Synced := by
  induction h with
  | refl =>
    rw [Synced]
    split <;> rfl
  | tail h hstep ih =>
    obtain ⟨hs, ht, -⟩ := Runs.basics h
    obtain ⟨-, -, hm⟩ := hstep.sound hs ht
    exact hstep.syncs hs ht hp (ih (hp.before hm.continues.settings hm.listeners))

end Scheduler
end MediaEngine
