import MediaEngine.Proofs.Entries
import MediaEngine.Proofs.Filings

/-! # Jobs that waited too long

Two things end jobs that never started: that all are cancelled, and the timer of one that waits too long. Whatever
scripts do, it is the first one (`Sheds`); so in a run it is known of every job that has ended and never started whether its
timer dropped it (`Lapses`), and the message by which it ended tells (`Marked`). -/

namespace MediaEngine
open Job

namespace Job

/-- The job has ended and never started. -/
def Forgone (j : Job) : Prop := j.finalized = true ∧ j.startedAt = none

/-- The job ended as all that waited were cancelled. -/
def Swept (j : Job) : Prop := j.message = some Scheduler.cancelAllMessage ∧ j.errorMessage = none

/-- The job ended as it had waited too long. -/
def Overdue (j : Job) : Prop := (∃ seconds, j.message = some (Scheduler.expiryMessage seconds)) ∧ j.errorMessage = none

variable {j k : Job}

theorem Forgone.before (h : k.Forgone) (hl : Lasts j k) : j.Forgone := ⟨hl.finalized ▸ h.1, hl.startedAt ▸ h.2⟩

theorem Forgone.lasts (h : j.Forgone) (hl : Lasts j k) : k.Forgone := ⟨hl.finalized.trans h.1, hl.startedAt.trans h.2⟩

theorem Swept.lasts (h : j.Swept) (hl : Lasts j k) : k.Swept := ⟨hl.message.trans h.1, hl.errorMessage.trans h.2⟩

theorem Overdue.lasts (h : j.Overdue) (hl : Lasts j k) : k.Overdue := by
  obtain ⟨seconds, hm⟩ := h.1
  exact ⟨⟨seconds, hl.message.trans hm⟩, hl.errorMessage.trans h.2⟩

end Job

namespace Scheduler
variable {s t u : Scheduler} {id : JobId} {j k : Job} {own : Option JobId} {b : Bool} {task : TaskId} {phase : Phase}

/-! ## What scripts do -/

/-- A job that has ended and never started was so before, or it ended as all that waited were cancelled. -/
def Sheds (s t : Scheduler) : Prop :=
  ∀ id k, t.queue.job? id = some k → k.Forgone → (∃ j, s.queue.job? id = some j ∧ Lasts j k) ∨ k.Swept

namespace Sheds

theorem of_tuned (h : List.Forall₂ Tuned s.queue.jobs t.queue.jobs) : Sheds s t := by
  intro id k hk _
  have hrel := Queue.tuned_job? h id
  rw [hk] at hrel
  cases hj : s.queue.job? id with
  | none =>
    rw [hj] at hrel
    cases hrel
  | some j =>
    rw [hj] at hrel
    cases hrel with
    | some ht => exact .inl ⟨j, rfl, ht.toLasts⟩

theorem of_jobs (h : t.queue.jobs = s.queue.jobs) : Sheds s t := of_tuned (h ▸ Queue.tuned_refl _)

theorem inert (h : Inert s t) : Sheds s t := of_tuned h.jobs

theorem refl (s : Scheduler) : Sheds s s := of_jobs rfl

theorem trans (h₁ : Sheds s t) (h₂ : Sheds t u) : Sheds s u := by
  intro id l hl hgone
  rcases h₂ id l hl hgone with ⟨k, hk, hkl⟩ | hswept
  · rcases h₁ id k hk (hgone.before hkl) with ⟨j, hj, hjk⟩ | hswept
    · exact .inl ⟨j, hj, hjk.trans hkl⟩
    · exact .inr (hswept.lasts hkl)
  · exact .inr hswept

/-- One job changes. -/
theorem update {q : Queue} {f : Job → Job} (ht : t.queue = q.update id f) (hq : q.jobs = s.queue.jobs) (hf : ∀ j, (f j).id = j.id)
    (hgone : ∀ j, s.queue.job? id = some j → (f j).Forgone → Lasts j (f j) ∨ (f j).Swept) : Sheds s t := by
  intro i k hk hfk
  have hsame : ∀ i, q.job? i = s.queue.job? i := fun i => by rw [Queue.job?, hq, Queue.job?]
  rw [ht, Queue.job?_update hf, hsame] at hk
  split at hk
  · rename_i hi
    obtain ⟨j, hj, rfl⟩ := Option.map_eq_some_iff.mp hk
    rcases hgone j (hi ▸ hj) hfk with hl | hswept
    · exact .inl ⟨j, hj, hl⟩
    · exact .inr hswept
  · exact .inl ⟨k, hk, .refl k⟩

theorem showing (s : Scheduler) (id : JobId) (status : Job.Status) : Sheds s (s.showing id status) :=
  update rfl rfl (by intro; rfl) fun j _ _ => .inl { Lasts.refl j with }

/-- A job that is active has started. -/
theorem ending (ho : InOrder s) (hid : id ∈ s.queue.active) (now : Nat) (status : Job.Status) (errorMessage message : Option String) :
    Sheds s (s.mapQueue (·.update id (·.ended now status errorMessage message))) := by
  refine update rfl rfl (by intro; rfl) fun j hj hgone => ?_
  have hstarted := (ho.begun id j hj).mpr (ho.active id hid)
  rw [show j.startedAt = none from hgone.2] at hstarted
  cases hstarted

theorem taking {q : Queue} (hq : s.queue.startNext? = some (id, q)) : Sheds s (s.taking id q) := by
  obtain ⟨rest, e, -, he⟩ := taking_eq hq
  exact update he rfl (by intro; rfl) fun j _ hgone => by cases hgone.2

/-- Any job that waits leaves as all are cancelled. -/
theorem sweeping (s : Scheduler) (id : JobId) (l : Loop TimerAction) : Sheds s (s.leaving id (some cancelAllMessage) l) :=
  update rfl rfl (by intro; rfl) fun _ _ _ => .inr ⟨rfl, rfl⟩

theorem admitting (hf : Fit s) (submission : Submission) (progress : Progress) : Sheds s (s.admitting submission progress) := by
  intro i k hk hgone
  change (s.queue.draw.enlist (.admitted s.queue.nextId submission progress)).job? i = some k at hk
  rw [hf.job?_admitted submission progress] at hk
  split at hk
  · cases hk
    cases hgone.1
  · exact .inl ⟨k, hk, .refl k⟩

theorem recorded {path : Option String} (h : Recorded id path b s t) : Sheds s t := of_tuned h.stays.jobs

theorem closes (h : Closes id b s t) : Sheds s t := by
  cases b <;> cases h
  · exact of_tuned ((keep_stays s id none).trans (closing_inert s id).toStays).jobs
  · exact .refl s

theorem halted (hf : Fit s) (h : Halted id b s t) : Sheds s t := by
  cases b <;> cases h
  · exact of_tuned (signalling_signals hf id _).jobs
  · exact of_jobs rfl

theorem spawned (h : Spawned id b s t) : Sheds s t := by
  cases b <;> cases h <;> exact of_jobs rfl

end Sheds

/-- What happens in a row, jobs that wait being dropped only as all are cancelled. -/
abbrev Shedding (own : Option JobId) (_ : Bool) (s t : Scheduler) : Prop := Unfolds own s t ∧ (InOrder s → Sheds s t)

/-- Listeners are told, and jobs that wait are dropped only like that. -/
abbrev shedding : Telling := fun _ _ _ s t => InOrder s → Sheds s t

theorem Shedding.trans {c : Bool} (h₁ : Shedding own b s t) (h₂ : Shedding own c t u) : Shedding own c s u :=
  ⟨h₁.1.trans h₂.1, fun ho => (h₁.2 ho).trans (h₂.2 (ho.moments h₁.1.moments))⟩

instance (own : Option JobId) : Tracks (Shedding own) where
  fit h := h.1.fit
  active h := h.1.active
  inert h := ⟨.inert h, fun _ => .inert h⟩
  signal hid h := ⟨.one (.signal hid h), fun _ => .of_tuned h.jobs⟩
  halt := ⟨.refl, fun _ => .refl _⟩
  trans := Shedding.trans

instance (own : Option JobId) : Sweeps (Along shedding) (Shedding own) where
  ask {b s t u id j} hf hid hj hst hst' h hu := by
    have hshow : Unfolds none s (s.showing id .cancelling) := showing_unfolds hid hj hst hst'
    have htold : Shedding own b s t :=
      ⟨hshow.within.trans h.1.within, fun ho => (Sheds.showing s id .cancelling).trans (h.2 (ho.moments hshow.moments))⟩
    exact htold.trans ⟨hu.unfolds (htold.1.fit hf) (htold.1.active hid), fun ho => .halted ho.fit hu⟩
  leave {b s t u id j} _ hid hj h hu := by
    have hleave : Unfolds none s (s.leaving id (some cancelAllMessage) (s.loop.disarm (.expire id))) :=
      leaving_unfolds hid hj (.inr rfl) _
    have htold : Shedding own b s t :=
      ⟨hleave.within.trans h.1.within, fun ho => (Sheds.sweeping s id _).trans (h.2 (ho.moments hleave.moments))⟩
    exact htold.trans ⟨hu.unfolds, fun _ => .closes hu⟩
  unpark := Tracks.inert (unparking_inert _)

instance (own : Option JobId) : Enlists (Along shedding) (Shedding own) where
  refuse submission _ := Tracks.inert ((Inert.refuse _).trans (.noted rfl rfl))
  enter {b s t submission progress} hf hfull h :=
    have henter : Unfolds none s (s.admitting submission progress) := admitting_unfolds submission progress hfull
    ⟨henter.within.trans h.1.within, fun ho => (Sheds.admitting hf submission progress).trans (h.2 (ho.moments henter.moments))⟩
  arm hx := ⟨.one (.arm hx), fun _ => .of_jobs rfl⟩
  start {b s t u id q} _ hq h hu := by
    have htake : Unfolds none s (s.taking id q) := .one (.take hq)
    have hstart : Shedding own b s t :=
      ⟨htake.within.trans h.1.within, fun ho => (Sheds.taking hq).trans (h.2 (ho.moments htake.moments))⟩
    exact hstart.trans ⟨hu.unfolds (Unfolds.active h.1 (mem_taking hq)), fun _ => .spawned hu⟩

theorem shedding_serves {notify : Notify} (hn : Tells (Along shedding) notify) : Serves (Shedding own) notify where
  enqueue submission _ := enqueue_told hn submission
  cancelAll _ := cancelAll_told hn

theorem shedding_served : Served fun _ s t => InOrder s → Sheds s t where
  traces := inferInstanceAs (Traces (Shedding none))
  hear {s} event index _ := .of_jobs (congrArg Queue.jobs (informed_queue s event index))
  breakOff {s t} event _ h ho := by
    obtain ⟨ids, hq, -⟩ := t.queue.breakOff_eq event
    exact (h ho).trans (.of_jobs (by rw [mapQueue_queue, hq]))
  serves _ hn := shedding_serves hn

/-- However deep listeners may act, they do not drop jobs in another way. -/
theorem notifyUpTo_shedding (n : Nat) : Tells (Along shedding) (notifyUpTo n) := shedding_served.tells n

/-! ## Turns -/

section Turns
variable {notify : Notify}

theorem shedding_owns (hn : Tells (Along shedding) notify) : Owns (Shedding (some id)) notify id where
  toServes := shedding_serves hn
  cools s ha hc := by
    have hcool : Shedding (some id) false s (s.showing id .coolingDown) := ⟨.one (.cool rfl ha hc), fun _ => .showing s id .coolingDown⟩
    have htell : Leads (Shedding (some id)) (s.showing id .coolingDown) (notify .status id) := fun hf => by
      obtain ⟨hrow, hsheds⟩ := hn.leads .status id _ hf
      exact ⟨hrow.within, hsheds⟩
    exact Leads.step (Act.on_onQueue _) hcool htell
  ends status path errorMessage message s ha := by
    refine Leads.fit_of fun hfit => ?_
    cases hj : s.queue.job? id with
    | none => exact Leads.of_inert (r := .ok ()) (by rw [finish, Act.on_queueNow_bind, hj]; rfl) rfl (.refl s)
    | some j =>
      cases hfin : j.finalized with
      | true => exact Leads.of_inert (finish_again hj hfin _ _ _ _) rfl (.noted rfl rfl)
      | false =>
        obtain ⟨r, t, u, hr, ht, hu, -⟩ := finish_told hn hfit (fun hw => hfit.apart id ha (.inl hw)) hj hfin status path
          errorMessage message
        refine Leads.of_on hr fun _ => ?_
        have hend : Unfolds (some id) s (s.mapQueue (·.update id (·.ended s.loop.now status errorMessage message))) :=
          .one (.finish rfl ha hj hfin)
        have htold : Shedding (some id) (Broken r) s t :=
          ⟨hend.trans ht.1.within, fun ho => (Sheds.ending ho ha _ _ _ _).trans (ht.2 (ho.moments hend.moments))⟩
        exact htold.trans ⟨hu.unfolds, fun _ => .recorded hu⟩

/-- The slot of a job is given to those that wait. -/
theorem vacate_sheds (hn : Tells (Along shedding) notify) (ho : InOrder s) (id : JobId) : Sheds s ((vacate notify id).on s).2 := by
  have hfill : Leads (Shedding none) (s.mapQueue (·.release id)) (do
      startWaiting notify
      releaseParked) :=
    Leads.bind (startWaiting_told hn) fun _ _ _ _ =>
      Leads.of_on releaseParked_unparking fun _ => Tracks.inert (unparking_inert _)
  have hfree : InOrder (s.mapQueue (·.release id)) := ho.moment (.release id)
  exact (Sheds.of_jobs (t := s.mapQueue (·.release id)) rfl).trans ((hfill hfree.fit).2 hfree)

theorem runJob_sheds (hn : Tells (Along shedding) notify) (ho : InOrder s) (ha : id ∈ s.queue.active) (task : TaskId)
    (phase : Phase) (killed : Bool) : Sheds s ((runJob notify task id phase killed).on s).2 := by
  cases hj : s.queue.job? id with
  | none =>
    rw [runJob, Act.on_queueNow_bind, hj]
    exact .refl s
  | some j =>
    obtain ⟨hplay, hsheds⟩ := playJob_leads (shedding_owns hn) (Queue.job?_id hj) ha phase killed ho.fit
    have hran := runJob_ran notify task hj phase killed
    generalize (playJob notify j phase killed).on s = rt at hplay hsheds hran
    generalize ((runJob notify task id phase killed).on s).2 = u at hran
    have hretire : Sheds s (rt.2.retire task) := (hsheds ho).trans (.of_jobs rfl)
    have hretired : Unfolds (some id) s (rt.2.retire task) := hplay.tail (.inert (retire_inert rt.2 task))
    cases hran with
    | @waits pause phase t =>
      obtain ⟨g, -, hi⟩ := pausing_inert t task id pause phase
      exact (hsheds ho).trans (.of_tuned (s := t) hi.jobs)
    | ended => exact hretire.trans (vacate_sheds hn (ho.moments hretired.moments) id)
    | @stops fault t =>
      have ho' : InOrder (t.retire task) := ho.moments hretired.moments
      obtain ⟨habsorb, hend⟩ := absorb_leads (shedding_owns hn) (s := t.retire task) (hretired.active ha) fault ho'.fit
      exact (hretire.trans (hend ho')).trans (vacate_sheds hn (ho'.moments habsorb.moments) id)

theorem runTask_sheds (hn : Tells (Along shedding) notify) (hs : Settled s) (ho : InOrder s) (task : TaskId) :
    Sheds s ((runTask notify task).on s).2 := by
  cases h : s.playing? task with
  | none => exact .inert (runTask_idle hs.fit h)
  | some playing =>
    obtain ⟨id, phase, killed⟩ := playing
    obtain ⟨hlives, -, hrun⟩ := playing_on notify h
    have hheed := heeding_inert s task
    have hsettled := hs.inert hheed
    rw [hrun]
    exact (Sheds.inert hheed).trans
      (runJob_sheds hn (ho.moments (.inert hheed)) (hsettled.working hlives).1.active task phase killed)

theorem obey_sheds (hn : Tells (Along shedding) notify) (ho : InOrder s) (supplied : Option Store) {c : Command}
    (hc : c.isImmediate = true) : Sheds s ((obey supplied notify c).on s).2 := by
  have hobey : Leads (Shedding none) s (obey supplied notify c) := by
    cases c with
    | enqueue submission => exact Leads.bind (enqueue_told hn submission) fun _ _ _ _ => Leads.pure _
    | enqueueOutside submission =>
      exact Leads.bind (enqueue_outside_told (Along shedding) submission) fun _ _ _ _ => Leads.pure _
    | cancelAll => exact Leads.bind (cancelAll_told hn) fun _ _ _ _ => Leads.pure _
    | _ => exact obey_rest_leads supplied hc (fun _ => ⟨nofun, nofun⟩) nofun
  exact (hobey ho.fit).2 ho

/-! ## Timers -/

/-- The job whose timer fires while it waits ends as overdue; what follows drops others only as all are cancelled. -/
theorem expire_overdue (hn : Tells (Along shedding) notify) (ho : InOrder s) (ht : s.queue.settings.Timely)
    (hid : id ∈ s.queue.waiting) :
    (∃ k, ((expire notify id).on s).2.queue.job? id = some k ∧ k.Forgone ∧ k.Overdue) ∧
      ∀ i l, i ≠ id → ((expire notify id).on s).2.queue.job? i = some l → l.Forgone →
        (∃ j, s.queue.job? i = some j ∧ Lasts j l) ∨ l.Swept := by
  obtain ⟨seconds, hseconds⟩ := ht
  obtain ⟨j, b, t, u, hj, h, hu, hlast⟩ := expire_closes hn ho.fit hid hseconds s.loop
  have hleave : Unfolds none s (s.leaving id (some (expiryMessage seconds)) s.loop) := leaving_unfolds hid hj (.inl rfl) _
  have hclosed : Unfolds none (s.leaving id (some (expiryMessage seconds)) s.loop) u := h.1.trans hu.unfolds
  have hsheds : Sheds (s.leaving id (some (expiryMessage seconds)) s.loop) u :=
    (h.2 (ho.moments hleave.moments)).trans (.closes hu)
  have hlast : Inert u ((expire notify id).on s).2 := by
    rcases hlast with hv | hv <;> rw [show ((expire notify id).on s).2 = _ from hv]
    · exact .refl u
    · exact unparking_inert u
  generalize ((expire notify id).on s).2 = v at hlast
  -- Its own end is that of a job that is overdue; any other job that ends without having started is swept.
  constructor
  · have hended : (s.leaving id (some (expiryMessage seconds)) s.loop).queue.job? id =
        some (j.ended s.loop.now .canceled none (some (expiryMessage seconds))) :=
      Queue.job?_update_self (q := s.queue.withdraw id) (by intro; rfl) hj
    have hunstarted : j.startedAt = none := ho.waits_unstarted hid hj
    have hrow : Moments (s.leaving id (some (expiryMessage seconds)) s.loop) v := hclosed.moments.trans (Moments.inert hlast)
    obtain ⟨k, hk, hjk⟩ := hrow.ended_lasts (hleave.fit ho.fit) hended rfl
    have hgone : (j.ended s.loop.now .canceled none (some (expiryMessage seconds))).Forgone := ⟨rfl, hunstarted⟩
    have hdue : (j.ended s.loop.now .canceled none (some (expiryMessage seconds))).Overdue := ⟨⟨seconds, rfl⟩, rfl⟩
    exact ⟨k, hk, hgone.lasts hjk, hdue.lasts hjk⟩
  · intro i l hi hl hgone
    rcases (hsheds.trans (.inert hlast)) i l hl hgone with ⟨k, hk, hkl⟩ | hswept
    · refine .inl ⟨k, ?_, hkl⟩
      rw [← hk]
      exact (Queue.job?_update_ne (q := s.queue.withdraw id) (by intro; rfl) hi).symm
    · exact .inr hswept

end Turns

/-! ## Runs -/

/-- A run, and the jobs that were dropped in it by their timers, the latest one first. -/
inductive Lapses (s₀ : Scheduler) : Scheduler → List JobId → Prop
  | start : Lapses s₀ s₀ []
  | obey {s : Scheduler} {ids : List JobId} (supplied : Option Store) (depth : Nat) (c : Command) : Lapses s₀ s ids →
      c.isImmediate = true → Lapses s₀ ((obey supplied (notifyUpTo depth) c).on s).2 ids
  | turn {s : Scheduler} {ids : List JobId} {task : TaskId} {l : Loop TimerAction} (depth : Nat) : Lapses s₀ s ids →
      s.loop.next? = some (task, l) → Lapses s₀ ((runTask (notifyUpTo depth) task).on { s with loop := l }).2 ids
  | wake {s : Scheduler} {ids : List JobId} {task : TaskId} {time : Nat} {l : Loop TimerAction} (depth : Nat) : Lapses s₀ s ids →
      s.loop.fire? time = some (.wake task, l) →
      Lapses s₀ ((fire (notifyUpTo depth) (.wake task)).on { s with loop := l }).2 ids
  /-- The timer of a job fires, and drops it if it still waits. -/
  | expire {s : Scheduler} {ids : List JobId} {id : JobId} {time : Nat} {l : Loop TimerAction} (depth : Nat) : Lapses s₀ s ids →
      s.loop.fire? time = some (.expire id, l) →
      Lapses s₀ ((fire (notifyUpTo depth) (.expire id)).on { s with loop := l }).2 (if id ∈ s.queue.waiting then id :: ids else ids)
  | moveTo {s : Scheduler} {ids : List JobId} (time : Nat) : Lapses s₀ s ids →
      Lapses s₀ { s with loop := s.loop.moveTo time } ids

variable {s₀ : Scheduler} {ids : List JobId}

theorem Lapses.runs (h : Lapses s₀ s ids) : Runs s₀ s := by
  induction h with
  | start => exact .refl
  | obey supplied depth c _ hc ih => exact ih.tail (.obey supplied depth c hc)
  | turn depth _ hnext ih => exact ih.tail (.turn depth hnext)
  | wake depth _ hfire ih => exact ih.tail (.fire depth hfire)
  | expire depth _ hfire ih => exact ih.tail (.fire depth hfire)
  | moveTo time _ ih => exact ih.tail (.moveTo time)

/-- In every run it is known which jobs were dropped by their timers. -/
theorem Runs.lapses (h : Runs s₀ s) : ∃ ids, Lapses s₀ s ids := by
  induction h with
  | refl => exact ⟨[], .start⟩
  | tail _ hstep ih =>
    obtain ⟨ids, h⟩ := ih
    cases hstep with
    | obey supplied depth c hc => exact ⟨ids, .obey supplied depth c h hc⟩
    | turn depth hnext => exact ⟨ids, .turn depth h hnext⟩
    | @fire action time l depth hfire =>
      cases action with
      | wake task => exact ⟨ids, .wake depth h hfire⟩
      | expire id => exact ⟨_, .expire depth h hfire⟩
    | moveTo time => exact ⟨ids, .moveTo time h⟩

/-- The jobs of these entries that are among those, in the order of the entries. -/
def lapsedOf (ids : List JobId) (es : List Entry) : List String :=
  (es.map Entry.jobId).filter fun text => decide (text ∈ ids.map JobId.text)

/-- The jobs that were dropped by their timers are overdue, and all others that never started and have ended were swept
    away. The entries of the former stand in the order in which they were dropped. -/
structure Marked (ids : List JobId) (s : Scheduler) : Prop where
  overdue : ∀ id ∈ ids, ∃ k, s.queue.job? id = some k ∧ k.Forgone ∧ k.Overdue
  swept : ∀ id k, s.queue.job? id = some k → k.Forgone → id ∉ ids → k.Swept
  nodup : ids.Nodup
  entries : (lapsedOf ids s.queue.recorded.reverse).Sublist (ids.map JobId.text)

theorem lapsedOf_append (ids : List JobId) (es fs : List Entry) : lapsedOf ids (es ++ fs) = lapsedOf ids es ++ lapsedOf ids fs := by
  rw [lapsedOf, List.map_append, List.filter_append]
  rfl

theorem mem_lapsedOf {es : List Entry} {text : String} :
    text ∈ lapsedOf ids es ↔ (∃ e ∈ es, e.jobId = text) ∧ ∃ id ∈ ids, id.text = text := by
  simp only [lapsedOf, List.mem_filter, List.mem_map, decide_eq_true_iff]

/-- A job that has ended and never started has no entry but those that it had. -/
theorem unfiled_of_forgone (ho : InOrder s) (hp : Passes s t) {es : List Entry} (hes : t.queue.recorded = s.queue.recorded ++ es)
    (hk : s.queue.job? id = some k) (hgone : k.Forgone) : ∀ e ∈ es, e.jobId ≠ id.text := by
  have hpast : ¬ s.Upcoming id := fun hu => by
    have hopen := (ho.fit.waiting_of_upcoming hu hk).2
    rw [hgone.1] at hopen
    cases hopen
  have hidle : id ∉ s.queue.active := fun ha => by
    have hstarted := (ho.begun id k hk).mpr (ho.active id ha)
    rw [hgone.2] at hstarted
    cases hstarted
  have hentries := (hp.rest id hpast hidle).entries
  rw [entriesOf, hes, List.filter_append, entriesOf, List.append_right_eq_self, List.filter_eq_nil_iff] at hentries
  intro e he htext
  exact hentries e he (beq_iff_eq.mpr htext)

namespace Marked

/-- No entry of a job dropped before is made. -/
theorem lapsedOf_made (h : Marked ids s) (ho : InOrder s) (hp : Passes s t) {es : List Entry}
    (hes : t.queue.recorded = s.queue.recorded ++ es) : lapsedOf ids es = [] := by
  refine List.eq_nil_iff_forall_not_mem.mpr fun text hm => ?_
  obtain ⟨⟨e, he, htext⟩, id, hid, rfl⟩ := mem_lapsedOf.mp hm
  obtain ⟨k, hk, hgone, -⟩ := h.overdue id hid
  exact unfiled_of_forgone ho hp hes hk hgone e he htext

theorem kept (h : Marked ids s) (ho : InOrder s) (hm : Moments s t) :
    ∀ id ∈ ids, ∃ k, t.queue.job? id = some k ∧ k.Forgone ∧ k.Overdue := by
  intro id hid
  obtain ⟨j, hj, hgone, hdue⟩ := h.overdue id hid
  obtain ⟨k, hk, hjk⟩ := hm.ended_lasts ho.fit hj hgone.1
  exact ⟨k, hk, hgone.lasts hjk, hdue.lasts hjk⟩

theorem next (h : Marked ids s) (ho : InOrder s) (hp : Passes s t) (hm : Moments s t) (hsheds : Sheds s t) : Marked ids t where
  overdue := h.kept ho hm
  swept id k hk hgone hid := by
    rcases hsheds id k hk hgone with ⟨j, hj, hjk⟩ | hswept
    · exact (h.swept id j hj (hgone.before hjk) hid).lasts hjk
    · exact hswept
  nodup := h.nodup
  entries := by
    obtain ⟨es, hes, -⟩ := hp.continues.handed
    rw [hes, List.reverse_append, lapsedOf_append, lapsedOf, List.map_reverse, List.filter_reverse]
    change ((lapsedOf ids es).reverse ++ _).Sublist _
    rw [h.lapsedOf_made ho hp hes]
    exact h.entries

/-- A job that waits is dropped by its timer. -/
theorem lapse (h : Marked ids s) (hs : Settled s) (ho : InOrder s) (hp : Passes s t) (hm : Moments s t) (hid : id ∈ s.queue.waiting)
    (hdue : ∃ k, t.queue.job? id = some k ∧ k.Forgone ∧ k.Overdue)
    (hothers : ∀ i l, i ≠ id → t.queue.job? i = some l → l.Forgone → (∃ j, s.queue.job? i = some j ∧ Lasts j l) ∨ l.Swept) :
    Marked (id :: ids) t where
  overdue i hi := by
    rcases List.mem_cons.mp hi with rfl | hi
    · exact hdue
    · exact h.kept ho hm i hi
  swept i l hl hgone hi := by
    obtain ⟨hne, hi⟩ := not_or.mp (fun hor => hi (List.mem_cons.mpr hor))
    rcases hothers i l hne hl hgone with ⟨j, hj, hjl⟩ | hswept
    · exact (h.swept i j hj (hgone.before hjl) hi).lasts hjl
    · exact hswept
  nodup := by
    refine List.nodup_cons.mpr ⟨fun hi => ?_, h.nodup⟩
    obtain ⟨k, hk, hgone, -⟩ := h.overdue id hi
    have hopen := (ho.fit.waiting_of_upcoming (.inl hid) hk).2
    rw [hgone.1] at hopen
    cases hopen
  entries := by
    obtain ⟨es, hes, -⟩ := hp.continues.handed
    -- The job has no entry so far, and at most one is made.
    have hnew : ∀ e ∈ s.queue.recorded, e.jobId ≠ id.text := fun e he htext => by
      obtain ⟨j, hj, hjid, hfin, -⟩ := hs.entry he
      have hjob : s.queue.job? id = some j := JobId.text_inj (hjid.symm.trans htext) ▸ Queue.job?_of_mem hs.fit.nodup hj
      have hopen := (ho.fit.waiting_of_upcoming (.inl hid) hjob).2
      rw [hfin] at hopen
      cases hopen
    have hold : lapsedOf (id :: ids) s.queue.recorded.reverse = lapsedOf ids s.queue.recorded.reverse := by
      refine List.filter_congr fun text htext => decide_eq_decide.mpr ?_
      obtain ⟨e, he, rfl⟩ := List.mem_map.mp htext
      rw [List.map_cons, List.mem_cons]
      exact or_iff_right (hnew e (List.mem_reverse.mp he))
    have hmade : (lapsedOf (id :: ids) es.reverse).Sublist [id.text] := by
      have hnodup : (lapsedOf (id :: ids) es.reverse).Nodup := by
        have hall := hp.settled.entries_nodup
        rw [hes, List.map_append] at hall
        rw [lapsedOf, List.map_reverse]
        exact (List.nodup_reverse.mpr (List.nodup_append.mp hall).2.1).filter _
      have honly : ∀ text ∈ lapsedOf (id :: ids) es.reverse, text = id.text := fun text hm => by
        obtain ⟨⟨e, he, rfl⟩, i, hi, htext⟩ := mem_lapsedOf.mp hm
        rcases List.mem_cons.mp hi with rfl | hi
        · exact htext.symm
        · obtain ⟨k, hk, hgone, -⟩ := h.overdue i hi
          exact absurd htext.symm (unfiled_of_forgone ho hp hes hk hgone e (List.mem_reverse.mp he))
      match hl : lapsedOf (id :: ids) es.reverse with
      | [] => exact List.nil_sublist _
      | [text] =>
        rw [hl] at honly
        rw [honly text (List.mem_singleton_self text)]
      | text :: text' :: rest =>
        rw [hl] at hnodup honly
        have hne := (List.nodup_cons.mp hnodup).1
        rw [honly text List.mem_cons_self, ← honly text' (List.mem_cons_of_mem _ List.mem_cons_self)] at hne
        exact absurd List.mem_cons_self hne
    rw [hes, List.reverse_append, lapsedOf_append, hold, List.map_cons]
    exact hmade.append h.entries

end Marked

theorem start_marked (settings : Settings) (store : Store) (directory : String) (budget : Nat) :
    Marked [] (start settings store directory budget) where
  overdue _ h := by cases h
  swept _ _ h := by cases h
  nodup := .nil
  entries := List.nil_sublist _

theorem marked_of_lapses {settings : Settings} {store : Store} {directory : String} {budget : Nat}
    (h : Lapses (start settings store directory budget) s ids) : Marked ids s := by
  have basics : ∀ {s ids}, Lapses (start settings store directory budget) s ids → Settled s ∧ Timed s ∧ InOrder s := fun h => by
    obtain ⟨hs, ht, -⟩ := h.runs.basics
    exact ⟨hs, ht, h.runs.inOrder⟩
  -- In every step but the one in which its timer fires, whoever ends without having started was swept.
  have next : ∀ {s t ids}, Lapses (start settings store directory budget) s ids → Marked ids s → Step s t → Sheds s t → Marked ids t :=
    fun h ih hstep hsheds => by
      obtain ⟨hs, ht, ho⟩ := basics h
      exact ih.next ho ((Runs.reaches (.single hstep)).passes hs) (hstep.sound hs ht).2.2 hsheds
  induction h with
  | start => exact start_marked settings store directory budget
  | obey supplied depth c h hc ih =>
    exact next h ih (.obey supplied depth c hc) (obey_sheds (notifyUpTo_shedding depth) (basics h).2.2 supplied hc)
  | @turn s ids task l depth h hnext ih =>
    obtain ⟨hs, -, ho⟩ := basics h
    have hl : Inert s { s with loop := l } := .next hnext
    have hturn := runTask_sheds (notifyUpTo_shedding depth) (hs.inert hl) (ho.moments (.inert hl)) task
    exact next h ih (.turn depth hnext) ((Sheds.inert hl).trans hturn)
  | @wake s ids task time l depth h hfire ih =>
    exact next h ih (.fire depth hfire) (.inert ((Inert.fired hfire).trans (.wake [task])))
  | @expire s ids id time l depth h hfire ih =>
    obtain ⟨hs, ht, ho⟩ := basics h
    obtain ⟨⟨timer, htimer, haction⟩, -⟩ := fire?_set hfire
    have hl : Inert s { s with loop := l } := .fired hfire
    have ho' : InOrder { s with loop := l } := ho.moments (.inert hl)
    by_cases hid : id ∈ s.queue.waiting
    · rw [if_pos hid]
      obtain ⟨hdue, hothers⟩ := expire_overdue (notifyUpTo_shedding depth) ho' (ht id ⟨timer, htimer, haction⟩) hid
      have hstep : Step s ((fire (notifyUpTo depth) (.expire id)).on { s with loop := l }).2 := .fire depth hfire
      exact ih.lapse hs ho ((Runs.reaches (.single hstep)).passes hs) (hstep.sound hs ht).2.2 hid hdue hothers
    · rw [if_neg hid]
      have hidle : ((fire (notifyUpTo depth) (.expire id)).on { s with loop := l }).2 = { s with loop := l } := by
        change ((expire (notifyUpTo depth) id).on { s with loop := l }).2 = _
        rw [expire_idle (s := { s with loop := l }) hid]
      exact next h ih (.fire depth hfire) (by rw [hidle]; exact .inert hl)
  | moveTo time h ih => exact next h ih (.moveTo time) (.of_jobs rfl)

end Scheduler
end MediaEngine
