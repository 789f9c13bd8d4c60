import MediaEngine.Proofs.Turns

/-! # What a turn leaves behind

However the turn of a job ends, its number is placed afterwards and all others have gone onward
(`Turned`). In between the job is `Leaving`: it has ended and still takes up its slot. -/

namespace MediaEngine.Scheduler
open Job

variable {s t u : Scheduler} {id i : JobId} {b : Bool} {j : Job} {task : TaskId}

/-- What a turn of a job leaves behind. -/
structure Turned (id : JobId) (s t : Scheduler) : Prop where
  fit : Fit t
  fresh : Fresh t
  past : ¬ t.Upcoming id
  placed : t.Placed id
  others : ∀ i, i ≠ id → Onward none true s t i
  continues : Queue.Continues s.queue t.queue

theorem Turned.settled (h : Turned id s t) (hs : Settled s) : Settled t := by
  refine ⟨h.fit, fun i => ?_⟩
  by_cases hi : i = id
  · subst hi
    exact h.placed
  · by_cases hu : s.Upcoming i
    · exact (h.others i hi).placed hu
    · exact (hs.placed i).frame hu ((h.others i hi).frame hu) nothing_told

theorem Turned.evolves (h : Turned id s t) (he : Evolves none b t u) : Turned id s u := by
  have hon := he.onward h.fit h.fresh Past.none
  have hfit := h.fit.evolves he
  have hf := (hon id).frame h.past
  exact ⟨hfit, Onward.fresh hon hfit, hf.past, h.placed.frame h.past hf nothing_told,
    fun i hi => (h.others i hi).next Past.none (hon i).weaken, h.continues.trans he.continues⟩

/-! ## Ending -/

/-- The job has ended and is still active. -/
structure Leaving (s : Scheduler) (id : JobId) : Prop where
  fit : Fit s
  fresh : Fresh s
  past : ¬ s.Upcoming id
  job : ∃ k, s.queue.job? id = some k ∧ k.finalized = true ∧ s.Closed id k

theorem Working.ends {status : Job.Status} {path errorMessage message : Option String} (hw : Working s id)
    (hterm : status.isTerminal = true) (hc : s.queue.isCancelled id = true → status = .canceled)
    (h : Ends id status path errorMessage message b s u) : Leaving u id ∧ Beside id s u := by
  obtain ⟨j, now, t, hj, -, hin, hk⟩ := h
  obtain ⟨j', hj', -, hr, hn, hq, hl⟩ := hw.job
  cases hj.symm.trans hj'
  have hsame : ∀ k, k ≠ id → Same s (s.mapQueue (·.update id (·.ended now status errorMessage message))) k :=
    fun k hk => same_update (by intro; rfl) s.loop hk
  have hfit₁ : Fit (s.mapQueue (·.update id (·.ended now status errorMessage message))) :=
    hw.fit.update (by intro; rfl) (fun h => hw.past (.inl h)) s.loop
  have hjid : j.id = id := Queue.job?_id hj
  have hon := hin.onward hfit₁ (fresh_open hw.fresh hw.past hsame) (Past.some (hjid ▸ hw.past))
  have hfit := hfit₁.evolves hin
  have hf := (hon id).frame hw.past
  obtain ⟨k, ht⟩ := ended_told hf hk hterm (Queue.job?_update_self (by intro; rfl) hj) hr ⟨hn.told, hn.brokenOff⟩
    fun ha => hc (by
      rw [Queue.isCancelled, hj]
      exact hq ha)
  have hothers : ∀ i, i ≠ id → Onward none b s u i := fun i hi =>
    bracket_onward Past.none hw.fresh (hsame i hi) (hon i)
      (kept_onward hk hfit (Onward.fresh hon hfit) hf.past hi Past.none) fun _ h he => by
        cases h
        exact hi (he.symm.trans hjid)
  have hfit' := hfit.stays hk.stays
  have hended : Queue.Continues s.queue (s.queue.update id (·.ended now status errorMessage message)) :=
    .of_knows (Queue.Knows.update _ _ (by intro; rfl) (by intro; rfl)) rfl rfl rfl
  exact ⟨⟨hfit', fresh_beside (fun i hi => (hothers i hi).weaken) hfit' ht.past, ht.past, k, ht.job, ht.finalized, ht.closed⟩,
    fun i hi => (hothers i hi).weaken, ht.lives, hended.trans (hin.continues.trans hk.stays.continues)⟩

theorem Working.finishes (hw : Working s id) (h : Finishes id b s u) : Leaving u id ∧ Beside id s u := by
  obtain ⟨t, status, path, errorMessage, message, hp, hterm, hc, he⟩ := h
  obtain ⟨hw₁, h₁⟩ := hw.plays hp
  obtain ⟨hl, h₂⟩ := hw₁.ends hterm hc he
  exact ⟨hl, h₁.trans h₂⟩

theorem Leaving.steady (h : Leaving s id) (hs : Steady s t) : Leaving t id ∧ Beside id s t := by
  have hon : ∀ i, Onward none true s t i := hs.onward h.fit h.fresh
  have hf := (hon id).frame h.past
  obtain ⟨k, hk, hfin, hc⟩ := h.job
  obtain ⟨l, hl, ht⟩ := Queue.tuned_job?_some hs.jobs hk
  have hfit := h.fit.stays hs.toStays
  have hsame : Same s t id := hs.same fun hu => absurd hu h.past
  exact ⟨⟨hfit, Onward.fresh hon hfit, hf.past, l, hl, ht.finalized.trans hfin, hc.same hsame ht.status⟩,
    fun i _ => hon i, hf.lives, hs.continues⟩

/-- Once its slot is free and its task is over, a job that has ended is gone. -/
theorem Leaving.release (h : Leaving s id) (hl : ∀ i, ¬ s.Lives i id) : Turned id s (s.mapQueue (·.release id)) := by
  obtain ⟨k, hk, hfin, hc⟩ := h.job
  have hsame : ∀ i, i ≠ id → Same s (s.mapQueue (·.release id)) i := fun i hi =>
    { Same.refl s i with active := List.mem_erase_of_ne hi }
  refine ⟨h.fit.release id, fresh_open h.fresh h.past hsame, h.past, ?_, fun i hi => .of_same (hsame i hi) h.fresh, ?_⟩
  · refine .gone k h.past h.fit.once_active.not_mem_erase hk hfin hl ?_
    cases hc with
    | lost hb hr => exact .lost hb hr
    | filed e hb hr he hv hf => exact .filed e hb hr he hv hf
  · exact .of_knows (fun _ j hj => ⟨j, hj, rfl⟩) rfl rfl rfl

/-! ## Waiting -/

theorem lives_retask {g : Task → Task} (hg : ∀ x, (g x).work.owner? = some id) {k : JobId}
    (h : Lives { s with tasks := s.tasks.modify task g } i k) : s.Lives i k ∨ (i = task ∧ k = id) := by
  obtain ⟨x, hx, ho, hl⟩ := h
  change (s.tasks.modify task g)[i]? = some x at hx
  by_cases hi : task = i
  · subst hi
    rw [List.getElem?_modify_eq] at hx
    obtain ⟨y, -, rfl⟩ := Option.map_eq_some_iff.mp hx
    exact .inr ⟨rfl, Option.some.inj (ho.symm.trans (hg y))⟩
  · rw [List.getElem?_modify_ne _ _ hi] at hx
    exact .inl ⟨x, hx, ho, hl⟩

theorem phase_retask {phase : Phase} {g : Task → Task} (hg : ∀ x, (g x).work = .job id phase)
    (h : Lives { s with tasks := s.tasks.modify task g } task id) :
    Scheduler.phase? { s with tasks := s.tasks.modify task g } task = some (id, phase) := by
  obtain ⟨y, hy, -⟩ := h
  rw [phase?, hy]
  change (s.tasks.modify task g)[task]? = some y at hy
  rw [List.getElem?_modify_eq] at hy
  obtain ⟨x, -, rfl⟩ := Option.map_eq_some_iff.mp hy
  change (g x).work.phase? = _
  rw [hg]
  rfl

/-- The task of a job that works may be changed as long as it stays the task of this job. -/
theorem Working.retask {g : Task → Task} (hw : Working s id) (hg : ∀ x, (g x).work.owner? = some id)
    (hown : ∀ i, s.Lives i id → i = task) :
    Turned id s { s with tasks := s.tasks.modify task g } := by
  obtain ⟨j, hj, ho, hr, hn, hq, -⟩ := hw.job
  have hsame : ∀ i, i ≠ id → Same s { s with tasks := s.tasks.modify task g } i := fun i hi =>
    { Same.refl s i with lives := fun k hk => (lives_retask hg hk).resolve_right fun h => hi h.2 }
  have hone : ∀ i, Lives { s with tasks := s.tasks.modify task g } i id → i = task := fun i hi => by
    rcases lives_retask hg hi with h | ⟨h, -⟩
    · exact hown i h
    · exact h
  refine ⟨hw.fit.stays (.of_queue rfl), fresh_open hw.fresh hw.past hsame, hw.past, ?_,
    fun i hi => .of_same (hsame i hi) hw.fresh, .refl _⟩
  exact .active j hw.active hj ho hr ⟨hn.told, hn.brokenOff⟩ hq fun i k hi hk =>
    (hone i hi).trans (hone k hk).symm

/-- Letting a task wait changes its turn, and what else it changes is inert. -/
theorem pauseTask_on (task : TaskId) (id : JobId) (pause : Pause) : ∃ g v, (∀ x : Task, (g x).work = x.work) ∧
    (pauseTask task id pause).on s = (.ok (), v) ∧ Inert { s with tasks := s.tasks.modify task g } v := by
  cases pause with
  | turn =>
    refine ⟨fun x => x, _, fun _ => rfl, rfl, ?_⟩
    have hid : s.tasks.modify task (fun x => x) = s.tasks := List.modify_id _ _
    rw [hid]
    exact .loop fun _ hm _ _ => hm
  | sleep milliseconds =>
    refine ⟨fun x => { x with turn := .waiting .timer }, _, fun _ => rfl, rfl, .loop fun timer hm i ha => ?_⟩
    rcases List.mem_append.mp hm with hm | hm
    · exact hm
    · rw [List.mem_singleton.mp hm] at ha
      cases ha
  | gate name =>
    exact ⟨fun x => { x with turn := .waiting (.gate name) }, _, fun _ => rfl, rfl, .loop fun _ hm _ _ => hm⟩
  | token =>
    refine ⟨fun x => { x with turn := .waiting (.token id) }, _, fun _ => rfl, rfl, .update (fun j => ?_) fun _ => rfl⟩
    exact { Tuned.refl j with signalled := fun h => h, reason := fun _ => rfl }

/-- The scheduler once the task of a job waits, which has this phase left. -/
def pausing (s : Scheduler) (task : TaskId) (id : JobId) (pause : Pause) (phase : Phase) : Scheduler :=
  ((pauseTask task id pause).on { s with tasks := s.tasks.modify task fun x => { x with work := .job id phase } }).2

/-- Letting the task of a job wait changes this task, and what else it changes is inert. -/
theorem pausing_inert (s : Scheduler) (task : TaskId) (id : JobId) (pause : Pause) (phase : Phase) :
    ∃ g, (∀ x : Task, (g x).work = .job id phase) ∧
      Inert { s with tasks := s.tasks.modify task g } (s.pausing task id pause phase) := by
  obtain ⟨g, v, hg, hv, hs⟩ := pauseTask_on (s := { s with tasks := s.tasks.modify task fun x => { x with work := .job id phase } })
    task id pause
  refine ⟨g ∘ fun x => { x with work := .job id phase }, fun x => hg { x with work := .job id phase }, ?_⟩
  unfold pausing
  rw [hv, ← List.modify_modify_eq]
  exact hs

/-! ## The turn of a job -/

section Turn
variable {notify : Notify}

theorem absorb_on (hn : Notifies Evolves notify) (hw : Working s id) (fault : Fault) :
    ∃ b, Finishes id b s ((absorb notify id fault).on s).2 := by
  obtain ⟨j, hj, ho, -⟩ := hw.job
  have hend : ∀ (status : Job.Status) (errorMessage : Option String), status.isTerminal = true →
      (s.queue.isCancelled id = true → status = .canceled) →
      ∃ b, Finishes id b s ((finish notify id status none errorMessage none).on s).2 := by
    intro status errorMessage hterm hc
    obtain ⟨r, u, hr, he⟩ := finish_ends hn hw.fit (fun h => hw.past (.inl h)) hj ho status none errorMessage none
    rw [hr]
    exact ⟨_, s, status, none, errorMessage, none, .evolves (.steady (.refl s)), hterm, hc, he⟩
  unfold absorb
  rw [Act.on_queueNow_bind]
  split
  · exact hend .canceled none rfl fun _ => rfl
  · rename_i hc
    exact hend .failed _ rfl fun h => absurd (by rw [h, Bool.or_true]) hc

/-- A job that has ended is not ended again by the fault that followed. -/
theorem absorb_touches (notify : Notify) (hk : s.queue.job? id = some j) (hfin : j.finalized = true) (fault : Fault) :
    Touches s ((absorb notify id fault).on s).2 := by
  unfold absorb
  rw [Act.on_queueNow_bind]
  split
  · rw [cancel, finish_again hk hfin]
    exact .single (.noted rfl)
  · rw [finish_again hk hfin]
    exact .single (.noted rfl)

/-- Jobs that wait take up the free slots, and those go on who wait for the queue to be idle. -/
theorem fillSlots_leads {R : Option Event → Bool → Scheduler → Scheduler → Prop} [Grows R] (hn : Notifies R notify) :
    Leads (R none) s (do
      startWaiting notify
      releaseParked) := by
  refine Leads.bind (startWaiting_leads hn) fun _ t _ _ => ?_
  obtain ⟨v, hv, hs⟩ := releaseParked_on (s := t)
  exact Leads.of_inert hv rfl hs

/-- The slot of a job that has ended goes to the next one. -/
theorem vacate_turned (hn : Notifies Evolves notify) (hl : Leaving s id) (hlives : ∀ i, ¬ s.Lives i id) :
    Turned id s ((vacate notify id).on s).2 := by
  have hr := hl.release hlives
  exact hr.evolves (fillSlots_leads hn hr.fit)

theorem Turned.after (hb : Beside id s t) (h : Turned id t u) : Turned id s u :=
  ⟨h.fit, h.fresh, h.past, h.placed, fun i hi => (hb.others i hi).next Past.none (h.others i hi),
    hb.continues.trans h.continues⟩

/-- The scheduler once a task is over. -/
def retire (s : Scheduler) (task : TaskId) : Scheduler :=
  { s with tasks := s.tasks.modify task fun t => { t with turn := .over } }

theorem retire_inert (s : Scheduler) (task : TaskId) : Inert s (s.retire task) :=
  .onTask (fun _ => rfl) (fun _ => rfl) fun _ h => absurd rfl h

/-- Once the task of a job is over, it has no other. -/
theorem not_lives_retire (hown : ∀ i, s.Lives i id → i = task) (i : TaskId) : ¬ (s.retire task).Lives i id := by
  intro h
  have hi := hown i ((retire_inert s task).lives i id h)
  subst hi
  obtain ⟨x, hx, -, hl⟩ := h
  change (s.tasks.modify i _)[i]? = some x at hx
  rw [List.getElem?_modify_eq] at hx
  obtain ⟨y, -, rfl⟩ := Option.map_eq_some_iff.mp hx
  exact hl rfl

/-- What the turn of a job leaves behind, by what playing it on came to: its task waits, or it is over and the slot is
    given to the next job. -/
inductive Ran (notify : Notify) (task : TaskId) (id : JobId) : Except Fault TurnEnd × Scheduler → Scheduler → Prop
  | waits {pause : Pause} {phase : Phase} {t : Scheduler} :
      Ran notify task id (.ok (.waiting pause phase), t) (t.pausing task id pause phase)
  | ended {t : Scheduler} : Ran notify task id (.ok .over, t) ((vacate notify id).on (t.retire task)).2
  | stops {fault : Fault} {t : Scheduler} : Ran notify task id (.error fault, t)
      ((vacate notify id).on ((absorb notify id fault).on (t.retire task)).2).2

theorem runJob_ran (notify : Notify) (task : TaskId) (hj : s.queue.job? id = some j) (phase : Phase) (killed : Bool) :
    Ran notify task id ((playJob notify j phase killed).on s) ((runJob notify task id phase killed).on s).2 := by
  unfold runJob
  rw [Act.on_queueNow_bind, hj]
  dsimp only
  rw [Act.on_outcome_bind]
  rcases (playJob notify j phase killed).on s with ⟨r, t⟩
  match r with
  | .ok (.waiting _ _) => exact .waits
  | .ok .over => exact .ended
  | .error fault => exact .stops

theorem runJob_turned (hn : Notifies Evolves notify) (hw : Working s id) (hown : ∀ i, s.Lives i id → i = task) (phase : Phase)
    (killed : Bool) : Turned id s ((runJob notify task id phase killed).on s).2 := by
  obtain ⟨j, hj, -⟩ := hw.job
  have hgoes := playJob_goes hn (Queue.job?_id hj) phase killed hw
  have hran := runJob_ran notify task hj phase killed
  generalize (playJob notify j phase killed).on s = rt at hgoes hran
  generalize ((runJob notify task id phase killed).on s).2 = u at hran
  -- The task waits on for its job, or the job ends, at the latest as the fault of its task is absorbed.
  cases hran with
  | @waits pause phase t =>
    obtain ⟨g, hg, hi⟩ := pausing_inert t task id pause phase
    obtain ⟨hw', hb⟩ := hw.plays hgoes
    have hturned := hw'.retask (fun x => congrArg Work.owner? (hg x)) fun i hi => hown i (hb.lives i hi)
    exact (hturned.evolves (.steady hi.toSteady)).after hb
  | @ended t =>
    obtain ⟨hl, hb⟩ := hw.finishes hgoes
    obtain ⟨hl', hb'⟩ := hl.steady (retire_inert t task).toSteady
    exact (vacate_turned hn hl' (not_lives_retire fun i hi => hown i (hb.lives i hi))).after (hb.trans hb')
  | @stops fault t =>
    rcases hgoes with hp | hf
    · obtain ⟨hw', hb⟩ := hw.plays hp
      obtain ⟨hw'', hb'⟩ := hw'.evolves (.steady (retire_inert t task).toSteady)
      obtain ⟨c, hf⟩ := absorb_on hn hw'' fault
      obtain ⟨hl, hb''⟩ := hw''.finishes hf
      have hnone : ∀ i, ¬ (t.retire task).Lives i id := not_lives_retire fun i hi => hown i (hb.lives i hi)
      exact (vacate_turned hn hl fun i hi => hnone i (hb''.lives i hi)).after (hb.trans (hb'.trans hb''))
    · obtain ⟨hl, hb⟩ := hw.finishes hf
      obtain ⟨hl', hb'⟩ := hl.steady (retire_inert t task).toSteady
      obtain ⟨k, hk, hfin, -⟩ := hl'.job
      obtain ⟨hl'', hb''⟩ := hl'.steady (absorb_touches _ hk hfin fault).inert.toSteady
      have hnone : ∀ i, ¬ (t.retire task).Lives i id := not_lives_retire fun i hi => hown i (hb.lives i hi)
      exact (vacate_turned hn hl'' fun i hi => hnone i (hb''.lives i hi)).after (hb.trans (hb'.trans hb''))

end Turn

end MediaEngine.Scheduler
