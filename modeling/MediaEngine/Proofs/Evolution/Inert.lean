import MediaEngine.Proofs.Evolution.Steady

/-! # Inert changes

A steady change is inert if besides no task goes on to another phase, no token is signalled, no listener
is forgotten, no start is logged, and no timer is set that drops a job. Each elementary act of `Scheduler`
that makes such a change is shown inert here; a signal is the one steady change that is not. -/

namespace MediaEngine
open Job

/-- The job whose task this is, and how far it is. -/
def Work.phase? : Work → Option (JobId × Phase)
  | .job owner phase => some (owner, phase)
  | .waitIdle .. => none

/-- The job whose start is logged. -/
def Queue.Note.started? : Queue.Note → Option JobId
  | .logged (.started _ job _) => some job
  | _ => none

/-- Every listener that subscribed, in order. -/
def Queue.listeners (q : Queue) : List Listener := q.subscriptions.map Subscription.listener

theorem Queue.listeners_countFiring (q : Queue) (index : Nat) : (q.countFiring index).listeners = q.listeners := by
  refine List.ext_getElem? fun i => ?_
  simp only [Queue.listeners, Queue.countFiring, List.getElem?_map, List.getElem?_modify]
  cases q.subscriptions[i]? with
  | none => rfl
  | some sub => by_cases hi : index = i <;> simp [hi]

namespace Scheduler
variable {s t u : Scheduler}

/-- The job of a task, and how far the task is. -/
def phase? (s : Scheduler) (i : TaskId) : Option (JobId × Phase) := s.tasks[i]?.bind (·.work.phase?)

/-- The jobs whose start was logged, in order. -/
def starts (s : Scheduler) : List JobId := s.notes.filterMap Queue.Note.started?

/-- A timer is set that drops the job. -/
def Expects (s : Scheduler) (id : JobId) : Prop := ∃ timer ∈ s.loop.timers, timer.action = .expire id

/-- No task goes on to another phase, no listener is forgotten, no start is logged, and no timer is set that drops
    a job. -/
structure Still (s t : Scheduler) : Prop where
  phase : ∀ i, t.phase? i = s.phase? i
  listeners : s.queue.listeners <+: t.queue.listeners
  starts : t.starts = s.starts
  expects : ∀ id, t.Expects id → s.Expects id

/-- A steady change that is still and signals no token. -/
structure Inert (s t : Scheduler) : Prop extends Steady s t, Still s t where
  signalled : ∀ id, t.queue.isCancelled id = s.queue.isCancelled id

/-- A steady change by which at most the token of a job is signalled, for this reason. -/
structure Signals (id : JobId) (reason : Option String) (s t : Scheduler) : Prop extends Steady s t, Still s t where
  others : ∀ i, i ≠ id → t.queue.isCancelled i = s.queue.isCancelled i
  own : ∀ j, s.queue.job? id = some j → ∃ k, t.queue.job? id = some k ∧ k.token.cancelled = true ∧
    (j.token.cancelled = false → k.token.reason = reason)

theorem Still.refl (s : Scheduler) : Still s s := ⟨fun _ => rfl, List.prefix_rfl, rfl, fun _ h => h⟩

theorem Still.trans (h₁ : Still s t) (h₂ : Still t u) : Still s u where
  phase i := (h₂.phase i).trans (h₁.phase i)
  listeners := h₁.listeners.trans h₂.listeners
  starts := h₂.starts.trans h₁.starts
  expects id h := h₁.expects id (h₂.expects id h)

theorem starts_append {ns : List Queue.Note} (h : t.notes = s.notes ++ ns) :
    t.starts = s.starts ++ ns.filterMap Queue.Note.started? := by
  rw [starts, h, List.filterMap_append, starts]

theorem Still.noted {n : Queue.Note} (h : n.started? = none) : Still s (s.noted n) where
  __ := Still.refl s
  starts := by rw [starts_append (noted_notes s n), List.filterMap_cons_none h, List.filterMap_nil, List.append_nil]

namespace Inert

theorem refl (s : Scheduler) : Inert s s := ⟨.refl s, .refl s, fun _ => rfl⟩

theorem trans (h₁ : Inert s t) (h₂ : Inert t u) : Inert s u :=
  ⟨h₁.toSteady.trans h₂.toSteady, h₁.toStill.trans h₂.toStill, fun id => (h₂.signalled id).trans (h₁.signalled id)⟩

/-! ## The loop and the notes -/

/-- A change of the loop that sets no timer by which a job is dropped. -/
theorem loop {l : Loop TimerAction} (h : ∀ timer ∈ l.timers, ∀ id, timer.action = .expire id → timer ∈ s.loop.timers) :
    Inert s { s with loop := l } where
  __ := Inert.refl s
  expects id := fun ⟨timer, hm, ha⟩ => ⟨timer, h timer hm id ha, ha⟩

theorem noted {n : Queue.Note} (hp : n.isPlain = true) (hs : n.started? = none) : Inert s (s.noted n) where
  __ := Inert.refl s
  notes := (Steady.noted hp).notes
  starts := (Still.noted hs).starts

/-! ## The queue -/

/-- A change of the queue that leaves alone where jobs stand. -/
theorem queue {r : Queue} (settings : r.settings = s.queue.settings)
    (jobs : List.Forall₂ Tuned s.queue.jobs r.jobs) (signalled : ∀ id, r.isCancelled id = s.queue.isCancelled id)
    (nextId : s.queue.nextId ≤ r.nextId) (waiting : r.waiting = s.queue.waiting) (active : r.active = s.queue.active)
    (store : r.store = s.queue.store) (recorded : r.recorded = s.queue.recorded)
    (brokenOff : r.brokenOff = s.queue.brokenOff) (listeners : s.queue.listeners <+: r.listeners) :
    Inert s { s with queue := r } where
  __ := Inert.refl s
  continues := .of_knows (.of_tuned jobs) settings recorded store
  jobs := jobs
  nextId := nextId
  waiting := waiting
  active := active
  filed _ he := .inl (recorded ▸ he)
  store := store
  recorded := recorded
  brokenOff := brokenOff
  listeners := listeners
  signalled := signalled

/-- A change of the queue that is not about its jobs. -/
theorem besides {r : Queue} (settings : r.settings = s.queue.settings) (jobs : r.jobs = s.queue.jobs)
    (nextId : s.queue.nextId ≤ r.nextId) (waiting : r.waiting = s.queue.waiting) (active : r.active = s.queue.active)
    (store : r.store = s.queue.store) (recorded : r.recorded = s.queue.recorded)
    (brokenOff : r.brokenOff = s.queue.brokenOff) (listeners : s.queue.listeners <+: r.listeners) :
    Inert s { s with queue := r } :=
  queue settings (by rw [jobs]; exact Queue.tuned_refl _)
    (fun id => by rw [Queue.isCancelled, Queue.job?, jobs]; rfl) nextId waiting active store recorded brokenOff listeners

theorem recover : Inert s (s.mapQueue Queue.recover) := by
  unfold Scheduler.mapQueue Queue.recover
  split
  · exact .refl s
  · exact besides rfl rfl (Nat.le_refl _) rfl rfl rfl rfl rfl List.prefix_rfl

theorem refuse (now : Nat) : Inert s (s.mapQueue (·.refuse now)) :=
  besides rfl rfl (Nat.le_refl _) rfl rfl rfl rfl rfl List.prefix_rfl

theorem draw : Inert s (s.mapQueue Queue.draw) :=
  besides rfl rfl (Nat.le_succ _) rfl rfl rfl rfl rfl List.prefix_rfl

theorem park (parked : List TaskId) : Inert s (s.mapQueue fun q => { q with parked := parked }) :=
  besides rfl rfl (Nat.le_refl _) rfl rfl rfl rfl rfl List.prefix_rfl

theorem update {id : JobId} {f : Job → Job} (hf : ∀ j, Tuned j (f j))
    (hc : ∀ j, (f j).token.cancelled = j.token.cancelled) : Inert s (s.mapQueue (·.update id f)) := by
  refine queue rfl (Queue.tuned_update fun j _ _ => hf j) (fun i => ?_) (Nat.le_refl _) rfl rfl rfl rfl rfl List.prefix_rfl
  rw [Queue.isCancelled, Queue.job?_update (fun j => (hf j).id), Queue.isCancelled]
  split
  · cases s.queue.job? i with
    | none => rfl
    | some j => exact hc j
  · rfl

theorem subscribe (listener : Listener) : Inert s (s.mapQueue (·.subscribe listener)) := by
  refine besides rfl rfl (Nat.le_refl _) rfl rfl rfl rfl rfl ⟨[listener], ?_⟩
  simp [Queue.listeners, Queue.subscribe]

theorem unsubscribe (index : Nat) : Inert s (s.mapQueue (·.unsubscribe index)) :=
  besides rfl rfl (Nat.le_refl _) rfl rfl rfl rfl rfl List.prefix_rfl

theorem countFiring (index : Nat) : Inert s (s.mapQueue (·.countFiring index)) :=
  besides rfl rfl (Nat.le_refl _) rfl rfl rfl rfl rfl (Queue.listeners_countFiring s.queue index ▸ List.prefix_rfl)

/-! ## Tasks -/

theorem tasks {ts : List Task} {l : Loop TimerAction}
    (hl : ∀ i id, Lives { s with tasks := ts, loop := l } i id → s.Lives i id)
    (hp : ∀ i, phase? { s with tasks := ts, loop := l } i = s.phase? i)
    (he : ∀ timer ∈ l.timers, ∀ id, timer.action = .expire id → timer ∈ s.loop.timers) :
    Inert s { s with tasks := ts, loop := l } where
  __ := Inert.refl s
  lives := hl
  phase := hp
  expects id := fun ⟨timer, hm, ha⟩ => ⟨timer, he timer hm id ha, ha⟩

/-- A change of one task that leaves its phase alone. -/
theorem phase?_modify {k : TaskId} {g : Task → Task} {l : Loop TimerAction}
    (hg : ∀ t, s.tasks[k]? = some t → (g t).work.phase? = t.work.phase?) (i : TaskId) :
    phase? { s with tasks := s.tasks.modify k g, loop := l } i = s.phase? i := by
  change ((s.tasks.modify k g)[i]?).bind _ = (s.tasks[i]?).bind _
  by_cases hk : k = i
  · subst hk
    rw [List.getElem?_modify_eq]
    cases hi : s.tasks[k]? with
    | none => rfl
    | some t => exact hg t hi
  · rw [List.getElem?_modify_ne _ _ hk]

/-- A change of one task that leaves alone what it does, and does not take it up again. -/
theorem onTask {k : TaskId} {g : Task → Task} (hw : ∀ t, (g t).work.phase? = t.work.phase?)
    (ho : ∀ t, (g t).work.owner? = t.work.owner?) (hl : ∀ t, (g t).turn ≠ .over → t.turn ≠ .over) :
    Inert s { s with tasks := s.tasks.modify k g } :=
  tasks (lives_modify fun t _ _ h h' => ⟨ho t ▸ h, hl t h'⟩) (phase?_modify fun t _ => hw t) fun _ hm _ _ => hm

theorem wake (tasks : List TaskId) : Inert s ((Scheduler.wake tasks : Act Unit).on s).2 := by
  -- One task after the other is woken, and each of these changes is inert.
  suffices step : ∀ s : Scheduler, Inert s { s with tasks := tasks.foldl (fun ts t => ts.modify t Task.woken) s.tasks } by
    exact (step s).trans (.loop fun _ hm _ _ => hm)
  induction tasks with
  | nil => exact .refl
  | cons k rest ih =>
    intro s
    have hk : Inert s { s with tasks := s.tasks.modify k Task.woken } :=
      .onTask (fun t => by rw [woken_work]) (fun t => by rw [woken_work]) woken_over
    exact hk.trans (ih _)

theorem spawn {name : String} {parked : Bool} : Inert s (s.spawn (.waitIdle name parked)) := by
  refine tasks (fun i id ⟨t, ht, ho, hl⟩ => ?_) (fun i => ?_) fun _ hm _ _ => hm
  · change (s.tasks ++ [_])[i]? = some t at ht
    rw [List.getElem?_append] at ht
    split at ht
    · exact ⟨t, ht, ho, hl⟩
    · rw [List.getElem?_singleton] at ht
      split at ht
      · cases ht; cases ho
      · cases ht
  · change ((s.tasks ++ [_])[i]?).bind _ = (s.tasks[i]?).bind _
    rw [List.getElem?_append]
    split
    · rfl
    · rename_i hi
      rw [List.getElem?_eq_none (Nat.le_of_not_lt hi), List.getElem?_singleton]
      split
      · exact (rfl : Work.phase? (.waitIdle name parked) = none)
      · rfl

end Inert

namespace Signals
variable {id : JobId} {reason : Option String}

theorem trans_inert (h₁ : Signals id reason s t) (h₂ : Inert t u) : Signals id reason s u where
  toSteady := h₁.toSteady.trans h₂.toSteady
  toStill := h₁.toStill.trans h₂.toStill
  others i hi := (h₂.signalled i).trans (h₁.others i hi)
  own j hj := by
    obtain ⟨k, hk, hc, hr⟩ := h₁.own j hj
    obtain ⟨l, hl, ht⟩ := Queue.tuned_job?_some h₂.jobs hk
    exact ⟨l, hl, ht.signalled hc, fun h => (ht.reason hc).trans (hr h)⟩

theorem cancelled (h : Signals id reason s t) (hj : (s.queue.job? id).isSome) : t.queue.isCancelled id = true := by
  obtain ⟨j, hj⟩ := Option.isSome_iff_exists.mp hj
  obtain ⟨k, hk, hc, -⟩ := h.own j hj
  rw [Queue.isCancelled, hk]
  exact hc

end Signals

end Scheduler

end MediaEngine
