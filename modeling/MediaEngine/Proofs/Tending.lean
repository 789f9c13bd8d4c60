import MediaEngine.Proofs.Steps

/-! # What becomes of tasks

Of all that scripts do, little concerns tasks: a gate opens, a token is signalled, the queue is idle, or a
task is created. Everything else leaves the tasks alone, and what they wait for (`Unmoved`). So no task is
forgotten that is ready or that was cancelled (`Tends`). -/

namespace MediaEngine.Scheduler
open Job

/-- Nothing about tasks differs, nor about what they wait for. -/
structure Unmoved (s t : Scheduler) : Prop where
  tasks : t.tasks = s.tasks
  ready : t.loop.ready = s.loop.ready
  atGates : ∀ p ∈ t.loop.atGates, p ∈ s.loop.atGates
  timers : ∀ timer ∈ t.loop.timers, ∀ i, timer.action = .wake i → timer ∈ s.loop.timers
  parked : t.queue.parked = s.queue.parked
  tokens : ∀ j ∈ t.queue.jobs, ∀ i ∈ j.token.waiters, ∃ k ∈ s.queue.jobs, i ∈ k.token.waiters

variable {s t u : Scheduler} {id : JobId} {j : Job} {b : Bool}

namespace Unmoved

theorem refl (s : Scheduler) : Unmoved s s := ⟨rfl, rfl, fun _ h => h, fun _ hm _ _ => hm, rfl, fun j hj _ hi => ⟨j, hj, hi⟩⟩

theorem trans (h₁ : Unmoved s t) (h₂ : Unmoved t u) : Unmoved s u where
  tasks := h₂.tasks.trans h₁.tasks
  ready := h₂.ready.trans h₁.ready
  atGates p hp := h₁.atGates p (h₂.atGates p hp)
  timers timer hm i ha := h₁.timers timer (h₂.timers timer hm i ha) i ha
  parked := h₂.parked.trans h₁.parked
  tokens j hj i hi := by
    obtain ⟨k, hk, hi⟩ := h₂.tokens j hj i hi
    exact h₁.tokens k hk i hi

theorem noted (n : Queue.Note) : Unmoved s (s.noted n) := { Unmoved.refl s with }

theorem queue {q : Queue} (hj : q.jobs = s.queue.jobs) (hp : q.parked = s.queue.parked) : Unmoved s { s with queue := q } :=
  { Unmoved.refl s with parked := hp, tokens := fun j hm _ hi => ⟨j, hj ▸ hm, hi⟩ }

theorem update {f : Job → Job} (hf : ∀ j, ∀ i ∈ (f j).token.waiters, i ∈ j.token.waiters) :
    Unmoved s (s.mapQueue (·.update id f)) where
  __ := Unmoved.refl s
  tokens j hj i hi := by
    obtain ⟨k, hk, rfl⟩ := List.mem_map.mp hj
    refine ⟨k, hk, ?_⟩
    split at hi
    · exact hf k i hi
    · exact hi

theorem loop {l : Loop TimerAction} (hr : l.ready = s.loop.ready) (hg : ∀ p ∈ l.atGates, p ∈ s.loop.atGates)
    (ht : ∀ timer ∈ l.timers, ∀ i, timer.action = .wake i → timer ∈ s.loop.timers) : Unmoved s { s with loop := l } :=
  { Unmoved.refl s with ready := hr, atGates := hg, timers := ht }

theorem disarm (action : TimerAction) : Unmoved s { s with loop := s.loop.disarm action } :=
  loop rfl (fun _ h => h) fun _ hm _ _ => List.mem_of_mem_filter hm

theorem recover : Unmoved s (s.mapQueue Queue.recover) := by
  unfold Scheduler.mapQueue Queue.recover
  split
  · exact .refl s
  · exact queue rfl rfl

theorem breakOff (event : Event) : Unmoved s (s.mapQueue (·.breakOff event)) := by
  obtain ⟨ids, hq, -⟩ := s.queue.breakOff_eq event
  rw [mapQueue, hq]
  exact queue rfl rfl

theorem informed (event : Event) (index : Nat) : Unmoved s (s.informed event index) := by
  unfold Scheduler.informed
  split
  · exact .refl s
  · split
    · exact .refl s
    · exact noted _

theorem showing (status : Job.Status) : Unmoved s (s.showing id status) := update fun _ _ h => h

theorem ending (status : Job.Status) (errorMessage message : Option String) :
    Unmoved s (s.ending id status errorMessage message) := update fun _ _ h => h

theorem leaving {l : Loop TimerAction} (message : Option String) (hl : l = s.loop ∨ l = s.loop.disarm (.expire id)) :
    Unmoved s (s.leaving id message l) := by
  have hloop : Unmoved s { s with loop := l } := by
    rcases hl with rfl | rfl
    · exact .refl s
    · exact disarm _
  have hqueue : Unmoved { s with loop := l } { s with queue := s.queue.withdraw id, loop := l } := queue rfl rfl
  exact (hloop.trans hqueue).trans (update fun _ _ h => h)

theorem recording (path : Option String) : Unmoved s (s.recording id path) := by
  unfold Scheduler.recording
  rcases record_cases (s := s) id path with ⟨-, h⟩ | ⟨j, -, ⟨store, -, h⟩ | ⟨-, h⟩⟩ <;> rw [h]
  · exact .refl s
  · have hhand : Unmoved s (s.mapQueue (·.hand (j.entry path) (some store))) := queue rfl rfl
    exact hhand.trans (noted _)
  · exact queue rfl rfl

theorem closing : Unmoved s (s.closing id) := by
  have h : Unmoved s (s.recording id none) := recording none
  unfold Scheduler.recording at h
  unfold Scheduler.closing
  rcases hr : (record id none).on s with ⟨e | ⟨⟩, t⟩ <;> rw [hr] at h
  · exact h
  · exact h.trans .recover

theorem refusing (submission : Submission) : Unmoved s (s.refusing submission) := by
  have hrefuse : Unmoved s (s.mapQueue (·.refuse s.loop.now)) := queue rfl rfl
  exact hrefuse.trans (noted _)

theorem admitting (submission : Submission) (progress : Progress) : Unmoved s (s.admitting submission progress) where
  __ := Unmoved.refl s
  tokens j hj i hi := by
    rcases List.mem_append.mp hj with hj | hj
    · exact ⟨j, hj, hi⟩
    · cases List.mem_singleton.mp hj
      cases hi

theorem arming : Unmoved s (s.arming id) := by
  refine loop rfl (fun _ h => h) fun timer hm i ha => ?_
  rcases List.mem_append.mp hm with hm | hm
  · exact List.mem_of_mem_filter hm
  · cases List.mem_singleton.mp hm
    cases ha

theorem taking {q : Queue} (hq : s.queue.startNext? = some (id, q)) : Unmoved s (s.taking id q) := by
  obtain ⟨rest, e, -, he⟩ := taking_eq hq
  have hqueue : Unmoved s { s with queue := { s.queue with waiting := rest, fullEvent := e, active := s.queue.active ++ [id] } } :=
    queue rfl rfl
  have hupdate : Unmoved s _ := hqueue.trans (update fun _ _ h => h : Unmoved _ (mapQueue _ (·.update id (·.started s.loop.now))))
  refine { Unmoved.refl s with timers := fun _ hm _ _ => List.mem_of_mem_filter hm, parked := ?_, tokens := ?_ }
  · rw [he]; exact hupdate.parked
  · rw [he]; exact hupdate.tokens

theorem openGate (gate : String) : Unmoved s { s with loop := s.loop.openGate gate } :=
  loop rfl (fun _ h => List.mem_of_mem_filter h) fun _ hm _ _ => hm

/-- A small change concerns no task, unless it opens a gate. -/
theorem touch (h : Touch s t) : Unmoved s t ∨ ∃ gate, t = s.opening gate := by
  cases h with
  | noted => exact .inl (noted _)
  | tune id h => exact .inl (update fun j i hi => (h j).waiters ▸ hi)
  | openGate gate => exact .inr ⟨gate, rfl⟩
  | subscribe | unsubscribe | countFiring | draw => exact .inl (queue rfl rfl)

end Unmoved

/-! ## No task is forgotten -/

/-- No task is forgotten but for the one that takes its turn: it is at most made ready, and whoever is made ready will take
    its turn; and who waits for the queue to be idle goes on waiting or will take its turn. -/
structure Tends (own : Option TaskId) (s t : Scheduler) : Prop where
  tasks : ∀ (i : TaskId) (x : Task), own ≠ some i → s.tasks[i]? = some x → t.tasks[i]? = some x ∨ t.tasks[i]? = some x.woken
  ready : ∀ i ∈ s.loop.ready, i ∈ t.loop.ready
  parked : ∀ i ∈ s.queue.parked, i ∈ t.queue.parked ∨ i ∈ t.loop.ready
  alert : ∀ (i : TaskId) (y : Task), own ≠ some i → t.tasks[i]? = some y → y.turn = .ready →
    i ∈ t.loop.ready ∨ ∃ x : Task, s.tasks[i]? = some x ∧ x.turn = .ready

namespace Tends
variable {own : Option TaskId} {task : TaskId}

theorem trans (h₁ : Tends own s t) (h₂ : Tends own t u) : Tends own s u where
  tasks i x hi hx := by
    rcases h₁.tasks i x hi hx with h | h
    · exact h₂.tasks i x hi h
    · have h' := h₂.tasks i x.woken hi h
      rw [Task.woken_woken] at h'
      exact .inr (h'.elim id id)
  ready i hi := h₂.ready i (h₁.ready i hi)
  parked i hi := by
    rcases h₁.parked i hi with h | h
    · exact h₂.parked i h
    · exact .inr (h₂.ready i h)
  alert i y hi hy hr := by
    rcases h₂.alert i y hi hy hr with h | ⟨x, hx, hr'⟩
    · exact .inl h
    · exact (h₁.alert i x hi hx hr').imp_left (h₂.ready i)

theorem within (h : Tends none s t) : Tends own s t where
  tasks i x _ := h.tasks i x (by simp)
  ready := h.ready
  parked := h.parked
  alert i y _ := h.alert i y (by simp)

theorem of_unmoved (h : Unmoved s t) : Tends own s t where
  tasks _ _ _ hx := .inl (h.tasks ▸ hx)
  ready _ hi := h.ready ▸ hi
  parked _ hi := .inl (h.parked ▸ hi)
  alert _ y _ hy hr := .inr ⟨y, h.tasks ▸ hy, hr⟩

theorem refl (s : Scheduler) : Tends own s s := .of_unmoved (.refl s)

theorem rousing (s : Scheduler) (tasks : List TaskId) : Tends own s (s.rousing tasks) where
  tasks i x _ hx := by
    rw [rousing_task, hx]
    split
    · exact .inr rfl
    · exact .inl rfl
  ready _ hi := List.mem_append_left _ hi
  parked _ hi := .inl hi
  alert i y _ hy hr := by
    rw [rousing_task] at hy
    split at hy
    · rename_i hi
      exact .inl (List.mem_append_right _ hi)
    · exact .inr ⟨y, hy, hr⟩

theorem spawn (s : Scheduler) (work : Work) : Tends own s (s.spawn work) where
  tasks _ _ _ hx := .inl ((List.getElem?_append_left (List.getElem?_eq_some_iff.mp hx).1).trans hx)
  ready _ hi := List.mem_append_left _ hi
  parked _ hi := .inl hi
  alert i y _ hy hr := by
    change (s.tasks ++ [_])[i]? = some y at hy
    rcases Nat.lt_trichotomy i s.tasks.length with hi | rfl | hi
    · exact .inr ⟨y, by rwa [List.getElem?_append_left hi] at hy, hr⟩
    · exact .inl (List.mem_append_right _ (List.mem_singleton_self _))
    · rw [List.getElem?_eq_none (by simp; omega)] at hy
      cases hy

/-- The task that takes its turn may change as it likes. -/
theorem retask (s : Scheduler) (f : Task → Task) : Tends (some task) s { s with tasks := s.tasks.modify task f } := by
  have hsame : ∀ i, some task ≠ some i → (s.tasks.modify task f)[i]? = s.tasks[i]? := fun i hi =>
    List.getElem?_modify_ne _ _ fun h => hi (congrArg some h)
  exact ⟨fun i x hi hx => .inl ((hsame i hi).trans hx), fun _ h => h, fun _ h => .inl h,
    fun i y hi hy hr => .inr ⟨y, (hsame i hi).symm.trans hy, hr⟩⟩

theorem unparking (s : Scheduler) : Tends own s s.unparking := by
  unfold Scheduler.unparking
  split
  · have hrousing : Tends own _ _ := .rousing (s.mapQueue fun q => { q with parked := [] }) s.queue.parked
    exact { hrousing with parked := fun i hi => .inr (List.mem_append_right _ hi) }
  · exact .refl s

theorem touch (h : Touch s t) : Tends own s t := by
  rcases Unmoved.touch h with h | ⟨gate, rfl⟩
  · exact .of_unmoved h
  · exact (of_unmoved (.openGate gate)).trans (.rousing _ _)

theorem touches (h : Touches s t) : Tends own s t := by
  induction h with
  | refl => exact .refl s
  | tail _ h ih => exact ih.trans (.touch h)

theorem signalling (s : Scheduler) (id : JobId) (reason : Option String) : Tends own s (s.signalling id reason) := by
  unfold Scheduler.signalling
  rcases signalToken_eq (s := s) id reason with ⟨h, -⟩ | ⟨j, -, -, h⟩ <;> rw [h]
  · exact .refl s
  · have hrousing : Tends own _ _ :=
      .rousing (s.mapQueue (·.update id fun j => { j with token := ⟨true, reason, [], []⟩ })) j.token.waiters
    exact { hrousing with }

theorem spawned (h : Spawned id b s t) : Tends own s t := by
  cases b <;> cases h
  · exact .spawn s _
  · exact .refl s

theorem halted (h : Halted id b s t) : Tends own s t := by
  cases b <;> cases h
  · exact (Tends.signalling s id _).trans (.of_unmoved (.noted _))
  · exact .refl s

theorem closes (h : Closes id b s t) : Tends own s t := by
  cases b <;> cases h
  · exact .of_unmoved .closing
  · exact .refl s

theorem recorded {path : Option String} (h : Recorded id path b s t) : Tends own s t := by
  cases b <;> cases h
  · exact .of_unmoved (.recording path)
  · exact .refl s

theorem carried : Carried fun _ => Tends none where
  does h := by
    induction h with
    | still | halt => exact .refl _
    | trans _ _ ih₁ ih₂ => exact ih₁.trans ih₂
    | touch h => exact .touch h
    | signal => exact .signalling _ _ _
    | ask _ _ _ _ _ h hu => exact ((of_unmoved (.showing _)).trans h.2).trans (.halted hu)
    | leave _ _ _ hl h hu => exact ((of_unmoved (.leaving _ hl)).trans h.2).trans (.closes hu)
    | unpark => exact .unparking _
    | refuse submission _ => exact .of_unmoved (.refusing submission)
    | enter _ _ h => exact (of_unmoved (.admitting _ _)).trans h.2
    | arm => exact .of_unmoved .arming
    | start _ hq h hu => exact ((of_unmoved (.taking hq)).trans h.2).trans (.spawned hu)
  trans _ h₁ h₂ := h₁.trans h₂
  hear event index := .of_unmoved (.informed event index)
  breakOff event h := h.trans (.of_unmoved (.breakOff event))

end Tends

end MediaEngine.Scheduler
