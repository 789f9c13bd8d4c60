import MediaEngine.Proofs.Tending

/-! # Those who wait for the queue to be idle

Whatever scripts do, and whatever the turn of a job comes to, those who wait for the queue to be idle go on
together, at a moment at which it is, or are left alone (`Frees`). -/

namespace MediaEngine.Scheduler
open Job

variable {s t u : Scheduler} {id : JobId} {b : Bool} {freed freed' : List TaskId} {task : TaskId}

/-- The task of a number, if it is not the task of a job: it waits for the queue to be idle, or came for that. -/
def waiter? (s : Scheduler) (i : TaskId) : Option Task := s.tasks[i]?.filter fun x => x.work.phase?.isNone

theorem waiter?_eq_some {i : TaskId} {x : Task} : s.waiter? i = some x ↔ s.tasks[i]? = some x ∧ x.work.phase? = none := by
  rw [waiter?, Option.filter_eq_some_iff, Option.isNone_iff_eq_none]

theorem phase?_isSome {i : TaskId} : (s.phase? i).isSome ↔ ∃ x, s.tasks[i]? = some x ∧ x.work.phase?.isSome := by
  rw [phase?]
  cases s.tasks[i]? with
  | none => simp
  | some x => simp

/-- The task of a job waits for nothing else. -/
theorem waiter?_of_phase {i : TaskId} (h : (s.phase? i).isSome) : s.waiter? i = none := by
  obtain ⟨x, hx, hjob⟩ := phase?_isSome.mp h
  refine Option.eq_none_iff_forall_ne_some.mpr fun y hy => ?_
  obtain ⟨hy, hno⟩ := waiter?_eq_some.mp hy
  cases hx.symm.trans hy
  rw [hno] at hjob
  cases hjob

/-- Whoever waits for a gate, a timer or a token is the task of a job, and who waits for the queue to be idle is not. -/
structure Benign (s : Scheduler) : Prop where
  gates : ∀ p ∈ s.loop.atGates, (s.phase? p.2).isSome
  timers : ∀ timer ∈ s.loop.timers, ∀ i, timer.action = .wake i → (s.phase? i).isSome
  tokens : ∀ j ∈ s.queue.jobs, ∀ i ∈ j.token.waiters, (s.phase? i).isSome
  parked : ∀ i ∈ s.queue.parked, (s.waiter? i).isSome

theorem Unmoved.phase? (h : Unmoved s t) (i : TaskId) : t.phase? i = s.phase? i := by
  rw [Scheduler.phase?, h.tasks]
  rfl

theorem Unmoved.waiter? (h : Unmoved s t) (i : TaskId) : t.waiter? i = s.waiter? i := by
  rw [Scheduler.waiter?, h.tasks]
  rfl

theorem Benign.unmoved (hb : Benign s) (h : Unmoved s t) : Benign t where
  gates p hp := by
    rw [h.phase?]
    exact hb.gates p (h.atGates p hp)
  timers timer hm i ha := by
    rw [h.phase?]
    exact hb.timers timer (h.timers timer hm i ha) i ha
  tokens j hj i hi := by
    obtain ⟨k, hk, hi⟩ := h.tokens j hj i hi
    rw [h.phase?]
    exact hb.tokens k hk i hi
  parked i hi := by
    rw [h.waiter?]
    exact hb.parked i (h.parked ▸ hi)

/-- What becomes of a task when some are made ready. -/
def stirred (tasks : List TaskId) (i : TaskId) : Task → Task := if i ∈ tasks then Task.woken else fun x => x

theorem stirred_nil (i : TaskId) : stirred [] i = fun x => x := rfl

theorem stirred_append (is ks : List TaskId) (i : TaskId) (x : Task) :
    stirred ks i (stirred is i x) = stirred (is ++ ks) i x := by
  unfold stirred
  by_cases hi : i ∈ is <;> by_cases hk : i ∈ ks <;> simp [hi, hk, Task.woken_woken]

/-- Of those who wait for the queue to be idle, some go on: nobody, or all of them, at a moment at which it is. Besides,
    only tasks of jobs are created and made ready. -/
structure Frees (freed : List TaskId) (s t : Scheduler) : Prop where
  benign : Benign t
  moments : Moments s t
  parked : (freed = [] ∧ t.queue.parked = s.queue.parked) ∨
    (freed = s.queue.parked ∧ t.queue.parked = [] ∧ ∃ m, Moments s m ∧ m.queue.isIdle = true ∧ Moments m t)
  waiters : ∀ i, t.waiter? i = (s.waiter? i).map (stirred freed i)
  ready : ∀ i, t.phase? i = none → t.loop.ready.count i = s.loop.ready.count i + freed.count i
  phases : ∀ i, (s.phase? i).isSome → (t.phase? i).isSome

namespace Frees

theorem trans (h₁ : Frees freed s t) (h₂ : Frees freed' t u) : Frees (freed ++ freed') s u where
  benign := h₂.benign
  moments := h₁.moments.trans h₂.moments
  parked := by
    rcases h₁.parked with ⟨rfl, hp⟩ | ⟨rfl, hp, m, hm, hidle, hm'⟩
    · rcases h₂.parked with ⟨rfl, hp'⟩ | ⟨rfl, hp', m, hm, hidle, hm'⟩
      · exact .inl ⟨rfl, hp'.trans hp⟩
      · exact .inr ⟨hp, hp', m, h₁.moments.trans hm, hidle, hm'⟩
    · -- Once all have gone on, nobody is left who could.
      have hnone : freed' = [] ∧ u.queue.parked = [] := by
        rcases h₂.parked with ⟨rfl, hp'⟩ | ⟨rfl, hp', -⟩
        · exact ⟨rfl, hp'.trans hp⟩
        · exact ⟨hp, hp'⟩
      obtain ⟨rfl, hp'⟩ := hnone
      exact .inr ⟨List.append_nil _, hp', m, hm, hidle, hm'.trans h₂.moments⟩
  waiters i := by
    rw [h₂.waiters, h₁.waiters, Option.map_map]
    exact congrArg (Option.map · _) (funext (stirred_append freed freed' i))
  ready i hi := by
    have hi' : t.phase? i = none := Option.not_isSome_iff_eq_none.mp fun h => by
      have := h₂.phases i h
      rw [hi] at this
      cases this
    rw [h₂.ready i hi, h₁.ready i hi', List.count_append, Nat.add_assoc]
  phases i h := h₂.phases i (h₁.phases i h)

/-- What leads on and concerns no task frees nobody. -/
theorem of_unmoved (hb : Benign s) (hm : Moments s t) (h : Unmoved s t) : Frees [] s t where
  benign := hb.unmoved h
  moments := hm
  parked := .inl ⟨rfl, h.parked⟩
  waiters i := by rw [h.waiter?, stirred_nil, Option.map_id']
  ready i _ := by rw [h.ready]; rfl
  phases i hi := h.phase? i ▸ hi

theorem refl (hb : Benign s) : Frees [] s s := of_unmoved hb .refl (.refl s)

end Frees

theorem phase?_rousing (s : Scheduler) (tasks : List TaskId) (i : TaskId) : (s.rousing tasks).phase? i = s.phase? i :=
  (Inert.wake (s := s) tasks).phase i

theorem waiter?_rousing (s : Scheduler) (tasks : List TaskId) (i : TaskId) :
    (s.rousing tasks).waiter? i = (s.waiter? i).map (stirred tasks i) := by
  unfold waiter? stirred
  rw [rousing_task]
  split
  · cases s.tasks[i]? with
    | none => rfl
    | some x => cases hx : x.work.phase? <;> simp [Option.filter, woken_work, hx]
  · rw [Option.map_id']

theorem Benign.rousing (hb : Benign s) (tasks : List TaskId) : Benign (s.rousing tasks) := by
  refine ⟨fun p hp => ?_, fun timer hm i ha => ?_, fun j hj i hi => ?_, fun i hi => ?_⟩
  · rw [phase?_rousing]
    exact hb.gates p hp
  · rw [phase?_rousing]
    exact hb.timers timer hm i ha
  · rw [phase?_rousing]
    exact hb.tokens j hj i hi
  · rw [waiter?_rousing, Option.isSome_map]
    exact hb.parked i hi

namespace Frees

/-- Tasks of jobs are made ready. -/
theorem rousing (hb : Benign s) {tasks : List TaskId} (ht : ∀ i ∈ tasks, (s.phase? i).isSome) : Frees [] s (s.rousing tasks) where
  benign := hb.rousing tasks
  moments := .inert (.wake tasks)
  parked := .inl ⟨rfl, rfl⟩
  waiters i := by
    rw [waiter?_rousing]
    by_cases hi : i ∈ tasks
    · rw [waiter?_of_phase (ht i hi)]
      rfl
    · rw [stirred, if_neg hi, stirred_nil]
  ready i hi := by
    rw [phase?_rousing] at hi
    have hno : i ∉ tasks := fun hm => by have := ht i hm; rw [hi] at this; cases this
    change (s.loop.ready ++ tasks).count i = _
    rw [List.count_append, List.count_eq_zero.mpr hno]
    rfl
  phases i hi := by rwa [phase?_rousing]

theorem openGate (hb : Benign s) (gate : String) : Frees [] s (s.opening gate) := by
  have hopen : Inert s { s with loop := s.loop.openGate gate } := .loop fun _ hm _ _ => hm
  have hgate : Frees [] s { s with loop := s.loop.openGate gate } :=
    of_unmoved hb (.inert hopen) (.openGate gate)
  refine hgate.trans (rousing hgate.benign fun i hi => ?_)
  obtain ⟨p, hp, rfl⟩ := List.mem_map.mp hi
  exact hb.gates p (List.mem_of_mem_filter hp)

theorem touch (hb : Benign s) (h : Touch s t) : Frees [] s t := by
  rcases Unmoved.touch h with hu | ⟨gate, rfl⟩
  · exact of_unmoved hb (.inert h.inert) hu
  · exact openGate hb gate

theorem touches (hb : Benign s) (h : Touches s t) : Frees [] s t := by
  induction h with
  | refl => exact refl hb
  | tail _ h ih => exact ih.trans (touch ih.benign h)

/-- Those who wait for the queue to be idle go on, if it is. -/
theorem unparking (hb : Benign s) : ∃ freed, Frees freed s s.unparking := by
  have hm : Moments s s.unparking := .inert (unparking_inert s)
  unfold Scheduler.unparking at hm ⊢
  split
  · rename_i hidle
    rw [if_pos hidle] at hm
    have hb' : Benign (s.mapQueue fun q => { q with parked := [] }) := { hb with parked := fun _ h => by cases h }
    exact ⟨s.queue.parked, hb'.rousing _, hm, .inr ⟨rfl, rfl, s, .refl, hidle, hm⟩,
      waiter?_rousing (s.mapQueue fun q => { q with parked := [] }) s.queue.parked, fun i _ => List.count_append,
      fun i hi => by rw [phase?_rousing]; exact hi⟩
  · exact ⟨[], refl hb⟩

end Frees

/-- A new task is none of those there were. -/
theorem waiter?_spawn (s : Scheduler) (work : Work) (i : TaskId) :
    (s.spawn work).waiter? i = if i = s.tasks.length then (some ⟨work, .ready, false⟩ : Option Task).filter fun x => x.work.phase?.isNone
      else s.waiter? i := by
  unfold waiter?
  change ((s.tasks ++ [_])[i]?).filter _ = _
  split
  · rename_i h
    subst h
    rw [List.getElem?_concat_length]
  · rename_i h
    rcases Nat.lt_or_gt_of_ne h with h | h
    · rw [List.getElem?_append_left h]
    · rw [List.getElem?_eq_none (by simp; omega), List.getElem?_eq_none (by omega)]

theorem phase?_spawn {work : Work} {i : TaskId} (h : (s.phase? i).isSome) : ((s.spawn work).phase? i).isSome := by
  obtain ⟨x, hx, hjob⟩ := phase?_isSome.mp h
  exact phase?_isSome.mpr ⟨x, (List.getElem?_append_left (List.getElem?_eq_some_iff.mp hx).1).trans hx, hjob⟩

theorem waiter?_lt {i : TaskId} (h : (s.waiter? i).isSome) : i < s.tasks.length := by
  obtain ⟨x, hx⟩ := Option.isSome_iff_exists.mp h
  exact (List.getElem?_eq_some_iff.mp (waiter?_eq_some.mp hx).1).1

theorem Benign.spawn (hb : Benign s) (work : Work) : Benign (s.spawn work) where
  gates p hp := phase?_spawn (hb.gates p hp)
  timers timer hm i ha := phase?_spawn (hb.timers timer hm i ha)
  tokens j hj i hi := phase?_spawn (hb.tokens j hj i hi)
  parked i hi := by
    have hi' := hb.parked i hi
    rwa [waiter?_spawn, if_neg (Nat.ne_of_lt (waiter?_lt hi'))]

namespace Frees

theorem spawn (hb : Benign s) (hm : Moments s (s.spawn (.job id .fresh))) : Frees [] s (s.spawn (.job id .fresh)) where
  benign := hb.spawn _
  moments := hm
  parked := .inl ⟨rfl, rfl⟩
  waiters i := by
    rw [waiter?_spawn, stirred_nil, Option.map_id']
    split
    · rename_i h
      subst h
      rw [waiter?, List.getElem?_eq_none (Nat.le_refl _)]
      rfl
    · rfl
  ready i hi := by
    change (s.loop.ready ++ [s.tasks.length]).count i = _
    have hne : s.tasks.length ≠ i := fun h => by
      rw [← h, phase?, show (s.spawn _).tasks[s.tasks.length]? = _ from List.getElem?_concat_length] at hi
      cases hi
    rw [List.count_append, List.count_singleton, if_neg (by simpa using hne)]
    rfl
  phases i := phase?_spawn

theorem signalling (hb : Benign s) {reason : Option String} (hm : Moments s (s.signalling id reason)) :
    Frees [] s (s.signalling id reason) := by
  unfold Scheduler.signalling at hm ⊢
  rcases signalToken_eq (s := s) id reason with ⟨h, -⟩ | ⟨j, hj, -, h⟩ <;> rw [h] at hm ⊢
  · exact refl hb
  · have hb' : Benign (s.mapQueue (·.update id fun j => { j with token := ⟨true, reason, [], []⟩ })) :=
      hb.unmoved (.update fun _ _ h => absurd h List.not_mem_nil)
    have hwaiters := rousing hb' fun i hi => hb.tokens j (Queue.job?_mem hj) i hi
    exact { hwaiters with benign := { hwaiters.benign with }, moments := hm, parked := .inl ⟨rfl, rfl⟩ }

theorem halted (hb : Benign s) (hf : Fit s) (hid : id ∈ s.queue.active) (h : Halted id b s t) : Frees [] s t := by
  cases b <;> cases h
  · have hsignal : Unfolds none s (s.signalling id (some cancelAllReason)) := .one (.signal hid (signalling_signals hf id _))
    have hfrees := signalling hb hsignal.moments
    exact hfrees.trans (of_unmoved hfrees.benign (.one (.asked id)) (.noted _))
  · exact refl hb

theorem closes (hb : Benign s) (h : Closes id b s t) : Frees [] s t := by
  have hm : Moments s t := (h.unfolds : Unfolds none s t).moments
  cases b <;> cases h
  · exact of_unmoved hb hm .closing
  · exact refl hb

theorem recorded {path : Option String} (hb : Benign s) (h : Recorded id path b s t) : Frees [] s t := by
  have hm : Moments s t := (h.unfolds : Unfolds none s t).moments
  cases b <;> cases h
  · exact of_unmoved hb hm (.recording path)
  · exact refl hb

theorem spawned (hb : Benign s) (hid : id ∈ s.queue.active) (h : Spawned id b s t) : Frees [] s t := by
  have hm : Moments s t := (h.unfolds hid : Unfolds none s t).moments
  cases b <;> cases h
  · exact spawn hb hm
  · exact refl hb

/-- A part that concerns no task, what telling listeners of it comes to, and the part that closes it. -/
theorem around {v : Scheduler} (hb : Benign s) (hrow : Unfolds none s t) (hu : Unmoved s t) (hN : Benign t → ∃ freed, Frees freed t u)
    (hc : Benign u → Frees [] u v) : ∃ freed, Frees freed s v := by
  have h₁ := of_unmoved hb hrow.moments hu
  obtain ⟨freed, h₂⟩ := hN h₁.benign
  exact ⟨_, (h₁.trans h₂).trans (hc h₂.benign)⟩

/-- Whatever scripts do, those who wait for the queue to be idle go on together at a moment at which it is, or not at all. -/
theorem carried : Carried fun _ s t => Benign s → ∃ freed, Frees freed s t where
  does h := by
    induction h with
    | still | halt => exact fun hb => ⟨_, refl hb⟩
    | trans _ _ ih₁ ih₂ =>
      intro hb
      obtain ⟨_, h₁⟩ := ih₁ hb
      obtain ⟨_, h₂⟩ := ih₂ h₁.benign
      exact ⟨_, h₁.trans h₂⟩
    | touch h => exact fun hb => ⟨_, touch hb h⟩
    | signal hf hid => exact fun hb => ⟨_, signalling hb (.one (.signal hid (signalling_signals hf _ _)))⟩
    | ask hf hid hj hst hst' h hu =>
      intro hb
      have hshow : Unfolds none _ _ := showing_unfolds hid hj hst hst'
      have hrow : Unfolds none _ _ := hshow.trans h.1
      exact around hb hshow (.showing _) h.2 fun hb => halted hb (hrow.fit hf) (hrow.active hid) hu
    | leave _ hid hj hl h hu => exact fun hb => around hb (leaving_unfolds hid hj hl _) (.leaving _ hl) h.2 fun hb => closes hb hu
    | unpark => exact unparking
    | refuse submission _ =>
      exact fun hb => ⟨_, of_unmoved hb (.inert ((Inert.refuse _).trans (.noted rfl rfl))) (.refusing submission)⟩
    | enter _ hfull h => exact fun hb => around hb (admitting_unfolds _ _ hfull) (.admitting _ _) h.2 refl
    | arm hx => exact fun hb => ⟨_, of_unmoved hb (.one (.arm hx)) .arming⟩
    | start _ hq h hu =>
      exact fun hb => around hb (.one (.take hq)) (.taking hq) h.2 fun hb => spawned hb (h.1.active (mem_taking hq)) hu
  trans _ h₁ h₂ hb := by
    obtain ⟨_, h₁⟩ := h₁ hb
    obtain ⟨_, h₂⟩ := h₂ h₁.benign
    exact ⟨_, h₁.trans h₂⟩
  hear event index hb := ⟨_, of_unmoved hb (Served.informed_unfolds _ event index).moments (.informed event index)⟩
  breakOff event h hb := by
    obtain ⟨_, h⟩ := h hb
    exact ⟨_, h.trans (of_unmoved h.benign (.one (.breakOff event)) (.breakOff event))⟩

end Frees

/-! ## The turn of a job -/

/-- Nothing about tasks differs but about the task of a job. -/
structure Moved (task : TaskId) (s t : Scheduler) : Prop where
  others : ∀ i, i ≠ task → t.tasks[i]? = s.tasks[i]?
  job : (s.phase? task).isSome → (t.phase? task).isSome
  ready : ∀ i, i ≠ task → t.loop.ready.count i = s.loop.ready.count i
  atGates : ∀ p ∈ t.loop.atGates, p ∈ s.loop.atGates ∨ p.2 = task
  timers : ∀ timer ∈ t.loop.timers, ∀ i, timer.action = .wake i → timer ∈ s.loop.timers ∨ i = task
  parked : task ∉ s.queue.parked → t.queue.parked = s.queue.parked
  tokens : ∀ j ∈ t.queue.jobs, ∀ i ∈ j.token.waiters, (∃ k ∈ s.queue.jobs, i ∈ k.token.waiters) ∨ i = task

namespace Moved

theorem phase? (h : Moved task s t) (hjob : (s.phase? task).isSome) {i : TaskId} (hi : (s.phase? i).isSome) : (t.phase? i).isSome := by
  by_cases hit : i = task
  · rw [hit]
    exact h.job hjob
  · rwa [Scheduler.phase?, h.others i hit]

theorem waiter? (h : Moved task s t) (hjob : (s.phase? task).isSome) (i : TaskId) : t.waiter? i = s.waiter? i := by
  by_cases hit : i = task
  · rw [hit, waiter?_of_phase hjob, waiter?_of_phase (h.job hjob)]
  · rw [Scheduler.waiter?, h.others i hit]
    rfl

/-- Whatever the task of a job does frees nobody. -/
theorem frees (h : Moved task s t) (hjob : (s.phase? task).isSome) (hb : Benign s) (hm : Moments s t) : Frees [] s t := by
  have hother : ∀ {i}, (s.waiter? i).isSome → i ≠ task := fun hi hit => by rw [hit, waiter?_of_phase hjob] at hi; cases hi
  have hparked : t.queue.parked = s.queue.parked := h.parked fun hp => hother (hb.parked task hp) rfl
  have hbenign : ∀ {i}, (s.phase? i).isSome ∨ i = task → (t.phase? i).isSome := fun hi =>
    hi.elim (h.phase? hjob) fun hi => hi ▸ h.job hjob
  refine ⟨⟨fun p hp => ?_, fun timer hm i ha => ?_, fun j hj i hi => ?_, fun i hi => ?_⟩, hm, .inl ⟨rfl, hparked⟩, fun i => ?_,
    fun i hi => ?_, fun i => h.phase? hjob⟩
  · exact hbenign ((h.atGates p hp).imp_left (hb.gates p))
  · exact hbenign ((h.timers timer hm i ha).imp_left fun hm => hb.timers timer hm i ha)
  · exact hbenign ((h.tokens j hj i hi).imp_left fun ⟨k, hk, hi⟩ => hb.tokens k hk i hi)
  · rw [h.waiter? hjob]
    exact hb.parked i (hparked ▸ hi)
  · rw [h.waiter? hjob, stirred_nil, Option.map_id']
  · rw [h.ready i fun hit => by have := h.job hjob; rw [← hit, hi] at this; cases this]
    rfl

theorem refl (s : Scheduler) : Moved task s s :=
  ⟨fun _ _ => rfl, fun h => h, fun _ _ => rfl, fun _ h => .inl h, fun _ h _ _ => .inl h, fun _ => rfl, fun j hj _ hi => .inl ⟨j, hj, hi⟩⟩

theorem trans (h₁ : Moved task s t) (h₂ : Moved task t u) : Moved task s u where
  others i hi := (h₂.others i hi).trans (h₁.others i hi)
  job h := h₂.job (h₁.job h)
  ready i hi := (h₂.ready i hi).trans (h₁.ready i hi)
  atGates p hp := (h₂.atGates p hp).elim (h₁.atGates p) .inr
  timers timer hm i ha := (h₂.timers timer hm i ha).elim (fun hm => h₁.timers timer hm i ha) .inr
  parked hp := (h₂.parked (by rwa [h₁.parked hp])).trans (h₁.parked hp)
  tokens j hj i hi := (h₂.tokens j hj i hi).elim (fun ⟨k, hk, hi⟩ => h₁.tokens k hk i hi) .inr

/-- The task itself changes, and stays the task of a job. -/
theorem retask {g : Task → Task} (hg : ∀ x : Task, x.work.phase?.isSome → (g x).work.phase?.isSome) :
    Moved task s { s with tasks := s.tasks.modify task g } where
  __ := Moved.refl s
  others i hi := List.getElem?_modify_ne _ _ (Ne.symm hi)
  job h := by
    obtain ⟨x, hx, hjob⟩ := phase?_isSome.mp h
    refine phase?_isSome.mpr ⟨g x, ?_, hg x hjob⟩
    change (s.tasks.modify task g)[task]? = _
    rw [List.getElem?_modify_eq, hx]
    rfl

theorem heeding : Moved task s (s.heeding task) := retask fun _ h => h

theorem retire : Moved task s (s.retire task) := retask fun _ h => h

/-- The task leaves those that are ready. -/
theorem next {l : Loop TimerAction} (h : s.loop.next? = some (task, l)) : Moved task s { s with loop := l } := by
  unfold Loop.next? at h
  split at h
  · cases h
  · rename_i rest hready
    cases h
    refine { Moved.refl s with ready := fun i hi => ?_ }
    rw [hready, List.count_cons_of_ne (Ne.symm hi)]

theorem wake : Moved task s { s with loop := s.loop.wake [task] } where
  __ := Moved.refl s
  ready i hi := by
    change (s.loop.ready ++ [task]).count i = _
    rw [List.count_append, List.count_singleton, if_neg (by simpa using Ne.symm hi)]
    rfl

theorem pausing (pause : Pause) (phase : Phase) : Moved task s (s.pausing task id pause phase) := by
  let v : Scheduler := { s with tasks := s.tasks.modify task fun x => { x with work := .job id phase } }
  have hwork : Moved task s v := retask fun _ _ => rfl
  have hwait : ∀ a, Moved task v { v with tasks := v.tasks.modify task fun x => { x with turn := .waiting a } } := fun _ =>
    retask fun _ h => h
  cases pause with
  | turn => exact hwork.trans wake
  | sleep milliseconds =>
    refine (hwork.trans (hwait .timer)).trans { Moved.refl _ with timers := fun timer hm i ha => ?_ }
    rcases List.mem_append.mp hm with hm | hm
    · exact .inl hm
    · cases List.mem_singleton.mp hm
      cases ha
      exact .inr rfl
  | gate name =>
    refine (hwork.trans (hwait (.gate name))).trans { Moved.refl _ with atGates := fun p hp => ?_ }
    rcases List.mem_append.mp hp with hp | hp
    · exact .inl hp
    · cases List.mem_singleton.mp hp
      exact .inr rfl
  | token =>
    refine (hwork.trans (hwait (.token id))).trans { Moved.refl _ with tokens := fun j hj i hi => ?_ }
    obtain ⟨k, hk, rfl⟩ := List.mem_map.mp hj
    split at hi
    · rcases List.mem_append.mp hi with hi | hi
      · exact .inl ⟨k, hk, hi⟩
      · exact .inr (List.mem_singleton.mp hi)
    · exact .inl ⟨k, hk, hi⟩

end Moved

end MediaEngine.Scheduler

namespace MediaEngine
open Job Scheduler

/-- Telling listeners, those who wait for the queue to be idle go on together or not at all. -/
def Telling.Frees (N : Telling) : Prop := ∀ kind id b s t, N kind id b s t → Benign s → ∃ freed, Scheduler.Frees freed s t

variable {N : Telling} {s t : Scheduler} {id : JobId} {b c d : Bool} {status : Job.Status} {task : TaskId} {phase : Phase}
  {killed : Bool}

theorem Does.frees (hN : N.Frees) (h : Does N b s t) (hb : Benign s) : ∃ freed, Scheduler.Frees freed s t :=
  Frees.carried.does (h.mono hN) hb

namespace Scheduler

theorem Works.frees (hN : N.Frees) (h : Works N id c d b s t) (hb : Benign s) : ∃ freed, Frees freed s t := by
  induction h with
  | does h => exact h.frees hN hb
  | @cools b s t j hu hc h =>
    have hcool : Unfolds (some id) s (s.showing id .coolingDown) := by
      refine .one (.cool rfl hu.active ?_)
      rw [Queue.isCancelled, hu.job]
      exact hc
    have hshow := Frees.of_unmoved hb hcool.moments (.showing .coolingDown)
    obtain ⟨_, htold⟩ := hN _ _ _ _ _ h.2 hshow.benign
    exact ⟨_, hshow.trans htold⟩
  | trans _ _ ih₁ ih₂ =>
    obtain ⟨_, h₁⟩ := ih₁ hb
    obtain ⟨_, h₂⟩ := ih₂ h₁.benign
    exact ⟨_, h₁.trans h₂⟩

theorem Concludes.frees (hN : N.Frees) (h : Concludes N id c status b s t) (hb : Benign s) : ∃ freed, Frees freed s t := by
  cases h with
  | @ends j path errorMessage message v _ hu _ _ _ h hr =>
    have hend : Unfolds (some id) s (s.ending id status errorMessage message) := .one (.finish rfl hu.active hu.job hu.unended)
    have hended := Frees.of_unmoved hb hend.moments (.ending _ _ _)
    obtain ⟨_, htold⟩ := hN _ _ _ _ _ h.2 hended.benign
    exact ⟨_, (hended.trans htold).trans (.recorded htold.benign hr)⟩

theorem Vacates.frees (hN : N.Frees) (h : Vacates N id s t) (hb : Benign s) : ∃ freed, Frees freed s t := by
  have hrelease : Frees [] s (s.mapQueue (·.release id)) := .of_unmoved hb (.single (.release id)) (.queue rfl rfl)
  cases h with
  | fills h =>
    obtain ⟨_, hstarts⟩ := h.does.frees hN hrelease.benign
    obtain ⟨_, hunpark⟩ := Frees.unparking hstarts.benign
    exact ⟨_, (hrelease.trans hstarts).trans hunpark⟩
  | cut h =>
    obtain ⟨_, hstarts⟩ := h.does.frees hN hrelease.benign
    exact ⟨_, hrelease.trans hstarts⟩

/-- What the turn of a job comes to. -/
theorem TurnOf.frees (hN : N.Frees) (h : TurnOf N task id phase killed s t) (hphase : ∃ before, s.phase? task = some (id, before))
    (hb : Benign s) : ∃ freed, Frees freed s t := by
  have hjob : (s.phase? task).isSome := by
    obtain ⟨before, h⟩ := hphase
    rw [h]
    rfl
  have retired : ∀ {u : Scheduler} {freed : List TaskId}, Frees freed s u → Frees freed s (u.retire task) := fun {u _} h => by
    have hretire := Moved.retire.frees (h.phases task hjob) h.benign (.inert (retire_inert u task))
    simpa using h.trans hretire
  cases h with
  | waits _ hw =>
    obtain ⟨before, hbefore⟩ := hphase
    obtain ⟨after, hafter, -⟩ := hw.unfolds.phase hbefore
    obtain ⟨_, hwork⟩ := hw.frees hN hb
    exact ⟨_, hwork.trans ((Moved.pausing _ _).frees (hwork.phases task hjob) hwork.benign (pausing_moments ⟨after, hafter⟩ _ _))⟩
  | ends _ hw hc ht hv =>
    obtain ⟨_, hwork⟩ := hw.frees hN hb
    obtain ⟨_, hends⟩ := hc.frees hN hwork.benign
    have hretired := retired (hwork.trans hends)
    have htouch := Frees.touches hretired.benign ht
    obtain ⟨_, hvacates⟩ := hv.frees hN htouch.benign
    exact ⟨_, (hretired.trans htouch).trans hvacates⟩
  | stops _ hw hc hv =>
    obtain ⟨_, hwork⟩ := hw.frees hN hb
    have hretired := retired hwork
    obtain ⟨_, hends⟩ := hc.frees hN hretired.benign
    obtain ⟨_, hvacates⟩ := hv.frees hN hends.benign
    exact ⟨_, (hretired.trans hends).trans hvacates⟩

end Scheduler
end MediaEngine
