import MediaEngine.Proofs.Tending

/-! # Tasks that are ready

Whoever is ready will take its turn (`Alert`): no step of a run forgets a task that is ready, and what a
turn leaves its own task with is that it waits, is ready again, or is over. -/

namespace MediaEngine
open Job Scheduler

/-- Telling listeners forgets no task. -/
def Telling.Tends (N : Telling) : Prop := ∀ kind id b s t, N kind id b s t → Scheduler.Tends none s t

variable {N : Telling} {s t u : Scheduler} {id : JobId} {j : Job} {b c d : Bool} {status : Job.Status} {own : Option TaskId}
  {task : TaskId} {phase : Phase} {killed : Bool} {l : Loop TimerAction}

theorem Does.tends (hN : N.Tends) (h : Does N b s t) : Scheduler.Tends own s t := (Tends.carried.does (h.mono hN)).within

namespace Scheduler

/-! ## Parts of a turn -/

theorem Works.tends (hN : N.Tends) (h : Works N id c d b s t) : Tends own s t := by
  induction h with
  | does h => exact h.tends hN
  | cools _ _ h => exact (Tends.of_unmoved (.showing _)).trans (hN _ _ _ _ _ h.2).within
  | trans _ _ ih₁ ih₂ => exact ih₁.trans ih₂

theorem Concludes.tends (hN : N.Tends) (h : Concludes N id c status b s t) : Tends own s t := by
  cases h with
  | ends _ _ _ _ h hu => exact ((Tends.of_unmoved (.ending _ _ _)).trans (hN _ _ _ _ _ h.2).within).trans (.recorded hu)

theorem Vacates.tends (hN : N.Tends) (h : Vacates N id s t) : Tends own s t := by
  have hrelease : Tends own s (s.mapQueue (·.release id)) := .of_unmoved (.queue rfl rfl)
  cases h with
  | fills h => exact (hrelease.trans (h.does.tends hN)).trans (.unparking _)
  | cut h => exact hrelease.trans (h.does.tends hN)

/-- Only the tasks differ, and nobody who is ready is forgotten. -/
theorem Tends.of_tasks (ht : t.tasks = s.tasks) (hr : ∀ i ∈ s.loop.ready, i ∈ t.loop.ready) (hp : t.queue.parked = s.queue.parked) :
    Tends own s t :=
  ⟨fun _ _ _ hx => .inl (ht ▸ hx), hr, fun _ hi => .inl (hp ▸ hi), fun _ y _ hy hr => .inr ⟨y, ht ▸ hy, hr⟩⟩

theorem pausing_tends (s : Scheduler) (task : TaskId) (id : JobId) (pause : Pause) (phase : Phase) :
    Tends (some task) s (s.pausing task id pause phase) := by
  have hwork : Tends (some task) s _ := .retask s fun x => { x with work := .job id phase }
  refine hwork.trans ?_
  cases pause with
  | turn => exact .of_tasks rfl (fun _ => List.mem_append_left _) rfl
  | sleep | gate | token => exact (Tends.retask _ _).trans (.of_tasks rfl (fun _ h => h) rfl)

/-- A task that is let wait is ready again or waits. -/
theorem pausing_task {x : Task} (hx : s.tasks[task]? = some x) (id : JobId) (pause : Pause) (phase : Phase) :
    ∃ y, (s.pausing task id pause phase).tasks[task]? = some y ∧ y.work = .job id phase ∧ y.killed = x.killed ∧
      (y.turn = .ready → task ∈ (s.pausing task id pause phase).loop.ready) := by
  have hwork : (s.tasks.modify task fun x => { x with work := .job id phase })[task]? =
      some { x with work := .job id phase } := by
    rw [List.getElem?_modify_eq, hx]
    rfl
  have hwait : ∀ a, ((s.tasks.modify task fun x => { x with work := .job id phase }).modify task
      fun x => { x with turn := .waiting a })[task]? = some { x with work := .job id phase, turn := .waiting a } := fun a => by
    rw [List.getElem?_modify_eq, hwork]
    rfl
  cases pause with
  | turn => exact ⟨_, hwork, rfl, rfl, fun _ => List.mem_append_right _ (List.mem_singleton_self task)⟩
  | sleep | gate | token => exact ⟨_, hwait _, rfl, rfl, fun h => by cases h⟩

theorem retire_task {x : Task} (hx : s.tasks[task]? = some x) : (s.retire task).tasks[task]? = some { x with turn := .over } := by
  change (s.tasks.modify task _)[task]? = _
  rw [List.getElem?_modify_eq, hx]
  rfl

/-- A task that is over stays over. -/
theorem Tends.over {x : Task} (h : Tends none s t) (hx : s.tasks[task]? = some x) (hover : x.turn = .over) :
    t.tasks[task]? = some x := by
  have hwoken : x.woken = x := by rw [Task.woken, if_pos hover]
  rcases h.tasks task x (by simp) hx with h | h
  · exact h
  · rwa [hwoken] at h

/-- A task that is not over goes on. -/
theorem Tends.lives {k : TaskId} (h : Tends none s t) (hl : s.Lives k id) : t.Lives k id := by
  obtain ⟨x, hx, ho, hlive⟩ := hl
  rcases h.tasks k x (by simp) hx with h | h
  · exact ⟨x, h, ho, hlive⟩
  · refine ⟨x.woken, h, by rw [woken_work]; exact ho, ?_⟩
    rw [Task.woken, if_neg hlive]
    exact fun h => by cases h

/-! ## The turn of a job -/

theorem TurnOf.tends (hN : N.Tends) (h : TurnOf N task id phase killed s t) : Tends (some task) s t := by
  cases h with
  | waits _ hw => exact (hw.tends hN).trans (pausing_tends _ _ _ _ _)
  | ends _ hw hc ht hv => exact ((((hw.tends hN).trans (hc.tends hN)).trans (.retask _ _)).trans (.touches ht)).trans (hv.tends hN)
  | stops _ hw hc hv => exact (((hw.tends hN).trans (.retask _ _)).trans (hc.tends hN)).trans (hv.tends hN)

/-- After its turn a task waits, is ready again, or is over. -/
theorem TurnOf.after (hN : N.Tends) (h : TurnOf N task id phase killed s t) {x : Task} (hx : s.tasks[task]? = some x) :
    ∃ y, t.tasks[task]? = some y ∧ (y.turn = .ready → task ∈ t.loop.ready) := by
  have played : ∀ {s t : Scheduler} {x : Task}, Tends none s t → s.tasks[task]? = some x → ∃ y, t.tasks[task]? = some y :=
    fun h hx => (h.tasks task _ (by simp) hx).elim (⟨_, ·⟩) (⟨_, ·⟩)
  cases h with
  | waits _ hw =>
    obtain ⟨y, hy⟩ := played (hw.tends hN) hx
    obtain ⟨z, hz, -, -, hr⟩ := pausing_task hy id _ _
    exact ⟨z, hz, hr⟩
  | ends _ hw hc ht hv =>
    obtain ⟨y, hy⟩ := played ((hw.tends hN).trans (hc.tends hN)) hx
    exact ⟨_, Tends.over ((Tends.touches ht).trans (hv.tends hN)) (retire_task hy) rfl, fun h => by cases h⟩
  | stops _ hw hc hv =>
    obtain ⟨y, hy⟩ := played (hw.tends hN) hx
    exact ⟨_, Tends.over ((hc.tends hN).trans (hv.tends hN)) (retire_task hy) rfl, fun h => by cases h⟩

/-! ## Runs -/

/-- Whoever is ready will take its turn, but for the task whose turn it is. -/
def Alert (own : Option TaskId) (s : Scheduler) : Prop :=
  ∀ (i : TaskId) (x : Task), own ≠ some i → s.tasks[i]? = some x → x.turn = .ready → i ∈ s.loop.ready

theorem Alert.tends (ha : Alert own s) (h : Tends own s t) : Alert own t := fun i y hi hy hr => by
  rcases h.alert i y hi hy hr with h' | ⟨x, hx, hr'⟩
  · exact h'
  · exact h.ready i (ha i x hi hx hr')

/-- All are alert if the one whose turn it was is. -/
theorem Alert.whole (ha : Alert (some task) s) (h : ∀ x, s.tasks[task]? = some x → x.turn = .ready → task ∈ s.loop.ready) :
    Alert none s := fun i x _ hx hr => by
  by_cases hi : i = task
  · subst hi
    exact h x hx hr
  · exact ha i x (fun h => hi (Option.some.inj h).symm) hx hr

theorem next?_ready (h : s.loop.next? = some (task, l)) : s.loop.ready = task :: l.ready := by
  unfold Loop.next? at h
  split at h
  · cases h
  · rename_i hr
    cases h
    exact hr

/-- The task that is next leaves those that are ready. -/
theorem Alert.next (ha : Alert none s) (hnext : s.loop.next? = some (task, l)) : Alert (some task) { s with loop := l } :=
  fun i x hi hx hr => by
    have hm := ha i x (by simp) hx hr
    rw [next?_ready hnext] at hm
    exact (List.mem_cons.mp hm).resolve_left fun h => hi (congrArg some h.symm)

theorem fire?_ready {action : TimerAction} {time : Nat} (h : s.loop.fire? time = some (action, l)) : l.ready = s.loop.ready := by
  unfold Loop.fire? at h
  split at h
  · cases h
  · split at h
    · cases h
      rfl
    · cases h

theorem Kills.alert (h : Kills task s t) (ha : Alert none s) : Alert none t := by
  cases h with
  | @ready x hx hturn =>
    have hdoomed : Alert (some task) (s.doomed task) :=
      Alert.tends (fun i x _ => ha i x (by simp)) (Tends.retask s fun x => { x with killed := true })
    exact hdoomed.whole fun _ _ _ => ha task x (by simp) hx hturn
  | @waiting x a hx hturn =>
    have hdoomed : Alert (some task) (s.doomed task) :=
      Alert.tends (fun i x _ => ha i x (by simp)) (Tends.retask s fun x => { x with killed := true })
    have hwithdrawn : Alert (some task) ((s.doomed task).withdrawn task a) := by cases a <;> exact hdoomed
    exact (hwithdrawn.tends (.rousing _ [task])).whole fun _ _ _ => List.mem_append_right _ (List.mem_singleton_self task)

theorem idling_tends (s : Scheduler) (task : TaskId) (name : String) (parked killed : Bool) :
    Tends (some task) s (s.idling task name parked killed) := by
  rcases idling_cases s task name parked killed with ⟨-, h⟩ | ⟨-, -, h⟩ | ⟨-, -, -, h⟩ <;> rw [h]
  · exact .retask s _
  · exact (Tends.retask s _).trans (.of_unmoved (.noted _))
  · have hretask : Tends (some task) s _ := .retask s fun x => { x with work := .waitIdle name true, turn := .waiting .idle }
    exact { hretask with parked := fun i hi => .inl (List.mem_append_left _ hi) }

/-- After its turn a task that waits for the queue to be idle waits or is over. -/
theorem idling_task {x : Task} (hx : s.tasks[task]? = some x) (name : String) (parked killed : Bool) :
    ∃ y, (s.idling task name parked killed).tasks[task]? = some y ∧ y.turn ≠ .ready := by
  rcases idling_cases s task name parked killed with ⟨-, h⟩ | ⟨-, -, h⟩ | ⟨-, -, -, h⟩ <;> rw [h]
  · exact ⟨_, retire_task hx, fun h => by cases h⟩
  · exact ⟨_, retire_task hx, fun h => by cases h⟩
  · refine ⟨{ x with work := .waitIdle name true, turn := .waiting .idle }, ?_, fun h => by cases h⟩
    change (s.tasks.modify task _)[task]? = _
    rw [List.getElem?_modify_eq, hx]
    rfl

theorem Deed.alert (hN : N.Tends) (h : Deed N (Does N) s t) (ha : Alert none s) : Alert none t := by
  have heeds : ∀ {task l}, s.loop.next? = some (task, l) → Alert (some task) (heeding { s with loop := l } task) :=
    fun hnext => Alert.tends (ha.next hnext) (.retask _ _)
  have heeded : ∀ {task l x}, s.tasks[task]? = some x →
      (heeding { s with loop := l } task).tasks[task]? = some { x with killed := false } := fun hx => heeding_task hx
  -- A task is in the order of turns as long as it is ready; it leaves it only for its turn, after which it is ready no longer.
  cases h with
  | does h => exact ha.tends (h.tends hN)
  | kills h => exact h.alert ha
  | annotates => exact ha.tends (.of_unmoved (.update fun _ _ hi => hi))
  | joins name => exact ha.tends (.spawn s _)
  | rests hnext hover =>
    refine (ha.next hnext).whole fun x hx hr => ?_
    rw [hover x hx] at hr
    cases hr
  | drops hnext hx =>
    refine ((heeds hnext).tends (.retask _ _)).whole fun y hy hr => ?_
    cases (retire_task (heeded hx)).symm.trans hy
    cases hr
  | plays hnext hx _ _ _ _ hturn =>
    obtain ⟨y, hy, hready⟩ := hturn.after hN (heeded hx)
    refine ((heeds hnext).tends (hturn.tends hN)).whole fun z hz hr => ?_
    cases hy.symm.trans hz
    exact hready hr
  | waits hnext hx =>
    obtain ⟨y, hy, hready⟩ := idling_task (heeded hx) _ _ _
    refine ((heeds hnext).tends (idling_tends _ _ _ _ _)).whole fun z hz hr => ?_
    cases hy.symm.trans hz
    exact absurd hr hready
  | @expires id time l b t hfire h =>
    have hl : Alert none { s with loop := l } := fun i x hi hx hr => (fire?_ready hfire).symm ▸ ha i x hi hx hr
    exact hl.tends (h.tends hN)
  | @wakes task time l hfire =>
    have hl : Alert none { s with loop := l } := fun i x hi hx hr => (fire?_ready hfire).symm ▸ ha i x hi hx hr
    exact hl.tends (.rousing _ _)
  | moveTo => exact ha

/-- However deep listeners may act, telling them forgets no task. -/
theorem notifyUpTo_tends (depth : Nat) : Tells (Along fun _ _ _ => Scheduler.Tends none) (notifyUpTo depth) :=
  Tends.carried.tells depth

theorem Runs.alert {settings : Settings} {store : Store} {directory : String} {budget : Nat}
    (h : Runs (start settings store directory budget) s) : Alert none s := by
  induction h with
  | refl => exact fun i x _ hx => by cases hx
  | tail hrow h ih =>
    obtain ⟨hs, ht, -⟩ := Runs.basics hrow
    exact (h.deed notifyUpTo_tends hs ht).alert (fun _ _ _ _ _ h => h) ih

end Scheduler

end MediaEngine
