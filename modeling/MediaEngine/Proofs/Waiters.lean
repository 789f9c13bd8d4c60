import MediaEngine.Proofs.Alert
import MediaEngine.Proofs.Freeing
import MediaEngine.Proofs.Relief

/-! # Waiting for the queue to be idle

Whoever comes to wait for the queue to be idle goes through a few stages (`Task.Stage`), and a step of a run takes
it from one to the next or leaves it where it is (`Proceeds`). It goes on in a step in which the queue is idle at
some moment, and then all go on who wait for that (`Relief`). -/

namespace MediaEngine
open Job

namespace Task

/-- How far a task is that came to wait for the queue to be idle. -/
inductive Stage where
  /-- It has not looked yet whether the queue is idle. -/
  | arriving
  | parked
  /-- It waits no longer, as the queue was idle, and has not taken its turn yet. -/
  | released
  /-- It was cancelled, and learns of it in its turn. -/
  | cancelled
  | over
  deriving DecidableEq

def stage (x : Task) : Stage :=
  match x.turn with
  | .over => .over
  | .waiting _ => .parked
  | .ready => if x.killed then .cancelled else
    match x.work with
    | .waitIdle _ true => .released
    | _ => .arriving

/-- Whether it waits no longer, and will not do so again. -/
def Stage.isPast : Stage → Bool
  | .released | .cancelled | .over => true
  | .arriving | .parked => false

theorem stage_ready {x : Task} (h : x.turn = .ready) : x.stage = if x.killed then .cancelled else
    match x.work with
    | .waitIdle _ true => .released
    | _ => .arriving := by rw [stage, h]

/-- Whoever is ready neither waits nor is over. -/
theorem stage_of_ready {x : Task} (h : x.turn = .ready) : x.stage ≠ .parked ∧ x.stage ≠ .over := by
  rw [stage_ready h]
  split
  · decide
  · split <;> decide

theorem stage_parked {x : Task} : x.stage = .parked ↔ ∃ a, x.turn = .waiting a := by
  cases h : x.turn with
  | «over» => simp [stage, h]
  | waiting a => simp [stage, h]
  | ready => simp [stage_of_ready h]

theorem turn_ready {x : Task} : x.turn = .ready ↔ ¬ (x.stage = .parked ∨ x.stage = .over) := by
  cases h : x.turn with
  | «over» => simp [stage, h]
  | waiting a => simp [stage, h]
  | ready => simp [stage_of_ready h]

/-- A task that waits for the queue to be idle, once it does so no longer. -/
theorem stage_woken {x : Task} {a : Await} {name : String} (hturn : x.turn = .waiting a) (hkilled : x.killed = false)
    (hwork : x.work = .waitIdle name true) : x.woken.stage = .released := by
  simp [woken, stage, hturn, hkilled, hwork]

end Task

namespace Scheduler
variable {s t u : Scheduler} {task i : TaskId} {freed : List TaskId} {N : Telling}

/-- How far the task of a number is, if it came to wait for the queue to be idle. -/
def stage? (s : Scheduler) (i : TaskId) : Option Task.Stage := (s.waiter? i).map Task.stage

/-- From the one state to the other the queue is idle at some moment, and all go on together who waited for that. -/
structure Relief (s t : Scheduler) : Prop where
  idle : ∃ m, Moments s m ∧ m.queue.isIdle = true ∧ Moments m t
  together : ∀ i ∈ s.queue.parked, t.stage? i = some .released
  gone : t.queue.parked = []

/-- From the one state to the other a task that waits for the queue to be idle comes to the next stage, or stays. -/
inductive Proceeds (s t : Scheduler) (i : TaskId) : Prop
  | rests : t.stage? i = s.stage? i → Proceeds s t i
  | joins : s.stage? i = none → t.stage? i = some .arriving → Proceeds s t i
  | passes : s.stage? i = some .arriving → s.queue.isIdle = true → t.stage? i = some .over → Proceeds s t i
  | parks : s.stage? i = some .arriving → s.queue.isIdle = false → t.stage? i = some .parked → Proceeds s t i
  | released : s.stage? i = some .parked → Relief s t → t.stage? i = some .released → Proceeds s t i
  | returns : s.stage? i = some .released → t.stage? i = some .over → Proceeds s t i
  | cancelled : Kills i s t → t.stage? i = some .cancelled → Proceeds s t i
  | learns : s.stage? i = some .cancelled → t.stage? i = some .over → Proceeds s t i

/-! ## What holds of those who wait -/

/-- A task has the place it should have: it takes one turn if it is ready, and if it waits it does so for the queue to be
    idle. -/
structure Attends (s : Scheduler) (i : TaskId) (x : Task) : Prop where
  ready : s.loop.ready.count i = if x.turn = .ready then 1 else 0
  parked : i ∈ s.queue.parked ↔ ∃ a, x.turn = .waiting a
  waits : ∀ a, x.turn = .waiting a → a = .idle ∧ x.killed = false ∧ ∃ name, x.work = .waitIdle name true

/-- All who wait for the queue to be idle have their place, once, and nobody else has one. -/
structure Vigil (s : Scheduler) : Prop where
  benign : Benign s
  once : s.queue.parked.Nodup
  strangers : ∀ i, s.tasks[i]? = none → s.loop.ready.count i = 0
  attends : ∀ i x, s.waiter? i = some x → Attends s i x

theorem tasks_eq_none : s.tasks[i]? = none ↔ s.waiter? i = none ∧ s.phase? i = none := by
  unfold waiter? phase?
  cases s.tasks[i]? with
  | none => simp
  | some x => cases h : x.work.phase? <;> simp [Option.filter, h]

/-- Whoever is parked waits for the queue to be idle. -/
theorem Vigil.parked (hv : Vigil s) (hi : i ∈ s.queue.parked) :
    ∃ x name, s.waiter? i = some x ∧ x.turn = .waiting .idle ∧ x.killed = false ∧ x.work = .waitIdle name true := by
  obtain ⟨x, hx⟩ := Option.isSome_iff_exists.mp (hv.benign.parked i hi)
  obtain ⟨a, ha⟩ := (hv.attends i x hx).parked.mp hi
  obtain ⟨rfl, hkilled, name, hwork⟩ := (hv.attends i x hx).waits a ha
  exact ⟨x, name, hx, ha, hkilled, hwork⟩

theorem Vigil.parked_iff (hv : Vigil s) : i ∈ s.queue.parked ↔ s.stage? i = some .parked := by
  constructor
  · intro hi
    obtain ⟨x, name, hx, hturn, -⟩ := hv.parked hi
    rw [stage?, hx]
    exact congrArg some (Task.stage_parked.mpr ⟨_, hturn⟩)
  · intro h
    obtain ⟨x, hx, hst⟩ := Option.map_eq_some_iff.mp h
    exact (hv.attends i x hx).parked.mpr (Task.stage_parked.mp hst)

namespace Frees

theorem same (h : Frees freed s t) (hi : i ∉ freed) : t.waiter? i = s.waiter? i := by
  rw [h.waiters, stirred, if_neg hi, Option.map_id']

theorem parked_same (h : Frees freed s t) (hi : i ∉ freed) : i ∈ t.queue.parked ↔ i ∈ s.queue.parked := by
  rcases h.parked with ⟨-, hp⟩ | ⟨rfl, hp, -⟩
  · rw [hp]
  · rw [hp]
    exact iff_of_false List.not_mem_nil hi

theorem count (h : Frees freed s t) {x : Task} (hx : s.waiter? i = some x) :
    t.loop.ready.count i = s.loop.ready.count i + freed.count i := by
  refine h.ready i (Option.not_isSome_iff_eq_none.mp fun hjob => ?_)
  have hno := waiter?_of_phase hjob
  rw [h.waiters, hx] at hno
  cases hno

/-- A number that stands for no task did not before, and nobody of this number is let go on. -/
theorem stranger (h : Frees freed s t) (hb : Benign s) (hi : t.tasks[i]? = none) :
    s.tasks[i]? = none ∧ t.loop.ready.count i = s.loop.ready.count i := by
  obtain ⟨hw, hp⟩ := tasks_eq_none.mp hi
  rw [h.waiters, Option.map_eq_none_iff] at hw
  have hp' : s.phase? i = none := Option.not_isSome_iff_eq_none.mp fun hjob => by
    have := h.phases i hjob
    rw [hp] at this
    cases this
  have hfree : i ∉ freed := fun hm => by
    rcases h.parked with ⟨rfl, -⟩ | ⟨rfl, -⟩
    · cases hm
    · have := hb.parked i hm
      rw [hw] at this
      cases this
  refine ⟨tasks_eq_none.mpr ⟨hw, hp'⟩, ?_⟩
  rw [h.ready i hp, List.count_eq_zero.mpr hfree]
  rfl

/-- Whoever is let go on is ready once, as it was parked once. -/
theorem released (h : Frees freed s t) (hv : Vigil s) (hi : i ∈ freed) :
    ∃ y, t.waiter? i = some y ∧ Attends t i y ∧ y.stage = .released := by
  rcases h.parked with ⟨rfl, -⟩ | ⟨rfl, hp, -⟩
  · cases hi
  · obtain ⟨x, name, hx, hturn, hkilled, hwork⟩ := hv.parked hi
    have hready : x.woken.turn = .ready := by simp [Task.woken, hturn]
    refine ⟨x.woken, ?_, ⟨?_, ?_, fun a ha => ?_⟩, Task.stage_woken hturn hkilled hwork⟩
    · rw [h.waiters, hx, stirred, if_pos hi]
      rfl
    · rw [h.count hx, (hv.attends i x hx).ready, hv.once.count, if_pos hi, if_pos hready, hturn]
      rfl
    · rw [hp, hready]
      simp
    · cases hready.symm.trans ha

/-- Where those are let go on who wait for the queue to be idle, or are not, each proceeds, and has its place. -/
theorem tended (h : Frees freed s t) (hv : Vigil s) : Vigil t ∧ ∀ i, Proceeds s t i := by
  have honce : t.queue.parked.Nodup := by
    rcases h.parked with ⟨-, hp⟩ | ⟨-, hp, -⟩
    · exact hp ▸ hv.once
    · exact hp ▸ List.nodup_nil
  refine ⟨⟨h.benign, honce, fun i hi => ?_, fun i y hy => ?_⟩, fun i => ?_⟩
  · obtain ⟨hs, hc⟩ := h.stranger hv.benign hi
    rw [hc]
    exact hv.strangers i hs
  · by_cases hi : i ∈ freed
    · obtain ⟨z, hz, hplace, -⟩ := h.released hv hi
      cases hz.symm.trans hy
      exact hplace
    · rw [h.same hi] at hy
      have hplace := hv.attends i y hy
      refine ⟨?_, (h.parked_same hi).trans hplace.parked, hplace.waits⟩
      rw [h.count hy, List.count_eq_zero.mpr hi]
      exact hplace.ready
  · by_cases hi : i ∈ freed
    · have hstage : ∀ k ∈ freed, t.stage? k = some .released := fun k hk => by
        obtain ⟨y, hy, -, hst⟩ := h.released hv hk
        rw [stage?, hy]
        exact congrArg some hst
      rcases h.parked with ⟨rfl, -⟩ | ⟨rfl, hp, hidle⟩
      · cases hi
      · exact .released (hv.parked_iff.mp hi) ⟨hidle, hstage, hp⟩ (hstage i hi)
    · exact .rests (by rw [stage?, h.same hi]; rfl)

end Frees

/-! ## What one of those who wait does -/

/-- All but one of those who wait for the queue to be idle are left alone. -/
structure Besides (task : TaskId) (s t : Scheduler) : Prop where
  benign : Benign t
  once : t.queue.parked.Nodup
  strangers : ∀ i, t.tasks[i]? = none → s.tasks[i]? = none ∧ i ≠ task
  waiters : ∀ i, i ≠ task → t.waiter? i = s.waiter? i
  ready : ∀ i, i ≠ task → t.loop.ready.count i = s.loop.ready.count i
  parked : ∀ i, i ≠ task → (i ∈ t.queue.parked ↔ i ∈ s.queue.parked)

/-- If one of those who wait has its place afterwards and came to the next stage, all have and did. -/
theorem Besides.tended (h : Besides task s t) (hv : Vigil s) {y : Task} (hy : t.waiter? task = some y) (hplace : Attends t task y)
    (hstage : Proceeds s t task) : Vigil t ∧ ∀ i, Proceeds s t i := by
  refine ⟨⟨h.benign, h.once, fun i hi => ?_, fun i x hx => ?_⟩, fun i => ?_⟩
  · obtain ⟨hs, hne⟩ := h.strangers i hi
    rw [h.ready i hne]
    exact hv.strangers i hs
  · by_cases hi : i = task
    · subst hi
      cases hy.symm.trans hx
      exact hplace
    · have hold := hv.attends i x (h.waiters i hi ▸ hx)
      exact ⟨(h.ready i hi).trans hold.ready, (h.parked i hi).trans hold.parked, hold.waits⟩
  · by_cases hi : i = task
    · exact hi ▸ hstage
    · exact .rests (by rw [stage?, h.waiters i hi]; rfl)

theorem joins_tended (hv : Vigil s) (name : String) :
    Vigil (s.spawn (.waitIdle name false)) ∧ ∀ i, Proceeds s (s.spawn (.waitIdle name false)) i := by
  have hnew : s.tasks[s.tasks.length]? = none := List.getElem?_eq_none (Nat.le_refl _)
  have hwaiter : (s.spawn (.waitIdle name false)).waiter? s.tasks.length = some ⟨.waitIdle name false, .ready, false⟩ := by
    rw [waiter?_spawn, if_pos rfl]
    rfl
  have hcount : ∀ i, (s.loop.ready ++ [s.tasks.length]).count i = s.loop.ready.count i + if i = s.tasks.length then 1 else 0 := by
    intro i
    rw [List.count_append, List.count_singleton]
    by_cases hi : i = s.tasks.length
    · rw [if_pos hi, if_pos (by simp [hi])]
    · rw [if_neg hi, if_neg (by simpa using Ne.symm hi)]
  -- The new task is the last one, and in the order of turns once.
  have hbesides : Besides s.tasks.length s (s.spawn (.waitIdle name false)) := by
    refine ⟨hv.benign.spawn _, hv.once, fun i hi => ?_, fun i hi => ?_, fun i hi => ?_, fun _ _ => .rfl⟩
    · have hlen : (s.spawn (.waitIdle name false)).tasks.length ≤ i := List.getElem?_eq_none_iff.mp hi
      rw [show (s.spawn _).tasks.length = s.tasks.length + 1 from List.length_append] at hlen
      exact ⟨List.getElem?_eq_none (Nat.le_of_succ_le hlen), Nat.ne_of_gt hlen⟩
    · rw [waiter?_spawn, if_neg hi]
    · exact (hcount i).trans (by rw [if_neg hi]; rfl)
  refine hbesides.tended hv hwaiter ⟨?_, iff_of_false (fun hp => ?_) (by simp), fun _ h => by cases h⟩ (.joins ?_ ?_)
  · refine (hcount _).trans ?_
    rw [hv.strangers _ hnew, if_pos rfl]
    rfl
  · have := waiter?_lt (hv.benign.parked _ hp)
    exact Nat.lt_irrefl _ this
  · rw [stage?, waiter?, hnew]
    rfl
  · rw [stage?, hwaiter]
    rfl

/-- Only one of those who wait differs, and where it is parked and in the order of turns. -/
theorem Besides.of_task (hv : Vigil s) {x y : Task} (hx : s.waiter? task = some x) (hy : t.waiter? task = some y)
    (hothers : ∀ i, i ≠ task → t.tasks[i]? = s.tasks[i]?) (hjobs : t.queue.jobs = s.queue.jobs) (honce : t.queue.parked.Nodup)
    (hparked : ∀ i, i ≠ task → (i ∈ t.queue.parked ↔ i ∈ s.queue.parked)) (hgates : t.loop.atGates = s.loop.atGates)
    (htimers : t.loop.timers = s.loop.timers) (hready : ∀ i, i ≠ task → t.loop.ready.count i = s.loop.ready.count i) :
    Besides task s t := by
  have hphase : ∀ i, (s.phase? i).isSome → (t.phase? i).isSome := fun i hi => by
    have hne : i ≠ task := fun h => by
      have := waiter?_of_phase (h ▸ hi)
      rw [hx] at this
      cases this
    rwa [phase?, hothers i hne]
  have hwaiter : ∀ i, i ≠ task → t.waiter? i = s.waiter? i := fun i hi => by
    rw [waiter?, hothers i hi]
    rfl
  refine ⟨⟨fun p hp => ?_, fun timer hm i ha => ?_, fun j hj i hi => ?_, fun i hi => ?_⟩, honce, fun i hi => ?_, hwaiter, hready,
    hparked⟩
  · exact hphase _ (hv.benign.gates p (hgates ▸ hp))
  · exact hphase i (hv.benign.timers timer (htimers ▸ hm) i ha)
  · exact hphase i (hv.benign.tokens j (hjobs ▸ hj) i hi)
  · by_cases hit : i = task
    · rw [hit, hy]
      rfl
    · rw [hwaiter i hit]
      exact hv.benign.parked i ((hparked i hit).mp hi)
  · have hne : i ≠ task := fun hit => by
      rw [hit, (waiter?_eq_some.mp hy).1] at hi
      cases hi
    exact ⟨hothers i hne ▸ hi, hne⟩

/-- Whoever is next is ready, and takes its only turn. -/
theorem Vigil.next (hv : Vigil s) {x : Task} (hx : s.waiter? task = some x) {l : Loop TimerAction}
    (hnext : s.loop.next? = some (task, l)) : x.turn = .ready ∧ l.ready.count task = 0 := by
  have hcount := (hv.attends task x hx).ready
  rw [next?_ready hnext, List.count_cons_self] at hcount
  split at hcount
  · rename_i hturn
    exact ⟨hturn, by omega⟩
  · omega

theorem next?_same {l : Loop TimerAction} (hnext : s.loop.next? = some (task, l)) :
    l.atGates = s.loop.atGates ∧ l.timers = s.loop.timers ∧ ∀ i, i ≠ task → l.ready.count i = s.loop.ready.count i := by
  refine ⟨?_, ?_, fun i hi => by rw [next?_ready hnext, List.count_cons_of_ne (Ne.symm hi)]⟩ <;>
    unfold Loop.next? at hnext <;> split at hnext <;> cases hnext <;> rfl

/-- The turn of a task that came to wait for the queue to be idle. -/
theorem idling_tended (hv : Vigil s) {x : Task} {l : Loop TimerAction} {name : String} {parked : Bool}
    (hnext : s.loop.next? = some (task, l)) (hx : s.tasks[task]? = some x) (hwork : x.work = .waitIdle name parked) :
    Vigil ((heeding { s with loop := l } task).idling task name parked x.killed) ∧
      ∀ i, Proceeds s ((heeding { s with loop := l } task).idling task name parked x.killed) i := by
  let v := heeding { s with loop := l } task
  have hw : s.waiter? task = some x := waiter?_eq_some.mpr ⟨hx, by rw [hwork]; rfl⟩
  obtain ⟨hturn, hzero⟩ := hv.next hw hnext
  obtain ⟨hgates, htimers, hready⟩ := next?_same hnext
  have hfree : task ∉ s.queue.parked := fun hp => by
    obtain ⟨a, ha⟩ := (hv.attends task x hw).parked.mp hp
    rw [hturn] at ha
    cases ha
  have hstage : s.stage? task = some x.stage := by rw [stage?, hw]; rfl
  have hv' : v.tasks[task]? = some { x with killed := false } := heeding_task (s := { s with loop := l }) hx
  -- However the turn goes, only this task changes, so only this one has to be placed anew.
  have tended : ∀ {t : Scheduler} {g : Task → Task}, t.tasks = v.tasks.modify task g → t.loop = l → t.queue.jobs = s.queue.jobs →
      t.queue.parked.Nodup → (∀ i, i ≠ task → (i ∈ t.queue.parked ↔ i ∈ s.queue.parked)) →
      (g { x with killed := false }).work.phase? = none → Attends t task (g { x with killed := false }) →
      (t.stage? task = some (g { x with killed := false }).stage → Proceeds s t task) → Vigil t ∧ ∀ i, Proceeds s t i := by
    intro t g ht hl hjobs honce hparked hg hplace hproceeds
    have hy : t.waiter? task = some (g { x with killed := false }) := by
      refine waiter?_eq_some.mpr ⟨?_, hg⟩
      rw [ht, List.getElem?_modify_eq, hv']
      rfl
    have hothers : ∀ i, i ≠ task → t.tasks[i]? = s.tasks[i]? := fun i hi => by
      rw [ht, List.getElem?_modify_ne _ _ (Ne.symm hi)]
      exact List.getElem?_modify_ne _ _ (Ne.symm hi)
    have hbesides : Besides task s t := .of_task hv hw hy hothers hjobs honce hparked (hl ▸ hgates) (hl ▸ htimers) (hl ▸ hready)
    exact hbesides.tended hv hy hplace (hproceeds (by rw [stage?, hy]; rfl))
  have gone : ∀ {t : Scheduler}, t.tasks = (v.retire task).tasks → t.loop = l → t.queue = s.queue →
      (t.stage? task = some .over → Proceeds s t task) → Vigil t ∧ ∀ i, Proceeds s t i := fun ht hl hq hproceeds =>
    tended ht hl (congrArg _ hq) (hq ▸ hv.once) (fun _ _ => by rw [hq]) (by rw [hwork]; rfl)
      ⟨by rw [hl]; exact hzero, by rw [hq]; exact iff_of_false hfree (by simp), fun a ha => by cases ha⟩ hproceeds
  -- It learns that it was cancelled, finds the queue idle, or goes on waiting.
  rcases idling_cases v task name parked x.killed with ⟨hkilled, h⟩ | ⟨hkilled, hidle, h⟩ | ⟨hkilled, hparked, hbusy, h⟩ <;>
    rw [h]
  · refine gone rfl rfl rfl (.learns ?_)
    rw [hstage, Task.stage_ready hturn, hkilled]
    rfl
  · refine gone rfl rfl rfl ?_
    cases parked with
    | true =>
      refine .returns ?_
      rw [hstage, Task.stage_ready hturn, hkilled, hwork]
      rfl
    | false =>
      refine .passes ?_ (hidle.resolve_left (by decide))
      rw [hstage, Task.stage_ready hturn, hkilled, hwork]
      rfl
  · have hnodup : (s.queue.parked ++ [task]).Nodup := List.nodup_append_comm.mp (List.nodup_cons.mpr ⟨hfree, hv.once⟩)
    refine tended (t := v.parking task name) rfl rfl rfl hnodup (fun i hi => ?_) rfl
      ⟨hzero, iff_of_true (List.mem_append_right _ (List.mem_singleton_self _)) ⟨_, rfl⟩, fun a ha => ?_⟩ (.parks ?_ hbusy)
    · change i ∈ s.queue.parked ++ [task] ↔ _
      simp [hi]
    · cases ha
      exact ⟨rfl, rfl, name, rfl⟩
    · rw [hstage, Task.stage_ready hturn, hkilled, hwork, hparked]
      rfl

/-- Cancelling the task of a job leaves those alone who wait for the queue to be idle. -/
theorem Kills.moved (h : Kills task s t) : Moved task s t := by
  have hdoomed : Moved task s (s.doomed task) := .retask fun _ h => h
  cases h with
  | ready => exact hdoomed
  | @waiting x a _ _ =>
    have hwithdrawn : Moved task (s.doomed task) ((s.doomed task).withdrawn task a) := by
      cases a with
      | gate => exact { Moved.refl _ with atGates := fun _ hp => .inl (List.mem_of_mem_filter hp) }
      | timer => exact { Moved.refl _ with timers := fun _ hm _ _ => .inl (List.mem_of_mem_filter hm) }
      | idle => exact { Moved.refl _ with parked := fun hp => List.erase_of_not_mem hp }
      | token id =>
        refine { Moved.refl _ with tokens := fun j hj i hi => ?_ }
        obtain ⟨k, hk, rfl⟩ := List.mem_map.mp hj
        refine .inl ⟨k, hk, ?_⟩
        split at hi
        · exact List.mem_of_mem_erase hi
        · exact hi
    have hroused : Moved task ((s.doomed task).withdrawn task a) (((s.doomed task).withdrawn task a).rousing [task]) :=
      .trans (.retask (g := Task.woken) fun x h => by rwa [woken_work]) .wake
    exact (hdoomed.trans hwithdrawn).trans hroused

/-- One of those who wait for the queue to be idle is cancelled. -/
theorem Kills.tended (h : Kills task s t) (hv : Vigil s) {x : Task} (hx : s.waiter? task = some x) :
    Vigil t ∧ ∀ i, Proceeds s t i := by
  have hplace := hv.attends task x hx
  have htask := (waiter?_eq_some.mp hx).1
  have hno := (waiter?_eq_some.mp hx).2
  have hkill := h
  have hdoomed : (s.doomed task).tasks[task]? = some { x with killed := true } := by
    change (s.tasks.modify task _)[task]? = _
    rw [List.getElem?_modify_eq, htask]
    rfl
  have hothers : ∀ i, i ≠ task → (s.doomed task).tasks[i]? = s.tasks[i]? := fun i hi => List.getElem?_modify_ne _ _ (Ne.symm hi)
  cases h with
  | @ready y hy hturn =>
    cases htask.symm.trans hy
    have hdoom : (s.doomed task).waiter? task = some { x with killed := true } := waiter?_eq_some.mpr ⟨hdoomed, hno⟩
    have hbesides : Besides task s (s.doomed task) :=
      .of_task hv hx hdoom hothers rfl hv.once (fun _ _ => .rfl) rfl rfl fun _ _ => rfl
    refine hbesides.tended hv hdoom ⟨hplace.ready, hplace.parked, fun a ha => ?_⟩ (.cancelled hkill ?_)
    · cases hturn.symm.trans ha
    · rw [stage?, hdoom]
      exact congrArg some (Task.stage_ready (x := { x with killed := true }) hturn)
  | @waiting y a hy hturn =>
    cases htask.symm.trans hy
    obtain ⟨rfl, -⟩ := hplace.waits a hturn
    -- A task that waits gives up its place and is woken to learn of it.
    let t := ((s.doomed task).withdrawn task .idle).rousing [task]
    have hparked : t.queue.parked = s.queue.parked.erase task := rfl
    have hready : ∀ i, t.loop.ready.count i = s.loop.ready.count i + [task].count i := fun _ => List.count_append
    have htask : t.waiter? task = some { x with turn := .ready, killed := true } := by
      refine waiter?_eq_some.mpr ⟨?_, hno⟩
      rw [rousing_task, if_pos (List.mem_singleton_self task), show ((s.doomed task).withdrawn task .idle).tasks[task]? = _ from hdoomed]
      simp [Task.woken, hturn]
    have hrest : ∀ i, i ≠ task → t.tasks[i]? = s.tasks[i]? := fun i hi => by
      rw [rousing_task, if_neg (by simpa using hi)]
      exact hothers i hi
    have hbesides : Besides task s t := by
      refine .of_task hv hx htask hrest rfl (hv.once.erase task) (fun i hi => List.mem_erase_of_ne hi) rfl rfl fun i hi => ?_
      rw [hready, List.count_singleton, if_neg (by simpa using Ne.symm hi)]
      rfl
    refine hbesides.tended hv htask ⟨?_, iff_of_false hv.once.not_mem_erase (by simp), fun a ha => by cases ha⟩ (.cancelled hkill ?_)
    · rw [hready, hplace.ready, hturn, List.count_singleton_self]
      rfl
    · rw [stage?, htask]
      rfl

/-! ## Runs -/

theorem fire?_unmoved {action : TimerAction} {time : Nat} {l : Loop TimerAction} (h : s.loop.fire? time = some (action, l)) :
    Unmoved s { s with loop := l } := by
  have hgates : l.atGates = s.loop.atGates := by
    unfold Loop.fire? at h
    split at h
    · cases h
    · split at h <;> cases h
      rfl
  exact .loop (fire?_ready h) (fun _ hp => hgates ▸ hp) fun timer hm _ _ => (fire?_set h).2 timer hm

/-- In every step each task that came to wait for the queue to be idle proceeds, and has its place afterwards. -/
theorem Deed.tended (hN : N.Frees) (h : Deed N (Does N) s t) (hm : Moments s t) (hv : Vigil s) :
    Vigil t ∧ ∀ i, Proceeds s t i := by
  have job : ∀ {task x id phase}, s.tasks[task]? = some x → x.work = .job id phase → s.phase? task = some (id, phase) :=
    fun hx hwork => by rw [phase?, hx, Option.bind_some, hwork]; rfl
  cases h with
  | does h =>
    obtain ⟨_, hfrees⟩ := h.frees hN hv.benign
    exact hfrees.tended hv
  | @kills task t h =>
    cases hx : s.waiter? task with
    | some x => exact h.tended hv hx
    | none =>
      have hjob : (s.phase? task).isSome := by
        refine Option.isSome_iff_ne_none.mpr fun hno => ?_
        have hnone := tasks_eq_none.mpr ⟨hx, hno⟩
        cases h with
        | ready hy | waiting hy => cases hnone.symm.trans hy
      exact (h.moved.frees hjob hv.benign hm).tended hv
  | annotates id m => exact (Frees.of_unmoved hv.benign hm (.update fun _ _ hi => hi)).tended hv
  | joins name => exact joins_tended hv name
  | @rests task l hnext hover =>
    -- Whoever waits for the queue to be idle is not in the order of turns once it is over.
    have hother : ∀ {i x}, s.waiter? i = some x → i ≠ task := fun {i x} hx hi => by
      subst hi
      have hturn := (hv.next hx hnext).1
      rw [hover x (waiter?_eq_some.mp hx).1] at hturn
      cases hturn
    obtain ⟨hgates, htimers, hready⟩ := next?_same hnext
    have hbenign : Benign { s with loop := l } :=
      { hv.benign with gates := fun p hp => hv.benign.gates p (hgates ▸ hp), timers := fun _ hm => hv.benign.timers _ (htimers ▸ hm) }
    refine ⟨⟨hbenign, hv.once, fun i hi => ?_, fun i x hx => ?_⟩, fun _ => .rests rfl⟩
    · have hzero := hv.strangers i hi
      rw [next?_ready hnext] at hzero
      exact Nat.eq_zero_of_le_zero (hzero ▸ List.count_le_count_cons)
    · exact { hv.attends i x hx with ready := (hready i (hother hx)).trans (hv.attends i x hx).ready }
  | drops hnext hx _ hwork =>
    have hmoved := (Moved.next hnext).trans (.trans .heeding .retire)
    exact (hmoved.frees (by rw [job hx hwork]; rfl) hv.benign hm).tended hv
  | @plays task l x id phase j t hnext hx _ hwork _ _ hturn =>
    have hphase := job hx hwork
    have hjob : (s.phase? task).isSome := by rw [hphase]; rfl
    have hheed : Inert s (heeding { s with loop := l } task) := .turning hnext
    have hfirst := ((Moved.next hnext).trans .heeding).frees hjob hv.benign (.inert hheed)
    obtain ⟨_, hrest⟩ := hturn.frees hN ⟨phase, (hheed.phase task).trans hphase⟩ hfirst.benign
    exact (hfirst.trans hrest).tended hv
  | waits hnext hx _ hwork => exact idling_tended hv hnext hx hwork
  | @expires id time l b t hfire h =>
    have hfirst := Frees.of_unmoved hv.benign (.inert (.fired hfire)) (fire?_unmoved hfire)
    obtain ⟨_, hrest⟩ := h.frees hN hfirst.benign
    exact (hfirst.trans hrest).tended hv
  | @wakes task time l hfire =>
    have hfirst := Frees.of_unmoved hv.benign (.inert (.fired hfire)) (fire?_unmoved hfire)
    obtain ⟨⟨timer, htimer, haction⟩, -⟩ := fire?_set hfire
    refine (hfirst.trans (.rousing hfirst.benign fun i hi => ?_)).tended hv
    rw [List.mem_singleton.mp hi]
    exact hv.benign.timers timer htimer task haction
  | moveTo time => exact (Frees.of_unmoved hv.benign hm (.loop rfl (fun _ h => h) fun _ h _ _ => h)).tended hv

section Runs
variable {settings : Settings} {store : Store} {directory : String} {budget : Nat}

theorem start_vigil (settings : Settings) (store : Store) (directory : String) (budget : Nat) :
    Vigil (start settings store directory budget) where
  benign := ⟨fun _ h => (by cases h), fun _ h => (by cases h), fun _ h => (by cases h), fun _ h => (by cases h)⟩
  once := List.nodup_nil
  strangers _ _ := rfl
  attends _ _ h := by cases h

theorem Step.tended (hstep : Step s t) (hs : Settled s) (ht : Timed s) (hv : Vigil s) : Vigil t ∧ ∀ i, Proceeds s t i := by
  obtain ⟨-, -, hm⟩ := hstep.sound hs ht
  exact (hstep.deed (fun depth => Frees.carried.tells depth) hs ht).tended (fun _ _ _ _ _ h => h) hm hv

theorem Runs.vigil (h : Runs (start settings store directory budget) s) : Vigil s := by
  induction h with
  | refl => exact start_vigil settings store directory budget
  | tail hrow hstep ih =>
    obtain ⟨hs, ht, -⟩ := Runs.basics hrow
    exact (hstep.tended hs ht ih).1

/-- Once a task has gone on that waited for the queue to be idle, or was cancelled, it does not wait for that again. -/
theorem Proceeds.past (h : Proceeds s t i) (hs : ∃ st, s.stage? i = some st ∧ st.isPast = true) :
    ∃ st, t.stage? i = some st ∧ st.isPast = true := by
  obtain ⟨st, hst, hpast⟩ := hs
  have absurd : ∀ {st'}, s.stage? i = some st' → st'.isPast = false → False := fun h hno => by
    cases hst.symm.trans h
    rw [hpast] at hno
    cases hno
  cases h with
  | rests h => exact ⟨st, h.trans hst, hpast⟩
  | joins h => rw [hst] at h; cases h
  | passes h | parks h | released h => exact (absurd h rfl).elim
  | returns _ h | learns _ h => exact ⟨_, h, rfl⟩
  | cancelled _ h => exact ⟨_, h, rfl⟩

/-- Whoever waits for the queue to be idle still does so, or went on in a step in which all did who waited, or was
    cancelled. -/
theorem Runs.leaves (h₀ : Runs (start settings store directory budget) s) (h : Runs s t) (hi : i ∈ s.queue.parked) :
    i ∈ t.queue.parked ∨
    ((∃ u v, Runs s u ∧ Step u v ∧ Runs v t ∧ i ∈ u.queue.parked ∧ (Relief u v ∨ Kills i u v)) ∧
      ∃ st, t.stage? i = some st ∧ st.isPast = true) := by
  induction h with
  | refl => exact .inl hi
  | @tail u t hrow hstep ih =>
    have hrun : Runs (start settings store directory budget) u := h₀.trans hrow
    obtain ⟨hs, ht, -⟩ := Runs.basics hrun
    obtain ⟨hv, hproceeds⟩ := hstep.tended hs ht hrun.vigil
    rcases ih with hp | ⟨⟨v, w, hv, hvw, hwu, hleft⟩, hpast⟩
    · have hstage := hrun.vigil.parked_iff.mp hp
      have other : ∀ {st}, u.stage? i = some st → st ≠ .parked → False := fun h hne => by
        cases hstage.symm.trans h
        exact hne rfl
      cases hproceeds i with
      | rests h => exact .inl (hv.parked_iff.mpr (h.trans hstage))
      | joins h => rw [hstage] at h; cases h
      | passes h | parks h | returns h | learns h => exact (other h (by decide)).elim
      | released _ hrelief h => exact .inr ⟨⟨u, t, hrow, hstep, .refl, hp, .inl hrelief⟩, _, h, rfl⟩
      | cancelled hkill h => exact .inr ⟨⟨u, t, hrow, hstep, .refl, hp, .inr hkill⟩, _, h, rfl⟩
    · exact .inr ⟨⟨v, w, hv, hvw, hwu.tail hstep, hleft⟩, (hproceeds i).past hpast⟩

/-- In every state of a run those are parked, each once, who wait for the queue to be idle, and everybody else is in the
    order of turns once or is over; if somebody is parked then some job is active or waits, unless the end of a job was
    mislaid. In every step of the run everybody comes at most to the next stage: nobody is parked while the queue is idle, and
    whoever goes on does so with all others, in a step in which the queue is idle. And whoever was parked is so until then,
    or until it is cancelled, and never again. -/
theorem waiters_released (h : Runs (start settings store directory budget) s) :
    s.queue.parked.Nodup ∧ (∀ i, i ∈ s.queue.parked ↔ s.stage? i = some .parked) ∧
    (∀ i st, s.stage? i = some st → s.loop.ready.count i = if st = .parked ∨ st = .over then 0 else 1) ∧
    ((∀ id, ¬ s.Mislaid id) → s.queue.parked ≠ [] → ∃ id, id ∈ s.queue.active ∨ id ∈ s.queue.waiting) ∧
    (∀ t, Step s t → ∀ i, Proceeds s t i) ∧
    ∀ t, Runs s t → ∀ i ∈ s.queue.parked, i ∈ t.queue.parked ∨
      ((∃ u v, Runs s u ∧ Step u v ∧ Runs v t ∧ i ∈ u.queue.parked ∧ (Relief u v ∨ Kills i u v)) ∧
        ∃ st, t.stage? i = some st ∧ st.isPast = true) := by
  have hv := h.vigil
  obtain ⟨hs, ht, -⟩ := Runs.basics h
  refine ⟨hv.once, fun i => hv.parked_iff, fun i st hst => ?_, fun hkept hparked => ?_, fun t hstep => (hstep.tended hs ht hv).2,
    fun t hrow i hi => h.leaves hrow hi⟩
  · obtain ⟨x, hx, rfl⟩ := Option.map_eq_some_iff.mp hst
    rw [(hv.attends i x hx).ready, if_congr Task.turn_ready rfl rfl, ite_not]
  · have hbusy : s.queue.isIdle ≠ true := fun hidle => hparked (h.relieved hkept hidle)
    cases ha : s.queue.active with
    | cons id _ => exact ⟨id, .inl List.mem_cons_self⟩
    | nil =>
      cases hw : s.queue.waiting with
      | cons id _ => exact ⟨id, .inr List.mem_cons_self⟩
      | nil => exact absurd (by rw [Queue.isIdle, ha, hw]; rfl) hbusy

/-- Somebody waits for the queue to be idle while a job does, and no longer when it has ended. -/
theorem waiter_released_after_job :
    let s := ((start (.floored 1 4 180000 20) (.selective [] []) "/" 9).giveAll none
      [.enqueue ⟨"a", some [.gate "g"], .none, none, .null⟩, .waitIdle "w", .settle]).2
    let t := (s.giveAll none [.openGate "g", .settle]).2
    s.queue.parked = [1] ∧ (∃ id, id ∈ s.queue.active ∨ id ∈ s.queue.waiting) ∧
      (∃ u v, Runs s u ∧ Step u v ∧ Runs v t ∧ 1 ∈ u.queue.parked ∧ (Relief u v ∨ Kills 1 u v)) ∧ t.stage? 1 = some .over := by
  intro s t
  have hs : Runs (start (.floored 1 4 180000 20) (.selective [] []) "/" 9) s := runs_drives.giveAll _ _ _
  have hrow : Runs s t := runs_drives.giveAll _ _ _
  have hparked : s.queue.parked = [1] := by decide +kernel
  have hdropped : s.queue.brokenOff = [] ∧ s.queue.recorded.length = 0 := by decide +kernel
  have hkept : ∀ id, ¬ s.Mislaid id := by
    rintro id ⟨-, hb | ⟨e, he, -⟩⟩
    · rw [hdropped.1] at hb
      cases hb
    · rw [mem_entriesOf, List.eq_nil_of_length_eq_zero hdropped.2] at he
      cases he.1
  obtain ⟨-, -, -, hbusy, -, hleaves⟩ := waiters_released hs
  refine ⟨hparked, hbusy hkept (by rw [hparked]; simp), ?_, by decide +kernel⟩
  rcases hleaves t hrow 1 (by rw [hparked]; exact List.mem_singleton_self 1) with h | ⟨h, -⟩
  · rw [show t.queue.parked = [] by decide +kernel] at h
    cases h
  · exact h

/-- Somebody still waits for the queue to be idle though it is: a listener broke off to be told of the end of the last job,
    or the store refused its entry. -/
theorem waiter_left_behind :
    let s₀ := fun timeout (refused : List String) => start (.floored 1 4 timeout 20) (.selective refused []) "/" 9
    (∃ s, Runs (s₀ 180000 []) s ∧ s.queue.isIdle = true ∧ s.queue.parked ≠ []) ∧
      ∃ s, Runs (s₀ (10 ^ 400) ["a"]) s ∧ s.queue.isIdle = true ∧ s.queue.parked ≠ [] := by
  intro s₀
  let job : Command := .enqueue ⟨"a", some [], .none, none, .null⟩
  let listener := fun (name : String) (kind : EventKind) => Command.subscribe ⟨name, false, some kind, none, 1, [.fail .taskCancelled]⟩
  let s := ((s₀ 180000 []).giveAll none [listener "l" .queued, listener "m" .finished, job, .waitIdle "w", .settle, .cancelAll]).2
  let t := ((s₀ (10 ^ 400) ["a"]).giveAll none [job, .waitIdle "w", .settle, .cancelAll]).2
  exact ⟨⟨s, runs_drives.giveAll _ _ _, by decide +kernel, by decide +kernel⟩,
    ⟨t, runs_drives.giveAll _ _ _, by decide +kernel, by decide +kernel⟩⟩

end Runs

end Scheduler
end MediaEngine
