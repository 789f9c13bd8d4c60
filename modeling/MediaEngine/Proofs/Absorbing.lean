import Mathlib.Data.List.Perm.Subperm
import MediaEngine.Proofs.Accounting
import MediaEngine.Proofs.Alert

/-! # Tasks that are cancelled

The task of a job that was cancelled takes one more turn (`Doomed`). If it had a turn before, that turn ends
its job as canceled, gives its slot to the next one, and lets those go on who wait for the queue to be idle
(`Absorbed`); only the entry is missing where a listener breaks off to be told of the end. If it had none,
the task is over, and its job is neither ended nor is its slot free. -/

namespace MediaEngine
open Job Scheduler

/-- What telling listeners comes to: no task is forgotten, and where no listener calls back, the event spreads. -/
def calling : Telling := fun kind id b s t => Scheduler.Tends none s t ∧ Softly Spread kind id b s t

theorem calling_tends : calling.Tends := fun _ _ _ _ _ h => h.1

namespace Scheduler
variable {N : Telling} {s t u : Scheduler} {id i : JobId} {j : Job} {b c : Bool} {own : Option TaskId} {task : TaskId} {phase : Phase}
  {l : Loop TimerAction} {n : Nat}

theorem notifyUpTo_calling (depth : Nat) : Tells (Along calling) (notifyUpTo depth) :=
  (notifyUpTo_tends depth).both (notifyUpTo_softly depth)

/-! ## Tasks that were cancelled -/

/-- The task of a job was cancelled; it is ready and has not learnt of it. -/
structure Doomed (s : Scheduler) (task : TaskId) (id : JobId) (phase : Phase) : Prop where
  still : s.tasks[task]? = some ⟨.job id phase, .ready, true⟩
  ready : task ∈ s.loop.ready

/-- The scheduler once a task that was cancelled is over. -/
def retiring (s : Scheduler) (task : TaskId) (l : Loop TimerAction) : Scheduler := (heeding { s with loop := l } task).retire task

/-- The last turn of a task that was cancelled: its job is ended as canceled, unless this was to be the first turn. -/
inductive Succumbs (N : Telling) (task : TaskId) (id : JobId) (phase : Phase) (s : Scheduler) : Scheduler → Prop
  | unheard {l : Loop TimerAction} : phase.isFresh = true → s.loop.next? = some (task, l) →
      Succumbs N task id phase s (s.retiring task l)
  | heard {l : Loop TimerAction} {j : Job} {c d : Bool} {u t : Scheduler} : phase.isFresh = false →
      s.loop.next? = some (task, l) → (s.retiring task l).Underway id j → Concludes N id d .canceled c (s.retiring task l) u →
      Vacates N id u t → Succumbs N task id phase s t

theorem Kills.doomed {x : Task} (h : Kills task s t) (hx : s.tasks[task]? = some x) (hwork : x.work = .job id phase)
    (hr : x.turn = .ready → task ∈ s.loop.ready) : t.Doomed task id phase := by
  have hdoomed : (s.doomed task).tasks[task]? = some { x with killed := true } := by
    change (s.tasks.modify task _)[task]? = _
    rw [List.getElem?_modify_eq, hx]
    rfl
  obtain ⟨work, turn, killed⟩ := x
  cases hwork
  cases h with
  | ready hy hturn =>
    cases hx.symm.trans hy
    cases hturn
    exact ⟨hdoomed, hr rfl⟩
  | @waiting y a hy hturn =>
    cases hx.symm.trans hy
    cases hturn
    have hwithdrawn : ((s.doomed task).withdrawn task a).tasks = (s.doomed task).tasks := by cases a <;> rfl
    refine ⟨?_, List.mem_append_right _ (List.mem_singleton_self task)⟩
    rw [rousing_task, if_pos (List.mem_singleton_self task), hwithdrawn, hdoomed]
    rfl

namespace Doomed

theorem tends (h : s.Doomed task id phase) (ht : Tends own s t) (hne : own ≠ some task) : t.Doomed task id phase := by
  refine ⟨?_, ht.ready task h.ready⟩
  rcases ht.tasks task _ hne h.still with h | h
  · exact h
  · exact h

theorem aside (h : s.Doomed task id phase) (ht : Tends none s t) : t.Doomed task id phase := h.tends ht (by simp)

/-- It is still ready when another one is next. -/
theorem next {other : TaskId} (h : s.Doomed task id phase) (hnext : s.loop.next? = some (other, l)) (hne : other ≠ task) :
    Doomed { s with loop := l } task id phase := by
  refine ⟨h.still, ?_⟩
  have hm := h.ready
  rw [next?_ready hnext] at hm
  exact (List.mem_cons.mp hm).resolve_left (Ne.symm hne)

theorem kills {other : TaskId} (h : s.Doomed task id phase) (hk : Kills other s t) : t.Doomed task id phase := by
  by_cases he : other = task
  · subst he
    exact hk.doomed h.still rfl fun _ => h.ready
  have hne : some other ≠ some task := fun h => he (Option.some.inj h)
  have hdoomed : (s.doomed other).Doomed task id phase := h.tends (Tends.retask s fun x => { x with killed := true }) hne
  cases hk with
  | ready => exact hdoomed
  | @waiting y a =>
    have hwithdrawn : ((s.doomed other).withdrawn other a).Doomed task id phase := by
      cases a <;> exact ⟨hdoomed.still, hdoomed.ready⟩
    exact hwithdrawn.aside (.rousing _ _)

/-- A task that was cancelled stays so until it takes its last turn. -/
theorem deed (hN : N.Tends) (hd : s.Doomed task id phase) (h : Deed N (Does N) s t) :
    t.Doomed task id phase ∨ Succumbs N task id phase s t := by
  have heed : ∀ {other l}, s.loop.next? = some (other, l) → other ≠ task →
      (heeding { s with loop := l } other).Doomed task id phase := fun hnext hne =>
    (hd.next hnext hne).tends (.retask _ _) fun h => hne (Option.some.inj h)
  have fired : ∀ {action time l}, s.loop.fire? time = some (action, l) → Doomed { s with loop := l } task id phase :=
    fun hfire => ⟨hd.still, (fire?_ready hfire).symm ▸ hd.ready⟩
  -- Only its own turn moves the task on; in every other step it stays where it was.
  cases h with
  | does h => exact .inl (hd.aside (h.tends hN))
  | kills h => exact .inl (hd.kills h)
  | annotates => exact .inl (hd.aside (.of_unmoved (.update fun _ _ hi => hi)))
  | joins => exact .inl (hd.aside (.spawn s _))
  | @rests other l hnext hover =>
    by_cases he : other = task
    · subst he
      cases hover _ hd.still
    · exact .inl (hd.next hnext he)
  | @drops other l x k hnext hx _ hwork =>
    by_cases he : other = task
    · subst he
      cases hx.symm.trans hd.still
      cases hwork
      exact .inr (.unheard rfl hnext)
    · exact .inl ((heed hnext he).tends (.retask _ _) fun h => he (Option.some.inj h))
  | @plays other l x k p j _ hnext hx _ hwork hfresh hu hturn =>
    by_cases he : other = task
    · subst he
      cases hx.symm.trans hd.still
      cases hwork
      cases hturn with
      | waits hk | ends hk => cases hk
      | stops hk _ hc hv =>
        obtain ⟨rfl, rfl⟩ := hk rfl
        exact .inr (.heard (hfresh rfl) hnext (hu.retire _) hc hv)
    · exact .inl ((heed hnext he).tends (hturn.tends hN) fun h => he (Option.some.inj h))
  | @waits other l x name parked hnext hx _ hwork =>
    by_cases he : other = task
    · subst he
      cases hx.symm.trans hd.still
      cases hwork
    · exact .inl ((heed hnext he).tends (idling_tends _ _ _ _ _) fun h => he (Option.some.inj h))
  | expires hfire h => exact .inl ((fired hfire).aside (h.tends hN))
  | wakes hfire => exact .inl ((fired hfire).aside (.rousing _ _))
  | moveTo => exact .inl ⟨hd.still, hd.ready⟩

end Doomed

/-! ## Slots that get free -/

theorem Unfolds.active_length (h : Unfolds own s t) (hf : Fit s) : s.queue.active.length ≤ t.queue.active.length :=
  (hf.once_active.subperm fun _ => h.active).length_le

/-- If a slot is free and not all that wait can start, at least one does. -/
theorem Starts.refills (h : Starts N n b s t) (hn : s.queue.waiting.length ≤ n) (hslot : s.queue.hasSlot = true) :
    t.queue.waiting = [] ∨ s.queue.active.length + 1 ≤ t.queue.active.length := by
  have taken : ∀ {v : Scheduler} {id q}, Fit s → s.queue.startNext? = some (id, q) → Unfolds none (s.taking id q) v →
      s.queue.active.length + 1 ≤ v.queue.active.length := fun hf hq h => by
    have hlen := h.active_length (hf.taking hq)
    rwa [taking_active hq, List.length_append, List.length_singleton] at hlen
  cases h with
  | most => exact .inl (List.eq_nil_of_length_eq_zero (Nat.le_zero.mp hn))
  | done hq => exact .inl ((packed_of_none hq).resolve_right (by rw [hslot]; decide))
  | @next _ _ _ v _ id _ hf hq h hrest =>
    have hspawn : Fit (v.spawn (.job id .fresh)) := (h.1.fit (hf.taking hq)).stays (.of_queue rfl)
    exact .inr (Nat.le_trans (taken hf hq h.1) (hrest.does.unfolds.active_length hspawn))
  | cut hf hq h => exact .inr (taken hf hq h.1)

/-- Where no listener is cut short, every job that starts has a task. -/
theorem Starts.manned (h : Starts calling n b s t) (hg : t.queue.Gentle) :
    b = false ∧ ∀ i ∈ t.queue.active, i ∈ s.queue.active ∨ ∃ k, t.Lives k i := by
  induction h with
  | most | done => exact ⟨rfl, fun i hi => .inl hi⟩
  | @next n b s v t id q hf hq h hrest ih =>
    obtain ⟨rfl, hmanned⟩ := ih hg
    refine ⟨rfl, fun i hi => ?_⟩
    have hquiet : v.queue.Quiet := (hg.before (Unfolds.listeners (s := v.spawn _) hrest.does.unfolds)).quiet
    rcases hmanned i hi with hi | hi
    · change i ∈ v.queue.active at hi
      rw [(h.2.2 hquiet).hushed.active, taking_active hq] at hi
      rcases List.mem_append.mp hi with hi | hi
      · exact .inl hi
      · cases List.mem_singleton.mp hi
        have hspawn : (v.spawn (.job id .fresh)).tasks[v.tasks.length]? = some ⟨.job id .fresh, .ready, false⟩ :=
          List.getElem?_concat_length
        have htends : Tends none (v.spawn (.job id .fresh)) t := hrest.does.tends calling_tends
        exact .inr ⟨v.tasks.length, htends.lives ⟨_, hspawn, rfl, fun h => by cases h⟩⟩
    · exact .inr hi
  | cut hf hq h =>
    cases (h.2.2 hg.quiet).whole (hg.spares _)

/-! ## Cancelled tasks are absorbed -/

/-- In the turn that leads from the one state to the other the fault of a cancelled task is absorbed: its job has ended as
    canceled with one entry and is not active, jobs that wait have started in its slot, and those go on who wait for the
    queue to be idle, if it is. -/
structure Absorbed (s t : Scheduler) (id : JobId) : Prop where
  canceled : ∃ j, t.queue.job? id = some j ∧ j.finalized = true ∧ j.status = .canceled
  entry : ∃ e, t.entriesOf id = [e] ∧ e.status = .canceled
  inactive : id ∉ t.queue.active
  refilled : t.queue.waiting ≠ [] → s.queue.active.length ≤ t.queue.active.length
  released : t.queue.isIdle = true → t.queue.parked = [] ∧ ∀ i ∈ s.queue.parked, i ∈ t.loop.ready

theorem unparking_isIdle (s : Scheduler) : s.unparking.queue.isIdle = s.queue.isIdle := by
  rw [Queue.isIdle, (unparking_inert s).active, (unparking_inert s).waiting]
  rfl

/-- If the queue is idle, those go on who waited for that. -/
theorem unparking_released (h : s.unparking.queue.isIdle = true) :
    s.unparking.queue.parked = [] ∧ ∀ i, i ∈ s.queue.parked ∨ i ∈ s.loop.ready → i ∈ s.unparking.loop.ready := by
  rw [unparking_isIdle] at h
  unfold unparking
  rw [if_pos h]
  exact ⟨rfl, fun i hi => hi.elim (List.mem_append_right _) (List.mem_append_left _)⟩

theorem retiring_inert (s : Scheduler) {l : Loop TimerAction} (hnext : s.loop.next? = some (task, l)) :
    Inert s (s.retiring task l) := (Inert.turning hnext).trans (retire_inert _ task)

namespace Vacates

/-- The slot that got free is taken again, if anyone waits. -/
theorem refills (h : Vacates N id s t) (hid : id ∈ s.queue.active) (hl : s.queue.Limited) :
    t.queue.waiting ≠ [] → s.queue.active.length ≤ t.queue.active.length := by
  have hlen : (s.mapQueue (·.release id)).queue.active.length + 1 = s.queue.active.length := by
    change (s.queue.active.erase id).length + 1 = _
    rw [List.length_erase_of_mem hid]
    have := List.length_pos_of_mem hid
    omega
  have hslot : (s.mapQueue (·.release id)).queue.hasSlot = true := by
    have := hl.parallel
    refine decide_eq_true ?_
    change ((s.mapQueue (·.release id)).queue.active.length : Int) < s.queue.settings.maxParallelJobs
    omega
  have started : ∀ {b u}, Starts N (s.queue.waiting.length + s.budget) b (s.mapQueue (·.release id)) u →
      u.queue.waiting ≠ [] → s.queue.active.length ≤ u.queue.active.length := fun h hw => by
    have hlen' := (h.refills (Nat.le_add_right _ _) hslot).resolve_left hw
    rwa [hlen] at hlen'
  cases h with
  | fills h =>
    rw [(unparking_inert _).waiting, (unparking_inert _).active]
    exact started h
  | cut h => exact started h

/-- Those go on who wait for the queue to be idle, if it is. -/
theorem released (hN : N.Tends) (h : Vacates N id s t) (hidle : t.queue.isIdle = true) :
    t.queue.parked = [] ∧ ∀ i, i ∈ s.queue.parked ∨ i ∈ s.loop.ready → i ∈ t.loop.ready := by
  cases h with
  | @fills u h =>
    have htends : Tends none (s.mapQueue (·.release id)) u := h.does.tends hN
    obtain ⟨hp, hr⟩ := unparking_released hidle
    exact ⟨hp, fun i hi => hr i (hi.elim (htends.parked i) fun h => .inr (htends.ready i h))⟩
  | cut h =>
    rw [Queue.isIdle, Bool.and_eq_true] at hidle
    exact absurd (List.isEmpty_iff.mp hidle.1) h.cut_busy

end Vacates

namespace Succumbs

/-- Where the task had a turn before, its job is ended as canceled. -/
theorem canceled (h : Succumbs N task id phase s t) (hfresh : phase.isFresh = false) :
    id ∉ t.queue.active ∧ ∃ j, t.queue.job? id = some j ∧ j.finalized = true ∧ j.status = .canceled := by
  cases h with
  | unheard h => rw [hfresh] at h; cases h
  | @heard l j c d u _ _ _ hu hc hv =>
    obtain ⟨hfit, hactive, k, hk, hfin, hcanceled⟩ := hc.ended
    have hpast := hfit.apart id hactive
    have hreleased : Fit (u.mapQueue (·.release id)) := hfit.release id
    obtain ⟨m, hm, hlasts, hst⟩ := hv.unfolds.lasts (s := u.mapQueue (·.release id)) hpast hk
    obtain ⟨-, hgone, -⟩ := hv.unfolds.moments.gone hreleased hpast hfit.once_active.not_mem_erase
    exact ⟨hgone, m, hm, hlasts.finalized.trans hfin, hst (hcanceled rfl)⟩

/-- A job that has ended as canceled has its entry unless a listener broke off to be told so. -/
theorem entry_iff (ht : Settled t) (hj : t.queue.job? id = some j) (hfin : j.finalized = true) (hst : j.status = .canceled) :
    (∃ e, t.entriesOf id = [e] ∧ e.status = .canceled) ↔ id ∉ t.queue.brokenOff := by
  rcases (ht.placed id).entries ht.fit hj with ⟨hopen, -⟩ | ⟨-, hclosed⟩
  · rw [hfin] at hopen
    cases hopen
  · cases hclosed with
    | lost hb hnone => exact iff_of_false (fun ⟨e, he, _⟩ => by rw [hnone] at he; cases he) fun h => h hb
    | filed e hb hone hste _ _ => exact iff_of_true ⟨e, hone, hste.trans hst⟩ hb

/-- In its last turn a task that was cancelled is absorbed exactly if it had a turn before and no listener breaks off to be
    told of the end of its job. -/
theorem absorbed_iff (hN : N.Tends) (h : Succumbs N task id phase s t) (hd : s.Doomed task id phase) (hs : Settled s)
    (ht : Settled t) (hl : s.queue.Limited) : Absorbed s t id ↔ phase.isFresh = false ∧ id ∉ t.queue.brokenOff := by
  have hlives : s.Lives task id := ⟨_, hd.still, rfl, fun h => by cases h⟩
  cases hfresh : phase.isFresh with
  | true =>
    -- A task that never had a turn is over without touching the queue, so its job has not ended.
    refine iff_of_false (fun habsorbed => ?_) fun h => by cases h.1
    obtain ⟨j, hj, hfin, -⟩ := habsorbed.canceled
    have hqueue : t.queue = s.queue := by
      cases h with
      | unheard => rfl
      | heard h => rw [hfresh] at h; cases h
    obtain ⟨k, hk, hopen, -⟩ := (hs.working hlives).1.job
    rw [hqueue] at hj
    cases hj.symm.trans hk
    rw [hopen] at hfin
    cases hfin
  | false =>
    obtain ⟨hgone, j, hj, hfin, hst⟩ := h.canceled hfresh
    have hentry := entry_iff ht hj hfin hst
    refine ⟨fun habsorbed => ⟨rfl, hentry.mp habsorbed.entry⟩, fun ⟨_, hb⟩ => ⟨⟨j, hj, hfin, hst⟩, hentry.mpr hb, hgone, ?_, ?_⟩⟩
    · cases h with
      | unheard h => rw [hfresh] at h; cases h
      | @heard l _ c d u _ _ hnext hu hc hv =>
        have hinert := retiring_inert s hnext
        have hlimited : u.queue.Limited := limited_moments hl ((Moments.inert hinert).trans hc.unfolds.moments)
        obtain ⟨-, hactive, -⟩ := hc.ended
        have hle : s.queue.active.length ≤ u.queue.active.length := hc.unfolds.active_length hu.fit
        exact fun hw => Nat.le_trans hle (hv.refills hactive hlimited hw)
    · cases h with
      | unheard h => rw [hfresh] at h; cases h
      | heard _ _ _ hc hv =>
        intro hidle
        obtain ⟨hparked, hready⟩ := hv.released hN hidle
        have htends : Tends none _ _ := hc.tends hN
        exact ⟨hparked, fun i hi => hready i (htends.parked i hi)⟩

/-- After its last turn a task is over. -/
theorem ended (hN : N.Tends) (h : Succumbs N task id phase s t) (hd : s.Doomed task id phase) :
    ∃ x, t.tasks[task]? = some x ∧ x.turn = .over := by
  have hretired : ∀ l, (s.retiring task l).tasks[task]? = some ⟨.job id phase, .over, false⟩ := fun l =>
    retire_task (heeding_task (s := { s with loop := l }) hd.still)
  cases h with
  | unheard => exact ⟨_, hretired _, rfl⟩
  | heard _ _ _ hc hv => exact ⟨_, Tends.over ((hc.tends hN).trans (hv.tends hN)) (hretired _) rfl, rfl⟩

end Succumbs

/-! ## Listeners that are not cut short -/

theorem recording_files (hj : s.queue.job? id = some j) (path : Option String) :
    j.entry path ∈ (s.recording id path).queue.recorded := by
  unfold recording
  rcases record_cases (s := s) id path with ⟨h, -⟩ | ⟨k, hk, ⟨store, -, h⟩ | ⟨-, h⟩⟩
  · cases hj.symm.trans h
  · cases hj.symm.trans hk
    rw [h]
    exact List.mem_append_right _ (List.mem_singleton_self _)
  · cases hj.symm.trans hk
    rw [h]
    exact List.mem_append_right _ (List.mem_singleton_self _)

/-- Where no listener is cut short, the entry of a job that ends is handed to the store, and no job moves. -/
theorem Concludes.gentle {status : Job.Status} (h : Concludes calling id c status b s t) (hg : t.queue.Gentle) :
    t.queue.active = s.queue.active ∧ t.entriesOf id ≠ [] := by
  cases h with
  | @ends j path errorMessage message v _ hu _ _ _ htold hr =>
    have hrow : Unfolds none v t := hr.unfolds
    have hgv : v.queue.Gentle := hg.before hrow.listeners
    have hspread := htold.2.2 hgv.quiet
    cases hspread.whole (hgv.spares _)
    refine ⟨hr.stays.active.trans hspread.hushed.active, ?_⟩
    have hended : (s.ending id status errorMessage message).queue.job? id = some (j.ended s.loop.now status errorMessage message) :=
      Queue.job?_update_self (by intro; rfl) hu.job
    obtain ⟨k, hk, -⟩ := Queue.tuned_job?_some hspread.hushed.jobs hended
    cases hr
    exact List.ne_nil_of_mem (mem_entriesOf.mpr ⟨recording_files hk path, congrArg JobId.text (Queue.job?_id hk)⟩)

/-- Where no listener is cut short, none breaks off to be told that the job of a task that was cancelled has ended, and
    every job that starts in its slot has a task. -/
theorem Succumbs.gentle (h : Succumbs calling task id phase s t) (hfresh : phase.isFresh = false) (ht : Settled t)
    (hg : t.queue.Gentle) :
    id ∉ t.queue.brokenOff ∧ ∀ i ∈ t.queue.active, i ∉ s.queue.active → ∃ k, t.Lives k i := by
  obtain ⟨-, j, hj, hfin, -⟩ := h.canceled hfresh
  cases h with
  | unheard h => rw [hfresh] at h; cases h
  | @heard l _ c d u _ _ hnext hu hc hv =>
    have hrow := hv.unfolds
    have hgu : u.queue.Gentle := hg.before (Unfolds.listeners (s := u.mapQueue (·.release id)) hrow)
    obtain ⟨hactive, hfiled⟩ := hc.gentle hgu
    constructor
    · obtain ⟨es, hes, -⟩ := hrow.continues.handed
      have hkept : t.entriesOf id ≠ [] := fun hnone => hfiled (by
        rw [entriesOf, hes, List.filter_append] at hnone
        exact (List.append_eq_nil_iff.mp hnone).1)
      rcases (ht.placed id).entries ht.fit hj with ⟨hopen, -⟩ | ⟨-, hclosed⟩
      · rw [hfin] at hopen
        cases hopen
      · cases hclosed with
        | lost _ hnone => exact absurd hnone hkept
        | filed _ hb => exact hb
    · intro i hi hno
      have hold : i ∉ u.queue.active := hactive ▸ hno
      cases hv with
      | @fills w h =>
        rw [(unparking_inert w).active] at hi
        rcases (h.manned (hg.before (unparking_inert w).listeners)).2 i hi with h | ⟨k, hk⟩
        · exact absurd (List.mem_of_mem_erase h) hold
        · exact ⟨k, (Tends.unparking w).lives hk⟩
      | cut h => cases (h.manned hg).1

/-! ## Runs -/

theorem work_of_phase? {w : Work} (h : w.phase? = some (id, phase)) : w = .job id phase := by
  cases w with
  | job => cases h; rfl
  | waitIdle => cases h

section Runs
variable {settings : Settings} {store : Store} {directory : String} {budget : Nat}

/-- A state of a run in which a task is cancelled. -/
theorem Runs.killed (h : Runs (start settings store directory budget) s) (task : TaskId) :
    Settled ((killTask task).on s).2 ∧ Timed ((killTask task).on s).2 ∧ ((killTask task).on s).2.queue.Limited := by
  obtain ⟨hs, ht, hl⟩ := h.basics
  obtain ⟨r, t, hr, -, hinert⟩ := calm_killTask (s := s) task hs.fit
  rw [hr]
  exact ⟨hs.inert hinert, ht.moments (.inert hinert), limited_moments hl (.inert hinert)⟩

/-- The task of a job is cancelled in a run, at any moment before it is over. As long as it has not taken its last turn it is
    ready. In its last turn the fault is absorbed exactly if the task had a turn before and no listener breaks off to be told
    of the end of its job; and where no listener is cut short, none does, and every job that starts in the slot has a task. -/
theorem cancelled_task_absorbed_iff (hrun : Runs (start settings store directory budget) s) (hlives : s.Lives task id)
    (hphase : s.phase? task = some (id, phase)) (hruns : Runs ((killTask task).on s).2 t) :
    t.Doomed task id phase ∨
      ∃ u v, Runs ((killTask task).on s).2 u ∧ u.Doomed task id phase ∧ Step u v ∧ Runs v t ∧
        (∃ y, v.tasks[task]? = some y ∧ y.turn = .over) ∧
        (Absorbed u v id ↔ phase.isFresh = false ∧ id ∉ v.queue.brokenOff) ∧
        (phase.isFresh = false → v.queue.Gentle →
          id ∉ v.queue.brokenOff ∧ ∀ i ∈ v.queue.active, i ∉ u.queue.active → ∃ k, v.Lives k i) := by
  have ha := hrun.alert
  obtain ⟨hs, ht, hl⟩ := hrun.killed task
  obtain ⟨x, hx, -, hlive⟩ := hlives
  have hwork : x.work = .job id phase := work_of_phase? (by rwa [phase?, hx] at hphase)
  have hd := (killTask_kills hx hlive).doomed hx hwork fun hready => ha task x (by simp) hx hready
  -- The run is followed up to the last turn of the task; what comes after it does not matter.
  induction hruns with
  | refl => exact .inl hd
  | @tail u v hrow hstep ih =>
    rcases ih with hdoomed | ⟨a, b, hra, hda, hab, hrb, hrest⟩
    · obtain ⟨hsu, htu, hm⟩ := Runs.sound hrow hs ht
      obtain ⟨hsv, -, -⟩ := hstep.sound hsu htu
      rcases hdoomed.deed calling_tends (hstep.deed notifyUpTo_calling hsu htu) with h | h
      · exact .inl h
      · exact .inr ⟨u, v, hrow, hdoomed, hstep, .refl, h.ended calling_tends hdoomed,
          h.absorbed_iff calling_tends hdoomed hsu hsv (limited_moments hl hm), fun hfresh => h.gentle hfresh hsv⟩
    · exact .inr ⟨a, b, hra, hda, hab, hrb.tail hstep, hrest⟩

end Runs

/-- A task that is cancelled while it waits for a gate is absorbed in its next turn. -/
theorem gated_task_absorbed :
    let s := ((start .default (.selective [] []) "/" 9).giveAll none
      [.enqueue ⟨"a", some [.gate "g"], .none, none, .null⟩, .settle]).2
    let t := ((settle (notifyUpTo 9)).on ((killTask 0).on s).2).2
    s.Lives 0 1 ∧ ∃ u v, Runs ((killTask 0).on s).2 u ∧ Step u v ∧ Runs v t ∧ Absorbed u v 1 := by
  intro s t
  have hrun : Runs (start .default (.selective [] []) "/" 9) s := runs_drives.giveAll _ _ _
  have hruns : Runs ((killTask 0).on s).2 t := by
    obtain ⟨v, hv, h⟩ := runs_drives.settle (s := ((killTask 0).on s).2) 9
    change Runs _ ((settle (notifyUpTo 9)).on _).2
    rw [hv]
    exact h
  have htask : s.tasks[0]?.map (fun x => (x.work.owner?, x.turn)) = some (some 1, .waiting (.gate "g")) := by decide +kernel
  obtain ⟨x, hx, hgate⟩ := Option.map_eq_some_iff.mp htask
  obtain ⟨howner, hturn⟩ := Prod.mk.inj hgate
  have hlives : s.Lives 0 1 := ⟨x, hx, howner, fun h => by rw [hturn] at h; cases h⟩
  have hbody : (s.phase? 0).map (fun p => (p.1, p.2.isFresh)) = some (1, false) := by decide +kernel
  obtain ⟨⟨id, phase⟩, hphase, hrest⟩ := Option.map_eq_some_iff.mp hbody
  obtain ⟨rfl, hfresh⟩ := Prod.mk.inj hrest
  refine ⟨hlives, ?_⟩
  rcases cancelled_task_absorbed_iff hrun hlives hphase hruns with h | ⟨u, v, hu, -, huv, hvt, -, hiff, hgentle⟩
  · have hover : t.tasks[0]?.map Task.turn = some .over := by decide +kernel
    rw [h.still] at hover
    cases hover
  · obtain ⟨hs, ht, -⟩ := hrun.killed 0
    obtain ⟨hsv, htv, -⟩ := Runs.sound (hu.tail huv) hs ht
    -- Nobody has subscribed in the end, and so nobody had when the task took its last turn.
    have hnone : t.queue.listeners = [] := by decide +kernel
    obtain ⟨-, -, hm⟩ := Runs.sound hvt hsv htv
    have hg : v.queue.Gentle := Queue.Gentle.before (fun l hl => by rw [hnone] at hl; cases hl) hm.listeners
    exact ⟨u, v, hu, huv, hvt, hiff.mpr ⟨hfresh, (hgentle hfresh hg).1⟩⟩

/-- A task that is cancelled before its first turn is over in the end, and its job neither has ended nor is its slot free. -/
theorem fresh_task_not_absorbed :
    ∃ s t, Runs (start .default (.selective [] []) "/" 9) s ∧ s.tasks.map (fun x => (x.work.owner?, x.turn)) = [(some 1, .ready)] ∧
      Runs ((killTask 0).on s).2 t ∧ t.tasks.map (fun x => (x.work.owner?, x.turn)) = [(some 1, .over)] ∧ t.loop.ready = [] ∧
      t.queue.active = [1] ∧ t.queue.jobs.map Job.finalized = [false] ∧ t.queue.recorded.length = 0 := by
  let s := ((start .default (.selective [] []) "/" 9).giveAll none [.enqueue ⟨"a", some [.gate "g"], .none, none, .null⟩]).2
  obtain ⟨t, ht, hruns⟩ := runs_drives.settle (s := ((killTask 0).on s).2) 9
  have ht : t = ((settle (notifyUpTo 9)).on ((killTask 0).on s).2).2 := by rw [ht]
  subst ht
  exact ⟨s, _, runs_drives.giveAll _ _ _, by decide +kernel, hruns, by decide +kernel, by decide +kernel, by decide +kernel,
    by decide +kernel, by decide +kernel⟩

end Scheduler
end MediaEngine
