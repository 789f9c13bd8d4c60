import MediaEngine.Proofs.Tokens
import MediaEngine.Proofs.Uncopied

/-! # Tasks and their jobs

The job of a task that is not over is active, and it has no other such task (`Staffed`). Scripts create a task only
for a job that waits or is handed in meanwhile, and one for each (`Hires`). Neither says what was cut short, so both
hold whatever can be copied; and with them what commands do is a row of moments whatever can be copied. -/

namespace MediaEngine.Scheduler
open Job

variable {s t u : Scheduler} {id : JobId} {own : Option JobId} {task : TaskId}

/-- The jobs of the tasks that are not over are active, and none has two. -/
structure Staffed (s : Scheduler) : Prop where
  active : ∀ i id, s.Lives i id → id ∈ s.queue.active
  sole : ∀ i k id, s.Lives i id → s.Lives k id → i = k

/-- Jobs stay active, and a task that is not over was so before, or is the only one of a job that was upcoming. -/
structure Hires (s t : Scheduler) : Prop where
  active : ∀ id ∈ s.queue.active, id ∈ t.queue.active
  lives : Fit s → (∀ i id, s.Lives i id → id ∈ s.queue.active) → ∀ i id, t.Lives i id →
    s.Lives i id ∨ (s.Upcoming id ∧ id ∈ t.queue.active ∧ ∀ k, t.Lives k id → k = i)

namespace Hires

theorem of_lives (ha : t.queue.active = s.queue.active) (hl : ∀ i id, t.Lives i id → s.Lives i id) : Hires s t :=
  ⟨fun _ h => ha ▸ h, fun _ _ i id h => .inl (hl i id h)⟩

theorem of_tasks (ha : t.queue.active = s.queue.active) (ht : t.tasks = s.tasks) : Hires s t :=
  of_lives ha fun i id h => by
    unfold Lives at h ⊢
    rwa [ht] at h

theorem of_steady (h : Steady s t) : Hires s t := of_lives h.active h.lives

theorem refl (s : Scheduler) : Hires s s := of_tasks rfl rfl

theorem stays_active (h : Hires s t) (hf : Fit s) (hm : ∀ i id, s.Lives i id → id ∈ s.queue.active) (i : TaskId) (id : JobId)
    (hl : t.Lives i id) : id ∈ t.queue.active :=
  (h.lives hf hm i id hl).elim (fun hl => h.active id (hm i id hl)) fun hnew => hnew.2.1

theorem staffed (h : Hires s t) (hf : Fit s) (hm : Staffed s) : Staffed t where
  active := h.stays_active hf hm.active
  sole i k id hi hk := by
    rcases h.lives hf hm.active i id hi with hi' | ⟨-, -, hone⟩
    · rcases h.lives hf hm.active k id hk with hk' | ⟨-, -, hone⟩
      · exact hm.sole i k id hi' hk'
      · exact hone i hi
    · exact (hone k hk).symm

theorem trans (hrow : Unfolds own s t) (h : Hires s t) (h' : Hires t u) : Hires s u where
  active id hid := h'.active id (h.active id hid)
  lives hf hm i id hl := by
    have hft := hrow.fit hf
    have hmt := h.stays_active hf hm
    rcases h'.lives hft hmt i id hl with hl | ⟨hup, hactive, hone⟩
    · rcases h.lives hf hm i id hl with hl | ⟨hup, hactive, hone⟩
      · exact .inl hl
      · refine .inr ⟨hup, h'.active id hactive, fun k hk => ?_⟩
        -- A job that was given a task is active by now, and is given no other.
        rcases h'.lives hft hmt k id hk with hk | ⟨hup', -, -⟩
        · exact hone k hk
        · exact absurd hup' (hft.apart id hactive)
    · exact .inr ⟨hrow.moments.upcoming hup, hactive, hone⟩

theorem followed (h : Hires s t) (ha : u.queue.active = t.queue.active) (ht : u.tasks = t.tasks) : Hires s u := by
  have hlives : ∀ i id, u.Lives i id ↔ t.Lives i id := fun i id => by
    unfold Lives
    rw [ht]
  refine ⟨fun id hid => ha ▸ h.active id hid, fun hf hm i id hl => ?_⟩
  rw [ha]
  simp only [hlives] at hl ⊢
  exact h.lives hf hm i id hl

/-- The first job that waits is given a task as it starts. -/
theorem start {b : Bool} {q : Queue} (hq : s.queue.startNext? = some (id, q)) (h : Hires (s.taking id q) t)
    (hu : Spawned id b t u) : Hires s u := by
  have htake : Unfolds none s (s.taking id q) := .one (.take hq)
  have hmem : id ∈ (s.taking id q).queue.active := mem_taking hq
  have hactive : ∀ x ∈ s.queue.active, x ∈ (s.taking id q).queue.active := fun x hx => htake.active hx
  have hbefore : Hires s (s.taking id q) := ⟨hactive, fun _ _ _ _ hl => .inl hl⟩
  have hold := hbefore.trans htake h
  cases b <;> cases hu
  · refine ⟨hold.active, fun hf hm i x hl => ?_⟩
    obtain ⟨-, rest, hw, -⟩ := Queue.startNext?_eq hq
    have hup : s.Upcoming id := .inl (hw ▸ List.mem_cons_self)
    have hft := htake.fit hf
    -- It has no task so far, and is given none while all are told that it started.
    have hnone : ∀ k, ¬ t.Lives k id := fun k hk => by
      rcases h.lives hft (fun i x hl => hactive x (hm i x hl)) k id hk with hk | ⟨hup', -, -⟩
      · exact hf.apart id (hm k id hk) hup
      · exact hft.apart id hmem hup'
    rcases lives_spawn hl with hlt | ⟨rfl, rfl⟩
    · rcases hold.lives hf hm i x hlt with hls | ⟨hup, hactive, hone⟩
      · exact .inl hls
      · refine .inr ⟨hup, hactive, fun k hk => ?_⟩
        rcases lives_spawn hk with hk | ⟨-, rfl⟩
        · exact hone k hk
        · exact absurd hlt (hnone i)
    · refine .inr ⟨hup, h.active x hmem, fun k hk => ?_⟩
      rcases lives_spawn hk with hk | ⟨hk, -⟩
      · exact absurd hk (hnone k)
      · exact hk
  · exact hold

/-- A task goes on to another phase of its job. -/
theorem retask (h : Hires s t) (hl : s.Lives task id) {g : Task → Task} (hg : ∀ x, (g x).work.owner? = some id) :
    Hires s { t with tasks := t.tasks.modify task g } := by
  refine ⟨h.active, fun hf hm i x hi => ?_⟩
  rcases lives_retask hg hi with hi | ⟨rfl, rfl⟩
  · rcases h.lives hf hm i x hi with hi | ⟨hup, hactive, hone⟩
    · exact .inl hi
    · refine .inr ⟨hup, hactive, fun k hk => ?_⟩
      rcases lives_retask hg hk with hk | ⟨-, rfl⟩
      · exact hone k hk
      · exact absurd hup (hf.apart x (hm task x hl))
  · exact .inl hl

theorem of_halted {b : Bool} (hf : Fit s) (h : Halted id b s t) : Hires s t := by
  cases b <;> cases h
  · exact (of_steady (signalling_signals hf id _).toSteady).followed rfl rfl
  · exact .refl _

theorem of_keep (s : Scheduler) (id : JobId) (path : Option String) : Hires s (s.keep id path) :=
  of_tasks (keep_stays s id path).active (Occurs.keep_tasks s id path)

theorem of_closes {b : Bool} (h : Closes id b s t) : Hires s t := by
  cases b <;> cases h
  · have hkept : Unfolds none s (s.keep id none) := .one (.keep id none)
    exact (of_keep s id none).trans hkept (of_steady (closing_inert s id).toSteady)
  · exact .refl _

theorem of_recorded {path : Option String} {b : Bool} (h : Recorded id path b s t) : Hires s t := by
  cases b <;> cases h
  · have hkept : Unfolds none s (s.keep id path) := .one (.keep id path)
    exact (of_keep s id path).trans hkept (of_steady (recording_inert s id path).toSteady)
  · exact .refl _

theorem of_does {b : Bool} (h : Does (fun _ _ _ => Hires) b s t) : Hires s t := by
  induction h with
  | still | halt => exact .refl _
  | trans h _ ih ih' => exact ih.trans h.unfolds ih'
  | touch h => exact of_steady h.inert.toSteady
  | signal hf hid => exact of_steady (signalling_signals hf _ _).toSteady
  | @ask b s t u id j hf hid hj hst hst' h hu =>
    have hshow : Unfolds none s (s.showing id .cancelling) := showing_unfolds hid hj hst hst'
    have hshown : Hires s (s.showing id .cancelling) := of_tasks rfl rfl
    have hrow : Unfolds none s t := hshow.trans h.1
    exact (hshown.trans hshow h.2).trans hrow (of_halted (hrow.fit hf) hu)
  | @leave b s t u id j message l _ hid hj hl h hu =>
    have hleave : Unfolds none s (s.leaving id message l) := leaving_unfolds hid hj hl message
    have hleft : Hires s (s.leaving id message l) := of_tasks rfl rfl
    exact (hleft.trans hleave h.2).trans (hleave.trans h.1) (of_closes hu)
  | unpark => exact of_steady (unparking_inert _).toSteady
  | refuse => exact of_tasks rfl rfl
  | @enter b s t submission progress _ hf h =>
    have hadmitted : Hires s (s.admitting submission progress) := of_tasks rfl rfl
    have hadmit : Unfolds none s (s.admitting submission progress) := admitting_unfolds submission progress hf
    exact hadmitted.trans hadmit h.2
  | arm => exact of_tasks rfl rfl
  | start _ hq h hu => exact start hq h.2 hu

theorem informed (s : Scheduler) (event : Event) (index : Nat) : Hires s (s.informed event index) := by
  unfold Scheduler.informed
  split
  · exact .refl s
  · split
    · exact .refl s
    · exact of_tasks rfl rfl

theorem breakOff (h : Hires s t) (event : Event) : Hires s (t.mapQueue (·.breakOff event)) := by
  obtain ⟨ids, hq, -⟩ := t.queue.breakOff_eq event
  refine h.followed ?_ rfl
  rw [mapQueue_queue, hq]

theorem carried : Carried fun _ => Hires where
  does := of_does
  trans hrow h h' := h.trans hrow h'
  hear {s} event index := informed s event index
  breakOff event h := h.breakOff event

end Hires

/-! ## Turns -/

/-- What happens in a row, in the turn of a job or outside of one, while tasks are created as they should be. -/
def Staffs (own : Option JobId) (_ : Bool) (s t : Scheduler) : Prop := Unfolds own s t ∧ Hires s t

instance (own : Option JobId) : Tracks (Staffs own) where
  fit h := h.1.fit
  active h := h.1.active
  inert h := ⟨.inert h, .of_steady h.toSteady⟩
  signal hid h := ⟨.one (.signal hid h), .of_steady h.toSteady⟩
  halt := ⟨.refl, .refl _⟩
  trans h h' := ⟨h.1.trans h'.1, h.2.trans h.1 h'.2⟩

section Turn
variable {notify : Notify}

/-- Telling listeners creates tasks as it should. -/
abbrev Staffing (notify : Notify) : Prop := Tells (Along fun _ _ _ => Hires) notify.cut

theorem notifyWithin_staffing (copies : Copying) (n : Nat) : Staffing (notifyWithin copies n) :=
  Hires.carried.tells_within copies n

theorem Leads.staffs {α : Type} {x y : Act α} (h : x.Akin y) (hy : Leads (Does fun _ _ _ => Hires) s y) :
    Leads (Staffs none) s x :=
  Leads.akin h fun hf => ⟨(hy hf).unfolds, Hires.of_does (hy hf)⟩

theorem Leads.within {α : Type} {x : Act α} (h : Leads (Staffs none) s x) : Leads (Staffs own) s x :=
  fun hf => (h hf).imp_left Unfolds.within

theorem staffs_serves (hn : Staffing notify) : Serves (Staffs own) notify where
  enqueue submission _ := Leads.within (Leads.staffs (enqueue_akin notify true submission) (enqueue_told hn submission))
  cancelAll _ := Leads.within (Leads.staffs (cancelAll_akin notify) (cancelAll_told hn))

theorem staffs_owns (hn : Staffing notify) (id : JobId) : Owns (Staffs (some id)) notify id where
  toServes := staffs_serves hn
  cools s ha hc := by
    refine Leads.akin (P := fun s t => Staffs (some id) false s t) (setStatus_akin notify id _) fun hf => ?_
    have hcool : Unfolds (some id) s (s.showing id .coolingDown) := .one (.cool rfl ha hc)
    have hcooled : Hires s (s.showing id .coolingDown) := .of_tasks rfl rfl
    obtain ⟨hrow, htold⟩ := hn.leads .status id (s.showing id .coolingDown) (hcool.fit hf)
    exact ⟨hcool.trans hrow.within, hcooled.trans hcool htold⟩
  ends status path errorMessage message s ha := by
    refine Leads.akin (P := fun s t => Staffs (some id) false s t) (finish_akin notify id _ _ _ _) fun hf => ?_
    cases hj : s.queue.job? id with
    | none =>
      rw [finish, Act.on_queueNow_bind, hj]
      exact ⟨.refl, .refl s⟩
    | some j =>
      cases hopen : j.finalized with
      | true =>
        rw [finish_again hj hopen]
        exact ⟨.inert (.noted rfl rfl), .of_tasks rfl rfl⟩
      | false =>
        obtain ⟨r, t, u, hr, ⟨hrow, htold⟩, hu, -⟩ :=
          finish_told hn hf (fun hw => hf.apart id ha (.inl hw)) hj hopen status path errorMessage message
        rw [hr]
        have hend : Unfolds (some id) s (s.mapQueue (·.update id (·.ended s.loop.now status errorMessage message))) :=
          .one (.finish rfl ha hj hopen)
        have hended : Hires s (s.mapQueue (·.update id (·.ended s.loop.now status errorMessage message))) := .of_tasks rfl rfl
        have hrow := hend.trans hrow.within
        exact ⟨hrow.trans hu.unfolds, (hended.trans hend htold).trans hrow (.of_recorded hu)⟩

theorem vacate_staffs (hn : Staffing notify) (hf : Fit s) (id : JobId) :
    Staffs none false (s.mapQueue (·.release id)) ((vacate notify id).on s).2 := by
  have hfill : Leads (Staffs none) (s.mapQueue (·.release id)) (do startWaiting notify; releaseParked) :=
    Leads.bind (Leads.staffs (startWaiting_akin notify) (startWaiting_told hn)) fun _ _ _ _ =>
      Leads.of_inert releaseParked_unparking rfl (unparking_inert _)
  exact hfill (hf.release id)

/-- A job whose task is over may leave those that are active. -/
theorem Staffed.release (hm : Staffed s) (hnone : ∀ i, ¬ s.Lives i id) : Staffed (s.mapQueue (·.release id)) where
  active i x hl := by
    have hne : x ≠ id := fun he => hnone i (he ▸ hl)
    exact (List.mem_erase_of_ne hne).mpr (hm.active i x hl)
  sole := hm.sole

/-- The turn of a job, whatever can be copied, is a row of moments after which each task has its job. -/
theorem runJob_staffed (hn : Staffing notify) (hf : Fit s) (hm : Staffed s) (hlives : s.Lives task id) {phase : Phase}
    (hp : s.phase? task = some (id, phase)) (killed : Bool) :
    Moments s ((runJob notify task id phase killed).on s).2 ∧ Staffed ((runJob notify task id phase killed).on s).2 := by
  have ho := staffs_owns hn id
  have ha := hm.active task id hlives
  -- Once the task is over its job has none, and its slot is given to the next one.
  have vacates : ∀ {v : Scheduler}, Staffs (some id) false s v → (∀ i, ¬ v.Lives i id) →
      Moments s ((vacate notify id).on v).2 ∧ Staffed ((vacate notify id).on v).2 := fun {v} hv hnone => by
    have hfv := hv.1.fit hf
    obtain ⟨hrow, hhires⟩ := vacate_staffs hn hfv id
    exact ⟨(hv.1.moments.tail (.release id)).trans hrow.moments,
      hhires.staffed (hfv.release id) ((hv.2.staffed hf hm).release hnone)⟩
  cases hj : s.queue.job? id with
  | none =>
    rw [runJob, Act.on_queueNow_bind, hj]
    exact ⟨.refl, hm⟩
  | some j =>
    have hplay : Staffs (some id) false s _ := playJob_leads ho (Queue.job?_id hj) ha phase killed hf
    have hran := runJob_ran notify task hj phase killed
    generalize (playJob notify j phase killed).on s = rt at hplay hran
    generalize ((runJob notify task id phase killed).on s).2 = u at hran
    have hretire := retire_inert rt.2 task
    have hretired : Staffs (some id) false s (rt.2.retire task) := Tracks.trans hplay (Tracks.inert hretire)
    have hnone : ∀ i, ¬ (rt.2.retire task).Lives i id := not_lives_retire fun i hi =>
      (hplay.2.lives hf hm.active i id hi).elim (fun hi => hm.sole i task id hi hlives) fun hnew => absurd hnew.1 (hf.apart id ha)
    cases hran with
    | @waits pause phase t =>
      obtain ⟨g, hg, hi⟩ := pausing_inert t task id pause phase
      obtain ⟨between, hb, -⟩ := Unfolds.phase hplay.1 hp
      have hturn : Unfolds (some id) s { t with tasks := t.tasks.modify task g } :=
        Relation.ReflTransGen.tail hplay.1 (.turn rfl ⟨between, hb⟩ hg)
      have hretask := hplay.2.retask hlives fun x => congrArg Work.owner? (hg x)
      have hafter : Unfolds (some id) s (t.pausing task id pause phase) := hturn.trans (Unfolds.inert hi)
      exact ⟨hafter.moments, (hretask.trans hturn (.of_steady hi.toSteady)).staffed hf hm⟩
    | ended => exact vacates hretired hnone
    | @stops fault t =>
      have habsorb : Staffs (some id) false (t.retire task) _ := absorb_leads ho (hretired.1.active ha) fault (hretired.1.fit hf)
      have hfr := hretired.1.fit hf
      refine vacates (Tracks.trans hretired habsorb) fun i hi => ?_
      exact (habsorb.2.lives hfr (hretired.2.staffed hf hm).active i id hi).elim (hnone i) fun hnew =>
        hfr.apart id (hretired.1.active ha) hnew.1

/-! ## Runs -/

theorem runTask_staffed (hn : Staffing notify) (hf : Fit s) (hm : Staffed s) (task : TaskId) :
    Moments s ((runTask notify task).on s).2 ∧ Staffed ((runTask notify task).on s).2 := by
  have staffed : ∀ {t}, Inert s t → Staffed t := fun h => (Hires.of_steady h.toSteady).staffed hf hm
  cases h : s.playing? task with
  | none =>
    have hidle : Inert s ((runTask notify task).on s).2 := runTask_idle hf h
    exact ⟨.inert hidle, staffed hidle⟩
  | some playing =>
    obtain ⟨id, phase, killed⟩ := playing
    obtain ⟨hlives, hphase, hrun⟩ := playing_on notify h
    have hheed := heeding_inert s task
    obtain ⟨hrow, hstaffed⟩ := runJob_staffed hn (hf.stays hheed.toStays) (staffed hheed) hlives hphase killed
    rw [hrun]
    exact ⟨(Moments.inert hheed).trans hrow, hstaffed⟩

theorem obey_staffs (hn : Staffing notify) (supplied : Option Store) {c : Command} (hc : c.isImmediate = true) :
    Leads (Staffs none) s (obey supplied notify c) := by
  have outside : ∀ submission, Leads (Staffs none) s (enqueue notify false submission) := fun submission =>
    Leads.staffs (enqueue_akin notify false submission) (enqueue_outside_told (Along fun _ _ _ => Hires) submission)
  cases c with
  | enqueue submission => exact Leads.bind ((staffs_serves hn).enqueue submission s) fun _ _ _ _ => Leads.pure _
  | enqueueOutside submission => exact Leads.bind (outside submission) fun _ _ _ _ => Leads.pure _
  | cancelAll => exact Leads.bind ((staffs_serves hn).cancelAll s) fun _ _ _ _ => Leads.pure _
  | _ => exact obey_rest_leads supplied hc (fun _ => ⟨nofun, nofun⟩) nofun

theorem fire_staffs (hn : Staffing notify) (hf : Fit s) {action : TimerAction}
    (ht : ∀ id, action = .expire id → s.queue.settings.Timely) : Staffs none false s ((fire notify action).on s).2 := by
  cases action with
  | wake task => exact Tracks.inert (.wake [task])
  | expire id =>
    obtain ⟨seconds, hseconds⟩ := ht id rfl
    have hexpire : Leads (Staffs none) s (expire notify id) := Leads.staffs (expire_akin notify id) (expire_told hn hseconds)
    exact hexpire hf

/-- What commands do, whatever can be copied, is a row of moments after which each task has its job. -/
theorem staffed_drives (copies : Copying) : Drives copies fun s t => Fit s → Timed s → Staffed s → Moments s t ∧ Staffed t where
  refl _ _ _ hm := ⟨.refl, hm⟩
  trans h h' hf ht hm := by
    obtain ⟨hrow, hm⟩ := h hf ht hm
    obtain ⟨hrow', hm⟩ := h' (hrow.fit hf) (ht.moments hrow) hm
    exact ⟨hrow.trans hrow', hm⟩
  obey supplied depth c hc hf _ hm := by
    obtain ⟨hrow, hhires⟩ := obey_staffs (notifyWithin_staffing copies depth) supplied hc hf
    exact ⟨hrow.moments, hhires.staffed hf hm⟩
  turn {s task l} depth hnext hf _ hm := by
    have hl : Inert s { s with loop := l } := .next hnext
    obtain ⟨hrow, hm⟩ := runTask_staffed (notifyWithin_staffing copies depth) (hf.stays hl.toStays)
      ((Hires.of_steady hl.toSteady).staffed hf hm) task
    exact ⟨(Moments.inert hl).trans hrow, hm⟩
  fire {s action time l} depth hfire hf ht hm := by
    obtain ⟨⟨timer, htimer, haction⟩, -⟩ := fire?_set hfire
    have hl : Inert s { s with loop := l } := .fired hfire
    have hfl := hf.stays hl.toStays
    have hml := (Hires.of_steady hl.toSteady).staffed hf hm
    obtain ⟨hrow, hhires⟩ := fire_staffs (notifyWithin_staffing copies depth) hfl fun id hid =>
      ht id ⟨timer, htimer, haction.trans hid⟩
    exact ⟨(Moments.inert hl).trans hrow.moments, hhires.staffed hfl hml⟩
  moveTo {s} time hf _ hm := by
    have hl : Inert s { s with loop := s.loop.moveTo time } := .loop fun _ hm _ _ => hm
    exact ⟨.inert hl, (Hires.of_steady hl.toSteady).staffed hf hm⟩

end Turn

/-- What the commands of a run do is a row of moments, whatever can be copied. -/
theorem giveAllWithin_moments (settings : Settings) (store : Store) (directory : String) (budget : Nat) (copies : Copying)
    (supplied : Option Store) (commands : List Command) :
    Moments (start settings store directory budget)
      ((start settings store directory budget).giveAllWithin copies supplied commands).2 :=
  ((staffed_drives copies).giveAll supplied _ commands (.start settings store directory budget)
    (fun _ ⟨_, hm, _⟩ => absurd hm List.not_mem_nil)
    ⟨fun _ _ hl => absurd hl.choose_spec.1 nofun, fun _ _ _ hl => absurd hl.choose_spec.1 nofun⟩).1

end MediaEngine.Scheduler
