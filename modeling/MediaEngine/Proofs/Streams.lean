import MediaEngine.Proofs.Accounting
import MediaEngine.Proofs.Recitals

/-! # The stream of a job

In the turn of a job, and in every step of a run, what is heard of the job goes along with it. So whoever listens from the
start has heard of each job, in every state of a run, what there is to be heard of it so far (`streams_recited`). -/

namespace MediaEngine
open Job

namespace Scheduler
variable {s t u : Scheduler} {who : String} {k : Nat} {id i : JobId} {b c d e : Bool} {j l : Job} {status : Job.Status}
  {task : TaskId} {phase : Phase} {killed : Bool}

/-! ## Turns -/

/-- The job cools down. -/
theorem Recites.cools (hu : s.Underway id j) (hcancelled : j.token.cancelled = false)
    (h : Along (Softly Spread) .status id b (s.showing id .coolingDown) t) : Recites who k id false true s t := by
  have hfree : s.queue.isCancelled id = false := by rw [Queue.isCancelled, hu.job]; exact hcancelled
  have hpart : Unfolds (some id) s (s.showing id .coolingDown) := .one (.cool rfl hu.active hfree)
  refine .telling hpart.moments (.of_eq rfl rfl) rfl h .refl (.refl t) (fun _ _ hp => hp) (fun k hk => .inl hk) fun hl _ hv hs hc => ?_
  obtain ⟨asked, ho, hstarted, -, hsignalled, hheard⟩ := hc.of_active hu.fit hu.active hu.job
  have hasked : asked = false := Bool.eq_false_iff.mpr fun h => by
    rw [hsignalled h] at hcancelled
    cases hcancelled
  subst hasked
  obtain ⟨-, ⟨l, hlj, ht⟩, htold⟩ := hs.own hv hl (hu.showing .coolingDown).job
  refine .runs false (h.1.active hu.active) hlj (ht.finalized.trans ho) (ht.startedAt ▸ hstarted) ht.status (fun h => absurd h Bool.false_ne_true) ?_
  rw [htold, recital_cooled, ← hheard]
  rfl

/-- Another job cools down. -/
theorem Recites.cools_other (hu : s.Underway i j) (hcancelled : j.token.cancelled = false) (hi : i ≠ id)
    (h : Along (Softly Spread) .status i b (s.showing i .coolingDown) t) : Recites who k id c c s t := by
  have hfree : s.queue.isCancelled i = false := by rw [Queue.isCancelled, hu.job]; exact hcancelled
  have hpart : Unfolds (some i) s (s.showing i .coolingDown) := .one (.cool rfl hu.active hfree)
  refine .telling hpart.moments (.of_eq rfl rfl) rfl h .refl (.refl t) (fun _ _ hp => hp) (fun k hk => .inl hk) fun hl _ hv hs hc => ?_
  exact hs.chapter hi hv hl (hc.update (by intro; rfl) (Ne.symm hi))

theorem Works.recites (h : Works (Softly Spread) id c d b s t) : Recites who k id c d s t := by
  induction h with
  | does h => exact h.recites
  | cools hu hc h => exact .cools hu hc h
  | trans _ _ ih₁ ih₂ => exact ih₁.trans ih₂

theorem Works.recites_other (hi : i ≠ id) (h : Works (Softly Spread) i c d b s t) : Recites who k id e e s t := by
  induction h with
  | does h => exact h.recites
  | cools hu hc h => exact .cools_other hu hc hi h
  | trans _ _ ih₁ ih₂ => exact ih₁.trans ih₂

theorem Recorded.lives {path : Option String} (h : Recorded i path b t u) (k : TaskId) (hk : u.Lives k id) : t.Lives k id := by
  cases b <;> cases h
  · have hkept := (recording_inert t i path).lives k id hk
    unfold Lives at hkept ⊢
    rwa [Occurs.keep_tasks] at hkept
  · exact hk

/-- The job ends and its slot gets free; in between nothing happens of which anybody hears. -/
theorem Concludes.recites {v : Scheduler} (h : Concludes (Softly Spread) id c status b s t) (hi : Inert t v) (hm : Mute t v) :
    Recites who k id c d s (v.mapQueue (·.release id)) := by
  cases h with
  | @ends j path errorMessage message w _ hu hsignalled hterm hp h hr =>
    have hpart : Unfolds (some id) s (s.ending id status errorMessage message) := .one (.finish rfl hu.active hu.job hu.unended)
    have hrest : Unfolds none w v := Relation.ReflTransGen.tail hr.unfolds (.inert hi)
    have hmute : Mute w v := (Mute.recorded hr).trans hm
    refine .telling hpart.moments (.of_eq rfl rfl) rfl h (hrest.moments.tail (.release id)) (hmute.trans (.release id))
      hrest.phases (fun k hk => .inl (hr.lives k (hi.lives k id hk))) fun hl hready hv hs hc => ?_
    obtain ⟨asked, -, hstarted, -, hasked, hheard⟩ := hc.of_active hu.fit hu.active hu.job
    obtain ⟨-, ⟨l, hlj, ht⟩, htold⟩ := hs.own hv hl (Queue.job?_update_self (by intro; rfl) hu.job)
    obtain ⟨m, hm, htm⟩ := Queue.tuned_job?_some hmute.jobs hlj
    have htuned := ht.trans htm
    have hfit : Fit v := hrest.fit (h.1.fit hv.fit)
    refine .ended hfit.once_active.not_mem_erase hm htuned.finalized ?_
    have hstream : (v.mapQueue (·.release id)).streamed who id = recital c asked ++ [(.finished, status)] := by
      refine (streamed_congr (hmute.hearings who) id).trans (htold.trans ?_)
      change s.streamed who id ++ _ = _
      rw [hheard]
      rfl
    rw [hstream]
    have hst : m.status = status := htuned.status
    rw [← hst] at hsignalled hterm hp ⊢
    refine .ended c asked (htuned.startedAt ▸ hstarted) hterm (fun h => hsignalled (hasked h)) fun hcompleted hpreview => ?_
    exact hp hcompleted (htuned.submission ▸ hpreview)

/-- Another job ends. -/
theorem Concludes.recites_other (hi : i ≠ id) (h : Concludes (Softly Spread) i c status b s t) : Recites who k id e e s t := by
  cases h with
  | @ends j path errorMessage message w _ hu _ _ _ h hr =>
    have hpart : Unfolds (some i) s (s.ending i status errorMessage message) := .one (.finish rfl hu.active hu.job hu.unended)
    have hrest : Unfolds none w t := hr.unfolds
    refine .telling hpart.moments (.of_eq rfl rfl) rfl h hrest.moments (.recorded hr) hrest.phases
      (fun k hk => .inl (hr.lives k hk)) fun hl _ hv hs hc => ?_
    have hended : (s.ending i status errorMessage message).Chapter who id e := hc.update (by intro; rfl) (Ne.symm hi)
    exact (hs.chapter hi hv hl hended).mute (.recorded hr) hr.stays.waiting hr.stays.active

theorem Recites.release_other (hi : i ≠ id) : Recites who k id c c s (s.mapQueue (·.release i)) where
  moments := .single (.release i)
  rolls _ := (Mute.release i).rolls
  phases _ _ h := h
  lives _ _ h := .inl h
  chapter _ _ hc := hc.kept (Same.rel_refl _) (fun h => h) (List.mem_erase_of_ne (Ne.symm hi)) rfl

/-- Once the slot of a job is free, the next ones start. -/
theorem Vacates.recites (h : Vacates (Softly Spread) i s t) : Recites who k id c c (s.mapQueue (·.release i)) t := by
  cases h with
  | fills h => exact h.does.recites.trans (.of_inert (unparking_inert _) (.unparking _))
  | cut h => exact h.does.recites

theorem Recites.retire (task : TaskId) : Recites who k id c c s (s.retire task) :=
  .of_inert (retire_inert s task) (.of_queue rfl rfl)

/-- The task of another job waits again. -/
theorem Recites.pauses_other (hi : i ≠ id) (hphase : ∃ before, s.phase? task = some (i, before)) (pause : Pause) (after : Phase) :
    Recites who k id c c s (s.pausing task i pause after) := by
  obtain ⟨g, hg, hinert⟩ := pausing_inert s task i pause after
  refine ⟨pausing_moments hphase pause after, fun _ => (Mute.pausing task i pause after).rolls, fun n ph hn => ?_,
    fun _ n hn => .inl ?_, fun _ _ hc => hc.mute (.pausing task i pause after) hinert.waiting hinert.active⟩
  · have hne : task ≠ n := fun he => by
      obtain ⟨before, hb⟩ := hphase
      cases hn.symm.trans (he ▸ hb)
      exact hi rfl
    rw [hinert.phase n, phase?, List.getElem?_modify_ne _ _ hne]
    exact hn
  · exact (lives_retask (fun x => by rw [hg]; rfl) (hinert.lives n id hn)).resolve_right fun h => hi h.2.symm

/-- The turn of another job. -/
theorem TurnOf.recites_other (hi : i ≠ id) (h : TurnOf (Softly Spread) task i phase killed s t)
    (hphase : s.phase? task = some (i, phase)) : Recites who k id c c s t := by
  cases h with
  | waits _ hw =>
    obtain ⟨between, hb, -⟩ := hw.unfolds.phase hphase
    exact (hw.recites_other hi).trans (.pauses_other hi ⟨between, hb⟩ _ _)
  | @ends d b status v w x y _ hw hc ht hv =>
    have hended : Recites who k id c c s (w.retire task) := ((hw.recites_other hi).trans (hc.recites_other hi)).trans (.retire task)
    exact ((hended.trans (.of_inert ht.inert (.touches ht))).trans (.release_other hi)).trans hv.recites
  | stops _ hw hc hv =>
    exact ((((hw.recites_other hi).trans (.retire task)).trans (hc.recites_other hi)).trans (.release_other hi)).trans hv.recites

/-! ## Between steps -/

/-- What was heard of a job tells how far it is, and so do its tasks. -/
structure Abreast (s : Scheduler) (who : String) (k : Nat) (id : JobId) : Prop where
  ready : s.Ready k
  chapter : ∃ c, s.Chapter who id c ∧ ∀ i ph, s.Lives i id → s.phase? i = some (id, ph) → ph.isPreview = c

theorem phase_of_lives (h : s.Lives task id) : ∃ ph, s.phase? task = some (id, ph) := by
  obtain ⟨x, hx, ho, -⟩ := h
  rw [phase?, hx]
  change ∃ ph, x.work.phase? = some (id, ph)
  cases hw : x.work with
  | job owner ph =>
    rw [hw] at ho
    cases ho
    exact ⟨ph, rfl⟩
  | waitIdle => rw [hw] at ho; cases ho

theorem Recites.abreast (h : Recites who k id c c s t) (hl : t.Listens who k) (hr : s.Ready k) (hc : s.Chapter who id c)
    (hphases : ∀ i ph, s.Lives i id → s.phase? i = some (id, ph) → ph.isPreview = c) : t.Abreast who k id where
  ready := hr.next (h.moments.fit hr.fit) (h.rolls hl.gentle.quiet)
  chapter := by
    refine ⟨c, h.chapter hl hr hc, fun i ph hi hp => ?_⟩
    rcases h.lives hl.gentle.quiet i hi with hi | ⟨hu, hfresh⟩
    · obtain ⟨before, hb⟩ := phase_of_lives hi
      cases hp.symm.trans (h.phases i before hb)
      exact hphases i ph hi hb
    · cases hp.symm.trans hfresh
      exact (hc.of_upcoming hr.fit hu).symm

/-- What belongs to a step and is not the turn of the job. -/
theorem Abreast.next (h : s.Abreast who k id) (hl : t.Listens who k) (ht : ∀ c, Recites who k id c c s t) : t.Abreast who k id := by
  obtain ⟨hr, c, hc, hphases⟩ := h
  exact (ht c).abreast hl hr hc hphases

/-- In its own turn the job comes to wait in the phase that goes with what was heard of it, or it ends. -/
theorem TurnOf.abreast (h : TurnOf (Softly Spread) task id phase killed s t) (hu : s.Underway id j)
    (hphase : s.phase? task = some (id, phase)) (hlives : s.Lives task id) (hown : ∀ i, s.Lives i id → i = task)
    (hl : t.Listens who k) (ha : s.Abreast who k id) : t.Abreast who k id := by
  obtain ⟨hr, c, hc, hphases⟩ := ha
  obtain rfl : phase.isPreview = c := hphases task phase hlives hphase
  cases h with
  | @waits pause after v _ hw =>
    have hrecites : Recites who k id phase.isPreview after.isPreview s v := hw.recites
    have hmute : Mute v (v.pausing task id pause after) := .pausing task id pause after
    obtain ⟨g, hg, hinert⟩ := pausing_inert v task id pause after
    have hmade : k < v.queue.listeners.length := Nat.lt_of_lt_of_le hr.made hrecites.moments.listeners.length_le
    have hlv : v.Listens who k := hl.before hmute.rolls hmade
    have hrv : v.Ready k := hr.next (hrecites.moments.fit hr.fit) (hrecites.rolls hlv.gentle.quiet)
    have hretask : Fit { v with tasks := v.tasks.modify task g } := hrv.fit.stays (.of_queue rfl)
    have hfit : Fit (v.pausing task id pause after) := hretask.stays hinert.toStays
    refine ⟨hrv.next hfit hmute.rolls, after.isPreview,
      (hrecites.chapter hlv hr hc).mute hmute hinert.waiting hinert.active, fun i ph hi hp => ?_⟩
    -- The job has no other task, and this one has just been given the phase.
    have htask : i = task := by
      rcases lives_retask (fun x => by rw [hg]; rfl) (hinert.lives i id hi) with hi | ⟨hi, -⟩
      · exact ((hrecites.lives hlv.gentle.quiet i hi).elim (hown i) fun h => absurd h.1 (hu.fit.apart id hu.active))
      · exact hi
    subst htask
    have hafter := (hinert.phase i).trans (phase_retask hg (hinert.lives i id hi))
    cases hp.symm.trans hafter
    rfl
  | @ends d b status v w x y _ hw hended ht hv =>
    have hinert : Inert w x := (retire_inert w task).trans ht.inert
    have hretire : Mute w (w.retire task) := .of_queue rfl rfl
    have hmute : Mute w x := hretire.trans (.touches ht)
    exact ((hw.recites.trans (hended.recites hinert hmute)).trans hv.recites).abreast hl hr hc hphases
  | stops _ hw hended hv =>
    exact (((hw.recites.trans (.retire task)).trans (hended.recites (.refl _) (.refl _))).trans hv.recites).abreast hl hr hc hphases

/-- Nobody hears anything, and no job moves. -/
theorem Abreast.inert (h : s.Abreast who k id) (hi : Inert s t) (hm : Mute s t) : t.Abreast who k id := by
  obtain ⟨hr, c, hc, hphases⟩ := h
  refine ⟨hr.next (hr.fit.stays hi.toStays) hm.rolls, c, hc.mute hm hi.waiting hi.active, fun i ph hl hp => ?_⟩
  exact hphases i ph (hi.lives i id hl) ((hi.phase i).symm.trans hp)

/-- A step, as one who listens sees it: nobody hears anything, or after that scripts do something, or it is the turn of a
    job. -/
inductive Scene (s : Scheduler) : Scheduler → Prop
  | mute {t : Scheduler} : Inert s t → Mute s t → Scene s t
  | does {b : Bool} {v t : Scheduler} : Inert s v → Mute s v → Does (Softly Spread) b v t → Scene s t
  | turns {task : TaskId} {i : JobId} {phase : Phase} {killed : Bool} {j : Job} {v t : Scheduler} : Inert s v → Mute s v →
      v.Underway i j → v.phase? task = some (i, phase) → v.Lives task i → (∀ n, v.Lives n i → n = task) →
      TurnOf (Softly Spread) task i phase killed v t → Scene s t

theorem Deed.scene (h : Deed (Softly Spread) (Does (Softly Spread)) s t) (hs : Settled s) : Scene s t := by
  have hloop : ∀ l, Mute s { s with loop := l } := fun _ => .of_queue rfl rfl
  have hheed : ∀ l task, Mute s (heeding { s with loop := l } task) := fun _ _ => .of_queue rfl rfl
  cases h with
  | does h => exact .does (.refl s) (.refl s) h
  | kills h => exact .mute (h.inert hs.fit) (.kills h)
  | annotates id m => exact .mute (annotated_inert s id m) (.update fun j => { Tuned.refl j with })
  | joins name => exact .mute .spawn (.of_queue rfl rfl)
  | @rests task l hnext _ => exact .mute (.next hnext) (hloop l)
  | @drops task l x i hnext _ _ _ _ =>
    exact .mute ((Inert.turning hnext).trans (retire_inert _ task)) (.of_queue rfl rfl)
  | @plays task l x i phase j t hnext hx hlive hwork hfresh hu hturn =>
    have hinert : Inert s (heeding { s with loop := l } task) := .turning hnext
    have hlives : (heeding { s with loop := l } task).Lives task i :=
      ⟨_, heeding_task (s := { s with loop := l }) hx, congrArg Work.owner? hwork, hlive⟩
    exact .turns hinert (hheed l task) hu (turning_phase hnext hx hwork) hlives ((hs.inert hinert).working hlives).2 hturn
  | @waits task l x name parked hnext hx hlive hwork =>
    exact .mute ((Inert.turning hnext).trans (idling_turn hs.fit hx hwork l)) ((hheed l task).trans (.idling task name parked x.killed))
  | @expires i time l b t hfire h => exact .does (.fired hfire) (hloop l) h
  | @wakes task time l hfire => exact .mute ((Inert.fired hfire).trans (.wake [task])) (.of_queue rfl rfl)
  | moveTo time => exact .mute (.loop fun _ hm _ _ => hm) (.of_queue rfl rfl)

theorem Scene.rolls (h : Scene s t) (hq : t.queue.Quiet) : s.queue.Rolls t.queue := by
  cases h with
  | mute _ hm => exact hm.rolls
  | @does b v t _ hm h =>
    have hrecites : Recites "" 0 0 false false v t := h.recites
    exact hm.rolls.trans (hrecites.rolls hq)
  | @turns task i phase killed j v t _ hm hu hphase _ _ h =>
    -- What is heard of another job tells who is subscribed.
    have hother : Recites "" 0 (i + 1) false false v t := h.recites_other (Nat.ne_of_lt (Nat.lt_succ_self i)) hphase
    exact hm.rolls.trans (hother.rolls hq)

/-- A step keeps abreast whoever hears of it. -/
theorem Scene.abreast (h : Scene s t) (hl : t.Listens who k) (ha : s.Abreast who k id) : t.Abreast who k id := by
  cases h with
  | mute hi hm => exact ha.inert hi hm
  | does hi hm h => exact (ha.inert hi hm).next hl fun _ => h.recites
  | @turns task i phase killed j v t hi hm hu hphase hlives hown h =>
    by_cases hid : i = id
    · subst hid
      exact h.abreast hu hphase hlives hown hl (ha.inert hi hm)
    · exact (ha.inert hi hm).next hl fun _ => h.recites_other hid hphase

/-! ## Runs -/

/-- What was heard of a job in a state of a run. -/
structure Recited (s : Scheduler) (who : String) (j : Job) : Prop where
  waits : j.finalized = false → j.startedAt = none → s.streamed who j.id = [(.queued, .queued)]
  runs : j.finalized = false → j.startedAt.isSome = true → ∃ cooled asked, s.streamed who j.id = recital cooled asked
  ended : j.finalized = true → Recounted j (s.streamed who j.id)
  /-- The entry tells the status with which the job ended. -/
  entries : ∀ e ∈ s.entriesOf j.id, j.finalized = true ∧ e.status = j.status

theorem Abreast.recited (h : s.Abreast who k j.id) (hs : Settled s) (hj : j ∈ s.queue.jobs) : s.Recited who j := by
  have hfound : s.queue.job? j.id = some j := Queue.job?_of_mem hs.fit.nodup hj
  have entries : ∀ e ∈ s.entriesOf j.id, j.finalized = true ∧ e.status = j.status := fun e he => by
    rcases hs.entries hj with ⟨-, hnone⟩ | ⟨hfin, hclosed⟩
    · rw [hnone] at he
      cases he
    · cases hclosed with
      | lost _ hnone => rw [hnone] at he; cases he
      | filed e' _ hone hst _ _ =>
        rw [hone] at he
        cases List.mem_singleton.mp he
        exact ⟨hfin, hst⟩
  obtain ⟨hr, c, hc, -⟩ := h
  cases hc with
  | unknown hno _ => cases hno.symm.trans hfound
  | waits hw hk _ hstarted hheard =>
    cases hfound.symm.trans hk
    obtain ⟨l, hl, hopen⟩ := hs.fit.waits j.id hw
    cases hfound.symm.trans hl
    exact ⟨fun _ _ => hheard, fun _ h => (by rw [hstarted] at h; cases h), fun h => (by rw [hopen] at h; cases h), entries⟩
  | runs asked _ hk hopen hstarted _ _ hheard =>
    cases hfound.symm.trans hk
    exact ⟨fun _ h => (by rw [h] at hstarted; cases hstarted), fun _ _ => ⟨_, asked, hheard⟩,
      fun h => (by rw [hopen] at h; cases h), entries⟩
  | ended _ hk hfin hheard =>
    cases hfound.symm.trans hk
    exact ⟨fun h => (by rw [hfin] at h; cases h), fun h => (by rw [hfin] at h; cases h), fun _ => hheard, entries⟩

/-- What was noted stays noted. -/
theorem Moments.notes (h : Moments s t) : s.notes <+: t.notes := by
  have steady : ∀ {s t : Scheduler}, Steady s t → s.notes <+: t.notes := fun h => by
    obtain ⟨ns, hns, -⟩ := h.notes
    exact ⟨ns, hns.symm⟩
  induction h with
  | refl => exact List.prefix_rfl
  | tail _ h ih =>
    refine ih.trans ?_
    cases h with
    | release => exact List.prefix_rfl
    | occurs h =>
      cases h with
      | inert h => exact steady h.toSteady
      | signal _ h => exact steady h.toSteady
      | hear | asked | take => exact List.prefix_append _ _
      | keep =>
        unfold keep
        split <;> exact List.prefix_rfl
      | _ => exact List.prefix_rfl

theorem streamed_prefix (h : s.notes <+: t.notes) (who : String) (id : JobId) : s.streamed who id <+: t.streamed who id := by
  obtain ⟨ns, hns⟩ := h
  rw [streamed, streamed, hearings_append hns.symm, List.filterMap_append]
  exact List.prefix_append _ _

section Runs
variable {settings : Settings} {store : Store} {directory : String} {budget : Nat} {listeners : List Listener}

/-- A scheduler at time zero to which listeners have subscribed, one after the other. -/
def attended (settings : Settings) (store : Store) (directory : String) (budget : Nat) (listeners : List Listener) : Scheduler :=
  (start settings store directory budget).mapQueue fun q => listeners.foldl Queue.subscribe q

theorem subscribe_all (q : Queue) (listeners : List Listener) : q.Rolls (listeners.foldl Queue.subscribe q) ∧
    (listeners.foldl Queue.subscribe q).listeners = q.listeners ++ listeners ∧
    (listeners.foldl Queue.subscribe q).jobs = q.jobs := by
  induction listeners generalizing q with
  | nil => exact ⟨.refl q, (List.append_nil _).symm, rfl⟩
  | cons l rest ih =>
    obtain ⟨hrolls, hl, hj⟩ := ih (q.subscribe l)
    refine ⟨(Queue.Rolls.subscribe q l).trans hrolls, hl.trans ?_, hj⟩
    simp [Queue.listeners, Queue.subscribe]

/-- To subscribe is a run. -/
theorem attended_runs (settings : Settings) (store : Store) (directory : String) (budget : Nat) (listeners : List Listener) :
    Runs (start settings store directory budget) (attended settings store directory budget listeners) := by
  unfold attended
  generalize start settings store directory budget = s
  induction listeners generalizing s with
  | nil => exact .refl
  | cons l rest ih => exact .head (.obey none 0 (.subscribe l) rfl) (ih (s.mapQueue (·.subscribe l)))

theorem attended_abreast (hk : k < listeners.length) (who : String) (id : JobId) :
    (attended settings store directory budget listeners).Abreast who k id := by
  obtain ⟨hs, -, -⟩ := Runs.basics (attended_runs settings store directory budget listeners)
  obtain ⟨hrolls, hl, hj⟩ := subscribe_all (Queue.start settings store) listeners
  refine ⟨⟨hs.fit, hrolls.enrolled ⟨List.nodup_nil, nofun⟩, ?_⟩, false, .unknown ?_ rfl, fun i _ hi => ?_⟩
  · change k < (listeners.foldl Queue.subscribe (Queue.start settings store)).listeners.length
    rw [hl]
    exact hk
  · change List.find? _ (listeners.foldl Queue.subscribe (Queue.start settings store)).jobs = none
    rw [hj]
    rfl
  · exact absurd hi.choose_spec.1 nofun

theorem attended_abreast_later (h : Runs (attended settings store directory budget listeners) s) (hk : k < listeners.length)
    (hl : s.Listens who k) (id : JobId) : s.Abreast who k id := by
  induction h with
  | refl => exact attended_abreast hk who id
  | @tail t u hrun hstep ih =>
    obtain ⟨hs, ht, -⟩ := Runs.basics ((attended_runs settings store directory budget listeners).trans hrun)
    have hscene := (hstep.deed notifyUpTo_softly hs ht).scene hs
    have hstart := Runs.basics (attended_runs settings store directory budget listeners)
    obtain ⟨-, -, hm⟩ := Runs.sound hrun hstart.1 hstart.2.1
    have hmade : k < t.queue.listeners.length := Nat.lt_of_lt_of_le (attended_abreast hk who id).ready.made hm.listeners.length_le
    have hlt : t.Listens who k := hl.before (hscene.rolls hl.gentle.quiet) hmade
    exact hscene.abreast hl (ih hlt)

/-- In every state of a run, whoever listens from the start, and where no listener may be cut short, has heard of each job all
    that there is to be heard of it so far, and of a number without a job nothing; and it stays what was heard. -/
theorem streams_recited (h : Runs (attended settings store directory budget listeners) s) (hk : k < listeners.length)
    (hl : s.Listens who k) :
    (∀ id, s.queue.job? id = none → s.streamed who id = []) ∧ (∀ j ∈ s.queue.jobs, s.Recited who j) ∧
      ∀ t, Runs s t → ∀ id, s.streamed who id <+: t.streamed who id := by
  have hrun := (attended_runs settings store directory budget listeners).trans h
  obtain ⟨hs, ht, -⟩ := Runs.basics hrun
  have ha := attended_abreast_later h hk hl
  refine ⟨fun id hno => ?_, fun j hj => (ha j.id).recited hs hj, fun t hr id => ?_⟩
  · obtain ⟨_, c, hc, -⟩ := ha id
    exact (hc.of_new hno).2
  · exact streamed_prefix (Runs.sound hr hs ht).2.2.notes who id

end Runs

/-- Listeners of different names who do not keep quiet are heard. -/
theorem audible_of_names {q : Queue} {names : List String} (hnames : q.listeners.map Listener.name = names) (hn : names.Nodup)
    (hk : names[k]? = some who) (hloud : ∀ l ∈ q.listeners, l.quiet = false) : q.Audible who k where
  named i l hl := by
    have hi : names[i]? = some l.name := by rw [← hnames, List.getElem?_map, hl]; rfl
    refine ⟨fun he => ?_, fun he => ?_⟩
    · have hlt : i < names.length := (List.getElem?_eq_some_iff.mp hi).1
      exact (List.getElem?_inj hlt hn).mp (by rw [hi, hk, he])
    · rw [he, hk] at hi
      exact (Option.some.inj hi).symm
  loud l hl := hloud l (List.mem_of_getElem? hl)

/-- Of a job that has a preview and is completed, everything is heard. -/
theorem previewed_job_recited :
    let s := ((attended .default (.selective [] []) "/" 9 [⟨"m", false, none, none, 0, []⟩]).giveAll none
      [.enqueue ⟨"a", some [], .immediate [], none, .null⟩, .settle]).2
    s.queue.jobs.map Job.status = [.completed] ∧ (∀ j ∈ s.queue.jobs, s.Recited "m" j) ∧
      s.streamed "m" 1 = recital true false ++ [(.finished, .completed)] := by
  intro s
  have hnames : s.queue.listeners.map Listener.name = ["m"] := by decide +kernel
  have hloud : ∀ l ∈ s.queue.listeners, l.quiet = false := by decide +kernel
  have hgentle : s.queue.Gentle := by
    unfold Queue.Gentle
    decide +kernel
  have hl : s.Listens "m" 0 := ⟨hgentle, audible_of_names hnames (List.nodup_singleton _) rfl hloud, by decide +kernel⟩
  exact ⟨by decide +kernel, (streams_recited (runs_drives.giveAll _ _ _) Nat.zero_lt_one hl).2.1, by decide +kernel⟩

/-- A listener who stops like a cancelled task when it is told of the end of a job keeps it from those who subscribed later,
    although nobody calls back. -/
theorem end_unheard :
    ∃ settings store directory budget listeners s, Runs (attended settings store directory budget listeners) s ∧
      1 < listeners.length ∧ s.queue.Quiet ∧ s.queue.Audible "m" 1 ∧ 1 ∈ s.queue.subscribed ∧
      ∃ j ∈ s.queue.jobs, j.finalized = true ∧ s.streamed "m" j.id = recital false false ∧ ¬ s.Recited "m" j := by
  let listeners : List Listener := [⟨"l", false, some .finished, none, 1, [.fail .taskCancelled]⟩, ⟨"m", false, none, none, 0, []⟩]
  let s := ((attended .default (.selective [] []) "/" 9 listeners).giveAll none
    [.enqueue ⟨"a", some [], .none, none, .null⟩, .settle]).2
  have hnames : s.queue.listeners.map Listener.name = ["l", "m"] := by decide +kernel
  have hloud : ∀ l ∈ s.queue.listeners, l.quiet = false := by decide +kernel
  have hquiet : s.queue.Quiet := by
    unfold Queue.Quiet
    decide +kernel
  have hjobs : (s.queue.jobs.any fun j => j.finalized && j.id == 1) = true := by decide +kernel
  obtain ⟨j, hj, hflags⟩ := List.any_eq_true.mp hjobs
  obtain ⟨hfin, hid⟩ := Bool.and_eq_true_iff.mp hflags
  have hone : j.id = 1 := beq_iff_eq.mp hid
  have hheard : s.streamed "m" j.id = recital false false := by
    rw [hone]
    decide +kernel
  refine ⟨.default, .selective [] [], "/", 9, listeners, s, runs_drives.giveAll _ _ _, by decide, hquiet,
    audible_of_names hnames (by decide) rfl hloud, by decide +kernel, j, hj, hfin, hheard, fun hr => ?_⟩
  have hended := hr.ended hfin
  rw [hheard] at hended
  generalize hevents : recital false false = events at hended
  cases hended with
  | dropped => cases hevents
  | ended cooled asked => cases cooled <;> cases asked <;> cases hevents

end Scheduler
end MediaEngine
