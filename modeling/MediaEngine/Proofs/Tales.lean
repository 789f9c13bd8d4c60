import MediaEngine.Proofs.Verdicts

/-! # Where a story stands

The story of a job has not begun, has come to the preview, or has come to its ending, and what the scheduler
has to show for the job agrees with that (`Tale`). As long as no listener calls back, each move keeps this: the
turn of the job tells the story on, and everything else leaves both alone. -/

namespace MediaEngine.Scheduler
open Job Narrated

/-- What the scheduler has to show for a job whose story is told so far. -/
inductive Tale (s : Scheduler) (id : JobId) : List Milestone → Prop
  | early : s.Early id → Tale s id []
  /-- The preview was called and waits. -/
  | called {j : Job} {value : Value} {result : RunResult} : id ∈ s.queue.active → s.queue.job? id = some j →
      j.finalized = false → j.submission.hasPreview = true → RunResult.ofValue value = .ok result →
      (∀ i, s.Lives i id → ∃ rest, s.phase? i = some (id, .preview result rest)) →
      Tale s id [.body (.ok value) false, .called]
  | ended {story : List Milestone} : s.Decided id story → Tale s id story

variable {s t : Scheduler} {id : JobId} {j : Job} {story : List Milestone} {task : TaskId} {phase : Phase} {depth : Nat}

/-! ## Everything else -/

/-- A job that has ended is gone between two moves. -/
theorem Settled.ended (hs : Settled s) (hj : s.queue.job? id = some j) (hfin : j.finalized = true) :
    ¬ s.Upcoming id ∧ id ∉ s.queue.active ∧ ∀ i, ¬ s.Lives i id := by
  have hopen : ∀ k, s.queue.job? id = some k → k.finalized ≠ false := fun k hk ho => by
    cases hj.symm.trans hk
    rw [hfin] at ho
    cases ho
  cases hs.placed id with
  | upcoming hu _ =>
    rcases hu with hw | hn
    · obtain ⟨k, hk, ho⟩ := hs.fit.waits id hw
      exact absurd ho (hopen k hk)
    · exact absurd (hs.fit.fresh id (Queue.job?_mem_ids hj)) (Nat.not_lt_of_le hn)
  | skipped _ hnone _ _ => rw [hj] at hnone; cases hnone
  | active k _ hk ho _ _ _ _ => exact absurd ho (hopen k hk)
  | stray k _ _ hk ho _ _ => exact absurd ho (hopen k hk)
  | gone _ hp ha _ _ hl _ => exact ⟨hp, ha, hl⟩

theorem Tale.aside (h : s.Tale id story) (hs : Settled s) (ha : Aside id s t) : t.Tale id story := by
  cases h with
  | early he => exact .early (ha.early he)
  | called hactive hj ho hp hv hphase =>
    have hf := ha.onward.frame (hs.fit.apart id hactive)
    obtain ⟨k, hk, hlast, -⟩ := hf.job _ hj
    refine .called (hf.active.mpr hactive) hk (hlast.finalized.trans ho) (hlast.submission ▸ hp) hv fun i hi => ?_
    obtain ⟨rest, hrest⟩ := hphase i (hf.lives i hi)
    exact ⟨rest, ha.phases i _ hrest⟩
  | ended hd =>
    obtain ⟨j, ending, hj, hv⟩ := hd
    have hd : s.Decided id story := ⟨j, ending, hj, hv⟩
    obtain ⟨hp, hactive, -⟩ := hs.ended hj hv.finalized
    exact .ended (hd.frame (ha.onward.frame hp) nothing_told hactive (ha.gone hp hactive))

/-! ## The turn of the job -/

/-- The task of a job whose turn comes is where the story is. -/
theorem Tale.reached (h : s.Tale id story) (hs : Settled s) (hlives : s.Lives task id) (hphase : s.phase? task = some (id, phase))
    (hj : s.queue.job? id = some j) : phase.Reached j.submission.hasPreview story := by
  cases h with
  | early he =>
    cases phase with
    | preview result rest => exact absurd hphase (he.phases task result rest hlives)
    | fresh | body rest => rfl
  | @called k value result _ hk _ hp hv hall =>
    cases hj.symm.trans hk
    obtain ⟨rest, hrest⟩ := hall task hlives
    cases hphase.symm.trans hrest
    exact ⟨hp, value, hv, rfl⟩
  | ended hd =>
    obtain ⟨k, _, hk, hv⟩ := hd
    exact absurd hlives ((hs.ended hk hv.finalized).2.2 task)

/-- Where the story of a job that waits is. -/
theorem Tale.waits (hf : Fit s) (ha : id ∈ s.queue.active) (hj : s.queue.job? id = some j) (ho : j.finalized = false)
    (hphase : ∀ i, s.Lives i id → s.phase? i = some (id, phase)) (h : phase.Reached j.submission.hasPreview story) :
    s.Tale id story := by
  cases phase with
  | preview result rest =>
    obtain ⟨hp, value, hv, rfl⟩ := h
    exact .called ha hj ho hp hv fun i hi => ⟨rest, hphase i hi⟩
  | fresh | body rest =>
    obtain rfl : story = [] := h
    refine .early ⟨fun i result rest hi he => ?_, fun k hk _ => ?_⟩
    · cases (hphase i hi).symm.trans he
    · cases hj.symm.trans hk
      exact ⟨ho, fun hw => hf.apart id ha (.inl hw)⟩

/-- A job that has ended stays so while its slot goes to the next one. -/
theorem vacate_decides (hl : Leaving s id) (hlives : ∀ i, ¬ s.Lives i id) (h : s.Decided id story) :
    Decided ((vacate (notifyUpTo depth) id).on s).2 id story := by
  have hr := hl.release hlives
  have hd : Decided (s.mapQueue (·.release id)) id story := by
    obtain ⟨j, ending, hj, hv⟩ := h
    exact ⟨j, ending, hj, { hv with }⟩
  have ha : id ∉ (s.mapQueue (·.release id)).queue.active := hl.fit.once_active.not_mem_erase
  have hn : Notifies Evolves (notifyUpTo depth) := notifyUpTo_notifies depth
  have hfill := fillSlots_leads hn hr.fit
  have hrow : Unfolds none (s.mapQueue (·.release id)) ((vacate (notifyUpTo depth) id).on s).2 :=
    vacate_unfolds (notifyUpTo_notifies depth) hl.fit
  exact hd.frame ((hfill.onward hr.fit hr.fresh Past.none id).frame hr.past) nothing_told ha
    (hrow.moments.gone hr.fit hr.past ha).2.2

theorem Stops.inert {f : Fault} (h : s.Stops j f story) (hi : Inert s t) : t.Stops j f story := by
  obtain ⟨k, ending, hk, ho, hc, hfault⟩ := h
  obtain ⟨l, hl, hfrozen⟩ := hi.hushed.frozen hk
  refine ⟨l, ending, hl, hfrozen.finalized.trans ho, ?_, ?_⟩
  · rw [hfrozen.submission, hfrozen.cancelled]
    exact hc
  · rw [hfrozen.cancelled]
    exact hfault

/-- A job that works waits once its task was given the phase that its story has reached. -/
theorem retask_waits {u : Scheduler} {g : Task → Task} (hw : Working t id) (hown : ∀ i, t.Lives i id → i = task)
    (hj : t.queue.job? id = some j) (hg : ∀ x, (g x).work = .job id phase)
    (hi : Inert { t with tasks := t.tasks.modify task g } u) (h : phase.Reached j.submission.hasPreview story) :
    u.Tale id story := by
  obtain ⟨j', hj', ho, -⟩ := hw.job
  cases hj.symm.trans hj'
  obtain ⟨k, hk, hfrozen⟩ := hi.hushed.frozen (j := j) hj
  have hfit : Fit { t with tasks := t.tasks.modify task g } := hw.fit.stays (.of_queue rfl)
  have hreached : phase.Reached k.submission.hasPreview story := hfrozen.submission ▸ h
  refine Tale.waits (hfit.stays hi.toStays) (hi.active ▸ hw.active) hk (hfrozen.finalized.trans ho) (fun i hlives => ?_) hreached
  have hlives := hi.lives i _ hlives
  have htask : i = task := by
    rcases lives_retask (fun x => by rw [hg]; rfl) hlives with h | ⟨h, -⟩
    · exact hown i h
    · exact h
  subst htask
  exact (hi.phase i).trans (phase_retask hg hlives)

/-- A job whose turn stopped with a fault has ended once the fault is absorbed. -/
theorem absorb_closes (depth : Nat) {fault : Fault} (hw : Working s j.id ∨ Leaving s j.id)
    (h : s.queue.Quiet → s.Stops j fault story ∨ s.Decided j.id story) :
    Leaving ((absorb (notifyUpTo depth) j.id fault).on s).2 j.id ∧
      Beside j.id s ((absorb (notifyUpTo depth) j.id fault).on s).2 ∧
      (((absorb (notifyUpTo depth) j.id fault).on s).2.queue.Quiet →
        Decided ((absorb (notifyUpTo depth) j.id fault).on s).2 j.id story) := by
  have hn : ∀ own, Notifies (fun _ _ => Unfolds own) (notifyUpTo depth) := fun _ => notifyUpTo_notifies depth
  rcases hw with hw | hl
  · obtain ⟨c, hf⟩ := absorb_on (notifyUpTo_notifies depth) hw fault
    obtain ⟨hl, hb⟩ := hw.finishes hf
    refine ⟨hl, hb, fun hq => ?_⟩
    have habsorb : Unfolds (some j.id) s ((absorb (notifyUpTo depth) j.id fault).on s).2 :=
      absorb_leads (unfolds_owns (hn (some j.id))) hw.active fault hw.fit
    rcases h (hq.before habsorb.listeners) with hstops | ⟨k, ending, hk, hv⟩
    · exact absorb_decides hw hstops hq
    · -- A job that works has not ended yet.
      obtain ⟨k', hk', ho, -⟩ := hw.job
      cases hk.symm.trans hk'
      rw [hv.finalized] at ho
      cases ho
  · obtain ⟨k, hk, hfin, -⟩ := id hl.job
    have hi : Inert s ((absorb (notifyUpTo depth) j.id fault).on s).2 := (absorb_touches _ hk hfin fault).inert
    obtain ⟨hl', hb⟩ := hl.steady hi.toSteady
    refine ⟨hl', hb, fun hq => ?_⟩
    rcases h (hq.before hi.listeners) with ⟨k', ending, hk', ho, -⟩ | hd
    · cases hk.symm.trans hk'
      rw [hfin] at ho
      cases ho
    · exact hd.inert hi

/-- The turn of a job tells its story on. -/
theorem runJob_tale (hw : Working s id) (hown : ∀ i, s.Lives i id → i = task) (hj : s.queue.job? id = some j)
    (h : phase.Reached j.submission.hasPreview story) (killed : Bool)
    (hq : ((runJob (notifyUpTo depth) task id phase killed).on s).2.queue.Quiet) :
    Tale ((runJob (notifyUpTo depth) task id phase killed).on s).2 id
      ((narrateJob (notifyUpTo depth) j phase killed).on s story).2.2 := by
  have hn : Notifies Evolves (notifyUpTo depth) := notifyUpTo_notifies depth
  have hid : j.id = id := Queue.job?_id hj
  subst hid
  -- Where the job is after the turn is known for any listeners, and what its story is then where they do not call back.
  have hgoes := playJob_goes hn rfl phase killed hw
  have hfollows : Follows story s j (narrateJob (notifyUpTo depth) j phase killed) := narrateJob_follows h killed
  have hafter := hfollows ⟨hw, j, hj, rfl⟩
  obtain ⟨new, hnew⟩ := narrateJob_narrates (notifyUpTo depth) j phase killed s
  rw [hnew story] at hafter ⊢
  have hran := runJob_ran (notifyUpTo depth) task hj phase killed
  generalize (playJob (notifyUpTo depth) j phase killed).on s = rt at hgoes hafter hran
  generalize ((runJob (notifyUpTo depth) task j.id phase killed).on s).2 = u at hq hran ⊢
  cases hran with
  | @waits pause after t =>
    obtain ⟨g, hg, hi⟩ := pausing_inert t task j.id pause after
    obtain ⟨hw', hb⟩ := hw.plays hgoes
    obtain ⟨k, hk, hsub⟩ := hb.continues.knows _ _ hj
    have hreached : after.Reached k.submission.hasPreview (story ++ new) := by
      rw [hsub]
      exact hafter (hq.before hi.listeners)
    exact retask_waits hw' (fun i hi => hown i (hb.lives i hi)) hk hg hi hreached
  | @ended t =>
    obtain ⟨hl, hb⟩ := hw.finishes hgoes
    have hretire := retire_inert t task
    obtain ⟨hl', hb'⟩ := hl.steady hretire.toSteady
    have hd : t.Decided j.id (story ++ new) := hafter (hq.before (vacate_listeners hl'.fit depth j.id))
    exact .ended (vacate_decides hl' (not_lives_retire fun i hi => hown i (hb.lives i hi)) (hd.inert hretire))
  | @stops fault t =>
    have hretire := retire_inert t task
    have hstate : (Working (t.retire task) j.id ∨ Leaving (t.retire task) j.id) ∧ Beside j.id s t := by
      rcases hgoes with hp | hf
      · obtain ⟨hw', hb⟩ := hw.plays hp
        exact ⟨.inl (hw'.evolves (.steady hretire.toSteady)).1, hb⟩
      · obtain ⟨hl, hb⟩ := hw.finishes hf
        exact ⟨.inr (hl.steady hretire.toSteady).1, hb⟩
    have hlives : ∀ i, ¬ (t.retire task).Lives i j.id := not_lives_retire fun i hi => hown i (hstate.2.lives i hi)
    obtain ⟨hl, hb, hd⟩ := absorb_closes depth hstate.1 fun hq =>
      (hafter hq).imp (fun h => h.inert hretire) fun h => h.inert hretire
    exact .ended (vacate_decides hl (fun i hi => hlives i (hb.lives i hi))
      (hd (hq.before (vacate_listeners hl.fit depth j.id))))

/-! ## Courses -/

variable {ms : List (JobId × Milestone)}

theorem runTask_tale (h : s.Tale id story) (hs : Settled s) (hq : ((runTask (notifyUpTo depth) task).on s).2.queue.Quiet) :
    Tale ((runTask (notifyUpTo depth) task).on s).2 id (story ++ storyOf (milestones (notifyUpTo depth) s task) id) := by
  -- A turn in which this job is not played adds nothing to its story.
  have other (hm : storyOf (milestones (notifyUpTo depth) s task) id = [])
      (hp : ∀ phase killed, s.playing? task ≠ some (id, phase, killed)) :
      Tale ((runTask (notifyUpTo depth) task).on s).2 id (story ++ storyOf (milestones (notifyUpTo depth) s task) id) := by
    rw [hm, List.append_nil]
    exact h.aside hs (runTask_aside hs depth hp)
  cases hp : s.playing? task with
  | none =>
    refine other ?_ fun phase killed he => by rw [hp] at he; cases he
    rw [milestones, hp]
    rfl
  | some playing =>
    obtain ⟨owner, phase, killed⟩ := playing
    obtain ⟨hlives, hphase, hrun⟩ := playing_on (notifyUpTo depth) hp
    have hheed := heeding_inert s task
    have hsettled := hs.inert hheed
    obtain ⟨hw, hown⟩ := hsettled.working hlives
    obtain ⟨j, hj, -⟩ := hw.job
    have hm : milestones (notifyUpTo depth) s task =
        ((narrateJob (notifyUpTo depth) j phase killed).on (s.heeding task) []).2.2.map fun m => (owner, m) := by
      rw [milestones, hp]
      dsimp only
      rw [hj]
    by_cases hid : owner = id
    · subst hid
      have htale := h.aside hs (.of_inert hs hheed)
      obtain ⟨new, hnew⟩ := narrateJob_narrates (notifyUpTo depth) j phase killed (s.heeding task)
      rw [hrun] at hq ⊢
      have hnext := runJob_tale hw hown hj (htale.reached hsettled hlives hphase hj) killed hq
      rw [hnew] at hnext
      rw [hm, storyOf_own, hnew]
      exact hnext
    · refine other (by rw [hm, storyOf_other _ hid]) fun phase' killed' he => ?_
      rw [hp] at he
      cases he
      exact hid rfl

theorem start_early (settings : Settings) (store : Store) (directory : String) (budget : Nat) (id : JobId) :
    Early (start settings store directory budget) id where
  phases _ _ _ hi := absurd hi.choose_spec.1 nofun
  begun _ hj := nomatch hj

/-- In a course in which no listener calls back, the scheduler has to show for every job what its story says. -/
theorem Course.tale {settings : Settings} {store : Store} {directory : String} {budget : Nat}
    (h : Course (start settings store directory budget) ms s) (hq : s.queue.Quiet) (id : JobId) : s.Tale id (storyOf ms id) := by
  have settled : ∀ {ms t}, Course (start settings store directory budget) ms t → Settled t := fun h =>
    (h.reaches.passes (start_settled settings store directory budget)).settled
  induction h with
  | refl => exact .early (start_early settings store directory budget id)
  | obey supplied depth c h hc ih =>
    have hs := settled h
    exact (ih (hq.before (Moves.listeners (.obey supplied depth c hc) hs))).aside hs (obey_aside hs supplied depth hc)
  | turn depth task h ih =>
    have hs := settled h
    rw [storyOf_append]
    exact runTask_tale (ih (hq.before (Moves.listeners (.turn depth task) hs))) hs hq
  | fire depth action h ih =>
    have hs := settled h
    exact (ih (hq.before (Moves.listeners (.fire depth action) hs))).aside hs (fire_aside hs depth action)
  | loop l h ih =>
    have hs := settled h
    exact (ih hq).aside hs (.of_loop hs l)

end MediaEngine.Scheduler
