import MediaEngine.Proofs.Stories
import MediaEngine.Proofs.Tokens

/-! # Numbers whose turn it is not

Most of what happens in a run is not the turn of a given job. What it leaves alone about that job is
`Aside`: its place, the phases of its tasks, that nothing has come of it yet (`Early`), and once it is gone
its token. -/

namespace MediaEngine.Scheduler
open Job

/-- No preview was begun, and the job has not ended if it started. -/
structure Early (s : Scheduler) (id : JobId) : Prop where
  phases : ∀ i result rest, s.Lives i id → s.phase? i ≠ some (id, .preview result rest)
  begun : ∀ j, s.queue.job? id = some j → j.startedAt.isSome = true → j.finalized = false ∧ id ∉ s.queue.waiting

variable {s t u : Scheduler} {id : JobId} {own : Option JobId}

namespace Early

/-- Nothing that is known about the job is new. -/
theorem same (h : s.Early id) (hl : ∀ i, t.Lives i id → s.Lives i id)
    (hp : ∀ i ph, t.phase? i = some (id, ph) → s.phase? i = some (id, ph))
    (hj : ∀ k, t.queue.job? id = some k →
      ∃ j, s.queue.job? id = some j ∧ k.startedAt = j.startedAt ∧ k.finalized = j.finalized)
    (hw : id ∈ t.queue.waiting → id ∈ s.queue.waiting) : t.Early id where
  phases i result rest hi he := h.phases i result rest (hl i hi) (hp i _ he)
  begun k hk hs := by
    obtain ⟨j, hj, hstarted, hfin⟩ := hj k hk
    obtain ⟨hopen, hnot⟩ := h.begun j hj (hstarted ▸ hs)
    exact ⟨hfin.trans hopen, fun hmem => hnot (hw hmem)⟩

theorem stays (h : s.Early id) (hs : Stays s t) (hl : ∀ i, t.Lives i id → s.Lives i id)
    (hp : ∀ i, t.phase? i = s.phase? i) : t.Early id := by
  refine h.same hl (fun i ph he => hp i ▸ he) (fun k hk => ?_) fun hw => hs.waiting ▸ hw
  have hr := Queue.tuned_job? hs.jobs id
  rw [hk] at hr
  cases hj : s.queue.job? id with
  | none => rw [hj] at hr; cases hr
  | some j => rw [hj] at hr; cases hr with | some ht => exact ⟨j, rfl, ht.startedAt, ht.finalized⟩

theorem steady (h : s.Early id) (hs : Steady s t) (hp : ∀ i, t.phase? i = s.phase? i) : t.Early id :=
  h.stays hs.toStays (fun i => hs.lives i id) hp

/-- A change of the queue under which nothing new is known about the job. -/
theorem queue (h : s.Early id) {q : Queue} {l : Loop TimerAction}
    (hj : ∀ k, q.job? id = some k → ∃ j, s.queue.job? id = some j ∧ k.startedAt = j.startedAt ∧ k.finalized = j.finalized)
    (hw : id ∈ q.waiting → id ∈ s.queue.waiting) : Early { s with queue := q, loop := l } id :=
  h.same (fun _ hi => hi) (fun _ _ he => he) hj hw

theorem update (h : s.Early id) {i : JobId} {f : Job → Job} (hf : ∀ j, (f j).id = j.id)
    (hs : i = id → ∀ j, (f j).startedAt = j.startedAt ∧ (f j).finalized = j.finalized) :
    Early (s.mapQueue (·.update i f)) id := by
  refine h.queue (fun k hk => ?_) fun hw => hw
  rw [Queue.job?_update hf] at hk
  split at hk
  · rename_i hi
    obtain ⟨j, hj, rfl⟩ := Option.map_eq_some_iff.mp hk
    exact ⟨j, hj, hs hi.symm j⟩
  · exact ⟨k, hk, rfl, rfl⟩

theorem enroll (h : s.Early id) (hf : Fit s) (submission : Submission) (progress : Progress) :
    Early (s.mapQueue fun q => q.draw.enlist (.admitted q.nextId submission progress)) id := by
  refine ⟨h.phases, fun k hk hs => ?_⟩
  rw [mapQueue_queue, hf.job?_admitted submission progress] at hk
  split at hk
  · cases hk
    cases hs
  · rename_i hid
    obtain ⟨hopen, hnot⟩ := h.begun k hk hs
    refine ⟨hopen, fun hw => ?_⟩
    exact (List.mem_append.mp hw).elim hnot fun hw => hid (List.mem_singleton.mp hw)

theorem take (h : s.Early id) (hf : Fit s) {i : JobId} {q : Queue} (hq : s.queue.startNext? = some (i, q)) :
    (s.taking i q).Early id := by
  obtain ⟨rest, e, hw, he⟩ := taking_eq hq
  have hn : (i :: rest).Nodup := hw ▸ hf.once_waiting
  refine ⟨h.phases, fun k hk hs => ?_⟩
  rw [he] at hk ⊢
  rw [Queue.job?_update (by intro; rfl)] at hk
  split at hk
  · rename_i hid
    obtain ⟨j, hj, rfl⟩ := Option.map_eq_some_iff.mp hk
    subst hid
    obtain ⟨k, hk, hopen⟩ := hf.waits id (hw ▸ List.mem_cons_self)
    cases hk.symm.trans hj
    exact ⟨hopen, (List.nodup_cons.mp hn).1⟩
  · obtain ⟨hopen, hnot⟩ := h.begun k hk hs
    exact ⟨hopen, fun hmem => hnot (hw ▸ List.mem_cons_of_mem _ hmem)⟩

theorem leave (h : s.Early id) {i : JobId} (hi : i ∈ s.queue.waiting) (now : Nat) (message : Option String)
    (l : Loop TimerAction) :
    Early { s with queue := (s.queue.withdraw i).update i (·.ended now .canceled none message), loop := l } id := by
  refine ⟨h.phases, fun k hk hs => ?_⟩
  change ((s.queue.withdraw i).update i _).job? id = some k at hk
  rw [Queue.job?_update (by intro; rfl)] at hk
  split at hk
  · rename_i hid
    obtain ⟨j, hj, rfl⟩ := Option.map_eq_some_iff.mp hk
    exact absurd (hid ▸ hi) (h.begun j hj hs).2
  · obtain ⟨hopen, hnot⟩ := h.begun k hk hs
    exact ⟨hopen, fun hmem => hnot (List.mem_of_mem_erase hmem)⟩

theorem spawn (h : s.Early id) (i : JobId) : (s.spawn (.job i .fresh)).Early id := by
  refine ⟨fun k result rest hk he => ?_, h.begun⟩
  change ((s.tasks ++ [_])[k]?).bind _ = _ at he
  rcases lives_spawn hk with hs | ⟨rfl, -⟩
  · have hlt : k < s.tasks.length := (List.getElem?_eq_some_iff.mp hs.choose_spec.1).1
    rw [List.getElem?_append_left hlt] at he
    exact h.phases k result rest hs he
  · rw [List.getElem?_concat_length] at he
    cases he

theorem turn (h : s.Early id) {i : JobId} {task : TaskId} {phase : Phase} {g : Task → Task} (hi : i ≠ id)
    (hg : ∀ x : Task, (g x).work = .job i phase) : Early { s with tasks := s.tasks.modify task g } id := by
  refine h.same (fun k hk => ?_) (fun k ph he => ?_) (fun k hk => ⟨k, hk, rfl, rfl⟩) fun hw => hw
  · exact (lives_retask (fun x => by rw [hg]; rfl) hk).resolve_right fun h => hi h.2.symm
  · change ((s.tasks.modify task g)[k]?).bind _ = _ at he
    change (s.tasks[k]?).bind _ = _
    by_cases hk : task = k
    · subst hk
      rw [List.getElem?_modify_eq] at he
      cases hx : s.tasks[task]? with
      | none => rw [hx] at he; cases he
      | some x =>
        rw [hx] at he
        change (g x).work.phase? = _ at he
        rw [hg] at he
        cases he
        exact absurd rfl hi
    · rwa [List.getElem?_modify_ne _ _ hk] at he

/-- What happens outside the turn of a job leaves it early. -/
theorem occurs (h : s.Early id) (hf : Fit s) (ho : Occurs own s t) (hown : own ≠ some id) : t.Early id := by
  cases ho with
  | inert hi => exact h.steady hi.toSteady hi.phase
  | signal _ hi => exact h.steady hi.toSteady hi.phase
  | hear | asked | arm => exact h.same (fun _ hi => hi) (fun _ _ he => he) (fun k hk => ⟨k, hk, rfl, rfl⟩) fun hw => hw
  | breakOff event =>
    obtain ⟨ids, hq, -⟩ := s.queue.breakOff_eq event
    rw [mapQueue, hq]
    exact h.queue (fun k hk => ⟨k, hk, rfl, rfl⟩) fun hw => hw
  | enroll submission progress _ => exact h.enroll hf submission progress
  | take hq => exact h.take hf hq
  | spawn => exact h.spawn _
  | ask | cool => exact h.update (by intro; rfl) fun _ _ => ⟨rfl, rfl⟩
  | leave hid => exact h.leave hid _ _ _
  | keep i path =>
    have htasks := Occurs.keep_tasks s i path
    refine h.stays (keep_stays s i path) (fun k hk => ?_) fun k => by rw [phase?, htasks]; rfl
    unfold Lives at hk
    rwa [htasks] at hk
  | finish hi => exact h.update (by intro; rfl) fun he => absurd (he ▸ hi) hown
  | turn hi _ hg => exact h.turn (fun he => hown (he ▸ hi)) hg

theorem unfolds (h : s.Early id) (hf : Fit s) (hu : Unfolds own s t) (hown : own ≠ some id) : t.Early id := by
  induction hu with
  | refl => exact h
  | tail hrow ho ih => exact ih.occurs (Unfolds.fit hrow hf) ho hown

end Early

/-! ## What is left alone -/

/-- What a move that is not the turn of a job leaves alone about it. -/
structure Aside (id : JobId) (s t : Scheduler) : Prop where
  onward : Onward none true s t id
  phases : ∀ i ph, s.phase? i = some (id, ph) → t.phase? i = some (id, ph)
  early : s.Early id → t.Early id
  gone : ¬ s.Upcoming id → id ∉ s.queue.active → ∀ r, t.queue.Signalled id r ↔ s.queue.Signalled id r

namespace Aside

theorem trans (h₁ : Aside id s t) (h₂ : Aside id t u) : Aside id s u where
  onward := h₁.onward.next Past.none h₂.onward
  phases i ph h := h₂.phases i ph (h₁.phases i ph h)
  early h := h₂.early (h₁.early h)
  gone hu ha r := by
    have hf := h₁.onward.frame hu
    exact (h₂.gone hf.past (fun h => ha (hf.active.mp h)) r).trans (h₁.gone hu ha r)

theorem of_unfolds {b : Bool} (hs : Settled s) (h : Evolves none b s t) (h' : Unfolds none s t) : Aside id s t where
  onward := (h.onward hs.fit hs.fresh Past.none id).weaken
  phases i ph hi := by
    obtain ⟨after, ha, hsame⟩ := h'.phase hi
    exact ha.trans (by rw [hsame (by simp)])
  early he := he.unfolds hs.fit h' (by simp)
  gone hu ha := (h'.moments.gone hs.fit hu ha).2.2

theorem of_inert (hs : Settled s) (h : Inert s t) : Aside id s t := of_unfolds hs (.steady h.toSteady) (.inert h)

/-- What a turn leaves alone about another job. -/
theorem of_turn {i : JobId} (hs : Settled s) (h : Turned i s t) (h' : TurnsTo i s t) (hi : id ≠ i) : Aside id s t where
  onward := h.others id hi
  phases k ph hk := by
    have hown : some i ≠ some id := fun he => hi (Option.some.inj he).symm
    cases h' with
    | pauses h' =>
      obtain ⟨after, ha, hsame⟩ := h'.phase hk
      exact ha.trans (by rw [hsame hown])
    | vacates h' h'' =>
      obtain ⟨between, hb, hsame⟩ := h'.phase hk
      obtain ⟨after, ha, hsame'⟩ := h''.phase (s := Scheduler.mapQueue _ _) hb
      exact ha.trans (by rw [hsame' (by simp), hsame hown])
  early he := by
    have hown : some i ≠ some id := fun he => hi (Option.some.inj he).symm
    cases h' with
    | pauses h' => exact he.unfolds hs.fit h' hown
    | vacates h' h'' =>
      have hf := h'.fit hs.fit
      have hr : Early (Scheduler.mapQueue _ (·.release i)) id :=
        (he.unfolds hs.fit h' hown).queue (fun k hk => ⟨k, hk, rfl, rfl⟩) fun hw => hw
      exact hr.unfolds (hf.release i) h'' (by simp)
  gone hu ha := (h'.moments.gone hs.fit hu ha).2.2

theorem of_withdraw {i : JobId} (hs : Settled s) (hw : i ∈ s.queue.waiting) (ht : ¬ s.queue.settings.Timely) :
    Aside id s (s.mapQueue (·.withdraw i)) where
  onward := by
    refine ⟨fun hu => .of_same (same_withdraw s.loop fun he => hu (.inl (he ▸ hw))) hu, fun _ => ?_⟩
    exact (withdraw_passes hs hw ht).settled.placed id
  phases _ _ h := h
  early h := h.queue (fun k hk => ⟨k, hk, rfl, rfl⟩) List.mem_of_mem_erase
  gone _ _ _ := .rfl

theorem of_loop (hs : Settled s) (l : Loop TimerAction) : Aside id s { s with loop := l } where
  onward := by
    have h : Evolves none false s { s with loop := l } := .steady { Steady.refl s with }
    exact (h.onward hs.fit hs.fresh Past.none id).weaken
  phases _ _ h := h
  early h := h.queue (fun k hk => ⟨k, hk, rfl, rfl⟩) fun hw => hw
  gone _ _ _ := .rfl

end Aside

/-! ## Moves -/

theorem obey_aside (hs : Settled s) (supplied : Option Store) (depth : Nat) {c : Command} (hc : c.isImmediate = true) :
    Aside id s ((obey supplied (notifyUpTo depth) c).on s).2 :=
  .of_unfolds hs (obey_leads (notifyUpTo_notifies depth) supplied hc hs.fit)
    (obey_leads (R := fun _ _ => Unfolds none) (notifyUpTo_notifies depth) supplied hc hs.fit)

/-- A turn leaves alone what there is about a job whose turn it is not. -/
theorem runTask_aside (hs : Settled s) (depth : Nat) {task : TaskId}
    (h : ∀ phase killed, s.playing? task ≠ some (id, phase, killed)) :
    Aside id s ((runTask (notifyUpTo depth) task).on s).2 := by
  cases hp : s.playing? task with
  | none => exact .of_inert hs (runTask_idle hs.fit hp)
  | some playing =>
    obtain ⟨i, phase, killed⟩ := playing
    have hi : id ≠ i := fun he => h phase killed (he ▸ hp)
    obtain ⟨hlives, hphase, hrun⟩ := playing_on (notifyUpTo depth) hp
    have hheed := heeding_inert s task
    have hsettled := hs.inert hheed
    obtain ⟨hwork, hown⟩ := hsettled.working hlives
    rw [hrun]
    exact (Aside.of_inert hs hheed).trans <| .of_turn hsettled (runJob_turned (notifyUpTo_notifies depth) hwork hown phase killed)
      (runJob_turnsTo (fun _ => notifyUpTo_notifies depth) hsettled.fit hwork.active hphase killed) hi

theorem fire_aside (hs : Settled s) (depth : Nat) (action : TimerAction) :
    Aside id s ((fire (notifyUpTo depth) action).on s).2 := by
  cases action with
  | wake task => exact .of_inert hs (.wake [task])
  | expire i =>
    change Aside id s ((expire (notifyUpTo depth) i).on s).2
    cases ht : s.queue.settings.timeoutWhole with
    | ok seconds =>
      exact .of_unfolds hs (expire_leads (notifyUpTo_notifies depth) ht hs.fit)
        (@expire_leads (fun _ _ => Unfolds none) _ none _ _ _ (notifyUpTo_notifies depth) _ ht hs.fit)
    | error e =>
      rcases expire_untimely (notifyUpTo depth) i ht with h | ⟨hw, hno, h⟩ <;> rw [h]
      · exact .of_inert hs (.refl s)
      · exact .of_withdraw hs hw hno

end MediaEngine.Scheduler
