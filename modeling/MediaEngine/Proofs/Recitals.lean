import MediaEngine.Proofs.Heard

/-! # Recitals of a job

Whoever listens from the start, and where no listener is cut short, hears of every job the same story: it is queued, it
starts, it may cool down, it may be asked to stop, and it ends (`Recounted`); a job that never starts goes from the
first to the last. What was heard so far tells how far the job is (`Chapter`), which each part of a step keeps
(`Recites`). -/

namespace MediaEngine
open Job

/-! ## What is to be heard -/

namespace Job

/-- What is told of the status of a job that runs: that it cools down, and after that that it was asked to stop. -/
def shown (cooled asked : Bool) : List Status :=
  (if cooled then [.coolingDown] else []) ++ if asked then [.cancelling] else []

/-- The status of a job that runs. -/
def standing (cooled asked : Bool) : Status := (shown cooled asked).getLastD .running

/-- What is heard of a job that runs. -/
def recital (cooled asked : Bool) : List (EventKind × Status) :=
  (.queued, .queued) :: (.started, .running) :: (shown cooled asked).map (.status, ·)

/-- What is heard of a job that has ended. -/
inductive Recounted (j : Job) : List (EventKind × Status) → Prop
  /-- A job that never started is canceled. -/
  | dropped : j.startedAt = none → j.status = .canceled → Recounted j [(.queued, .queued), (.finished, .canceled)]
  /-- A job that was asked to stop is canceled, and one with a preview is completed only after it cooled down. -/
  | ended (cooled asked : Bool) : j.startedAt.isSome = true → j.status.isTerminal = true →
      (asked = true → j.status = .canceled) →
      (j.status = .completed → j.submission.hasPreview = true → cooled = true) →
      Recounted j (recital cooled asked ++ [(.finished, j.status)])

variable {j k : Job} {cooled asked : Bool}

theorem standing_cancelling : standing cooled asked = .cancelling ↔ asked = true := by
  cases cooled <;> cases asked <;> decide

theorem recital_asked : recital cooled true = recital cooled false ++ [(.status, .cancelling)] := by
  cases cooled <;> rfl

theorem recital_cooled : recital true false = recital false false ++ [(.status, .coolingDown)] := rfl

theorem Recounted.tuned {events : List (EventKind × Status)} (h : Recounted j events) (ht : Tuned j k) : Recounted k events := by
  cases h with
  | dropped hs hst => exact .dropped (ht.startedAt.trans hs) (ht.status.trans hst)
  | ended cooled asked hs hterm hc hp =>
    rw [← ht.status] at hterm hc hp ⊢
    rw [← ht.startedAt] at hs
    rw [← ht.submission] at hp
    exact .ended cooled asked hs hterm hc hp

end Job

namespace Scheduler
variable {s t u : Scheduler} {who : String} {k : Nat} {id i : JobId} {b c d e : Bool} {j l : Job} {kind : EventKind}

/-- How far a job is, as what was heard of it under a name tells. The mark tells whether it has cooled down, if it
    has not ended. -/
inductive Chapter (s : Scheduler) (who : String) (id : JobId) : Bool → Prop
  | unknown : s.queue.job? id = none → s.streamed who id = [] → Chapter s who id false
  | waits {j : Job} : id ∈ s.queue.waiting → s.queue.job? id = some j → j.status = .queued → j.startedAt = none →
      s.streamed who id = [(.queued, .queued)] → Chapter s who id false
  | runs {j : Job} {cooled : Bool} (asked : Bool) : id ∈ s.queue.active → s.queue.job? id = some j → j.finalized = false →
      j.startedAt.isSome = true → j.status = standing cooled asked → (asked = true → j.token.cancelled = true) →
      s.streamed who id = recital cooled asked → Chapter s who id cooled
  | ended {j : Job} {cooled : Bool} : id ∉ s.queue.active → s.queue.job? id = some j → j.finalized = true →
      Recounted j (s.streamed who id) → Chapter s who id cooled

/-- The subscription has been made, and nobody is subscribed twice. -/
structure Ready (s : Scheduler) (k : Nat) : Prop where
  fit : Fit s
  enrolled : s.queue.Enrolled
  made : k < s.queue.listeners.length

theorem Ready.next (h : s.Ready k) (hf : Fit t) (hr : s.queue.Rolls t.queue) : t.Ready k :=
  ⟨hf, hr.enrolled h.enrolled, Nat.lt_of_lt_of_le h.made hr.listeners.length_le⟩

/-! ## What keeps a chapter -/

namespace Chapter

/-- The job stays where it is, and nothing more is heard of it. -/
theorem kept (h : s.Chapter who id c) (hj : Option.Rel Tuned (s.queue.job? id) (t.queue.job? id))
    (hw : id ∈ s.queue.waiting → id ∈ t.queue.waiting) (ha : id ∈ t.queue.active ↔ id ∈ s.queue.active)
    (hs : t.streamed who id = s.streamed who id) : t.Chapter who id c := by
  have found : ∀ {j}, s.queue.job? id = some j → ∃ l, t.queue.job? id = some l ∧ Tuned j l := fun h => by
    rw [h] at hj
    cases hl : t.queue.job? id with
    | none => rw [hl] at hj; cases hj
    | some l => rw [hl] at hj; cases hj with | some ht => exact ⟨l, rfl, ht⟩
  cases h with
  | unknown hno hnone =>
    refine .unknown ?_ (hs.trans hnone)
    rw [hno] at hj
    cases hl : t.queue.job? id with
    | none => rfl
    | some l => rw [hl] at hj; cases hj
  | waits hwait hj hst hstarted hone =>
    obtain ⟨l, hl, ht⟩ := found hj
    exact .waits (hw hwait) hl (ht.status.trans hst) (ht.startedAt.trans hstarted) (hs.trans hone)
  | runs asked hactive hj ho hstarted hst hasked hheard =>
    obtain ⟨l, hl, ht⟩ := found hj
    exact .runs asked (ha.mpr hactive) hl (ht.finalized.trans ho) (ht.startedAt ▸ hstarted) (ht.status.trans hst)
      (fun h => ht.signalled (hasked h)) (hs.trans hheard)
  | ended hgone hj hfin hheard =>
    obtain ⟨l, hl, ht⟩ := found hj
    exact .ended (fun h => hgone (ha.mp h)) hl (ht.finalized.trans hfin) (hs ▸ hheard.tuned ht)

theorem mute (h : s.Chapter who id c) (hm : Mute s t) (hw : t.queue.waiting = s.queue.waiting)
    (ha : t.queue.active = s.queue.active) : t.Chapter who id c :=
  h.kept (Queue.tuned_job? hm.jobs id) (fun hid => hw ▸ hid) (by rw [ha]) (streamed_congr (hm.hearings who) id)

/-- A job that waits has not started. -/
theorem of_waiting (h : s.Chapter who id c) (hf : Fit s) (hw : id ∈ s.queue.waiting) :
    c = false ∧ ∃ j, s.queue.job? id = some j ∧ j.status = .queued ∧ j.startedAt = none ∧
      s.streamed who id = [(.queued, .queued)] := by
  obtain ⟨l, hl, hopen⟩ := hf.waits id hw
  cases h with
  | unknown hno _ => cases hno.symm.trans hl
  | waits _ hj hst hstarted hone => exact ⟨rfl, _, hj, hst, hstarted, hone⟩
  | runs _ ha _ _ _ _ _ _ => exact absurd (.inl hw) (hf.apart id ha)
  | ended _ hj hfin _ =>
    cases hj.symm.trans hl
    rw [hfin] at hopen
    cases hopen

/-- A job that is active runs. -/
theorem of_active (h : s.Chapter who id c) (hf : Fit s) (ha : id ∈ s.queue.active) (hj : s.queue.job? id = some j) :
    ∃ asked, j.finalized = false ∧ j.startedAt.isSome = true ∧ j.status = standing c asked ∧
      (asked = true → j.token.cancelled = true) ∧ s.streamed who id = recital c asked := by
  cases h with
  | unknown hno _ => cases hno.symm.trans hj
  | waits hw _ _ _ _ => exact absurd (.inl hw) (hf.apart id ha)
  | runs asked _ hk ho hstarted hst hasked hheard =>
    cases hj.symm.trans hk
    exact ⟨asked, ho, hstarted, hst, hasked, hheard⟩
  | ended hgone _ _ _ => exact absurd ha hgone

/-- Nothing was heard of a number that was not drawn yet. -/
theorem of_new (h : s.Chapter who id c) (hno : s.queue.job? id = none) : c = false ∧ s.streamed who id = [] := by
  cases h with
  | unknown _ hnone => exact ⟨rfl, hnone⟩
  | waits _ hj | runs _ _ hj | ended _ hj => cases hj.symm.trans hno

/-- A job that is upcoming has not cooled down. -/
theorem of_upcoming (h : s.Chapter who id c) (hf : Fit s) (hu : s.Upcoming id) : c = false := by
  rcases hu with hw | hn
  · exact (h.of_waiting hf hw).1
  · refine (h.of_new (Queue.job?_eq_none_iff.mpr fun hm => ?_)).1
    exact absurd (hf.fresh id hm) (Nat.not_lt_of_le hn)

end Chapter

/-! ## Telling -/

theorem streamed_heard {event : Event} (h : t.hearings who = s.hearings who ++ [event]) (id : JobId) :
    t.streamed who id = s.streamed who id ++ (event.of? id).toList := by
  rw [streamed, h, List.filterMap_append, streamed]
  cases he : event.of? id <;> simp [he]

end Scheduler

open Scheduler in
theorem Spreads.rolls {event : Event} {indices : List Nat} {b : Bool} {s t : Scheduler} (h : Spreads event indices b s t) :
    s.queue.Rolls t.queue := by
  induction h with
  | done => exact .refl _
  | next ht _ ih => exact ((informed_rolls _ _ _).trans (Mute.touches ht.touches).rolls).trans ih
  | @cut index rest s t ht =>
    obtain ⟨ids, hq, -⟩ := t.queue.breakOff_eq event
    refine ((informed_rolls _ _ _).trans (Mute.touches ht.touches).rolls).trans (.of_eq ?_ ?_) <;> rw [mapQueue_queue, hq]

open Scheduler in
theorem Spreads.tasks {event : Event} {indices : List Nat} {b : Bool} {s t : Scheduler} (h : Spreads event indices b s t)
    (i : TaskId) (id : JobId) (hl : t.Lives i id) : s.Lives i id := by
  have informed : ∀ {s : Scheduler} {index : Nat}, (s.informed event index).Lives i id → s.Lives i id := fun {s index} hl => by
    unfold Scheduler.informed at hl
    split at hl
    · exact hl
    · split at hl <;> exact hl
  induction h with
  | done => exact hl
  | next ht _ ih => exact informed (ht.inert.lives i id (ih hl))
  | cut ht => exact informed (ht.inert.lives i id hl)

namespace Spread
open Scheduler
variable {s t : Scheduler} {who : String} {k : Nat} {id i : JobId} {b : Bool} {j : Job} {kind : EventKind}

theorem rolls (h : Spread kind id b s t) : s.queue.Rolls t.queue := by
  cases hj : s.queue.job? id with
  | none => exact h.unknown hj ▸ .refl _
  | some j => exact (h.known j hj).rolls

theorem lives (h : Spread kind i b s t) (task : TaskId) (id : JobId) (hl : t.Lives task id) : s.Lives task id := by
  cases hj : s.queue.job? i with
  | none => exact h.unknown hj ▸ hl
  | some j => exact (h.known j hj).tasks task id hl

/-- An event of the job is heard, once, and nobody is cut short. -/
theorem own (h : Spread kind id b s t) (hr : s.Ready k) (hl : t.Listens who k) (hj : s.queue.job? id = some j) :
    b = false ∧ (∃ l, t.queue.job? id = some l ∧ Tuned j l) ∧
      t.streamed who id = s.streamed who id ++ [(kind, j.status)] := by
  refine ⟨h.whole (hl.gentle.spares _), Queue.tuned_job?_some h.hushed.jobs hj, ?_⟩
  have hid : j.snapshot.id = id := Queue.job?_id hj
  rw [streamed_heard (heard_of_spread h hr.enrolled hr.made hl hj).2 id, Event.of?, if_pos hid]
  rfl

/-- An event of another job is none of this one. -/
theorem other (h : Spread kind i b s t) (hi : i ≠ id) (hr : s.Ready k) (hl : t.Listens who k) :
    t.streamed who id = s.streamed who id := by
  cases hj : s.queue.job? i with
  | none => rw [h.unknown hj]
  | some j =>
    have hid : j.snapshot.id ≠ id := fun he => hi ((Queue.job?_id hj).symm.trans he)
    rw [streamed_heard (heard_of_spread h hr.enrolled hr.made hl hj).2 id, Event.of?, if_neg hid]
    exact List.append_nil _

theorem chapter (h : Spread kind i b s t) (hi : i ≠ id) (hr : s.Ready k) (hl : t.Listens who k) {c : Bool}
    (hc : s.Chapter who id c) : t.Chapter who id c :=
  hc.kept (Queue.tuned_job? h.hushed.jobs id) (fun hw => h.hushed.waiting ▸ hw) (by rw [h.hushed.active]) (h.other hi hr hl)

end Spread

namespace Scheduler
variable {s t u : Scheduler} {who : String} {k : Nat} {id i : JobId} {b c d e : Bool} {j l : Job} {kind : EventKind}

/-! ## From one scheduler to another -/

/-- Outside of the turn of a job its tasks go on to no other phase. -/
theorem Unfolds.phases (h : Unfolds none s t) (i : TaskId) (ph : Phase) (hi : s.phase? i = some (id, ph)) :
    t.phase? i = some (id, ph) := by
  obtain ⟨after, ha, hsame⟩ := h.phase hi
  exact ha.trans (by rw [hsame (by simp)])

/-- What is heard of a job goes along with the job from the one scheduler to the other, and no task of it goes on to another
    phase; if there is a new one, the job was upcoming. The marks tell whether the job has cooled down before and after. -/
structure Recites (who : String) (k : Nat) (id : JobId) (c d : Bool) (s t : Scheduler) : Prop where
  moments : Moments s t
  rolls : t.queue.Quiet → s.queue.Rolls t.queue
  phases : ∀ i ph, s.phase? i = some (id, ph) → t.phase? i = some (id, ph)
  lives : t.queue.Quiet → ∀ i, t.Lives i id → s.Lives i id ∨ (s.Upcoming id ∧ t.phase? i = some (id, .fresh))
  chapter : t.Listens who k → s.Ready k → s.Chapter who id c → t.Chapter who id d

namespace Recites

theorem trans (h₁ : Recites who k id c d s t) (h₂ : Recites who k id d e t u) : Recites who k id c e s u where
  moments := h₁.moments.trans h₂.moments
  rolls hq := (h₁.rolls (hq.before h₂.moments.listeners)).trans (h₂.rolls hq)
  phases i ph h := h₂.phases i ph (h₁.phases i ph h)
  lives hq i hl := by
    rcases h₂.lives hq i hl with hl | ⟨hu, hp⟩
    · exact (h₁.lives (hq.before h₂.moments.listeners) i hl).imp_right fun ⟨hu, hp⟩ => ⟨hu, h₂.phases i _ hp⟩
    · exact .inr ⟨h₁.moments.upcoming hu, hp⟩
  chapter hl hr hc := by
    have hq := hl.gentle.quiet
    have hrolls := h₁.rolls (hq.before h₂.moments.listeners)
    have ht : t.Ready k := hr.next (h₁.moments.fit hr.fit) hrolls
    exact h₂.chapter hl ht (h₁.chapter (hl.before (h₂.rolls hq) ht.made) hr hc)

theorem of_unfolds (h : Unfolds none s t) (hr : t.queue.Quiet → s.queue.Rolls t.queue)
    (hl : t.queue.Quiet → ∀ i, t.Lives i id → s.Lives i id ∨ (s.Upcoming id ∧ t.phase? i = some (id, .fresh)))
    (hc : t.Listens who k → s.Ready k → s.Chapter who id c → t.Chapter who id d) : Recites who k id c d s t :=
  ⟨h.moments, hr, h.phases, hl, hc⟩

theorem of_mute (h : Unfolds none s t) (hm : Mute s t) (hw : t.queue.waiting = s.queue.waiting)
    (ha : t.queue.active = s.queue.active) (hl : ∀ i, t.Lives i id → s.Lives i id) : Recites who k id c c s t :=
  .of_unfolds h (fun _ => hm.rolls) (fun _ i hi => .inl (hl i hi)) fun _ _ hc => hc.mute hm hw ha

theorem of_inert (h : Inert s t) (hm : Mute s t) : Recites who k id c c s t :=
  .of_mute (.inert h) hm h.waiting h.active fun i => h.lives i id

/-- A part of which listeners are told, and after which nobody hears anything. -/
theorem telling {v : Scheduler} (hpart : Moments s v) (hrolls : s.queue.Rolls v.queue) (htasks : v.tasks = s.tasks)
    (h : Along (Softly Spread) kind i b v t) (hrest : Moments t u) (hm : Mute t u)
    (hp : ∀ i ph, t.phase? i = some (id, ph) → u.phase? i = some (id, ph))
    (hl : ∀ k, u.Lives k id → t.Lives k id ∨ (s.Upcoming id ∧ u.phase? k = some (id, .fresh)))
    (hc : t.Listens who k → s.Ready k → v.Ready k → Spread kind i b v t → s.Chapter who id c → u.Chapter who id d) :
    Recites who k id c d s u := by
  have spread : u.queue.Quiet → Spread kind i b v t := fun hq => h.2 (hq.before hrest.listeners)
  refine ⟨(hpart.trans h.1.moments).trans hrest, fun hq => (hrolls.trans (spread hq).rolls).trans hm.rolls, fun k ph hk => ?_,
    fun hq k hk => ?_, fun hl hr hk => ?_⟩
  · have hv : v.phase? k = some (id, ph) := by rwa [phase?, htasks]
    exact hp k ph (h.1.phases k ph hv)
  · refine (hl k hk).imp_left fun hk => ?_
    have hlives := (spread hq).lives k id hk
    unfold Lives at hlives ⊢
    rwa [htasks] at hlives
  · have hs := spread hl.gentle.quiet
    have hv : v.Ready k := hr.next (hpart.fit hr.fit) hrolls
    have ht : t.Ready k := hv.next (h.1.fit hv.fit) hs.rolls
    exact hc (hl.before hm.rolls ht.made) hr hv hs hk

end Recites

/-! ## Parts of which listeners are told -/

theorem streamed_notes (h : t.notes = s.notes) : t.streamed who id = s.streamed who id := by
  rw [streamed, hearings, h, streamed, hearings]

theorem streamed_noted {n : Queue.Note} (h : n.heardBy? who = none) : (s.noted n).streamed who id = s.streamed who id := by
  refine streamed_congr ?_ id
  rw [hearings_append (noted_notes s n), List.filterMap_cons_none h, List.filterMap_nil, List.append_nil]

/-- A change of one job leaves alone where the others are. -/
theorem Chapter.update {f : Job → Job} (hf : ∀ j, (f j).id = j.id) (hi : id ≠ i) (h : s.Chapter who id c) :
    (s.mapQueue (·.update i f)).Chapter who id c := by
  refine h.kept ?_ (fun hw => hw) Iff.rfl rfl
  rw [mapQueue_queue, Queue.job?_update_ne hf hi]
  exact Same.rel_refl _

theorem Halted.lives (hf : Fit t) (h : Halted i b t u) (k : TaskId) (hk : u.Lives k id) : t.Lives k id := by
  cases b <;> cases h
  · exact (signalling_signals hf i _).lives k id hk
  · exact hk

theorem Halted.places (hf : Fit t) (h : Halted i b t u) : u.queue.waiting = t.queue.waiting ∧ u.queue.active = t.queue.active := by
  cases b <;> cases h
  · exact ⟨(signalling_signals hf i _).waiting, (signalling_signals hf i _).active⟩
  · exact ⟨rfl, rfl⟩

/-- An active job is asked to stop. -/
theorem Recites.ask (hf : Fit s) (hi : i ∈ s.queue.active) (hj : s.queue.job? i = some j) (hst : j.status ≠ .cancelling)
    (hst' : j.status ≠ .canceled) (h : Along (Softly Spread) .status i b (s.showing i .cancelling) t) (hu : Halted i b t u) :
    Recites who k id c c s u := by
  have hfv : Fit (s.showing i .cancelling) := hf.update (by intro; rfl) (fun hw => hf.apart _ hi (.inl hw)) s.loop
  have hft : Fit t := h.1.fit hfv
  have hmute : Mute t u := .halted hft hu
  obtain ⟨hw, ha⟩ := hu.places hft
  have hrest : Unfolds none t u := hu.unfolds hft (h.1.active hi)
  have hpart : Unfolds none s (s.showing i .cancelling) := showing_unfolds hi hj hst hst'
  refine .telling hpart.moments (.of_eq rfl rfl) rfl h hrest.moments hmute hrest.phases (fun k hk => .inl (hu.lives hft k hk))
    fun hl _ hv hs hc => ?_
  by_cases hid : i = id
  · subst hid
    obtain ⟨asked, ho, hstarted, hstands, -, hheard⟩ := hc.of_active hf hi hj
    have hasked : asked = false := by
      rw [hstands] at hst
      exact Bool.eq_false_iff.mpr fun h => hst (standing_cancelling.mpr h)
    subst hasked
    obtain ⟨rfl, ⟨l, hlj, ht⟩, htold⟩ := hs.own hv hl (Queue.job?_update_self (by intro; rfl) hj)
    cases hu
    obtain ⟨m, hm, hcancelled, -⟩ := (signalling_signals hft i (some cancelAllReason)).own l hlj
    obtain ⟨m', hm', htm⟩ := Queue.tuned_job?_some hmute.jobs hlj
    cases hm.symm.trans hm'
    have htuned := ht.trans htm
    refine .runs true (ha ▸ h.1.active hi) hm (htuned.finalized.trans ho) (htuned.startedAt ▸ hstarted) ?_ (fun _ => hcancelled) ?_
    · exact htuned.status.trans (standing_cancelling.mpr rfl).symm
    · rw [streamed_congr (hmute.hearings who), htold, recital_asked, ← hheard]
      rfl
  · exact (hs.chapter hid hv hl (hc.update (by intro; rfl) (Ne.symm hid))).mute hmute hw ha

theorem Closes.steady (h : Closes i b t u) : Stays t u ∧ ∀ k id, u.Lives k id → t.Lives k id := by
  cases b <;> cases h
  · refine ⟨(keep_stays t i none).trans (closing_inert t i).toStays, fun k id hk => ?_⟩
    have hkept := (closing_inert t i).lives k id hk
    unfold Lives at hkept ⊢
    rwa [Occurs.keep_tasks] at hkept
  · exact ⟨.refl t, fun _ _ hk => hk⟩

/-- A job that waits ends. -/
theorem Recites.leave {message : Option String} {loop : Loop TimerAction} (hf : Fit s) (hi : i ∈ s.queue.waiting)
    (hj : s.queue.job? i = some j) (hl : loop = s.loop ∨ loop = s.loop.disarm (.expire i))
    (h : Along (Softly Spread) .finished i b (s.leaving i message loop) t) (hu : Closes i b t u) : Recites who k id c c s u := by
  obtain ⟨hstays, hlives⟩ := hu.steady
  have hmute : Mute t u := .closes hu
  have hpart : Unfolds none s (s.leaving i message loop) := leaving_unfolds hi hj hl message
  have hrest : Unfolds none t u := hu.unfolds
  refine .telling hpart.moments (.of_eq rfl rfl) rfl h hrest.moments hmute hrest.phases (fun k hk => .inl (hlives k id hk))
    fun hlisten _ hv hs hc => ?_
  -- The job itself is at the end of its story; in the chapter of another one nothing happens.
  by_cases hid : i = id
  · subst hid
    obtain ⟨rfl, k, hk, hst, hstarted, hheard⟩ := hc.of_waiting hf hi
    cases hj.symm.trans hk
    have hended : (s.leaving i message loop).queue.job? i = some (j.ended loop.now .canceled none message) :=
      Queue.job?_update_self (q := s.queue.withdraw i) (by intro; rfl) hj
    obtain ⟨-, ⟨l, hlj, ht⟩, htold⟩ := hs.own hv hlisten hended
    obtain ⟨m, hm, htm⟩ := Queue.tuned_job?_some hmute.jobs hlj
    have htuned := ht.trans htm
    have hgone : i ∉ u.queue.active := by
      rw [hstays.active, hs.hushed.active]
      exact fun ha => hf.apart i ha (.inl hi)
    refine .ended hgone hm htuned.finalized ?_
    rw [streamed_congr (hmute.hearings who), htold]
    change Recounted m (s.streamed who i ++ _)
    rw [hheard]
    exact .dropped (htuned.startedAt.trans hstarted) htuned.status
  · have hleft : (s.leaving i message loop).Chapter who id c := by
      refine hc.kept ?_ (List.mem_erase_of_ne (Ne.symm hid)).mpr Iff.rfl rfl
      have hjobs : (s.leaving i message loop).queue.job? id = s.queue.job? id :=
        Queue.job?_update_ne (q := s.queue.withdraw i) (by intro; rfl) (Ne.symm hid)
      rw [hjobs]
      exact Same.rel_refl _
    exact (hs.chapter hid hv hlisten hleft).mute hmute hstays.waiting hstays.active

/-- A job is admitted. -/
theorem Recites.enter {submission : Submission} {progress : Progress} (hf : Fit s) (hfull : s.queue.isFull = false)
    (h : Along (Softly Spread) .queued s.queue.nextId b (s.admitting submission progress) t) : Recites who k id c c s t := by
  have hpart : Unfolds none s (s.admitting submission progress) := admitting_unfolds submission progress hfull
  have hjobs : ∀ i, (s.admitting submission progress).queue.job? i =
      if i = s.queue.nextId then some (.admitted s.queue.nextId submission progress) else s.queue.job? i :=
    hf.job?_admitted submission progress
  have hunheard : (s.admitting submission progress).streamed who id = s.streamed who id := streamed_noted rfl
  refine .telling hpart.moments (.of_eq rfl rfl) rfl h .refl (.refl t) (fun _ _ hp => hp) (fun k hk => .inl hk) fun hl _ hv hs hc => ?_
  by_cases hid : s.queue.nextId = id
  · subst hid
    obtain ⟨rfl, hheard⟩ := hc.of_new (Queue.job?_eq_none_iff.mpr hf.nextId_fresh)
    obtain ⟨-, ⟨l, hlj, ht⟩, htold⟩ := hs.own hv hl ((hjobs _).trans (if_pos rfl))
    refine .waits ?_ hlj ht.status ht.startedAt ?_
    · rw [hs.hushed.waiting]
      exact List.mem_append_right _ (List.mem_singleton_self _)
    · rw [htold, hunheard, hheard]
      rfl
  · refine hs.chapter hid hv hl (hc.kept ?_ (List.mem_append_left _) Iff.rfl hunheard)
    rw [hjobs, if_neg (Ne.symm hid)]
    exact Same.rel_refl _

/-- The task of a job that starts is new, and no other job gets one. -/
theorem Spawned.lives (h : Spawned i b t u) {task : TaskId} (hl : u.Lives task id) :
    t.Lives task id ∨ (id = i ∧ u.phase? task = some (id, .fresh)) := by
  cases b <;> cases h
  · rcases lives_spawn hl with hl | ⟨rfl, rfl⟩
    · exact .inl hl
    · refine .inr ⟨rfl, ?_⟩
      change ((t.tasks ++ [_])[t.tasks.length]?).bind _ = _
      rw [List.getElem?_concat_length]
      rfl
  · exact .inl hl

/-- The first job that waits starts. -/
theorem Recites.start {q : Queue} (hf : Fit s) (hq : s.queue.startNext? = some (i, q))
    (h : Along (Softly Spread) .started i b (s.taking i q) t) (hu : Spawned i b t u) : Recites who k id c c s u := by
  obtain ⟨rest, e, hw, he⟩ := taking_eq hq
  have hi : i ∈ s.queue.waiting := hw ▸ List.mem_cons_self
  have hpart : Unfolds none s (s.taking i q) := .one (.take hq)
  have hrest : Unfolds none t u := hu.unfolds (h.1.active (mem_taking hq))
  have hunheard : (s.taking i q).streamed who id = s.streamed who id := by
    refine (streamed_noted rfl).trans ?_
    exact streamed_notes rfl
  refine .telling hpart.moments (.of_eq ?_ ?_) rfl h hrest.moments (.spawned hu) hrest.phases (fun k hk => ?_)
    fun hl _ hv hs hc => ?_
  · rw [he]
    rfl
  · rw [he]
    rfl
  · refine (hu.lives hk).imp_right ?_
    rintro ⟨rfl, hphase⟩
    exact ⟨.inl hi, hphase⟩
  -- The job itself begins to run; in the chapter of another one nothing happens.
  · by_cases hid : i = id
    · subst hid
      obtain ⟨rfl, j, hj, hst, -, hheard⟩ := hc.of_waiting hf hi
      have hstarted : (s.taking i q).queue.job? i = some (j.started s.loop.now) := by
        rw [he]
        exact Queue.job?_update_self (by intro; rfl) hj
      obtain ⟨k, hk, hopen⟩ := hf.waits i hi
      cases hj.symm.trans hk
      obtain ⟨-, ⟨l, hlj, ht⟩, htold⟩ := hs.own hv hl hstarted
      refine .runs false ?_ (hu.queue ▸ hlj) (ht.finalized.trans hopen) (by rw [ht.startedAt]; rfl) ht.status nofun ?_
      · rw [hu.queue]
        exact h.1.active (mem_taking hq)
      · rw [streamed_congr ((Mute.spawned hu).hearings who), htold, hunheard, hheard]
        rfl
    · have htaken : (s.taking i q).Chapter who id c := by
        refine hc.kept ?_ (fun hmem => ?_) ?_ hunheard
        · have hjobs : (s.taking i q).queue.job? id = s.queue.job? id := by
            rw [he]
            exact Queue.job?_update_ne (by intro; rfl) (Ne.symm hid)
          rw [hjobs]
          exact Same.rel_refl _
        · rw [hw] at hmem
          rw [he]
          exact (List.mem_cons.mp hmem).resolve_left (Ne.symm hid)
        · rw [taking_active hq, List.mem_append, List.mem_singleton]
          exact or_iff_left (Ne.symm hid)
      exact (hs.chapter hid hv hl htaken).mute (.spawned hu) (by rw [hu.queue]) (by rw [hu.queue])

end Scheduler

open Scheduler in
/-- Whatever scripts and commands do, what is heard of a job goes along with it. -/
theorem Does.recites {who : String} {k : Nat} {id : JobId} {b c : Bool} {s t : Scheduler} (h : Does (Softly Spread) b s t) :
    Recites who k id c c s t := by
  induction h with
  | still | halt => exact .of_inert (.refl _) (.refl _)
  | trans _ _ ih₁ ih₂ => exact ih₁.trans ih₂
  | touch h => exact .of_inert h.inert (.touch h)
  | @signal s i reason hf hi =>
    have hs := signalling_signals hf i reason
    exact .of_mute (.one (.signal hi hs)) (.signalling hf i reason) hs.waiting hs.active fun task => hs.lives task id
  | ask hf hi hj hst hst' h hu => exact .ask hf hi hj hst hst' h hu
  | leave hf hi hj hl h hu => exact .leave hf hi hj hl h hu
  | unpark => exact .of_inert (unparking_inert _) (.unparking _)
  | refuse submission _ => exact .of_inert ((Inert.refuse _).trans (.noted rfl rfl)) (.refusing submission)
  | enter hf hfull h => exact .enter hf hfull h
  | arm hx => exact .of_mute (.one (.arm hx)) (.of_queue rfl rfl) rfl rfl fun _ hl => hl
  | start hf hq h hu => exact .start hf hq h hu

end MediaEngine
