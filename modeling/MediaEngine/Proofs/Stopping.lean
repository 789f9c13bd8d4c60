import MediaEngine.Proofs.Steps

/-! # Jobs that are asked to stop

When a job is asked to stop, it shows so at once, all are told, and its token is signalled after that. A listener who
breaks off in between leaves a job behind that shows to be asked and never learns of it. Where none does who acts on
such events, every active job runs on as it should between two steps (`Manned`). -/

namespace MediaEngine
open Job

/-- The job has not ended, and if it shows that it was asked to stop its token is signalled. -/
structure Job.Running (j : Job) : Prop where
  unended : j.finalized = false
  uncanceled : j.status ≠ .canceled
  honest : j.status = .cancelling → j.token.cancelled = true

theorem Job.Running.tuned {j k : Job} (h : j.Running) (ht : Tuned j k) : k.Running where
  unended := ht.finalized.trans h.unended
  uncanceled hc := h.uncanceled (ht.status ▸ hc)
  honest hc := ht.signalled (h.honest (ht.status ▸ hc))

/-- No listener calls back, and none who acts on a change of status may be cut short. -/
structure Queue.Wary (q : Queue) : Prop where
  quiet : q.Quiet
  spares : q.Spares .status

theorem Queue.Wary.before {q r : Queue} (h : r.Wary) (hqr : q.listeners <+: r.listeners) : q.Wary :=
  ⟨h.quiet.before hqr, h.spares.before hqr⟩

namespace Scheduler
variable {s t u : Scheduler} {id : JobId} {but : Option JobId} {b c d killed : Bool} {status : Job.Status} {task : TaskId}
  {phase : Phase}

/-- Every job that is active is running, but for one that may have ended. -/
def Manned (but : Option JobId) (s : Scheduler) : Prop :=
  ∀ id ∈ s.queue.active, but ≠ some id → ∃ j, s.queue.job? id = some j ∧ j.Running

namespace Manned

theorem tuned (h : Manned but s) (hj : List.Forall₂ Tuned s.queue.jobs t.queue.jobs) (ha : t.queue.active = s.queue.active) :
    Manned but t := by
  intro id hid hne
  obtain ⟨j, hs, hr⟩ := h id (ha ▸ hid) hne
  obtain ⟨k, hk, ht⟩ := Queue.tuned_job?_some hj hs
  exact ⟨k, hk, hr.tuned ht⟩

theorem stays (h : Manned but s) (hs : Stays s t) : Manned but t := h.tuned hs.jobs hs.active

theorem of_queue (h : Manned but s) (hq : t.queue = s.queue) : Manned but t := h.stays (.of_queue hq)

theorem inert (h : Manned but s) (hi : Inert s t) : Manned but t := h.stays hi.toStays

/-- Listeners are told who do not call back. -/
theorem told {kind : EventKind} (h : Manned but s) (hs : Along (Softly Spread) kind id b s t) (hq : t.queue.Quiet) :
    Manned but t := h.tuned (hs.2 hq).hushed.jobs (hs.2 hq).hushed.active

/-- One job changes. If it is active, it is running, or it is the one that may have ended. -/
theorem update (h : Manned but s) {q : Queue} {f : Job → Job} (hjobs : q.jobs = s.queue.jobs) (hactive : q.active = s.queue.active)
    (hf : ∀ j, (f j).id = j.id) (hr : id ∈ s.queue.active → but ≠ some id → ∀ j, s.queue.job? id = some j → j.Running → (f j).Running)
    (ht : t.queue = q.update id f) : Manned but t := by
  intro i hi hne
  have hi : i ∈ s.queue.active := by
    rw [ht] at hi
    exact hactive ▸ hi
  obtain ⟨j, hj, hrun⟩ := h i hi hne
  have hjob : q.job? i = some j := by rw [Queue.job?, hjobs]; exact hj
  rw [ht]
  by_cases hid : i = id
  · subst hid
    exact ⟨f j, Queue.job?_update_self hf hjob, hr hi hne j hj hrun⟩
  · exact ⟨j, (Queue.job?_update_ne hf hid).trans hjob, hrun⟩

/-- A job that is asked to stop shows so, all are told, and its token is signalled. -/
theorem asked (h : Manned but s) (hf : Fit s) (hid : id ∈ s.queue.active)
    (htold : Along (Softly Spread) .status id b (s.showing id .cancelling) t) (hu : Halted id b t u) (hw : u.queue.Wary) :
    Manned but u := by
  have hft : Fit t := htold.1.fit (hf.update (by intro; rfl) (fun hw => hf.apart id hid (.inl hw)) s.loop)
  have hrest : Unfolds none t u := hu.unfolds hft (htold.1.active hid)
  have hwt : t.queue.Wary := hw.before hrest.listeners
  have hspread := htold.2 hwt.quiet
  cases hspread.whole hwt.spares
  obtain rfl : u = (t.signalling id (some cancelAllReason)).noted (.logged (.asked id)) := hu
  have hsig := signalling_signals hft id (some cancelAllReason)
  intro i hi hne
  have hi : i ∈ s.queue.active := hspread.hushed.active ▸ hsig.active ▸ hi
  obtain ⟨j, hj, hrun⟩ := h i hi hne
  by_cases hid : i = id
  · subst hid
    obtain ⟨k, hk, hjk⟩ := Queue.tuned_job?_some hspread.hushed.jobs (Queue.job?_update_self (by intro; rfl) hj)
    obtain ⟨l, hl, hkl⟩ := Queue.tuned_job?_some hsig.jobs hk
    obtain ⟨m, hm, hc, -⟩ := hsig.own k hk
    cases hl.symm.trans hm
    have hst : l.status = .cancelling := hkl.status.trans hjk.status
    exact ⟨l, hl, hkl.finalized.trans (hjk.finalized.trans hrun.unended), by rw [hst]; decide, fun _ => hc⟩
  · have hshown : (s.showing id .cancelling).queue.job? i = some j := (Queue.job?_update_ne (by intro; rfl) hid).trans hj
    obtain ⟨k, hk, hjk⟩ := Queue.tuned_job?_some hspread.hushed.jobs hshown
    obtain ⟨l, hl, hkl⟩ := Queue.tuned_job?_some hsig.jobs hk
    exact ⟨l, hl, hrun.tuned (hjk.trans hkl)⟩

/-- The first job that waits starts, and then it runs. -/
theorem taken (h : Manned but s) (hf : Fit s) {q : Queue} (hq : s.queue.startNext? = some (id, q)) : Manned but (s.taking id q) := by
  obtain ⟨rest, e, hw, he⟩ := taking_eq hq
  have hid : id ∈ s.queue.waiting := hw ▸ List.mem_cons_self
  obtain ⟨j, hj, hopen⟩ := hf.waits id hid
  intro i hi hne
  rw [taking_active hq] at hi
  rw [he]
  rcases List.mem_append.mp hi with hi | hi
  · have hne' : i ≠ id := fun h => hf.apart i hi (.inl (h ▸ hid))
    obtain ⟨k, hk, hr⟩ := h i hi hne
    exact ⟨k, (Queue.job?_update_ne (by intro; rfl) hne').trans hk, hr⟩
  · obtain rfl := List.mem_singleton.mp hi
    exact ⟨j.started s.loop.now, Queue.job?_update_self (by intro; rfl) hj, hopen, nofun, nofun⟩

theorem admitted (h : Manned but s) (submission : Submission) (progress : Progress) : Manned but (s.admitting submission progress) := by
  intro i hi hne
  obtain ⟨j, hj, hr⟩ := h i hi hne
  exact ⟨j, Queue.job?_enlist_some (q := s.queue.draw) hj, hr⟩

end Manned

end Scheduler

open Scheduler in
theorem Does.manned {but : Option JobId} {b : Bool} {s t : Scheduler} (h : Does (Softly Spread) b s t) (hf : Fit s) (hw : t.queue.Wary)
    (hm : Manned but s) : Manned but t := by
  induction h with
  | still | halt => exact hm
  | trans h₁ h₂ ih₁ ih₂ => exact ih₂ (h₁.fit hf) hw (ih₁ hf (hw.before h₂.unfolds.listeners) hm)
  | touch h => exact hm.inert h.inert
  | signal _ _ => exact hm.stays (signalling_signals hf _ _).toStays
  | ask _ hid _ _ _ h hu => exact hm.asked hf hid h hu hw
  | @leave b s t u id j message l _ hid hj hl h hu =>
    have hleft : Manned but (s.leaving id message l) := hm.update (q := s.queue.withdraw id) rfl rfl (by intro; rfl)
      (fun ha => absurd (.inl hid) (hf.apart id ha)) rfl
    have hrow : Unfolds none t u := hu.unfolds
    have htold := hleft.told h (hw.quiet.before hrow.listeners)
    cases b
    · obtain rfl : u = t.closing id := hu
      exact htold.stays ((keep_stays t id none).trans (closing_inert t id).toStays)
    · obtain rfl : u = t := hu
      exact htold
  | unpark => exact hm.inert (unparking_inert _)
  | refuse _ _ => exact hm
  | enter _ _ h => exact (hm.admitted _ _).told h hw.quiet
  | arm _ => exact hm
  | start _ hq h hu => exact ((hm.taken hf hq).told h (hu.queue ▸ hw.quiet)).of_queue hu.queue

namespace Scheduler
variable {s t u : Scheduler} {id : JobId} {but : Option JobId} {b c d killed : Bool} {status : Job.Status} {task : TaskId}
  {phase : Phase}

/-! ## Turns -/

theorem Works.manned (h : Works (Softly Spread) id c d b s t) (hf : Fit s) (hw : t.queue.Wary) (hm : Manned but s) : Manned but t := by
  induction h with
  | does h => exact h.manned hf hw hm
  | @cools b s t j hu hc h =>
    have hcool : Manned but (s.showing id .coolingDown) := hm.update (f := fun j => { j with status := .coolingDown }) rfl rfl
      (by intro; rfl)
      (fun _ _ _ _ hr => ⟨hr.unended, nofun, nofun⟩) rfl
    exact hcool.told h hw.quiet
  | trans h₁ h₂ ih₁ ih₂ => exact ih₂ (h₁.unfolds.fit hf) hw (ih₁ hf (hw.before h₂.unfolds.listeners) hm)

/-- The job that ends is the one that may have ended. -/
theorem Concludes.manned (h : Concludes (Softly Spread) id c status b s t) (hq : t.queue.Quiet) (hm : Manned none s) :
    Manned (some id) t := by
  cases h with
  | @ends j path errorMessage message v _ hu _ _ _ h hr =>
    have hend : Manned (some id) (s.ending id status errorMessage message) := by
      have hm' : Manned (some id) s := fun i hi _ => hm i hi (by simp)
      exact hm'.update rfl rfl (by intro; rfl) (fun _ hne => absurd rfl hne) rfl
    have hrow : Unfolds none v t := hr.unfolds
    exact (hend.told h (hq.before hrow.listeners)).stays hr.stays

/-- The job that may have ended leaves its slot. -/
theorem Vacates.manned (h : Vacates (Softly Spread) id s t) (hf : Fit s) (hw : t.queue.Wary) (hm : Manned (some id) s) :
    Manned none t := by
  have hfree : Manned none (s.mapQueue (·.release id)) := fun i hi _ => by
    obtain ⟨hne, hi⟩ := hf.once_active.mem_erase_iff.mp hi
    exact hm i hi fun h => hne (Option.some.inj h).symm
  cases h with
  | fills h => exact (h.does.manned (hf.release id) (hw.before (unparking_inert _).listeners) hfree).inert (unparking_inert _)
  | cut h => exact h.does.manned (hf.release id) hw hfree

theorem TurnOf.manned (h : TurnOf (Softly Spread) task id phase killed s t) (hf : Fit s) (hw : t.queue.Wary) (hm : Manned none s) :
    Manned none t := by
  cases h with
  | @waits pause after t _ hworks =>
    obtain ⟨g, -, hi⟩ := pausing_inert t task id pause after
    exact (hworks.manned hf (hw.before hi.listeners) hm).tuned hi.jobs hi.active
  | @ends d b status t u v w _ hworks hc ht hv =>
    have hfu : Fit (u.retire task) := hc.ended.1.stays (.of_queue rfl)
    have hfv : Fit v := hfu.stays ht.inert.toStays
    have hwv : v.queue.Wary := hw.before (Unfolds.listeners (s := v.mapQueue (·.release id)) hv.unfolds)
    have hwu : u.queue.Wary := hwv.before ht.inert.listeners
    have hended := hc.manned hwu.quiet (hworks.manned hf (hwu.before hc.unfolds.listeners) hm)
    exact hv.manned hfv hw ((hended.of_queue (t := u.retire task) rfl).inert ht.inert)
  | @stops d b c status t u v _ hworks hc hv =>
    have hwu : u.queue.Wary := hw.before (Unfolds.listeners (s := u.mapQueue (·.release id)) hv.unfolds)
    have hworked := hworks.manned hf (hwu.before (Unfolds.listeners (s := t.retire task) hc.unfolds)) hm
    exact hv.manned hc.ended.1 hw (hc.manned hwu.quiet (hworked.of_queue rfl))

/-! ## Runs -/

theorem Deed.manned (h : Deed (Softly Spread) (Does (Softly Spread)) s t) (hs : Settled s) (hw : t.queue.Wary) (hm : Manned none s) :
    Manned none t := by
  cases h with
  | does h => exact h.manned hs.fit hw hm
  | kills h => exact hm.inert (h.inert hs.fit)
  | annotates id m => exact hm.inert (annotated_inert s id m)
  | joins | rests | drops | wakes | moveTo => exact hm.of_queue rfl
  | @plays task l _ _ _ _ _ _ _ _ _ _ _ hturn =>
    exact hturn.manned (hs.fit.stays (.of_queue (t := heeding { s with loop := l } task) rfl)) hw (hm.of_queue rfl)
  | @waits task l x name parked hnext hx _ hwork =>
    exact Manned.inert (s := heeding { s with loop := l } task) (hm.of_queue rfl) (idling_turn hs.fit hx hwork l)
  | @expires _ _ l _ _ _ h => exact h.manned (s := { s with loop := l }) (hs.fit.stays (.of_queue rfl)) hw (hm.of_queue rfl)

/-- In every state of a run in which no listener calls back or breaks off to be told of a status, every active job runs. -/
theorem Runs.manned {settings : Settings} {store : Store} {directory : String} {budget : Nat}
    (h : Runs (start settings store directory budget) s) (hw : s.queue.Wary) : Manned none s := by
  induction h with
  | refl => exact fun _ hid => by cases hid
  | tail h hstep ih =>
    obtain ⟨hs, ht, -⟩ := Runs.basics h
    obtain ⟨-, -, hm⟩ := hstep.sound hs ht
    exact (hstep.deed notifyUpTo_softly hs ht).manned hs hw (ih (hw.before hm.listeners))

end Scheduler
end MediaEngine
