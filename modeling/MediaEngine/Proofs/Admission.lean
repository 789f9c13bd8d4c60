import MediaEngine.Proofs.Rounding
import MediaEngine.Proofs.Runs

/-! # Admission

A job that is handed in is admitted and its number is the answer, or it is turned away and nothing is left
of it. That is so unless a number in the settings or in the submission has no double, or a listener stops
the task that hands the job in; and then it is not so (`enqueue_atomic_iff`). -/

namespace MediaEngine

/-- Progress starts unless the estimate is a whole number without a double. -/
theorem Job.Progress.start_ok (v : Value) :
    (∃ p, Progress.start v = .ok p) ↔ ∀ n, v = .number (.int n) → Binary64.Covers n := by
  cases v with
  | number x =>
    have hstart : Progress.start (.number x) = x.toDouble.bind fun d =>
        .ok ⟨.zero, none, some (if d.isFinite && Binary64.zero.lt d then d else .zero), false⟩ := by
      cases h : x.toDouble with
      | error e => simp only [Progress.start, usableTimeOr, usableTime, h]; rfl
      | ok d => simp only [Progress.start, usableTimeOr, usableTime, h]; rfl
    have hok : (∃ p, Progress.start (.number x) = .ok p) ↔ ∃ d, x.toDouble = .ok d := by
      rw [hstart]
      cases x.toDouble with
      | error e => exact iff_of_false (fun ⟨_, h⟩ => by cases h) (fun ⟨_, h⟩ => by cases h)
      | ok d => exact iff_of_true ⟨_, rfl⟩ ⟨d, rfl⟩
    rw [hok]
    cases x with
    | float d => exact iff_of_true ⟨d, rfl⟩ fun n h => by cases h
    | int n =>
      rw [Number.toDouble_int]
      exact ⟨fun h m hm => by cases hm; exact h, fun h => h n rfl⟩
  | _ => exact iff_of_true ⟨_, rfl⟩ fun n h => by cases h

/-- A job that waits has a timer only where the timeout has a double. -/
def Settings.Expirable (s : Settings) : Prop := 0 < s.queueTimeout → Binary64.Covers s.queueTimeout

namespace Scheduler
open Job Queue

/-- Nothing is left of a call but lines of the log, a number that was drawn, and perhaps the memory of a
    full queue. -/
structure Untouched (s t : Scheduler) : Prop where
  queue : t.queue = { s.queue with nextId := t.queue.nextId, fullEvent := t.queue.fullEvent }
  loop : t.loop = s.loop
  tasks : t.tasks = s.tasks
  notes : ∃ lines : List LogLine, t.notes = s.notes ++ lines.map .logged

namespace Untouched

theorem refl (s : Scheduler) : Untouched s s := ⟨rfl, rfl, rfl, [], (List.append_nil _).symm⟩

end Untouched

section Admission
variable {notify : Notify} {s t : Scheduler} {submission : Submission} {e : Fault} {id : JobId}

/-! ## How starting jobs fails -/

theorem startJob_fault (hn : Notifies Evolves notify) (h : (startJob notify id).on s = (.error e, t)) : e = .taskCancelled := by
  obtain ⟨u, hu⟩ : ∃ u, (startJob notify id).on s =
      (notify .started id >>= fun _ => createTask (.job id .fresh)).on u := ⟨_, rfl⟩
  rw [hu] at h
  rcases Act.on_bind_cases h with ⟨f, hf, he⟩ | ⟨_, v, -, hv⟩
  · cases he
    exact hn.fault _ _ _ _ _ hf
  · cases hv

theorem startUpTo_fault (hn : Notifies Evolves notify) {n : Nat} (h : (startUpTo notify n).on s = (.error e, t)) :
    e = .taskCancelled := by
  induction n generalizing s with
  | zero => cases h
  | succ n ih =>
    rw [startUpTo, Act.on_queueNow_bind] at h
    cases hq : s.queue.startNext? with
    | none => rw [hq] at h; cases h
    | some next =>
      rw [hq] at h
      obtain ⟨u, hu⟩ : ∃ u, (startJob notify next.1 >>= fun _ => startUpTo notify n).on u = (.error e, t) := ⟨_, h⟩
      rcases Act.on_bind_cases hu with ⟨f, hf, he⟩ | ⟨_, v, -, hv⟩
      · cases he
        exact startJob_fault hn hf
      · exact ih hv

/-! ## What an admitted job sets off -/

theorem afterAdmission_ok {id' : JobId} (h : (afterAdmission notify id).on s = (.ok id', t)) : id' = id := by
  rcases Act.on_bind_cases h with ⟨e, -, he⟩ | ⟨_, u, -, h⟩
  · cases he
  rcases Act.on_bind_cases h with ⟨e, -, he⟩ | ⟨_, v, -, h⟩
  · cases he
  rcases Act.on_bind_cases h with ⟨e, -, he⟩ | ⟨_, w, -, h⟩
  · cases he
  · cases h
    rfl

/-- An admitted job is not answered where its timer cannot be armed, or where a listener stops the task. -/
theorem afterAdmission_error (hn : Notifies Evolves notify) (hf : s.Fit) (h : (afterAdmission notify id).on s = (.error e, t)) :
    e = .taskCancelled ∨ ((∃ x, e = .arithmetic x) ∧ ¬ s.queue.settings.Expirable) := by
  have hqueued := hn.leads none .queued id s (by decide) hf
  rcases Act.on_bind_cases h with ⟨f, hr, he⟩ | ⟨_, u, hr, h⟩
  · cases he
    exact .inl (hn.fault _ _ _ _ _ hr)
  rw [hr] at hqueued
  rcases armExpiry_on (s := u) id with ⟨l, hl, -⟩ | ⟨x, hx, hexp, hs⟩
  · rw [Act.on_bind_ok hl] at h
    rcases Act.on_bind_cases h with ⟨f, hr, he⟩ | ⟨_, w, -, h⟩
    · cases he
      exact .inl (startUpTo_fault hn hr)
    · cases h
  · rw [Act.on_bind_error hx] at h
    cases h
    refine .inr ⟨⟨x, rfl⟩, fun hc => ?_⟩
    rw [hqueued.continues.settings] at hexp hs
    obtain ⟨seconds, hok⟩ := (Settings.timeoutSeconds_ok _).mpr (hc (of_decide_eq_true hexp))
    cases hs.symm.trans hok

/-- Where its timer cannot be armed an admitted job is not answered. -/
theorem afterAdmission_unarmed (id : JobId) (hn : Notifies Evolves notify) (hf : s.Fit) (hc : ¬ s.queue.settings.Expirable) :
    ∃ e t, (afterAdmission notify id).on s = (.error e, t) := by
  have hqueued := hn.leads none .queued id s (by decide) hf
  rcases hr : (notify .queued id).on s with ⟨f | _, u⟩ <;> rw [hr] at hqueued
  · exact ⟨f, u, Act.on_bind_error hr⟩
  have hsettings : u.queue.settings = s.queue.settings := hqueued.continues.settings
  rcases armExpiry_on (s := u) id with ⟨l, -, ⟨-, hx⟩ | ⟨-, hx⟩⟩ | ⟨x, hx, -⟩
  · rw [hsettings] at hx
    exact absurd (fun hpos => absurd hpos (of_decide_eq_false hx)) hc
  · rw [hsettings] at hx
    exact absurd (fun _ => (Settings.timeoutSeconds_ok _).mp hx) hc
  · exact ⟨_, u, (Act.on_bind_ok hr).trans (Act.on_bind_error hx)⟩

theorem admitting_job (hf : s.Fit) (progress : Progress) :
    (s.admitting submission progress).queue.job? s.queue.nextId =
      some (.admitted s.queue.nextId submission progress) :=
  (hf.job?_admitted submission progress s.queue.nextId).trans (if_pos rfl)

theorem fit_admitting (hf : s.Fit) (submission : Submission) (progress : Progress) :
    Fit (s.admitting submission progress) := (hf.enroll submission progress).stays (.of_queue rfl)

/-! ## What is left of a job that was handed in -/

/-- A fault other than that of a cancelled task leaves nothing behind, where the timer can be armed. -/
theorem enqueue_untouched {running : Bool} (hn : Notifies Evolves notify) (hf : s.Fit) (hc : s.queue.settings.Expirable)
    (h : (enqueue notify running submission).on s = (.error e, t)) (he : e ≠ .taskCancelled) : Untouched s t := by
  cases hd : submission.defect with
  | some part =>
    rw [enqueue_defect hd] at h
    cases h
    exact .refl s
  | none =>
    cases hfull : s.queue.isFull with
    | true =>
      rw [enqueue_full hd hfull] at h
      cases h
      exact ⟨rfl, rfl, rfl, [_], rfl⟩
    | false =>
      cases running with
      | false =>
        rw [enqueue_outside hd hfull] at h
        cases h
        exact .refl s
      | true =>
        cases hp : Job.Progress.start submission.estimate with
        | error x =>
          rw [enqueue_estimate hd hfull hp] at h
          cases h
          exact ⟨rfl, rfl, rfl, [], (List.append_nil _).symm⟩
        | ok progress =>
          rw [enqueue_admits hd hfull hp] at h
          -- Once the job waits, handing it in fails only as its submitter is cut short or the timer cannot be set.
          rcases afterAdmission_error hn (fit_admitting hf submission progress) h with hcut | ⟨-, hno⟩
          · exact absurd hcut he
          · exact absurd hc hno

/-- The answer to a job that was handed in names a new job, which is known with what was submitted. -/
structure Admits (submission : Submission) (s t : Scheduler) (id : JobId) : Prop where
  new : id ∉ s.queue.ids
  next : id = s.queue.nextId
  known : ∃ j, t.queue.job? id = some j ∧ j.submission = submission

theorem enqueue_admitted {running : Bool} (hn : Notifies Evolves notify) (hf : s.Fit)
    (h : (enqueue notify running submission).on s = (.ok id, t)) : Admits submission s t id := by
  cases hd : submission.defect with
  | some part => rw [enqueue_defect hd] at h; cases h
  | none =>
    cases hfull : s.queue.isFull with
    | true => rw [enqueue_full hd hfull] at h; cases h
    | false =>
      cases running with
      | false => rw [enqueue_outside hd hfull] at h; cases h
      | true =>
        cases hp : Job.Progress.start submission.estimate with
        | error x => rw [enqueue_estimate hd hfull hp] at h; cases h
        | ok progress =>
          rw [enqueue_admits hd hfull hp] at h
          have hafter : Evolves none _ _ _ :=
            afterAdmission_leads hn s.queue.nextId (fit_admitting hf submission progress)
          rw [h] at hafter
          cases afterAdmission_ok h
          obtain ⟨j, hj, hs⟩ := hafter.continues.knows _ _ (admitting_job hf progress)
          exact ⟨fun hm => Nat.lt_irrefl _ (hf.fresh _ hm), rfl, j, hj, hs⟩

/-- Where there is room, the answer depends on the estimate, the timeout and the listeners. -/
theorem enqueue_ok_iff (hn : Notifies Evolves notify) (hf : s.Fit) (hd : submission.defect = none)
    (hfull : s.queue.isFull = false) :
    (∃ id t, (enqueue notify true submission).on s = (.ok id, t)) ↔
      (∀ n, submission.estimate = .number (.int n) → Binary64.Covers n) ∧ s.queue.settings.Expirable ∧
        ((enqueue notify true submission).on s).1 ≠ .error .taskCancelled := by
  rw [← Progress.start_ok]
  cases hp : Job.Progress.start submission.estimate with
  | error x =>
    rw [enqueue_estimate hd hfull hp]
    exact iff_of_false (fun ⟨_, _, h⟩ => by cases h) fun h => by obtain ⟨⟨_, h⟩, -⟩ := h; cases h
  | ok progress =>
    have hf' := fit_admitting hf submission progress
    rw [enqueue_admits hd hfull hp]
    constructor
    · rintro ⟨id, t, h⟩
      refine ⟨⟨progress, rfl⟩, Classical.byContradiction fun hc => ?_, by rw [h]; exact fun h => by cases h⟩
      obtain ⟨e, u, hu⟩ := afterAdmission_unarmed s.queue.nextId hn hf' hc
      cases h.symm.trans hu
    · rintro ⟨-, hc, hcut⟩
      rcases hr : (afterAdmission notify s.queue.nextId).on (s.admitting submission progress) with ⟨e | id, t⟩
      · rcases afterAdmission_error hn hf' hr with rfl | ⟨-, hno⟩
        · exact absurd (by rw [hr]) hcut
        · exact absurd hc hno
      · exact ⟨id, t, rfl⟩

/-- A queue with room turns nobody away for being full. -/
theorem enqueue_not_full (hn : Notifies Evolves notify) (hf : s.Fit) (hd : submission.defect = none)
    (hfull : s.queue.isFull = false) (limit : Int) :
    ((enqueue notify true submission).on s).1 ≠ .error (.full limit) := by
  intro h
  cases hp : Job.Progress.start submission.estimate with
  | error x => rw [enqueue_estimate hd hfull hp] at h; cases h
  | ok progress =>
    rw [enqueue_admits hd hfull hp] at h
    have hf' := fit_admitting hf submission progress
    rcases hr : (afterAdmission notify s.queue.nextId).on (s.admitting submission progress) with ⟨e | id, t⟩ <;>
      rw [hr] at h <;> cases h
    rcases afterAdmission_error hn hf' hr with he | ⟨⟨x, he⟩, -⟩ <;> cases he

/-- A job is handed in with an answer, or without a trace. -/
structure Atomic (submission : Submission) (s : Scheduler) (outcome : Except Fault JobId × Scheduler) : Prop where
  answered : ∀ id, outcome.1 = .ok id → Admits submission s outcome.2 id
  refused : ∀ e, outcome.1 = .error e → e = .full s.queue.settings.maxQueueLength ∧ Untouched s outcome.2 ∧
    outcome.2.queue = s.queue.refuse s.loop.now

theorem Fit.atomic_iff (hf : s.Fit) (hd : submission.defect = none) (depth : Nat) :
    Atomic submission s ((enqueue (notifyUpTo depth) true submission).on s) ↔
      s.queue.isFull = true ∨
        ((∀ n, submission.estimate = .number (.int n) → Binary64.Covers n) ∧ s.queue.settings.Expirable ∧
          ((enqueue (notifyUpTo depth) true submission).on s).1 ≠ .error .taskCancelled) := by
  have hn : Notifies Evolves (notifyUpTo depth) := notifyUpTo_notifies depth
  cases hfull : s.queue.isFull with
  | true =>
    refine iff_of_true ⟨fun id h => ?_, fun e h => ?_⟩ (.inl rfl)
    · rw [enqueue_full hd hfull] at h
      cases h
    · rw [enqueue_full hd hfull] at h ⊢
      cases h
      exact ⟨rfl, ⟨rfl, rfl, rfl, [_], rfl⟩, rfl⟩
  | false =>
    rw [← enqueue_ok_iff hn hf hd hfull]
    rcases hr : (enqueue (notifyUpTo depth) true submission).on s with ⟨e | id, t⟩
    · refine iff_of_false (fun ha => ?_) fun h => ?_
      · have hno := enqueue_not_full hn hf hd hfull s.queue.settings.maxQueueLength
        rw [hr] at hno
        exact hno (congrArg Except.error (ha.refused e rfl).1)
      · rcases h with h | ⟨id, u, h⟩ <;> cases h
    · refine iff_of_true ⟨fun id' h => ?_, fun e h => by cases h⟩ (.inr ⟨id, t, rfl⟩)
      cases h
      exact enqueue_admitted hn hf hr

/-- Every state of a run is fit, and so is what it evolves into while listeners are told. Handing a job in
    to a fit queue either admits it or leaves no trace, exactly where the queue is full, or the estimate and the
    timeout have doubles and no listener stops the task that hands the job in. -/
theorem enqueue_atomic_iff (settings : Settings) (store : Store) (hd : submission.defect = none) (depth : Nat) :
    (∀ s, Reachable settings store s → s.Fit) ∧ (∀ told b s t, s.Fit → Evolves told b s t → t.Fit) ∧
      ∀ s, s.Fit →
        (Atomic submission s ((enqueue (notifyUpTo depth) true submission).on s) ↔
          s.queue.isFull = true ∨
            ((∀ n, submission.estimate = .number (.int n) → Binary64.Covers n) ∧ s.queue.settings.Expirable ∧
              ((enqueue (notifyUpTo depth) true submission).on s).1 ≠ .error .taskCancelled)) :=
  ⟨fun _ h => h.settled.fit, fun _ _ _ _ hf he => hf.evolves he, fun _ hf => hf.atomic_iff hd depth⟩

/-- A job with a small estimate is admitted to a new queue. -/
theorem small_estimate_atomic :
    let s := start .default (.selective [] []) "/" 1
    let submission : Submission := ⟨"a", some [], .none, none, .int 5⟩
    Atomic submission s ((enqueue (notifyUpTo 1) true submission).on s) := by
  intro s submission
  have hgoes : Broken ((enqueue (notifyUpTo 1) true submission).on s).1 = false := by decide +kernel
  have hd : submission.defect = none := rfl
  obtain ⟨hfit, -, hatomic⟩ := enqueue_atomic_iff .default (.selective [] []) hd 1
  have hs : s.Fit := hfit s ⟨"/", 1, .refl⟩
  refine (hatomic s hs).mpr (.inr ⟨fun n hn => ?_, fun _ => ?_, fun h => ?_⟩)
  · cases hn
    unfold Binary64.Covers
    decide +kernel
  · unfold Binary64.Covers
    decide +kernel
  · rw [h] at hgoes
    cases hgoes

/-- A job waits in a queue with a timeout beyond all doubles, although its submitter got an error. -/
theorem huge_timeout_not_atomic :
    let s := start (.floored 1 4 (10 ^ 400) 20) (.selective [] []) "/" 1
    let submission : Submission := ⟨"a", some [], .none, none, .null⟩
    ¬ Atomic submission s ((enqueue (notifyUpTo 1) true submission).on s) := by
  intro s submission h
  have hfails : ((enqueue (notifyUpTo 1) true submission).on s).1.isOk = false := by decide +kernel
  have hwaits : ((enqueue (notifyUpTo 1) true submission).on s).2.queue.waiting = [1] := by decide +kernel
  cases hr : ((enqueue (notifyUpTo 1) true submission).on s).1 with
  | ok id => rw [hr] at hfails; cases hfails
  | error e =>
    rw [(h.refused e hr).2.1.queue] at hwaits
    cases hwaits

end Admission
end Scheduler
end MediaEngine
