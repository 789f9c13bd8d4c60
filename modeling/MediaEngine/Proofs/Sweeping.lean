import MediaEngine.Proofs.Dropping
import MediaEngine.Proofs.Stopping
import MediaEngine.Proofs.Stores

/-! # All jobs are cancelled

Who is active is asked to stop, once, and who waits is dropped, the first one first. Followed part by part, where
listeners let it go through, one call leaves nothing for the next one to do. -/

namespace MediaEngine
open Job

/-- The job may be asked to stop: it shows neither that it was asked to nor that it was canceled. -/
def Queue.mayAsk (q : Queue) (id : JobId) : Bool :=
  (q.job? id).any fun j => decide (j.status ≠ .cancelling ∧ j.status ≠ .canceled)

namespace Scheduler
variable {s t u : Scheduler} {id : JobId} {ids : List JobId}

/-- The job shows that it was asked to stop, and its token is signalled. -/
def Stopping (s : Scheduler) (id : JobId) : Prop :=
  ∃ j, s.queue.job? id = some j ∧ j.status = .cancelling ∧ j.token.cancelled = true

/-! ## Active jobs -/

/-- These jobs are asked to stop, and nothing else differs in the queue, but for whom listeners are. -/
structure Halts (ids : List JobId) (s t : Scheduler) : Prop where
  queue : ∃ jobs subscriptions subscribed brokenOff, t.queue =
    { s.queue with jobs := jobs, subscriptions := subscriptions, subscribed := subscribed, brokenOff := brokenOff }
  others : ∀ i, i ∉ ids → t.queue.job? i = s.queue.job? i
  stopping : ∀ i ∈ ids, t.Stopping i
  clock : t.loop.now = s.loop.now
  timers : t.loop.timers = s.loop.timers

namespace Halts

theorem none (s : Scheduler) : Halts [] s s := ⟨⟨_, _, _, _, rfl⟩, fun _ _ => rfl, nofun, rfl, rfl⟩

theorem cons (h₁ : Halts [id] s t) (h₂ : Halts ids t u) (hid : id ∉ ids) : Halts (id :: ids) s u := by
  obtain ⟨_, _, _, _, hq⟩ := h₁.queue
  obtain ⟨_, _, _, _, hq'⟩ := h₂.queue
  refine ⟨⟨_, _, _, _, by rw [hq', hq]⟩, fun i hi => ?_, fun i hi => ?_, h₂.clock.trans h₁.clock, h₂.timers.trans h₁.timers⟩
  · obtain ⟨hne, hrest⟩ := not_or.mp (mt List.mem_cons.mpr hi)
    rw [h₂.others i hrest, h₁.others i (by simpa using hne)]
  · rcases List.mem_cons.mp hi with rfl | hi
    · unfold Stopping
      rw [h₂.others i hid]
      exact h₁.stopping i (List.mem_singleton_self i)
    · exact h₂.stopping i hi

/-- All are told that a job is asked to stop, and then its token is signalled. -/
theorem asked {j : Job} {b : Bool} (hf : Fit t) (hj : s.queue.job? id = some j) (htold : Spread .status id b (s.showing id .cancelling) t)
    (reason : Option String) : Halts [id] s (t.signalling id reason) := by
  obtain ⟨subscriptions, subscribed, brokenOff, htq⟩ := htold.queue
  have hk : t.queue.job? id = some { j with status := .cancelling } := by
    rw [htq]
    exact Queue.job?_update_self (by intro; rfl) hj
  have hsig := signalling_signals hf id reason
  have hparts : (∃ jobs, (t.signalling id reason).queue = { t.queue with jobs := jobs }) ∧
      (∀ i, i ≠ id → (t.signalling id reason).queue.job? i = t.queue.job? i) ∧
      (t.signalling id reason).loop.now = t.loop.now ∧ (t.signalling id reason).loop.timers = t.loop.timers := by
    unfold Scheduler.signalling
    rcases signalToken_eq (s := t) id reason with ⟨h, -⟩ | ⟨k, -, -, h⟩ <;> rw [h]
    · exact ⟨⟨_, rfl⟩, fun _ _ => rfl, rfl, rfl⟩
    · exact ⟨⟨_, rfl⟩, fun i hi => Queue.job?_update_ne (by intro; rfl) hi, rfl, rfl⟩
  obtain ⟨⟨jobs, hq⟩, hothers, hnow, htimers⟩ := hparts
  refine ⟨⟨jobs, subscriptions, subscribed, brokenOff, by rw [hq, htq]; rfl⟩, fun i hi => ?_, fun i hi => ?_, ?_, ?_⟩
  · have hi : i ≠ id := by simpa using hi
    rw [hothers i hi, htq]
    exact Queue.job?_update_ne (by intro; rfl) hi
  · obtain rfl := List.mem_singleton.mp hi
    obtain ⟨k, hk', hc, -⟩ := hsig.own _ hk
    obtain ⟨l, hl, ht⟩ := Queue.tuned_job?_some hsig.jobs hk
    cases hk'.symm.trans hl
    exact ⟨k, hk', ht.status, hc⟩
  · exact hnow.trans (Unbooked.spread htold).clock
  · exact htimers.trans htold.timers

end Halts

section Asking
variable {depth : Nat} {j : Job}

/-- A job that is active is asked to stop unless it was before. -/
theorem ask_on (hf : Fit s) (hid : id ∈ s.queue.active) (hj : s.queue.job? id = some j) (hr : j.Running)
    (hw : ((ask (notifyUpTo depth) id).on s).2.queue.Wary) :
    ∃ t, (ask (notifyUpTo depth) id).on s = (.ok (s.queue.mayAsk id), t) ∧ Halts [id] s t := by
  by_cases hst : j.status = .cancelling
  · have hasked : s.queue.mayAsk id = false := by simp [Queue.mayAsk, hj, hst]
    refine ⟨s, ?_, ⟨_, _, _, _, rfl⟩, fun _ _ => rfl, fun i hi => ?_, rfl, rfl⟩
    · rw [ask, Act.on_queueNow_bind, hj, hasked]
      simp only [hst]
      rfl
    · obtain rfl := List.mem_singleton.mp hi
      exact ⟨j, hj, hst, hr.honest hst⟩
  · have hfit : Fit (s.showing id .cancelling) := hf.update (by intro; rfl) (fun hw => hf.apart id hid (.inl hw)) s.loop
    have hask : (ask (notifyUpTo depth) id).on s = (notifyUpTo depth .status id >>= fun _ => do
        let _ ← signalToken id (some cancelAllReason)
        log (.asked id)
        return true).on (s.showing id .cancelling) := by
      rw [ask, Act.on_queueNow_bind, hj]
      simp only [hst, hr.uncanceled]
      rfl
    have hmay : s.queue.mayAsk id = true := by simp [Queue.mayAsk, hj, hst, hr.uncanceled]
    have htold := (notifyUpTo_softly depth).leads .status id _ hfit
    rw [hask] at hw ⊢
    rcases htell : (notifyUpTo depth .status id).on (s.showing id .cancelling) with ⟨e | ⟨⟩, t⟩ <;> rw [htell] at htold
    · -- Nobody breaks off to be told of a status.
      rw [Act.on_bind_error htell] at hw
      cases (notifyUpTo_softly depth).fault _ _ _ _ _ htell
      cases (htold.2 hw.quiet).whole hw.spares
    · have hft : Fit t := htold.1.fit hfit
      obtain ⟨c, hc⟩ := signalling_on (s := t) id (some cancelAllReason)
      rw [Act.on_bind_ok htell, Act.on_bind_ok hc] at hw ⊢
      have hquiet : t.queue.Quiet := hw.quiet.before (signalling_signals hft id (some cancelAllReason)).listeners
      have hhalts := Halts.asked hft hj (htold.2 hquiet) (some cancelAllReason)
      refine ⟨(t.signalling id (some cancelAllReason)).noted (.logged (.asked id)), by rw [hmay]; rfl, ?_⟩
      exact ⟨hhalts.queue, hhalts.others, hhalts.stopping, hhalts.clock, hhalts.timers⟩

/-- What was known of a listener when the first job was asked is known when all were. -/
theorem askAll_later (depth : Nat) (hf : Fit s) (hids : ∀ i ∈ id :: ids, i ∈ s.queue.active) :
    Unfolds none s ((ask (notifyUpTo depth) id).on s).2 ∧ ((ask (notifyUpTo depth) id).on s).2.queue.listeners <+:
      ((askAll (notifyUpTo depth) (id :: ids)).on s).2.queue.listeners := by
  have hrows := notifyUpTo_unfolds depth
  have hfirst : Unfolds none s ((ask (notifyUpTo depth) id).on s).2 :=
    ask_told (R := fun _ => Unfolds none) hrows (hids id List.mem_cons_self) hf
  have hrest : Leads (fun _ => Unfolds none) ((ask (notifyUpTo depth) id).on s).2 (askAll (notifyUpTo depth) ids) :=
    askAll_told hrows ids fun i hi => hfirst.active (hids i (List.mem_cons_of_mem _ hi))
  refine ⟨hfirst, ?_⟩
  rw [askAll]
  refine listeners_after (hfirst.fit hf) fun asked => ?_
  cases asked
  · exact hrest
  · exact Leads.bind hrest fun _ _ _ _ => Leads.pure _

/-- Those who are active are asked to stop, in order. -/
theorem askAll_on (hf : Fit s) (hn : ids.Nodup) (hids : ∀ i ∈ ids, i ∈ s.queue.active)
    (hr : ∀ i ∈ ids, ∃ j, s.queue.job? i = some j ∧ j.Running) (hw : ((askAll (notifyUpTo depth) ids).on s).2.queue.Wary) :
    ∃ t, (askAll (notifyUpTo depth) ids).on s = (.ok (ids.filter s.queue.mayAsk), t) ∧ Halts ids s t := by
  induction ids generalizing s with
  | nil => exact ⟨s, rfl, .none s⟩
  | cons id rest ih =>
    obtain ⟨hnot, hrest⟩ := List.nodup_cons.mp hn
    obtain ⟨j, hj, hrun⟩ := hr id List.mem_cons_self
    obtain ⟨hrow, hlater⟩ := askAll_later depth hf hids
    obtain ⟨t, ht, hhalts⟩ := ask_on hf (hids id List.mem_cons_self) hj hrun (hw.before hlater)
    rw [ht] at hrow
    -- Those who are still to be asked are as they were, so the same ones of them may be asked.
    have hothers : ∀ i ∈ rest, t.queue.job? i = s.queue.job? i := fun i hi =>
      hhalts.others i (by simpa using ne_of_mem_of_not_mem hi hnot)
    have hmay : rest.filter t.queue.mayAsk = rest.filter s.queue.mayAsk :=
      List.filter_congr fun i hi => by rw [Queue.mayAsk, Queue.mayAsk, hothers i hi]
    rw [askAll_cons ht] at hw ⊢
    obtain ⟨u, hu, hhalts'⟩ := ih (hrow.fit hf) hrest (fun i hi => hrow.active (hids i (List.mem_cons_of_mem _ hi)))
      (fun i hi => hothers i hi ▸ hr i (List.mem_cons_of_mem _ hi)) hw
    refine ⟨u, ?_, .cons hhalts hhalts' hnot⟩
    rw [hu, hmay, List.filter_cons]
    rfl

end Asking

/-! ## Jobs that wait -/

/-- What the history keeps of the jobs that wait, if all are dropped now. -/
def lapses (s : Scheduler) : List Entry := (s.queue.jobsOf s.queue.waiting).map (·.lapse s.loop.now cancelAllMessage)

/-- No job waits any more, and one entry is kept of each one that did. -/
structure Empties (s t : Scheduler) : Prop where
  settings : t.queue.settings = s.queue.settings
  waiting : t.queue.waiting = []
  active : t.queue.active = s.queue.active
  others : ∀ i, i ∉ s.queue.waiting → t.queue.job? i = s.queue.job? i
  parked : t.queue.parked = s.queue.parked
  fullEvent : t.queue.fullEvent = if s.queue.waiting.isEmpty then s.queue.fullEvent else none
  recorded : t.queue.recorded = s.queue.recorded ++ s.lapses
  store : t.queue.store = s.lapses.foldl Store.keep s.queue.store

theorem Empties.none (hw : s.queue.waiting = []) : Empties s s := by
  have hl : s.lapses = [] := by rw [lapses, hw]; rfl
  exact ⟨rfl, hw, rfl, fun _ _ => rfl, rfl, by rw [hw]; rfl, by simp [hl], by rw [hl]; rfl⟩

theorem Empties.cons (hw : s.queue.waiting = id :: ids) (hn : s.queue.waiting.Nodup)
    (h₁ : Departs s id cancelAllMessage (s.loop.disarm (.expire id)) t) (h₂ : Empties t u) : Empties s u := by
  have hrest : t.queue.waiting = ids := by rw [h₁.waiting, hw, List.erase_cons_head]
  have hnot : id ∉ ids := (List.nodup_cons.mp (hw ▸ hn)).1
  obtain ⟨j, hj, -, hrecorded, hstore⟩ := h₁.own
  have hothers : ∀ i ∈ ids, t.queue.job? i = s.queue.job? i := fun i hi => h₁.others i (ne_of_mem_of_not_mem hi hnot)
  have hjobs : t.queue.jobsOf ids = s.queue.jobsOf ids := List.filterMap_congr hothers
  have hclock : t.loop.now = s.loop.now := h₁.clock
  have hlapses : s.lapses = j.lapse s.loop.now cancelAllMessage :: t.lapses := by
    rw [lapses, lapses, hw, hrest, hjobs, hclock, Queue.jobsOf, List.filterMap_cons, hj]
    rfl
  constructor
  case settings => exact h₂.settings.trans h₁.settings
  case waiting => exact h₂.waiting
  case active => exact h₂.active.trans h₁.active
  case parked => exact h₂.parked.trans h₁.parked
  case others =>
    intro i hi
    obtain ⟨hne, hi⟩ := not_or.mp (mt List.mem_cons.mpr (hw ▸ hi))
    rw [h₂.others i (hrest ▸ hi), h₁.others i hne]
  case fullEvent =>
    rw [h₂.fullEvent, h₁.fullEvent, hw]
    split <;> rfl
  case recorded => rw [h₂.recorded, hrecorded, hlapses, List.append_assoc]; rfl
  case store => rw [h₂.store, hstore, hlapses]; rfl

/-- Those who wait are dropped, the first one first. -/
theorem cancelUpTo_on {depth : Nat} (hf : Fit s) (hl : s.queue.Limited) (htakes : ∀ e, s.queue.store.record? e ≠ none) (n : Nat)
    (hn : s.queue.waiting.length ≤ n) (hq : ((cancelUpTo (notifyUpTo depth) n).on s).2.queue.Quiet)
    (hs : ((cancelUpTo (notifyUpTo depth) n).on s).2.queue.Spares .finished) :
    ∃ t, (cancelUpTo (notifyUpTo depth) n).on s = (.ok s.queue.waiting, t) ∧ Empties s t := by
  -- Each one that is dropped leaves one job less that waits, and one less that may be dropped.
  induction n generalizing s with
  | zero =>
    have hw : s.queue.waiting = [] := List.eq_nil_of_length_eq_zero (Nat.le_zero.mp hn)
    exact ⟨s, hw ▸ rfl, .none hw⟩
  | succ n ih =>
    cases hw : s.queue.waiting with
    | nil => exact ⟨s, cancelUpTo_none hw _, .none hw⟩
    | cons id rest =>
      have hid : id ∈ s.queue.waiting := hw ▸ List.mem_cons_self
      have hrows := notifyUpTo_unfolds depth
      obtain ⟨r, v, hr, hrow⟩ := drop_told (R := fun _ => Unfolds none) hrows hf hid (.inr rfl) cancelAllMessage
      have hrow : Unfolds none s v := hrow
      have hlater := listeners_after (x := drop (notifyUpTo depth) id cancelAllMessage)
        (f := fun _ => do return id :: (← cancelUpTo (notifyUpTo depth) n))
        (s := { s with queue := s.queue.withdraw id, loop := s.loop.disarm (.expire id) }) (by rw [hr]; exact hrow.fit hf)
        fun _ => Leads.bind (cancelUpTo_told (R := fun _ => Unfolds none) hrows n) fun _ _ _ _ => Leads.pure _
      rw [cancelUpTo_cons hw] at hq hs ⊢
      obtain ⟨t, ht, hdeparts⟩ := drop_on hf hl hid htakes depth (hq.before hlater) (hs.before hlater)
      cases hr.symm.trans ht
      rw [Act.on_bind_ok ht, Act.on_map] at hq hs ⊢
      have hwaiting : v.queue.waiting = rest := by rw [hdeparts.waiting, hw, List.erase_cons_head]
      have htakes' : ∀ e, v.queue.store.record? e ≠ none := by
        obtain ⟨j, -, -, -, hstore⟩ := hdeparts.own
        exact fun e => hstore ▸ mt (Store.keep_refuses s.queue.store (j.lapse _ _) e).mp (htakes e)
      have hfewer : v.queue.waiting.length ≤ n := by
        rw [hw] at hn
        rw [hwaiting]
        exact Nat.le_of_succ_le_succ hn
      obtain ⟨u, hu, hempties⟩ := ih (hrow.fit hf) (limited_moments hl hrow.moments) htakes' hfewer hq hs
      exact ⟨u, by rw [hu, hwaiting]; rfl, .cons hw hf.once_waiting hdeparts hempties⟩

theorem jobsOf_ids (h : ∀ i ∈ ids, ∃ j, s.queue.job? i = some j) : (s.queue.jobsOf ids).map Job.id = ids := by
  induction ids with
  | nil => rfl
  | cons i rest ih =>
    obtain ⟨j, hj⟩ := h i List.mem_cons_self
    rw [Queue.jobsOf, List.filterMap_cons, hj]
    exact congrArg₂ _ (Queue.job?_id hj) (ih fun k hk => h k (List.mem_cons_of_mem _ hk))

/-- The entry of every job that waits tells that it was canceled and never started, and why. -/
theorem lapses_told (ho : InOrder s) : s.lapses.map Entry.jobId = s.queue.waiting.map JobId.text ∧
    ∀ e ∈ s.lapses, e.status = .canceled ∧ e.message = some cancelAllMessage ∧ e.startedAt = none := by
  constructor
  · have hall := jobsOf_ids fun i hi => (ho.fit.waits i hi).imp fun _ h => h.1
    conv_rhs => rw [← hall]
    rw [lapses, List.map_map, List.map_map]
    rfl
  · intro e he
    obtain ⟨j, hj, rfl⟩ := List.mem_map.mp he
    obtain ⟨i, hi, hk⟩ := List.mem_filterMap.mp hj
    exact ⟨rfl, rfl, congrArg (Option.map Moment.ofClock) (ho.waits_unstarted hi hk)⟩

theorem keep_all_within {store : Store} (h : store.Within) (es : List Entry) : (es.foldl Store.keep store).Within := by
  cases store with
  | bounded history =>
    rw [Store.keep_all_bounded]
    change _ ≤ _
    rw [History.record_all h, History.record_all_limit]
    exact List.length_take_le _ _
  | selective refused old =>
    rw [Store.keep_all_selective]
    trivial

/-! ## All jobs -/

/-- All jobs are cancelled: none waits any more, and those that are active stop. -/
structure CancelsAll (s t : Scheduler) : Prop where
  waiting : t.queue.waiting = []
  active : t.queue.active = s.queue.active
  stopping : ∀ i ∈ s.queue.active, t.Stopping i
  fullEvent : s.queue.waiting ≠ [] → t.queue.fullEvent = Option.none
  history : t.queue.history = s.queue.store.after s.lapses

/-- Those who are active are asked to stop, those who wait are dropped, and then those go on who wait for the queue to be
    idle. -/
theorem Halts.clears (hf : Fit s) (hwithin : s.queue.store.Within) (h : Halts s.queue.active s t) (h' : Empties t u) :
    CancelsAll s u.unparking := by
  obtain ⟨jobs, subscriptions, subscribed, brokenOff, hq⟩ := h.queue
  obtain ⟨parked, hparked⟩ := unparking_queue u
  have hwaiting : t.queue.waiting = s.queue.waiting := by rw [hq]
  have hapart : ∀ i ∈ s.queue.waiting, i ∉ s.queue.active := fun i hi ha => hf.apart i ha (.inl hi)
  -- Those that wait are left alone as the active ones are asked, so their entries are the same.
  have hlapses : t.lapses = s.lapses := by
    have hjobs : t.queue.jobsOf s.queue.waiting = s.queue.jobsOf s.queue.waiting :=
      List.filterMap_congr fun i hi => h.others i (hapart i hi)
    rw [lapses, lapses, hwaiting, hjobs, h.clock]
  constructor
  case waiting => rw [hparked]; exact h'.waiting
  case active =>
    rw [hparked]
    exact h'.active.trans (by rw [hq])
  case stopping =>
    intro i hi
    obtain ⟨j, hj, hstop⟩ := h.stopping i hi
    refine ⟨j, ?_, hstop⟩
    rw [hparked]
    exact (h'.others i fun hw => hapart i (hwaiting ▸ hw) hi).trans hj
  case fullEvent =>
    intro hne
    rw [hparked]
    refine h'.fullEvent.trans (if_neg ?_)
    rwa [hwaiting, List.isEmpty_iff]
  case history =>
    have hstore : t.queue.store = s.queue.store := by rw [hq]
    rw [Queue.history, hparked]
    change u.queue.store.entries = _
    rw [h'.store, hlapses, hstore, Store.keep_all_entries hwithin]

theorem unparking_twice (s : Scheduler) : s.unparking.unparking = s.unparking := by
  have hrouse : ∀ t : Scheduler, t.rousing [] = t := fun t => by
    simp [rousing, Loop.wake]
  cases hidle : s.queue.isIdle
  · have h : s.unparking = s := by rw [unparking, hidle]; rfl
    rw [h, h]
  · have h : s.unparking = (s.mapQueue fun q => { q with parked := [] }).rousing s.queue.parked := by rw [unparking, hidle]; rfl
    have hidle' : s.unparking.queue.isIdle = true := by rw [h]; exact hidle
    rw [unparking, hidle', if_pos rfl, h]
    exact hrouse _

theorem askAll_stopping {notify : Notify} (h : ∀ i ∈ ids, s.Stopping i) : (askAll notify ids).on s = (.ok [], s) := by
  induction ids with
  | nil => rfl
  | cons id rest ih =>
    obtain ⟨j, hj, hst, -⟩ := h id List.mem_cons_self
    have hask : (ask notify id).on s = (.ok false, s) := by
      rw [ask, Act.on_queueNow_bind, hj]
      simp only [hst]
      rfl
    rw [askAll, Act.on_bind_ok hask]
    exact ih fun i hi => h i (List.mem_cons_of_mem _ hi)

/-- Once all jobs are cancelled and those went on who waited for the queue to be idle, nothing is left to do. -/
theorem CancelsAll.again (h : CancelsAll s t.unparking) (notify : Notify) :
    (cancelAll notify).on t.unparking = (.ok ⟨[], []⟩, t.unparking) := by
  rw [cancelAll_asks, h.active, Act.on_bind_ok (askAll_stopping h.stopping), afterAsking, Act.on_get_bind,
    Act.on_bind_ok (cancelUpTo_none h.waiting _), Act.on_bind_ok releaseParked_unparking, unparking_twice]
  rfl

section Clearing
variable {depth : Nat}

theorem afterAsking_on (hf : Fit s) (hl : s.queue.Limited) (htakes : ∀ e, s.queue.store.record? e ≠ none) (asked : List JobId)
    (hq : ((afterAsking (notifyUpTo depth) asked).on s).2.queue.Quiet)
    (hs : ((afterAsking (notifyUpTo depth) asked).on s).2.queue.Spares .finished) :
    ∃ t, (afterAsking (notifyUpTo depth) asked).on s = (.ok ⟨asked, s.queue.waiting⟩, t.unparking) ∧ Empties s t := by
  have hdrop : Unfolds none s ((cancelUpTo (notifyUpTo depth) (s.queue.waiting.length + s.budget)).on s).2 :=
    cancelUpTo_told (R := fun _ => Unfolds none) (notifyUpTo_unfolds depth) _ hf
  have hlater := listeners_after (f := fun dropped => (do
      releaseParked
      return (⟨asked, dropped⟩ : Queue.Cancellation))) (hdrop.fit hf) fun _ =>
    Leads.step releaseParked_unparking (.inert (unparking_inert _)) (Leads.pure _)
  rw [afterAsking, Act.on_get_bind] at hq hs ⊢
  obtain ⟨t, ht, hempties⟩ := cancelUpTo_on hf hl htakes _ (Nat.le_add_right _ _) (hq.before hlater) (hs.before hlater)
  rw [Act.on_bind_ok ht, Act.on_bind_ok releaseParked_unparking]
  exact ⟨t, rfl, hempties⟩

/-- Where no listener calls back or breaks off to be told, and the store takes every entry, all jobs are cancelled by one
    call, and the next one finds nothing to do. -/
theorem cancelAll_on (hf : Fit s) (hl : s.queue.Limited) (hm : Manned none s) (hwithin : s.queue.store.Within)
    (htakes : ∀ e, s.queue.store.record? e ≠ none) (hw : ((cancelAll (notifyUpTo depth)).on s).2.queue.Wary)
    (hs : ((cancelAll (notifyUpTo depth)).on s).2.queue.Spares .finished) :
    ∃ t, (cancelAll (notifyUpTo depth)).on s = (.ok ⟨s.queue.active.filter s.queue.mayAsk, s.queue.waiting⟩, t) ∧ CancelsAll s t ∧
      ∀ notify, (cancelAll notify).on t = (.ok ⟨[], []⟩, t) := by
  have hrows := notifyUpTo_unfolds depth
  have hask : Unfolds none s ((askAll (notifyUpTo depth) s.queue.active).on s).2 :=
    askAll_told (R := fun _ => Unfolds none) hrows s.queue.active (fun _ h => h) hf
  have hlater := listeners_after (hask.fit hf) fun asked => afterAsking_told hrows asked
  rw [cancelAll_asks] at hw hs ⊢
  obtain ⟨t, ht, hhalts⟩ := askAll_on hf hf.once_active (fun _ h => h) (fun i hi => hm i hi (by simp)) (hw.before hlater)
  rw [ht] at hask
  rw [Act.on_bind_ok ht] at hw hs ⊢
  have hkept : t.queue.store = s.queue.store ∧ t.queue.waiting = s.queue.waiting := by
    obtain ⟨jobs, subscriptions, subscribed, brokenOff, htq⟩ := hhalts.queue
    rw [htq]
    exact ⟨rfl, rfl⟩
  obtain ⟨u, hu, hempties⟩ := afterAsking_on (hask.fit hf) (limited_moments hl hask.moments) (hkept.1 ▸ htakes) _ hw.quiet hs
  have hcleared : CancelsAll s u.unparking := hhalts.clears hf hwithin hempties
  exact ⟨u.unparking, by rw [hu, hkept.2], hcleared, hcleared.again⟩

end Clearing

/-! ## Runs -/

/-- A state in which the queue is called on: between two steps of a run, or amid the turn of a job, after some of what its
    script does. -/
inductive Calls (s₀ : Scheduler) (s : Scheduler) : Prop
  | between : Runs s₀ s → Calls s₀ s
  | within {r : Scheduler} {task : TaskId} {l : Loop TimerAction} {id : JobId} {c d : Bool} :
      Runs s₀ r → r.loop.next? = some (task, l) → Works (Softly Spread) id c d false (heeding { r with loop := l } task) s → Calls s₀ s

section Runs
variable {settings : Settings} {store : Store} {directory : String} {budget : Nat}

theorem Calls.moments {s₀ : Scheduler} (h : Calls s₀ s) (hs : Settled s₀) (ht : Timed s₀) : Moments s₀ s := by
  cases h with
  | between h => exact (h.sound hs ht).2.2
  | @within r task l _ _ _ h hnext hwork =>
    exact ((h.sound hs ht).2.2.trans (Moments.inert (.turning hnext))).trans hwork.unfolds.moments

theorem Calls.manned (h : Calls (start settings store directory budget) s) (hw : s.queue.Wary) : Manned none s := by
  cases h with
  | between h => exact h.manned hw
  | @within r task l _ _ _ h hnext hwork =>
    have hfit : Fit (heeding { r with loop := l } task) := (Runs.basics h).1.fit.stays (.of_queue rfl)
    exact hwork.manned hfit hw ((h.manned (hw.before hwork.unfolds.listeners)).of_queue rfl)

/-- All jobs are cancelled by one call, whenever it is made, where no listener calls back or breaks off to be told of a
    status or an end, and the store takes every entry. It yields the active jobs that were not asked to stop before, in the
    order in which they started, and those that waited, the first one first. None waits afterwards; those that were active
    still are, and stop; the history shows one entry of each that waited in front of the earlier ones, the last one first;
    and nothing is left to do for a further call. -/
theorem all_cancelled_by_one_call (hwithin : store.Within) (htakes : ∀ e, store.record? e ≠ none)
    (h : Calls (start settings store directory budget) s) (depth : Nat)
    (hquiet : ((cancelAll (notifyUpTo depth)).on s).2.queue.Quiet)
    (hstatus : ((cancelAll (notifyUpTo depth)).on s).2.queue.Spares .status)
    (hfinished : ((cancelAll (notifyUpTo depth)).on s).2.queue.Spares .finished) :
    ∃ c t, (cancelAll (notifyUpTo depth)).on s = (.ok c, t) ∧
      c.active = s.queue.active.filter s.queue.mayAsk ∧ c.waiting = s.queue.waiting ∧
      c.toValue = .object [("running_job_id", .textOr (c.active.head?.map JobId.text)),
        ("running_job_ids", .list (c.active.map fun id => .text id.text)),
        ("queued_job_ids", .list (c.waiting.map fun id => .text id.text))] ∧
      CancelsAll s t ∧
      (s.lapses.map Entry.jobId = s.queue.waiting.map JobId.text ∧
        ∀ e ∈ s.lapses, e.status = .canceled ∧ e.message = some cancelAllMessage ∧ e.startedAt = none) ∧
      (∀ n history, store = .bounded history → History.Of n history →
        t.queue.history = (s.lapses.reverse ++ s.queue.history).take (max 1 n.toNat)) ∧
      ∀ notify, (cancelAll notify).on t = (.ok ⟨[], []⟩, t) := by
  have hm := h.moments (start_settled settings store directory budget) (start_timed settings store directory budget)
  have ho : InOrder s := (InOrder.start settings store directory budget).moments hm
  have hl : s.queue.Limited := limited_moments (start_limited settings store directory budget) hm
  obtain ⟨es, -, hstore⟩ := hm.continues.handed
  change s.queue.store = es.foldl Store.keep store at hstore
  have hrow : Unfolds none s ((cancelAll (notifyUpTo depth)).on s).2 :=
    cancelAll_told (R := fun _ => Unfolds none) (notifyUpTo_unfolds depth) ho.fit
  have hwary : ((cancelAll (notifyUpTo depth)).on s).2.queue.Wary := ⟨hquiet, hstatus⟩
  obtain ⟨t, ht, hall, hagain⟩ := cancelAll_on ho.fit hl (h.manned (hwary.before hrow.listeners))
    (hstore ▸ keep_all_within hwithin es) (fun e he => htakes e ((Store.keep_all_refuses store es e).mp (hstore ▸ he))) hwary hfinished
  refine ⟨_, t, ht, rfl, rfl, rfl, hall, lapses_told ho, fun n history hb hof => ?_, hagain⟩
  subst hb
  rw [Store.keep_all_bounded] at hstore
  rw [hall.history, Queue.history, hstore, Store.after, History.record_all_limit, hof.limit.1]
  rfl

/-- Of two active jobs one was asked to stop before; the other one is asked, two jobs that wait are dropped, and one that was
    turned away is forgotten, though a listener fails whenever it is told. -/
theorem all_cancelled_in_order :
    let job := fun name : String => Command.enqueue ⟨name, some [.gate "g"], .none, none, .null⟩
    let listener : Listener := ⟨"l", false, some .status, none, 1, [.fail (.raised .value [])]⟩
    let store : Store := .bounded ⟨20, [], by decide⟩
    let s := ((start (.floored 2 2 180000 20) store "/" 9).giveAll none
      [.subscribe listener, job "a", .cancelAll, job "b", job "c", job "d", job "e"]).2
    s.queue.active = [1, 2] ∧ s.queue.fullEvent.isSome = true ∧
      ∃ c t, (cancelAll (notifyUpTo 9)).on s = (.ok c, t) ∧ c = ⟨[2], [3, 4]⟩ ∧ CancelsAll s t ∧
        t.queue.fullEvent = none ∧ t.queue.history.map Entry.jobId = ["job-4", "job-3"] ∧
        (cancelAll (notifyUpTo 9)).on t = (.ok ⟨[], []⟩, t) := by
  intro job listener store s
  have hwithin : store.Within := Nat.zero_le 20
  have htakes : ∀ e, store.record? e ≠ none := fun e he => by cases he
  have hcall : Calls (start (.floored 2 2 180000 20) store "/" 9) s := .between (runs_drives.giveAll _ _ _)
  have hquiet : ((cancelAll (notifyUpTo 9)).on s).2.queue.Quiet := by
    unfold Queue.Quiet
    decide +kernel
  have hspares : ∀ kind, ((cancelAll (notifyUpTo 9)).on s).2.queue.Spares kind := by
    have h : ∀ l ∈ ((cancelAll (notifyUpTo 9)).on s).2.queue.listeners, ∀ step ∈ l.steps, step.mayBreak = false := by decide +kernel
    exact fun _ l hl _ => h l hl
  obtain ⟨c, t, ht, hactive, hwaiting, -, hall, -, -, hagain⟩ :=
    all_cancelled_by_one_call hwithin htakes hcall 9 hquiet (hspares _) (hspares _)
  have hshown : ((cancelAll (notifyUpTo 9)).on s).2.queue.history.map Entry.jobId = ["job-4", "job-3"] := by decide +kernel
  have hwaits : s.queue.waiting = [3, 4] := by decide +kernel
  have hasked : s.queue.active.filter s.queue.mayAsk = [2] := by decide +kernel
  rw [ht] at hshown
  refine ⟨by decide +kernel, by decide +kernel, c, t, ht, ?_, hall, hall.fullEvent (by rw [hwaits]; decide), hshown, hagain _⟩
  obtain ⟨active, waiting⟩ := c
  cases hactive.trans hasked
  cases hwaiting.trans hwaits
  rfl

/-- An active job shows that it was asked to stop, though it was not: a listener broke off to be told of it, and so did the
    call that was to cancel all jobs. A further call does not ask again. -/
theorem cancelling_broken_off :
    ∃ settings store directory budget s t e, Calls (start settings store directory budget) s ∧
      Store.chosen? none settings.historyLimit = some store ∧ (cancelAll (notifyUpTo 9)).on s = (.error e, t) ∧ t.queue.Quiet ∧
      t.queue.active = [1] ∧ t.queue.isCancelled 1 = false ∧ ((cancelAll (notifyUpTo 9)).on t).1.toOption = some ⟨[], []⟩ := by
  let listener : Listener := ⟨"l", false, some .status, none, 1, [.fail .taskCancelled]⟩
  let store : Store := .bounded ⟨20, [], by decide⟩
  let s := ((start .default store "/" 9).giveAll none
    [.subscribe listener, .enqueue ⟨"a", some [.gate "g"], .none, none, .null⟩]).2
  let t := ((cancelAll (notifyUpTo 9)).on s).2
  have hfails : ((cancelAll (notifyUpTo 9)).on s).1.isOk = false := by decide +kernel
  have hquiet : t.queue.Quiet := by
    unfold Queue.Quiet
    decide +kernel
  have hagain : ((cancelAll (notifyUpTo 9)).on t).1.toOption = some ⟨[], []⟩ := by decide +kernel
  rcases hcall : (cancelAll (notifyUpTo 9)).on s with ⟨e | c, u⟩
  · have hu : u = t := (congrArg Prod.snd hcall).symm
    exact ⟨.default, store, "/", 9, s, t, e, .between (runs_drives.giveAll _ _ _), rfl, hu ▸ hcall, hquiet,
      by decide +kernel, by decide +kernel, hagain⟩
  · rw [hcall] at hfails
    cases hfails

end Runs

end Scheduler
end MediaEngine
