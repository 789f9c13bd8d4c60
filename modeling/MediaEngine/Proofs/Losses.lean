import MediaEngine.Proofs.Doing
import MediaEngine.Proofs.Order

/-! # Ends that are not in the log

A job that leaves those that wait has ended, listeners are told, and its entry is handed to the store and logged.
If a listener breaks off to be told, or the store refuses the entry, the end never gets into the log
(`Mislaid`), and whatever should have followed it is left out. -/

namespace MediaEngine
open Job

namespace Job.Store

/-- What a store refuses does not depend on what it has taken. -/
theorem keep_refuses (store : Store) (e e' : Entry) : (store.keep e).record? e' = none ↔ store.record? e' = none := by
  cases store with
  | bounded h => simp [keep, record?]
  | selective refused es => by_cases he : e.name ∈ refused <;> simp [keep, record?, he]

theorem keep_all_refuses (store : Store) (es : List Entry) (e' : Entry) :
    (es.foldl keep store).record? e' = none ↔ store.record? e' = none := by
  induction es generalizing store with
  | nil => rfl
  | cons e rest ih => exact (ih (store.keep e)).trans (keep_refuses store e e')

end Job.Store

namespace Scheduler
variable {s t u : Scheduler} {id : JobId} {j : Job}

/-- A job left those that wait, and its end is not in the log: a listener broke off to be told of it, or the store refused
    its entry. -/
def Mislaid (s : Scheduler) (id : JobId) : Prop :=
  s.Dropped id ∧ (id ∈ s.queue.brokenOff ∨ ∃ e ∈ s.entriesOf id, s.queue.store.record? e = none)

theorem Moment.brokenOff (h : Moment s t) (hb : id ∈ s.queue.brokenOff) : id ∈ t.queue.brokenOff := by
  cases h with
  | release => exact hb
  | occurs h =>
    cases h with
    | inert h => exact h.brokenOff ▸ hb
    | signal _ h => exact h.brokenOff ▸ hb
    | keep i path => exact (keep_stays s i path).brokenOff ▸ hb
    | breakOff => exact Queue.mem_breakOff.mpr (.inl hb)
    | take hq =>
      obtain ⟨rest, e, -, he⟩ := taking_eq hq
      rw [he]
      exact hb
    | _ => exact hb

theorem InOrder.mislaid_moment (h : InOrder s) (hm : Moment s t) (hl : s.Mislaid id) : t.Mislaid id := by
  refine ⟨h.dropped hm hl.1, hl.2.imp hm.brokenOff fun ⟨e, he, hrefused⟩ => ?_⟩
  obtain ⟨es, hes, hstore⟩ := (Moments.continues (.single hm)).handed
  refine ⟨e, ?_, ?_⟩
  · rw [entriesOf, hes, List.filter_append]
    exact List.mem_append_left _ he
  · rw [hstore]
    exact (Store.keep_all_refuses _ es e).mpr hrefused

theorem InOrder.mislaid (h : InOrder s) (hm : Moments s t) (hl : s.Mislaid id) : t.Mislaid id := by
  induction hm with
  | refl => exact hl
  | tail hrow hm ih => exact (h.moments hrow).mislaid_moment hm ih

/-! ## Where an end is mislaid -/

/-- The store refuses the entry of a job that left those that wait. -/
theorem closing_refused {k : Job} (hk : t.queue.job? id = some k) (hstore : t.queue.store.record? (k.entry none) = none) :
    (t.closing id).queue = t.queue.hand (k.entry none) none := by
  unfold closing
  rcases record_cases (s := t) id none with ⟨hno, -⟩ | ⟨i, hi, ⟨taken, htaken, -⟩ | ⟨-, hr⟩⟩
  · cases hk.symm.trans hno
  · cases hk.symm.trans hi
    cases hstore.symm.trans htaken
  · cases hk.symm.trans hi
    rw [hr]
    rfl

/-- A job that left those that wait is dropped. -/
theorem InOrder.dropped_leaving (ho : InOrder s) (hid : id ∈ s.queue.waiting) (hj : s.queue.job? id = some j)
    (message : Option String) (l : Loop TimerAction) : (s.leaving id message l).Dropped id := by
  have hnever : j.startedAt = none := ho.waits_unstarted hid hj
  exact ⟨j.ended l.now .canceled none message, Queue.job?_update_self (q := s.queue.withdraw id) (by intro; rfl) hj, rfl, rfl, hnever⟩

/-- The end of a job that leaves those that wait is mislaid where a listener broke off to be told of it, or the store refused
    its entry. -/
theorem InOrder.lost {message : Option String} {l : Loop TimerAction} (ho : InOrder s) (hid : id ∈ s.queue.waiting)
    (hj : s.queue.job? id = some j) (h : Unfolds none (s.leaving id message l) u)
    (hlost : id ∈ u.queue.brokenOff ∨ ∃ (t : Scheduler) (k : Job), t.queue.job? id = some k ∧ t.queue.store.record? (k.entry none) = none ∧
      u.queue = t.queue.hand (k.entry none) none) : u.Mislaid id := by
  have horder : InOrder (s.leaving id message l) := ho.leave hid hj l.now message l
  refine ⟨horder.dropped_later h.moments (ho.dropped_leaving hid hj message l), hlost.imp_right ?_⟩
  rintro ⟨t, k, hk, hrefused, hu⟩
  refine ⟨k.entry none, mem_entriesOf.mpr ⟨?_, congrArg JobId.text (Queue.job?_id hk)⟩, ?_⟩ <;> rw [hu]
  · exact List.mem_append_right _ (List.mem_singleton_self _)
  · exact hrefused

section Cancelling
variable {notify : Notify}

/-- If ending a job that waits fails, its end is mislaid. -/
theorem drop_mislays (hn : Notifies (fun _ _ => Unfolds none) notify) (ho : InOrder s) (hid : id ∈ s.queue.waiting)
    {l : Loop TimerAction} {message : String} {e : Fault}
    (h : (drop notify id message).on { s with queue := s.queue.withdraw id, loop := l } = (.error e, u)) : u.Mislaid id := by
  obtain ⟨j, hj, hopen⟩ := ho.fit.waits id hid
  obtain ⟨r, t, v, hr, he, hv, hrec⟩ := finish_told (hn.tells none) (ho.fit.withdraw id l) (ho.fit.not_mem_withdraw id) hj hopen
    .canceled none none (some message)
  have hended : (s.leaving id (some message) l).queue.job? id = some (j.ended l.now .canceled none (some message)) :=
    Queue.job?_update_self (q := s.queue.withdraw id) (by intro; rfl) hj
  obtain ⟨htold, hbroken⟩ := he
  have hrow : Unfolds none (s.leaving id (some message) l) t := htold _ hended
  have hcancel : (cancel notify id (some message)).on { s with queue := s.queue.withdraw id, loop := l } = (r, v) := hr
  have hfail : r = .error e ∧ v = u := by
    rw [drop, Act.on_bind, hcancel] at h
    cases r with
    | error => cases h; exact ⟨rfl, rfl⟩
    | ok => cases h
  obtain ⟨rfl, rfl⟩ := hfail
  refine ho.lost hid hj (hrow.trans hv.unfolds) ?_
  -- The end is lost with the listener that broke off, or with the store that refused the entry.
  cases hb : Broken (Except.error e : Except Fault Unit) with
  | true =>
    rw [hb] at hbroken hv
    cases hv
    exact .inl (hbroken rfl)
  | false =>
    have hfailed := hrec hb
    rw [hb] at hv
    cases hv
    rcases record_cases (s := t) id none with ⟨-, hx⟩ | ⟨k, hk, ⟨_, -, hx⟩ | ⟨hrefused, hx⟩⟩
    · rw [hx] at hfailed
      cases hfailed
    · rw [hx] at hfailed
      cases hfailed
    · refine .inr ⟨t, k, hk, hrefused, ?_⟩
      rw [recording, hx]
      rfl

/-- If cancelling the jobs that wait fails, the end of one is mislaid. -/
theorem cancelUpTo_mislays (hn : Notifies (fun _ _ => Unfolds none) notify) (ho : InOrder s) (n : Nat) {e : Fault}
    (h : (cancelUpTo notify n).on s = (.error e, u)) : ∃ id, u.Mislaid id := by
  induction n generalizing s with
  | zero => cases h
  | succ n ih =>
    cases hw : s.queue.waiting with
    | nil =>
      rw [cancelUpTo_none hw] at h
      cases h
    | cons id rest =>
      have hid : id ∈ s.queue.waiting := hw ▸ List.mem_cons_self
      rw [cancelUpTo_cons hw] at h
      obtain ⟨r, t, hr, hrow⟩ := drop_told (R := fun _ => Unfolds none) (hn.tells none) ho.fit hid (.inr rfl) cancelAllMessage
      cases r with
      | error f =>
        rw [Act.on_bind_error hr] at h
        cases h
        exact ⟨id, drop_mislays hn ho hid hr⟩
      | ok =>
        rw [Act.on_bind_ok hr, Act.on_map] at h
        rcases hx : (cancelUpTo notify n).on t with ⟨f | ids, v⟩ <;> rw [hx] at h <;> cases h
        exact ih (ho.moments hrow.moments) hx

end Cancelling

end Scheduler
end MediaEngine
