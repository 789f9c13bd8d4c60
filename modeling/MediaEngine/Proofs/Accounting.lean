import MediaEngine.Proofs.Admission

/-! # Accounting

Between two steps of a run every admitted job is in one place, and what was handed to the store is one entry
of each job that has ended; of a job whose end a listener broke off there is none (`reachable_accounted`). -/

namespace MediaEngine

/-- A job waits once, is active once, or has ended and does neither. -/
inductive Queue.Stands (q : Queue) (j : Job) : Prop
  | waiting : q.waiting.count j.id = 1 → q.active.count j.id = 0 → j.finalized = false → q.Stands j
  | active : q.waiting.count j.id = 0 → q.active.count j.id = 1 → j.finalized = false → q.Stands j
  | gone : q.waiting.count j.id = 0 → q.active.count j.id = 0 → j.finalized = true → q.Stands j

namespace Scheduler
open Job Queue

/-- Every admitted job is in one place, and there is an entry of those that have ended, unless it was broken
    off to tell so; there is one, and of others there is none. -/
structure Accounted (s : Scheduler) : Prop where
  numbers : s.queue.ids.Nodup
  admitted : ∀ id, id ∈ s.queue.waiting ∨ id ∈ s.queue.active → id ∈ s.queue.ids
  place : ∀ j ∈ s.queue.jobs, s.queue.Stands j
  filed : ∀ e ∈ s.queue.recorded, ∃ j ∈ s.queue.jobs, e.jobId = j.id.text
  entries : ∀ j ∈ s.queue.jobs,
    (s.entriesOf j.id).length = if j.finalized = true ∧ j.id ∉ s.queue.brokenOff then 1 else 0

/-- Exactly the jobs that have ended have an entry. -/
def Filed (s : Scheduler) : Prop := ∀ j ∈ s.queue.jobs, (s.entriesOf j.id).length = 1 ↔ j.finalized = true

variable {settings : Settings} {store : Store} {s t : Scheduler} {id : JobId} {j : Job}

theorem mem_entriesOf {e : Entry} : e ∈ s.entriesOf id ↔ e ∈ s.queue.recorded ∧ e.jobId = id.text := by
  simp [entriesOf]

/-- A job that is upcoming and known waits, and has not ended. -/
theorem Fit.waiting_of_upcoming (hf : s.Fit) (hu : s.Upcoming id) (hj : s.queue.job? id = some j) :
    id ∈ s.queue.waiting ∧ j.finalized = false := by
  have hw : id ∈ s.queue.waiting := by
    rcases hu with hw | hn
    · exact hw
    · exact absurd (hf.fresh id (Queue.job?_mem_ids hj)) (Nat.not_lt.mpr hn)
  obtain ⟨k, hk, hopen⟩ := hf.waits id hw
  cases hj.symm.trans hk
  exact ⟨hw, hopen⟩

/-- A job stands where its number is placed. -/
theorem Placed.stands (h : s.Placed id) (hf : s.Fit) (ht : s.queue.settings.Timely) (hj : s.queue.job? id = some j) :
    s.queue.Stands j := by
  have hid : j.id = id := Queue.job?_id hj
  subst hid
  cases h with
  | upcoming hu hb =>
    obtain ⟨hw, hopen⟩ := hf.waiting_of_upcoming hu hj
    exact .waiting (List.count_eq_one_of_mem hf.once_waiting hw) (List.count_eq_zero.mpr fun ha => hf.apart _ ha hu) hopen
  | skipped _ hno _ _ => cases hno.symm.trans hj
  | active k ha hk hopen _ _ _ _ =>
    cases hj.symm.trans hk
    exact .active (List.count_eq_zero.mpr fun hw => hf.apart _ ha (.inl hw)) (List.count_eq_one_of_mem hf.once_active ha)
      hopen
  | stray _ _ _ _ _ _ hn => exact absurd ht hn
  | gone k hp ha hk hfin _ _ =>
    cases hj.symm.trans hk
    exact .gone (List.count_eq_zero.mpr fun hw => hp (.inl hw)) (List.count_eq_zero.mpr ha) hfin

/-- A job that has not ended has no entry, and one that has is closed. -/
theorem Placed.entries (h : s.Placed id) (hf : s.Fit) (hj : s.queue.job? id = some j) :
    (j.finalized = false ∧ s.entriesOf id = []) ∨ (j.finalized = true ∧ s.Closed id j) := by
  cases h with
  | upcoming hu hb => exact .inl ⟨(hf.waiting_of_upcoming hu hj).2, hb.entries⟩
  | skipped _ hno _ _ => cases hno.symm.trans hj
  | active k _ hk hopen hr _ _ _ =>
    cases hj.symm.trans hk
    exact .inl ⟨hopen, hr⟩
  | stray k _ _ hk hopen hb _ =>
    cases hj.symm.trans hk
    exact .inl ⟨hopen, hb.entries⟩
  | gone k _ _ hk hfin _ hc =>
    cases hj.symm.trans hk
    exact .inr ⟨hfin, hc⟩

theorem Settled.entries (hs : Settled s) (hj : j ∈ s.queue.jobs) :
    (j.finalized = false ∧ s.entriesOf j.id = []) ∨ (j.finalized = true ∧ s.Closed j.id j) :=
  (hs.placed j.id).entries hs.fit (Queue.job?_of_mem hs.fit.nodup hj)

/-- An entry is of a job that has ended, and is its only one. -/
theorem Settled.entry (hs : Settled s) {e : Entry} (he : e ∈ s.queue.recorded) :
    ∃ j ∈ s.queue.jobs, e.jobId = j.id.text ∧ j.finalized = true ∧ e.status = j.status ∧ e.level = j.status.level ∧
      s.Faithful j.id j.status := by
  obtain ⟨id, hid, htext⟩ := hs.fit.filed e he
  obtain ⟨j, hj⟩ := Queue.job?_isSome hid
  have hmem : e ∈ s.entriesOf id := mem_entriesOf.mpr ⟨he, htext⟩
  have hjid : j.id = id := Queue.job?_id hj
  subst hjid
  rcases hs.entries (Queue.job?_mem hj) with ⟨-, hnone⟩ | ⟨hfin, hc⟩
  · rw [hnone] at hmem
    cases hmem
  · cases hc with
    | lost _ hnone =>
      rw [hnone] at hmem
      cases hmem
    | filed e' _ hone hst hlevel hfaith =>
      rw [hone] at hmem
      cases List.mem_singleton.mp hmem
      exact ⟨j, Queue.job?_mem hj, htext, hfin, hst, hlevel, hfaith⟩

theorem Settled.entries_length (hs : Settled s) (hj : j ∈ s.queue.jobs) :
    (s.entriesOf j.id).length = if j.finalized = true ∧ j.id ∉ s.queue.brokenOff then 1 else 0 := by
  rcases hs.entries hj with ⟨hopen, hnone⟩ | ⟨hfin, hc⟩
  · simp [hopen, hnone]
  · cases hc with
    | lost hb hnone => simp [hb, hnone]
    | filed e hb hone _ _ _ => simp [hfin, hb, hone]

/-- A job whose end was broken off has ended, and has no entry. -/
theorem Settled.lost (hs : Settled s) (hb : id ∈ s.queue.brokenOff) :
    ∃ j ∈ s.queue.jobs, j.finalized = true ∧ s.entriesOf j.id = [] := by
  cases hs.placed id with
  | upcoming _ hblank | skipped _ _ _ hblank | stray _ _ _ _ _ hblank _ => exact absurd hb hblank.untold.brokenOff
  | active _ _ _ _ _ hn _ _ => exact absurd hb hn.brokenOff
  | gone j _ _ hj hfin _ hc =>
    cases hc with
    | lost _ hnone => exact ⟨j, Queue.job?_mem hj, hfin, Queue.job?_id hj ▸ hnone⟩
    | filed _ hno _ _ _ _ => exact absurd hb hno

theorem Settled.accounted (hs : Settled s) (ht : s.queue.settings.Timely) : s.Accounted where
  numbers := hs.fit.nodup
  admitted id h := by
    rcases h with hw | ha
    · obtain ⟨j, hj, -⟩ := hs.fit.waits id hw
      exact Queue.job?_mem_ids hj
    · cases hs.placed id with
      | upcoming hu _ => exact absurd hu (hs.fit.apart id ha)
      | active j _ hj _ _ _ _ _ => exact Queue.job?_mem_ids hj
      | skipped _ _ hn _ | stray _ _ hn _ _ _ _ | gone _ _ hn _ _ _ _ => exact absurd ha hn
  place j hj := (hs.placed j.id).stands hs.fit ht (Queue.job?_of_mem hs.fit.nodup hj)
  filed e he := by
    obtain ⟨j, hj, htext, -⟩ := hs.entry he
    exact ⟨j, hj, htext⟩
  entries _ hj := hs.entries_length hj

/-- Only a listener that breaks it off to tell the end of a job keeps its entry from the store. -/
theorem Settled.filed_iff (hs : Settled s) : s.Filed ↔ s.queue.brokenOff = [] := by
  constructor
  · intro hfiled
    refine List.eq_nil_iff_forall_not_mem.mpr fun id hb => ?_
    obtain ⟨j, hj, hfin, hnone⟩ := hs.lost hb
    have hone := (hfiled j hj).mpr hfin
    rw [hnone] at hone
    cases hone
  · intro hb j hj
    simp [hs.entries_length hj, hb]

/-- In every state of a run whose timeout can be computed, each job is in one place and accounted for; those
    that have ended are the ones with an entry exactly if no listener stopped like a cancelled task when it was
    told of an end. A job that is turned away is in no place and has no entry, and no other job is ever lost. -/
theorem reachable_accounted (h : Reachable settings store s) {seconds : Binary64}
    (hc : settings.timeoutSeconds = .ok seconds) :
    s.Accounted ∧ (s.Filed ↔ s.queue.brokenOff = []) ∧
      (∀ depth running submission e t, (enqueue (notifyUpTo depth) running submission).on s = (.error e, t) →
        e ≠ .taskCancelled → t.queue.jobs = s.queue.jobs ∧ t.queue.recorded = s.queue.recorded) ∧
      ∀ t, Reaches s t → Queue.Knows s.queue t.queue := by
  have hs := h.settled
  have hcovers : Binary64.Covers s.queue.settings.queueTimeout := by
    rw [h.settings]
    exact (Settings.timeoutSeconds_ok settings).mp ⟨seconds, hc⟩
  refine ⟨hs.accounted (Settings.timely_of_covers hcovers), hs.filed_iff, fun depth running submission e t hr he => ?_,
    fun t hr => (hr.passes hs).continues.knows⟩
  have ht := (enqueue_untouched (notifyUpTo_notifies depth) hs.fit (fun _ => hcovers) hr he).queue
  rw [ht]
  exact ⟨rfl, rfl⟩

/-- Where nobody stops like a cancelled task, a job that has ended has its entry. -/
theorem ended_job_filed :
    let s := ((start .default (.selective [] []) "/" 9).giveAll none
      [.enqueue ⟨"a", some [], .none, none, .null⟩, .settle]).2
    s.queue.jobs.map Job.finalized = [true] ∧ s.Accounted ∧ s.Filed := by
  intro s
  have h : Reachable .default (.selective [] []) s := ⟨"/", 9, giveAll_reaches _ _ _⟩
  obtain ⟨seconds, hc⟩ : ∃ seconds, Settings.default.timeoutSeconds = .ok seconds := by
    refine (Settings.timeoutSeconds_ok _).mpr ?_
    unfold Binary64.Covers
    decide +kernel
  obtain ⟨haccounted, hfiled, -⟩ := reachable_accounted h hc
  exact ⟨by decide +kernel, haccounted, hfiled.mpr (by decide +kernel)⟩

/-- A listener that stops like a cancelled task when it is told of the end of a job keeps its entry from the
    store. -/
theorem broken_off_not_filed :
    ∃ settings store s, Reachable settings store s ∧ (∃ seconds, settings.timeoutSeconds = .ok seconds) ∧
      ∃ j ∈ s.queue.jobs, j.finalized = true ∧ s.entriesOf j.id = [] := by
  let listener : Listener := ⟨"l", false, some .finished, none, 1, [.fail .taskCancelled]⟩
  let s := ((start .default (.selective [] []) "/" 9).giveAll none
    [.subscribe listener, .enqueue ⟨"a", some [], .none, none, .null⟩, .settle]).2
  have h : Reachable .default (.selective [] []) s := ⟨"/", 9, giveAll_reaches _ _ _⟩
  have hbroken : s.queue.brokenOff = [1] := by decide +kernel
  refine ⟨.default, .selective [] [], s, h, (Settings.timeoutSeconds_ok _).mpr ?_, ?_⟩
  · unfold Binary64.Covers
    decide +kernel
  · exact h.settled.lost (hbroken ▸ List.mem_singleton_self 1)

end Scheduler
end MediaEngine
