import MediaEngine.Proofs.Accounting

/-! # How jobs end

The entry of a job tells the status that the job is left with. It is the one that listeners were told of,
unless the job was asked to stop while they were told; and once the telling is over nothing changes it. -/

namespace MediaEngine.Scheduler
open Job

variable {settings : Settings} {store : Store} {s t : Scheduler} {id : JobId} {j : Job}

/-- The status that a job is left with is terminal and was told as such, exactly if the job was not asked
    to stop or is canceled. -/
theorem Faithful.told_iff {left : Job.Status} (h : s.Faithful id left) :
    (left.isTerminal = true ∧ ∀ told, s.HasTold id told → told = left) ↔ (s.HasAsked id → left = .canceled) := by
  obtain ⟨status, hterm, htold, ⟨rfl, hasked⟩ | ⟨rfl, -, hasked⟩⟩ := h
  · exact iff_of_true ⟨hterm, htold⟩ hasked
  · exact iff_of_false (fun ⟨h, _⟩ => by cases h) fun h => by cases h hasked

theorem Faithful.left {left : Job.Status} (h : s.Faithful id left) : left.isTerminal = true ∨ left = .cancelling := by
  obtain ⟨status, hterm, -, ⟨rfl, -⟩ | ⟨rfl, -⟩⟩ := h
  · exact .inl hterm
  · exact .inr rfl

/-- A job that has ended keeps its status. -/
theorem Settled.frozen (hs : Settled s) (hj : j ∈ s.queue.jobs) (hfin : j.finalized = true) (hr : Reaches s t) :
    ∃ k ∈ t.queue.jobs, k.id = j.id ∧ k.finalized = true ∧ k.status = j.status ∧ t.entriesOf j.id = s.entriesOf j.id := by
  have hj' := Queue.job?_of_mem hs.fit.nodup hj
  cases hs.placed j.id with
  | upcoming hu _ =>
    rw [(hs.fit.waiting_of_upcoming hu hj').2] at hfin
    cases hfin
  | skipped _ hno _ _ => cases hno.symm.trans hj'
  | active k _ hk hopen _ _ _ _ | stray k _ _ hk hopen _ _ =>
    cases hj'.symm.trans hk
    rw [hopen] at hfin
    cases hfin
  | gone k hp ha _ _ _ _ =>
    have hframe := (hr.passes hs).rest j.id hp ha
    obtain ⟨k, hk, hlasts, hheads⟩ := hframe.job j hj'
    refine ⟨k, Queue.job?_mem hk, Queue.job?_id hk, hlasts.finalized.trans hfin, ?_, hframe.entries⟩
    cases hheads with
    | still hst _ => exact hst
    | asked hm _ _ _ _ _ => exact absurd hm ha

/-- In every state of a run, an entry of the history was handed to the store with the status that its job
    is left with, and the level of that status; the status is terminal and was told as such exactly if the
    job was not asked to stop or is canceled; and it stays. -/
theorem entries_tell_ends (h : Reachable settings store s) :
    (∀ e ∈ s.queue.history, e ∈ store.entries ∨ e ∈ s.queue.recorded) ∧
      (∀ e ∈ s.queue.recorded, ∃ j ∈ s.queue.jobs, e.jobId = j.id.text ∧ j.finalized = true ∧ e.status = j.status ∧
        e.level = e.status.level ∧ (e.status.isTerminal = true ∨ e.status = .cancelling) ∧
        ((e.status.isTerminal = true ∧ ∀ told, s.HasTold j.id told → told = e.status) ↔
          (s.HasAsked j.id → e.status = .canceled))) ∧
      ∀ j ∈ s.queue.jobs, j.finalized = true → ∀ t, Reaches s t →
        ∃ k ∈ t.queue.jobs, k.id = j.id ∧ k.finalized = true ∧ k.status = j.status ∧
          t.entriesOf j.id = s.entriesOf j.id := by
  have hs := h.settled
  refine ⟨?_, fun e he => ?_, fun j hj hfin t hr => hs.frozen hj hfin hr⟩
  · obtain ⟨directory, budget, hr⟩ := h
    exact (hr.passes (start_settled settings store directory budget)).continues.history
  · obtain ⟨j, hj, htext, hfin, hst, hlevel, hfaith⟩ := hs.entry he
    rw [← hst] at hlevel hfaith
    exact ⟨j, hj, htext, hfin, hst, hlevel, hfaith.left, hfaith.told_iff⟩

/-- A job that nobody asked to stop is told of as it is recorded. -/
theorem completed_job_told :
    let s := ((start .default (.selective [] []) "/" 9).giveAll none
      [.enqueue ⟨"a", some [], .none, none, .null⟩, .settle]).2
    s.queue.recorded.map Entry.status = [.completed] ∧
      ∀ e ∈ s.queue.recorded, ∃ j ∈ s.queue.jobs, e.jobId = j.id.text ∧ j.finalized = true ∧ e.status = j.status ∧
        e.level = e.status.level ∧ (e.status.isTerminal = true ∨ e.status = .cancelling) ∧
        ((e.status.isTerminal = true ∧ ∀ told, s.HasTold j.id told → told = e.status) ↔
          (s.HasAsked j.id → e.status = .canceled)) := by
  intro s
  have h : Reachable .default (.selective [] []) s := ⟨"/", 9, giveAll_reaches _ _ _⟩
  exact ⟨by decide +kernel, (entries_tell_ends h).2.1⟩

/-- A listener that cancels all jobs when it is told of the end of one has that job recorded as being
    cancelled, although it was told that the job was completed. -/
theorem cancelled_while_told :
    ∃ settings store s, Reachable settings store s ∧
      ∃ e ∈ s.queue.recorded, e.status.isTerminal = false ∧ e.level ≠ .info ∧ s.HasTold 1 .completed := by
  let listener : Listener := ⟨"l", false, some .finished, none, 1, [.cancelAll]⟩
  let s := ((start .default (.selective [] []) "/" 9).giveAll none
    [.subscribe listener, .enqueue ⟨"a", some [], .none, none, .null⟩, .settle]).2
  have hentry : (s.queue.recorded.any fun e => !e.status.isTerminal && decide (e.level ≠ .info)) = true := by
    decide +kernel
  have hnote : (s.notes.any fun n => match n with
      | .heard _ event => event.kind == .finished && event.snapshot.id == 1 && event.snapshot.status == .completed
      | _ => false) = true := by decide +kernel
  obtain ⟨e, he, hst⟩ := List.any_eq_true.mp hentry
  obtain ⟨n, hn, htold⟩ := List.any_eq_true.mp hnote
  simp only [Bool.and_eq_true, Bool.not_eq_true', decide_eq_true_eq] at hst
  refine ⟨.default, .selective [] [], s, ⟨"/", 9, giveAll_reaches _ _ _⟩, e, he, hst.1, hst.2, ?_⟩
  cases n with
  | heard who event =>
    simp only [Bool.and_eq_true, beq_iff_eq] at htold
    exact ⟨who, event, hn, htold.1.1, htold.1.2, htold.2⟩
  | _ => cases htold

end MediaEngine.Scheduler
