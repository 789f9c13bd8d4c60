import MediaEngine.Proofs.Acts
import MediaEngine.Scheduler.Notify

/-! # What is copied of a job

Listeners are shown a copy of the metadata of a job, and the history keeps one. Here is what becomes of telling
an event and of keeping an entry by whether there is a copy; where all metadata can be copied, only the one
branch is left. -/

namespace MediaEngine
open Job

theorem Job.isCopied_total (j : Job) : j.isCopied .total = true := by
  cases h : j.metadata <;> simp [Job.isCopied, Copying.total, h]

theorem Queue.shown_unbroken (q : Queue) {copies : Copying} (supplied : Option Store) :
    Broken (q.shown copies supplied) = false := by
  unfold Queue.shown
  split
  · cases q.view supplied <;> rfl
  · rfl

namespace Scheduler
variable {copies : Copying} {hearing : Hearing} {s : Scheduler} {id : JobId} {j : Job}

/-! ## Keeping an entry -/

theorem record_none (hj : s.queue.job? id = none) (path : Option String) : (record id path).on s = (.ok (), s) := by
  rw [record, Act.on_queueNow_bind, hj]
  rfl

theorem file_none (hj : s.queue.job? id = none) (copies : Copying) (path : Option String) :
    (file copies id path).on s = (.ok (), s) := by
  rw [file, Act.on_queueNow_bind, hj]
  rfl

theorem file_copied (hj : s.queue.job? id = some j) (hc : j.isCopied copies = true) (path : Option String) :
    (file copies id path).on s = (record id path).on s := by
  rw [file, Act.on_queueNow_bind, hj]
  simp only [hc, if_true]

/-- Without a copy the history keeps no entry. -/
theorem file_uncopied (hj : s.queue.job? id = some j) (hc : j.isCopied copies = false) (path : Option String) :
    (file copies id path).on s = (.error .uncopyable, s.mapQueue (·.breakOff ⟨.finished, j.snapshot⟩)) := by
  rw [file, Act.on_queueNow_bind, hj]
  simp only [hc]
  rfl

theorem file_total (id : JobId) (path : Option String) : file .total id path = record id path := by
  funext s
  change (file .total id path).on s = (record id path).on s
  cases hj : s.queue.job? id with
  | none => rw [file_none hj, record_none hj]
  | some j => exact file_copied hj j.isCopied_total path

/-! ## Telling an event -/

theorem announce_none (hj : s.queue.job? id = none) (copies : Copying) (hearing : Hearing) (kind : EventKind) :
    (announce copies hearing kind id).on s = (.ok (), s) := by
  rw [announce, Act.on_queueNow_bind, hj]
  rfl

theorem announce_copied (hj : s.queue.job? id = some j) (hc : j.isCopied copies = true) (hearing : Hearing) (kind : EventKind) :
    (announce copies hearing kind id).on s = (hearAll hearing ⟨kind, j.snapshot⟩ s.queue.subscribed).on s := by
  rw [announce, Act.on_queueNow_bind, hj]
  simp only [hc, Bool.or_true, if_true]

/-- Where nobody is subscribed there is nothing to copy. -/
theorem announce_unheard (hnone : s.queue.subscribed = []) (copies : Copying) (hearing : Hearing) (kind : EventKind) :
    (announce copies hearing kind id).on s = (.ok (), s) := by
  rw [announce, Act.on_queueNow_bind]
  cases s.queue.job? id with
  | none => rfl
  | some j => rw [hnone]; rfl

/-- Without a copy nobody is told, and telling the event fails. -/
theorem announce_uncopied (hj : s.queue.job? id = some j) (hc : j.isCopied copies = false) (hsome : s.queue.subscribed ≠ [])
    (hearing : Hearing) (kind : EventKind) :
    (announce copies hearing kind id).on s = (.error .uncopyable, s.mapQueue (·.breakOff ⟨kind, j.snapshot⟩)) := by
  have hheard : s.queue.subscribed.isEmpty = false := by simpa using hsome
  rw [announce, Act.on_queueNow_bind, hj]
  simp only [hc, hheard]
  rfl

/-- Where all metadata can be copied, all who are subscribed are told of the job as it is. -/
theorem announce_total (hj : s.queue.job? id = some j) (hearing : Hearing) (kind : EventKind) :
    (announce .total hearing kind id).on s = (hearAll hearing ⟨kind, j.snapshot⟩ s.queue.subscribed).on s :=
  announce_copied hj j.isCopied_total hearing kind

end Scheduler

end MediaEngine
