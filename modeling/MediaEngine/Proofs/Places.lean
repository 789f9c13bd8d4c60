import MediaEngine.Proofs.Evolution.Fit

/-! # Places of jobs

A job is upcoming (it waits, or is still to be admitted), active, or gone. `Placed` says what else the
scheduler has to show for it in each of these places: its task, its entry, what listeners were told of
its end, and whether it was asked to stop. Between two steps every number is placed. -/

namespace MediaEngine

/-- The timeout can be told in whole seconds. -/
def Settings.Timely (s : Settings) : Prop := ∃ seconds, s.timeoutWhole = .ok seconds

end MediaEngine

namespace MediaEngine.Scheduler
open Job

/-- The entries of a job that were handed to the store, in order. -/
def entriesOf (s : Scheduler) (id : JobId) : List Entry := s.queue.recorded.filter (·.jobId == id.text)

/-- The job was asked to stop. -/
def HasAsked (s : Scheduler) (id : JobId) : Prop := .logged (.asked id) ∈ s.notes

/-- A listener was told that the job ended with this status. -/
def HasTold (s : Scheduler) (id : JobId) (status : Job.Status) : Prop :=
  ∃ who event, .heard who event ∈ s.notes ∧ event.kind = .finished ∧ event.snapshot.id = id ∧
    event.snapshot.status = status

/-- Nobody was told of the end of the job. -/
structure Untold (s : Scheduler) (id : JobId) : Prop where
  told : ∀ status, ¬ s.HasTold id status
  brokenOff : id ∉ s.queue.brokenOff

/-- Nothing has happened to the job. -/
structure Blank (s : Scheduler) (id : JobId) : Prop where
  entries : s.entriesOf id = []
  idle : ∀ i, ¬ s.Lives i id
  unasked : ¬ s.HasAsked id
  untold : s.Untold id

/-- The status that a job is left with is the one that listeners were told of, unless it was asked to
    stop meanwhile, which a canceled job is not. -/
def Faithful (s : Scheduler) (id : JobId) (left : Job.Status) : Prop :=
  ∃ status : Job.Status, status.isTerminal = true ∧ (∀ told, s.HasTold id told → told = status) ∧
    ((left = status ∧ (s.HasAsked id → status = .canceled)) ∨
      (left = .cancelling ∧ status ≠ .canceled ∧ s.HasAsked id))

/-- The job has its one entry if all were told of its end, and none if a listener broke that off. -/
inductive Closed (s : Scheduler) (id : JobId) (j : Job) : Prop
  | lost : id ∈ s.queue.brokenOff → s.entriesOf id = [] → Closed s id j
  | filed (e : Entry) : id ∉ s.queue.brokenOff → s.entriesOf id = [e] → e.status = j.status →
      e.level = j.status.level → s.Faithful id j.status → Closed s id j

/-- What the scheduler has to show for a number. -/
inductive Placed (s : Scheduler) (id : JobId) : Prop
  | upcoming : s.Upcoming id → s.Blank id → Placed s id
  /-- A number that was drawn for nothing. -/
  | skipped : ¬ s.Upcoming id → s.queue.job? id = none → id ∉ s.queue.active → s.Blank id → Placed s id
  | active (j : Job) : id ∈ s.queue.active → s.queue.job? id = some j → j.finalized = false →
      s.entriesOf id = [] → s.Untold id → (s.HasAsked id → j.token.cancelled = true) →
      (∀ i k, s.Lives i id → s.Lives k id → i = k) → Placed s id
  /-- A job that waited too long where the timeout cannot be told in whole seconds. -/
  | stray (j : Job) : ¬ s.Upcoming id → id ∉ s.queue.active → s.queue.job? id = some j → j.finalized = false →
      s.Blank id → ¬ s.queue.settings.Timely → Placed s id
  | gone (j : Job) : ¬ s.Upcoming id → id ∉ s.queue.active → s.queue.job? id = some j → j.finalized = true →
      (∀ i, ¬ s.Lives i id) → s.Closed id j → Placed s id

/-- Nothing about a number differs. -/
structure Same (s t : Scheduler) (id : JobId) : Prop where
  upcoming : t.Upcoming id ↔ s.Upcoming id
  active : id ∈ t.queue.active ↔ id ∈ s.queue.active
  entries : t.entriesOf id = s.entriesOf id
  lives : ∀ i, t.Lives i id → s.Lives i id
  asked : t.HasAsked id ↔ s.HasAsked id
  told : ∀ status, t.HasTold id status → s.HasTold id status
  job : Option.Rel Tuned (s.queue.job? id) (t.queue.job? id)
  brokenOff : id ∈ t.queue.brokenOff ↔ id ∈ s.queue.brokenOff
  settings : t.queue.settings = s.queue.settings

namespace Same
variable {s t u : Scheduler} {id : JobId} {j : Job}

theorem rel_refl (o : Option Job) : Option.Rel Tuned o o := by
  cases o with
  | none => exact .none
  | some j => exact .some (.refl j)

theorem refl (s : Scheduler) (id : JobId) : Same s s id where
  upcoming := .rfl
  active := .rfl
  entries := rfl
  lives _ h := h
  asked := .rfl
  told _ h := h
  job := rel_refl _
  brokenOff := .rfl
  settings := rfl

theorem job_some (h : Same s t id) (hj : s.queue.job? id = some j) : ∃ k, t.queue.job? id = some k ∧ Tuned j k := by
  have hr := h.job
  rw [hj] at hr
  cases hk : t.queue.job? id with
  | none => rw [hk] at hr; cases hr
  | some k => rw [hk] at hr; cases hr with | some ht => exact ⟨k, rfl, ht⟩

theorem job_none (h : Same s t id) (hj : s.queue.job? id = none) : t.queue.job? id = none := by
  have hr := h.job
  rw [hj] at hr
  cases hk : t.queue.job? id with
  | none => rfl
  | some k => rw [hk] at hr; cases hr

theorem trans (h₁ : Same s t id) (h₂ : Same t u id) : Same s u id where
  upcoming := h₂.upcoming.trans h₁.upcoming
  active := h₂.active.trans h₁.active
  entries := h₂.entries.trans h₁.entries
  lives i hi := h₁.lives i (h₂.lives i hi)
  asked := h₂.asked.trans h₁.asked
  told status ht := h₁.told status (h₂.told status ht)
  job := by
    cases hj : s.queue.job? id with
    | none =>
      rw [h₂.job_none (h₁.job_none hj)]
      exact .none
    | some j =>
      obtain ⟨k, hk, hjk⟩ := h₁.job_some hj
      obtain ⟨l, hl, hkl⟩ := h₂.job_some hk
      rw [hl]
      exact .some (hjk.trans hkl)
  brokenOff := h₂.brokenOff.trans h₁.brokenOff
  settings := h₂.settings.trans h₁.settings

theorem untold (h : Same s t id) (hu : s.Untold id) : t.Untold id where
  told status ht := hu.told status (h.told status ht)
  brokenOff hb := hu.brokenOff (h.brokenOff.mp hb)

theorem blank (h : Same s t id) (hb : s.Blank id) : t.Blank id where
  entries := h.entries.trans hb.entries
  idle i hi := hb.idle i (h.lives i hi)
  unasked ha := hb.unasked (h.asked.mp ha)
  untold := h.untold hb.untold

end Same

end MediaEngine.Scheduler
