import MediaEngine.Proofs.Chronicles
import MediaEngine.Proofs.Losses
import MediaEngine.Proofs.Outcomes
import MediaEngine.Proofs.Stores

/-! # What the history says

Each entry is of one job that has ended, and what it says of the job agrees with how and when it ended (`Coherent`). The
entries stand in the order in which the jobs ended, and the history shows the newest of them (`entries_coherent`). -/

namespace MediaEngine
open Job Scheduler

/-! ## The clock -/

theorem Date.within_toDays (year fuel : Nat) {month : Nat} (hm : month ≠ 0) (rest : Nat) :
    (Date.within year fuel month rest).toDays = daysBeforeYear year + daysBeforeMonth year month + rest := by
  induction fuel generalizing month rest with
  | zero => rfl
  | succ fuel ih =>
    rw [Date.within]
    split
    · rfl
    · rename_i hlong
      rw [ih (Nat.succ_ne_zero month), daysBeforeMonth, if_neg hm]
      omega

/-- The date that is found from a number of days lies that many days after the first. -/
theorem Date.toDays_ofDays (days : Nat) : (Date.ofDays days).toDays = days := by
  have found : ∀ year, daysBeforeYear year ≤ days → (Date.within year 11 1 (days - daysBeforeYear year)).toDays = days := by
    intro year hle
    rw [Date.within_toDays year 11 Nat.one_ne_zero]
    change daysBeforeYear year + 0 + (days - daysBeforeYear year) = days
    omega
  unfold Date.ofDays
  dsimp only
  split
  · exact found _ ‹_›
  · split
    · exact found _ ‹_›
    · -- The mean length of a year finds a year that has begun.
      refine found _ ?_
      unfold daysBeforeYear
      omega

theorem Moment.ofClock_instant (n : Nat) : (ofClock n).instant = (Date.mk 2024 1 1).toDays * microsPerDay + n * 1000 := by
  have hsplit : ((n * 1000 / microsPerDay : Nat) : Int) * microsPerDay + (n * 1000 % microsPerDay : Nat) = n * 1000 := by
    exact_mod_cast Nat.div_add_mod' (n * 1000) microsPerDay
  change ((Date.ofDays ((Date.mk 2024 1 1).toDays + n * 1000 / microsPerDay)).toDays : Int) * microsPerDay +
    (n * 1000 % microsPerDay : Nat) - (0 : Int) * microsPerSecond = _
  rw [Date.toDays_ofDays, Nat.cast_add, Int.add_mul]
  omega

/-- Readings of the clock are in the order of the moments that are shown for them. -/
theorem Moment.ofClock_later? (n m : Nat) : later? (ofClock n) (ofClock m) = some (decide (m < n)) := by
  have horder : (ofClock m).instant < (ofClock n).instant ↔ m < n := by
    rw [ofClock_instant, ofClock_instant]
    omega
  have hoffsets : (ofClock n).offset.isSome = (ofClock m).offset.isSome := rfl
  rw [later?, if_pos hoffsets, decide_eq_decide.mpr horder]

namespace Job

theorem Status.level_of_isTerminal {status : Status} : status.isTerminal = true →
    (status = .completed ∧ status.level = .info) ∨ (status = .failed ∧ status.level = .error) ∨
      (status = .canceled ∧ status.level = .warn) := by
  cases status <;> decide

theorem FaultKind.name_ne (k : FaultKind) : k.name ≠ "" := by cases k <;> decide

theorem Fault.name_ne (f : Fault) : f.name ≠ "" := by
  unfold name
  split <;> first | exact FaultKind.name_ne _ | decide

/-- Every fault is told in some words. -/
theorem Fault.description_ne (f : Fault) : f.description ≠ "" := by
  unfold description
  split
  · exact f.name_ne
  · rename_i hsays
    simpa using hsays

end Job

/-- How a job is left when it ends: only one that failed has an error to tell, and only one that is completed has a path, the
    one of its result. -/
structure Left.Tidy (l : Left) (signalled : Bool) (ending : Ending) : Prop where
  failed : l.status = .failed ↔ l.errorMessage ≠ none
  described : l.errorMessage ≠ some ""
  path : l.outputPath ≠ none → l.status = .completed
  result : l.status = .completed → signalled = false ∧ ∃ r, ending = .result r ∧ l.outputPath = r.outputPath

theorem Ending.due_tidy (signalled : Bool) (e : Ending) : (e.due signalled).Tidy signalled e := by
  cases e with
  | fault f =>
    rw [due]
    split
    · constructor <;> simp
    · constructor <;> simp [f.description_ne]
  | result r =>
    cases signalled <;> constructor <;> simp [due]

/-- A story that comes to a result while the token is not signalled tells of a body that returned it. -/
theorem Comes.returned {hasPreview : Bool} {story : List Milestone} {r : RunResult} (h : Comes hasPreview false story (.result r)) :
    ∃ value, .body (.ok value) false ∈ story ∧ RunResult.ofValue value = .ok r := by
  cases h with
  | returns _ hv | previews _ hv => exact ⟨_, List.mem_cons_self, hv⟩

namespace Scheduler
variable {s t u v : Scheduler} {id : JobId} {j k : Job}

/-! ## When a job ends -/

/-- Just before a job has ended: it had ended then, or it waited, or it was active. -/
def Foregoes (s : Scheduler) (id : JobId) (k : Job) : Prop :=
  ∃ j, s.queue.job? id = some j ∧ k.startedAt = j.startedAt ∧
    (j.finalized = true ∨ id ∈ s.queue.waiting ∨ id ∈ s.queue.active)

theorem InOrder.foregoes (h : InOrder s) (hm : Moment s t) (hk : t.queue.job? id = some k) (hfin : k.finalized = true) :
    s.Foregoes id k := by
  -- A moment leaves the jobs as they are, tunes them, or updates one of them; only an update ends a job.
  have same : t.queue.jobs = s.queue.jobs → s.Foregoes id k := fun hjobs =>
    ⟨k, by rw [Queue.job?, ← hjobs]; exact hk, rfl, .inl hfin⟩
  have tuned : List.Forall₂ Tuned s.queue.jobs t.queue.jobs → s.Foregoes id k := fun hjobs => by
    have hr := Queue.tuned_job? hjobs id
    rw [hk] at hr
    cases hj : s.queue.job? id with
    | none => rw [hj] at hr; cases hr
    | some j => rw [hj] at hr; cases hr with | some ht => exact ⟨j, hj, ht.startedAt, .inl (ht.finalized ▸ hfin)⟩
  have updated : ∀ {i : JobId} {f : Job → Job}, (∀ j, (f j).id = j.id) → (∀ j, (f j).startedAt = j.startedAt) →
      ((∀ j, (f j).finalized = j.finalized) ∨ i ∈ s.queue.waiting ∨ i ∈ s.queue.active) →
      (s.queue.update i f).job? id = some k → s.Foregoes id k := fun {i f} hid hstart hends hk => by
    rw [Queue.job?_update hid] at hk
    split at hk
    · rename_i hi
      obtain ⟨j, hj, rfl⟩ := Option.map_eq_some_iff.mp hk
      refine ⟨j, hj, hstart j, ?_⟩
      rcases hends with hsame | hends
      · exact .inl (hsame j ▸ hfin)
      · exact .inr (hi ▸ hends)
    · exact ⟨k, hk, rfl, .inl hfin⟩
  cases hm with
  | release => exact same rfl
  | occurs ho =>
    cases ho with
    | inert hi => exact tuned hi.jobs
    | signal _ hi => exact tuned hi.jobs
    | hear | asked | arm | spawn | turn => exact same rfl
    | breakOff event =>
      obtain ⟨ids, hq, -⟩ := s.queue.breakOff_eq event
      exact same (by rw [mapQueue_queue, hq])
    | keep i path => exact tuned (keep_stays s i path).jobs
    | enroll submission progress _ =>
      have hk : (s.queue.draw.enlist (.admitted s.queue.nextId submission progress)).job? id = some k := hk
      rw [h.fit.job?_admitted submission progress] at hk
      split at hk
      · cases hk
        cases hfin
      · exact ⟨k, hk, rfl, .inl hfin⟩
    | @take i q hq =>
      obtain ⟨rest, e, hw, he⟩ := taking_eq hq
      rw [he, Queue.job?_update (by intro; rfl)] at hk
      split at hk
      · -- The job that starts was waiting, and so it has not ended.
        rename_i hi
        subst hi
        obtain ⟨j, hj, rfl⟩ := Option.map_eq_some_iff.mp hk
        obtain ⟨l, hl, hopen⟩ := h.fit.waits id (hw ▸ List.mem_cons_self)
        have hj : s.queue.job? id = some j := hj
        cases hj.symm.trans hl
        have hended : j.finalized = true := hfin
        cases hopen.symm.trans hended
      · exact ⟨k, hk, rfl, .inl hfin⟩
    | ask _ _ _ _ | cool _ _ _ => exact updated (by intro; rfl) (by intro; rfl) (.inl (by intro; rfl)) hk
    | finish _ ha _ _ => exact updated (by intro; rfl) (by intro; rfl) (.inr (.inr ha)) hk
    | leave hw _ _ => exact updated (by intro; rfl) (by intro; rfl) (.inr (.inl hw)) hk

/-- On the way from one scheduler to another, this is the moment at which the job ends. -/
structure EndsAt (s u v t : Scheduler) (id : JobId) : Prop where
  before : Moments s u
  moment : Moment u v
  after : Moments v t
  unended : ∃ j, u.queue.job? id = some j ∧ j.finalized = false
  ended : ∃ j, v.queue.job? id = some j ∧ j.finalized = true

/-- There is a moment at which a job has ended that has. -/
theorem InOrder.endsAt (h : InOrder s) (hrow : Moments s t) (hopen : ∀ j, s.queue.job? id = some j → j.finalized = false)
    (hk : t.queue.job? id = some k) (hfin : k.finalized = true) : ∃ u v, EndsAt s u v t id := by
  induction hrow generalizing k with
  | refl => cases (hopen k hk).symm.trans hfin
  | @tail t v hrow hm ih =>
    obtain ⟨j, hj, -, -⟩ := (h.moments hrow).foregoes hm hk hfin
    cases hended : j.finalized with
    | true =>
      obtain ⟨u, w, he⟩ := ih hj hended
      exact ⟨u, w, he.before, he.moment, he.after.tail hm, he.unended, he.ended⟩
    | false => exact ⟨t, v, hrow, hm, .refl, ⟨j, hj, hended⟩, k, hk, hfin⟩

theorem InOrder.starts_moments (h : InOrder s) (hrow : Moments s t) : s.starts <+: t.starts := by
  induction hrow with
  | refl => exact List.prefix_rfl
  | tail hrow hm ih =>
    rcases (h.moments hrow).starts_moment hm with hsame | ⟨i, hmore, -⟩
    · exact hsame ▸ ih
    · exact hmore ▸ ih.trans (List.prefix_append _ _)

/-- Whether a job that has ended had started does not change. -/
theorem InOrder.unstarted_later (h : InOrder s) (hrow : Moments s t) (hj : s.queue.job? id = some j) (hfin : j.finalized = true)
    (hk : t.queue.job? id = some k) : k.startedAt = none ↔ j.startedAt = none := by
  have ht := h.moments hrow
  constructor
  · intro hno
    refine Option.not_isSome_iff_eq_none.mp fun hs => ?_
    have hstarted := (ht.begun id k hk).mpr ((h.starts_moments hrow).subset ((h.begun id j hj).mp hs))
    rw [hno] at hstarted
    cases hstarted
  · intro hno
    rcases h.rest id (Queue.job?_mem_ids hj) with hs | hw | hd
    · have hstarted := (h.begun id j hj).mpr hs
      rw [hno] at hstarted
      cases hstarted
    · obtain ⟨l, hl, hopen⟩ := h.fit.waits id hw
      cases hj.symm.trans hl
      cases hopen.symm.trans hfin
    · obtain ⟨l, hl, -, -, hno⟩ := h.dropped_later hrow hd
      cases hk.symm.trans hl
      exact hno

/-- A job that ends had not started exactly if it ends while it waits. -/
theorem EndsAt.unstarted_iff (he : EndsAt s u v t id) (h : InOrder s) (hk : t.queue.job? id = some k) :
    k.startedAt = none ↔ id ∈ u.queue.waiting := by
  have hu := h.moments he.before
  obtain ⟨j, hj, hopen⟩ := he.unended
  obtain ⟨l, hl, hfin⟩ := he.ended
  obtain ⟨j', hj', hsame, hplace⟩ := hu.foregoes he.moment hl hfin
  cases hj.symm.trans hj'
  rw [(hu.moment he.moment).unstarted_later he.after hl hfin hk, hsame]
  rcases hplace with hended | hw | ha
  · cases hopen.symm.trans hended
  · exact iff_of_true (Option.not_isSome_iff_eq_none.mp fun hs => hu.unstarted hw ((hu.begun id j hj).mp hs)) hw
  · refine iff_of_false (fun hno => ?_) fun hw => hu.fit.apart id ha (.inl hw)
    have hstarted := (hu.begun id j hj).mpr (hu.active id ha)
    rw [hno] at hstarted
    cases hstarted

/-! ## What an entry says -/

/-- The metadata of the jobs in the set were left alone on the way. -/
abbrev Sparing (D : JobId → Prop) : Scheduler → Scheduler → Prop := Relation.ReflTransGen fun s t => Step s t ∧ Spares D s t

/-- What an entry says of a job agrees with what happened to the job on the way, and with its milestones. -/
structure Coherent (s₀ s : Scheduler) (ms : List (JobId × Milestone)) (j : Job) (e : Entry) : Prop where
  jobId : e.jobId = j.id.text
  name : e.name = j.submission.name
  /-- Unless they were changed before the entry was made, the metadata are those that were handed in. -/
  metadata : ∀ r, Sparing (· = j.id) s₀ r → Runs r s → e ∈ r.queue.recorded → e.metadata = j.submission.metadata
  ends : ∃ u v, EndsAt s₀ u v s j.id
  started : ∀ u v, EndsAt s₀ u v s j.id → (e.startedAt = none ↔ j.id ∈ u.queue.waiting)
  finished : ∃ b, e.finishedAt = some b ∧ ∀ a, e.startedAt = some a → a.later? b = some false
  failed : e.status = .failed ↔ e.errorMessage ≠ none
  described : e.errorMessage ≠ some ""
  path : e.outputPath ≠ none → e.status = .completed
  result : e.status = .completed → ∃ value r, .body (.ok value) false ∈ storyOf ms j.id ∧ RunResult.ofValue value = .ok r ∧
    e.outputPath = r.outputPath
  message : e.message ≠ none → e.status = .canceled
  level : (e.status = .completed ∧ e.level = .info) ∨ (e.status = .failed ∧ e.level = .error) ∨
    (e.status = .canceled ∧ e.level = .warn)

variable {D : JobId → Prop} {e : Entry} {ms : List (JobId × Milestone)} {s₀ : Scheduler}

theorem Written.entry (h : s.Written D) (he : e ∈ s.queue.recorded) (hj : j ∈ s.queue.jobs) (htext : e.jobId = j.id.text) :
    e.MadeOf j ∧ (D j.id → e.metadata = j.submission.metadata) := by
  obtain ⟨k, hk, -, hmade, hmeta⟩ := h.made e he
  have hid : k.id = j.id := JobId.text_inj (hmade.jobId.symm.trans htext)
  have hfound := Queue.job?_of_mem h.order.fit.nodup hk
  rw [hid, Queue.job?_of_mem h.order.fit.nodup hj] at hfound
  cases hfound
  exact ⟨hmade, hmeta⟩

/-- A job that has ended and never started was dropped. -/
theorem InOrder.dropped_of_unstarted (h : InOrder s) (hj : s.queue.job? id = some j) (hfin : j.finalized = true)
    (hno : j.startedAt = none) : j.status = .canceled := by
  rcases h.rest id (Queue.job?_mem_ids hj) with hs | hw | ⟨k, hk, -, hst, -⟩
  · have hstarted := (h.begun id j hj).mpr hs
    rw [hno] at hstarted
    cases hstarted
  · obtain ⟨k, hk, hopen⟩ := h.fit.waits id hw
    cases hj.symm.trans hk
    cases hopen.symm.trans hfin
  · cases hj.symm.trans hk
    exact hst

/-- A story of a job that has started and ended is through. -/
theorem Tale.through {story : List Milestone} (h : s.Tale id story) (hj : s.queue.job? id = some j)
    (hstarted : j.startedAt.isSome = true) (hfin : j.finalized = true) : ∃ ending, s.Verdict story j ending := by
  cases h with
  | early he => cases (he.begun j hj hstarted).1.symm.trans hfin
  | called _ hk hopen =>
    cases hj.symm.trans hk
    cases hopen.symm.trans hfin
  | ended hd =>
    obtain ⟨k, ending, hk, hv⟩ := hd
    cases hj.symm.trans hk
    exact ⟨ending, hv⟩

/-- The entry says how the job was left. -/
theorem Verdict.entry {story : List Milestone} {ending : Ending} (h : s.Verdict story j ending) (he : e ∈ s.entriesOf j.id) :
    e.status = (ending.due j.token.cancelled).status ∧ e.errorMessage = (ending.due j.token.cancelled).errorMessage ∧
      e.outputPath = (ending.due j.token.cancelled).outputPath ∧ e.message = j.message := by
  have hkept : j.id ∉ s.queue.brokenOff := fun hb => by
    rw [h.lost hb] at he
    cases he
  obtain ⟨e', hone, hst, herr, hmsg, hpath⟩ := h.entered hkept
  rw [hone] at he
  cases List.mem_singleton.mp he
  exact ⟨hst.trans h.status, herr.trans h.errorMessage, hpath, hmsg⟩

/-- The one job that an entry is of has ended, with the status of the entry. -/
theorem Settled.entry_of (hs : Settled s) (he : e ∈ s.queue.recorded) (hj : j ∈ s.queue.jobs) (htext : e.jobId = j.id.text) :
    j.finalized = true ∧ e.status = j.status ∧ e.level = j.status.level := by
  obtain ⟨k, hk, hk', hfin, hst, hlevel, -⟩ := hs.entry he
  have hfound := Queue.job?_of_mem hs.fit.nodup hk
  rw [JobId.text_inj (hk'.symm.trans htext), Queue.job?_of_mem hs.fit.nodup hj] at hfound
  cases hfound
  exact ⟨hfin, hst, hlevel⟩

/-- An entry says what was due to its job in the end; of a completed job, by its milestones. -/
theorem Written.left (h : s.Written D) (hs : Settled s) {story : List Milestone} (htale : s.Tale j.id story)
    (he : e ∈ s.queue.recorded) (hj : j ∈ s.queue.jobs) (htext : e.jobId = j.id.text) :
    ∃ signalled ending, Ending.due signalled ending = ⟨e.status, e.outputPath, e.errorMessage⟩ ∧
      (e.status = .completed → Comes j.submission.hasPreview signalled story ending) ∧
      (e.message ≠ none → e.status = .canceled) := by
  have hfound : s.queue.job? j.id = some j := Queue.job?_of_mem hs.fit.nodup hj
  obtain ⟨hfin, hst, -⟩ := hs.entry_of he hj htext
  cases hstarted : j.startedAt with
  | none =>
    have hmade := (h.entry he hj htext).1
    have hcanceled : e.status = .canceled := hst.trans (h.order.dropped_of_unstarted hfound hfin hstarted)
    have herror : e.errorMessage = none := hmade.errorMessage.trans ((h.dated j hj).dropped hfin hstarted)
    refine ⟨true, .result .empty, ?_, fun hno => ?_, fun _ => hcanceled⟩
    · rw [Ending.due_signalled, hcanceled, hmade.dropped hstarted, herror]
    · rw [hcanceled] at hno
      cases hno
  | some n =>
    obtain ⟨ending, hv⟩ := htale.through hfound (by rw [hstarted]; rfl) hfin
    obtain ⟨hstatus, herror, hpath, hmessage⟩ := hv.entry (mem_entriesOf.mpr ⟨he, htext⟩)
    refine ⟨j.token.cancelled, ending, ?_, fun _ => hv.comes, fun hsaid => Classical.byContradiction fun hne => ?_⟩
    · rw [hstatus, herror, hpath]
    · exact hsaid (hmessage.trans (hv.unsaid (hst ▸ hne)))

/-- Between two steps, what an entry says of its job agrees with everything. -/
theorem Written.coherent (h : s.Written D) (hs : Settled s) (h₀ : InOrder s₀) (hrow : Moments s₀ s)
    (hnew : ∀ id, s₀.queue.job? id = none) (htale : s.Tale j.id (storyOf ms j.id))
    (hmeta : ∀ r, Sparing (· = j.id) s₀ r → Runs r s → e ∈ r.queue.recorded → e.metadata = j.submission.metadata)
    (he : e ∈ s.queue.recorded) (hj : j ∈ s.queue.jobs) (htext : e.jobId = j.id.text) : s₀.Coherent s ms j e := by
  have hfound : s.queue.job? j.id = some j := Queue.job?_of_mem hs.fit.nodup hj
  have hmade := (h.entry he hj htext).1
  obtain ⟨hfin, hst, hlevel⟩ := hs.entry_of he hj htext
  obtain ⟨signalled, ending, hleft, hcomes, hmessage⟩ := h.left hs htale he hj htext
  have htidy := ending.due_tidy signalled
  have hterminal := ending.due_isTerminal signalled
  rw [hleft] at htidy hterminal
  refine ⟨htext, hmade.name, hmeta, h₀.endsAt hrow (fun k hk => by cases (hnew j.id).symm.trans hk) hfound hfin,
    fun u v hends => ?_, ?_, htidy.failed, htidy.described, htidy.path, fun hcompleted => ?_, hmessage, ?_⟩
  · rw [hmade.startedAt, Option.map_eq_none_iff, hends.unstarted_iff h₀ hfound]
  · obtain ⟨n, hn, -, hafter⟩ := (h.dated j hj).finished hfin
    refine ⟨.ofClock n, by rw [hmade.finishedAt, hn]; rfl, fun a ha => ?_⟩
    rw [hmade.startedAt, Option.map_eq_some_iff] at ha
    obtain ⟨m, hm, rfl⟩ := ha
    rw [Moment.ofClock_later?, decide_eq_false (Nat.not_lt.mpr (hafter m hm))]
  · obtain ⟨rfl, r, rfl, hpath⟩ := htidy.result hcompleted
    obtain ⟨value, hm, hv⟩ := (hcomes hcompleted).returned
    exact ⟨value, r, hm, hv, hpath⟩
  · rw [hlevel, ← hst]
    exact Status.level_of_isTerminal hterminal

/-! ## The order of the entries -/

/-- At a moment on the way, the job of the one entry has ended and the job of the other has not. -/
def EndsBefore (s t : Scheduler) (e f : Entry) : Prop :=
  ∃ u, Moments s u ∧ Moments u t ∧ (∃ j ∈ u.queue.jobs, j.finalized = true ∧ e.jobId = j.id.text) ∧
    ∀ j ∈ u.queue.jobs, f.jobId = j.id.text → j.finalized = false

/-- No two entries are of one job. -/
theorem Settled.entries_nodup (hs : Settled s) : (s.queue.recorded.map Entry.jobId).Nodup := by
  refine List.nodup_iff_count_le_one.mpr fun text => ?_
  by_cases hm : text ∈ s.queue.recorded.map Entry.jobId
  · obtain ⟨e, he, rfl⟩ := List.mem_map.mp hm
    obtain ⟨j, hj, htext, -⟩ := hs.entry he
    have hcount : (s.queue.recorded.map Entry.jobId).count e.jobId = (s.entriesOf j.id).length := by
      rw [htext, List.count, List.countP_map, entriesOf, List.countP_eq_length_filter]
      rfl
    rw [hcount, hs.entries_length hj]
    split <;> omega
  · rw [List.count_eq_zero.mpr hm]
    exact Nat.zero_le 1

/-- The entries are of the jobs that have ended, except for those whose end a listener broke off. -/
theorem Settled.entries_perm (hs : Settled s) : (s.queue.recorded.map Entry.jobId).Perm
    ((s.queue.jobs.filter fun j => j.finalized && !s.queue.brokenOff.contains j.id).map fun j => j.id.text) := by
  have htexts : (s.queue.jobs.map fun j => j.id.text).Nodup := by
    have h := hs.fit.nodup.map (f := JobId.text) fun _ _ => JobId.text_inj
    rwa [Queue.ids, List.map_map] at h
  refine (List.perm_ext_iff_of_nodup hs.entries_nodup (htexts.sublist (List.filter_sublist.map _))).mpr fun text => ?_
  simp only [List.mem_map, List.mem_filter, Bool.and_eq_true, Bool.not_eq_true', List.contains_eq_mem, decide_eq_false_iff_not]
  constructor
  · rintro ⟨e, he, rfl⟩
    obtain ⟨j, hj, htext, hfin, -⟩ := hs.entry he
    refine ⟨j, ⟨hj, hfin, fun hb => ?_⟩, htext.symm⟩
    have hlength := hs.entries_length hj
    rw [if_neg fun h => h.2 hb, List.length_eq_zero_iff] at hlength
    exact List.not_mem_nil (hlength ▸ mem_entriesOf.mpr ⟨he, htext⟩)
  · rintro ⟨j, ⟨hj, hkept⟩, rfl⟩
    have hlength := hs.entries_length hj
    rw [if_pos hkept] at hlength
    obtain ⟨e, he⟩ := List.length_eq_one_iff.mp hlength
    have hm : e ∈ s.entriesOf j.id := he ▸ List.mem_singleton_self e
    exact ⟨e, mem_entriesOf.mp hm⟩

theorem Moments.brokenOff (h : Moments s t) (hb : id ∈ s.queue.brokenOff) : id ∈ t.queue.brokenOff := by
  induction h with
  | refl => exact hb
  | tail _ hm ih => exact hm.brokenOff ih

/-- The entries stand in the order in which the jobs ended. -/
theorem Chronicles.ordered (h : Chronicles D s t) (hs : s.Chronicled D) (hnone : s.queue.recorded = []) (hq : t.queue.Quiet)
    (ht : Settled t) : t.queue.recorded.Pairwise (s.EndsBefore t) := by
  refine List.pairwise_iff_getElem.mpr fun i k hi hk hik => ?_
  obtain ⟨u, hsu, hut, hu, hrecorded⟩ := h.between hq hs (i + 1) (by rw [hnone]; exact Nat.zero_le _) hi
  have hfirst : t.queue.recorded[i] ∈ u.queue.recorded := hrecorded ▸ List.mem_take_iff_getElem.mpr ⟨i, by omega, rfl⟩
  obtain ⟨j, hj, hfin, hmade, -⟩ := hu.made _ hfirst
  refine ⟨u, hsu, hut, ⟨j, hj, hfin, hmade.jobId⟩, fun l hl htext => Bool.eq_false_iff.mpr fun hended => ?_⟩
  -- Had the other job ended, its entry would be among the first ones, or it would have none.
  rcases hu.complete l hl hended with ⟨e, he, hsame⟩ | hbroken
  · rw [hrecorded] at he
    obtain ⟨n, hn, rfl⟩ := List.mem_take_iff_getElem.mp he
    have hdistinct := List.pairwise_iff_getElem.mp (List.pairwise_map.mp ht.entries_nodup)
    exact hdistinct n k (by omega) hk (by omega) (hsame.trans htext.symm)
  · obtain ⟨m, hm, -⟩ := hut.continues.knows l.id l (Queue.job?_of_mem hu.order.fit.nodup hl)
    have hid : m.id = l.id := Queue.job?_id hm
    have hlength := ht.entries_length (Queue.job?_mem hm)
    rw [if_neg fun h => h.2 (hid ▸ hut.brokenOff hbroken), hid, List.length_eq_zero_iff] at hlength
    exact List.not_mem_nil (hlength ▸ mem_entriesOf.mpr ⟨List.getElem_mem hk, htext⟩)

/-! ## Runs -/

theorem Sparing.chronicles (h : Sparing D s t) (hs : Settled s) (ht : Timed s) : Chronicles D s t := by
  induction h with
  | refl => exact .refl s
  | tail h hstep ih =>
    have hruns : Runs s _ := Relation.ReflTransGen.mono (fun _ _ => And.left) _ _ h
    obtain ⟨hs', ht', -⟩ := hruns.sound hs ht
    exact ih.trans ((hstep.1.deed notifyUpTo_softly hs' ht').chronicles hs' hstep.2)

/-- On every run the metadata of no jobs are left alone. -/
theorem Runs.sparing (h : Runs s t) : Sparing (fun _ => False) s t :=
  Relation.ReflTransGen.mono (fun _ _ hstep => ⟨hstep, fun _ _ _ hd => hd.elim⟩) _ _ h

section Runs
variable {settings : Settings} {store : Store} {directory : String} {budget : Nat}

theorem start_chronicled : (start settings store directory budget).Chronicled D where
  order := .start settings store directory budget
  dated _ hj := by cases hj
  metadata _ hj := by cases hj
  made _ he := by cases he
  complete _ hj := by cases hj

/-- An entry has the metadata with which its job was handed in, if they were left alone until it was made. -/
theorem Sparing.metadata (h : Sparing (· = id) (start settings store directory budget) t) (hrun : Runs t s) (hq : s.queue.Quiet)
    (he : e ∈ t.queue.recorded) (hj : s.queue.job? id = some j) (htext : e.jobId = id.text) :
    e.metadata = j.submission.metadata := by
  obtain ⟨hs, ht, -⟩ := Runs.basics (Relation.ReflTransGen.mono (fun _ _ => And.left) _ _ h)
  obtain ⟨-, -, hm⟩ := hrun.sound hs ht
  have hchronicles := h.chronicles (start_settled settings store directory budget) (start_timed settings store directory budget)
  obtain ⟨k, hk, -, hmade, hmeta⟩ := (hchronicles.keeps (hq.before hm.listeners) start_chronicled).made e he
  have hid : k.id = id := JobId.text_inj (hmade.jobId.symm.trans htext)
  obtain ⟨l, hl, hsub⟩ := hm.continues.knows k.id k (Queue.job?_of_mem hs.fit.nodup hk)
  rw [hid, hj] at hl
  cases hl
  rw [hmeta hid, hsub]

/-- To hand a job in is answered with the number of a new job, which keeps what was handed in; or there is no new job, unless
    the answer was lost on the way. -/
structure Acknowledges (u : Scheduler) (submission : Submission) (outcome : Except Fault JobId × Scheduler) : Prop where
  accepted : ∀ id, outcome.1 = .ok id → u.queue.job? id = none ∧
    ∀ w, Moments outcome.2 w → ∃ j, w.queue.job? id = some j ∧ j.submission = submission
  refused : ∀ e, outcome.1 = .error e → e ≠ .taskCancelled → u.queue.settings.Expirable → outcome.2.queue.jobs = u.queue.jobs

theorem Fit.acknowledges (hf : Fit u) (depth : Nat) (running : Bool) (submission : Submission) :
    Acknowledges u submission ((enqueue (notifyUpTo depth) running submission).on u) where
  accepted id h := by
    obtain ⟨hnew, -, j, hj, hsub⟩ := enqueue_admitted (notifyUpTo_notifies depth) hf (Prod.ext h rfl)
    refine ⟨Queue.job?_eq_none_iff.mpr hnew, fun w hw => ?_⟩
    obtain ⟨k, hk, hsame⟩ := hw.continues.knows id j hj
    exact ⟨k, hk, hsame.trans hsub⟩
  refused e h hcut hexpires := by
    rw [(enqueue_untouched (notifyUpTo_notifies depth) hf hexpires (Prod.ext h rfl) hcut).queue]

/-- The history is the newest of the entries, as many as the limit admits. -/
structure Newest (q : Queue) : Prop where
  history : q.history = q.recorded.reverse.take q.settings.historyLimit.toNat
  kept : q.history.length =
    min q.settings.historyLimit.toNat (q.jobs.countP fun j => j.finalized && !q.brokenOff.contains j.id)
  all : q.brokenOff = [] → q.history.length = min q.settings.historyLimit.toNat (q.jobs.countP Job.finalized)

theorem Settled.newest (hs : Settled s) (hstore : Store.chosen? none s.queue.settings.historyLimit = some store)
    (hkept : s.queue.store = s.queue.recorded.foldl Store.keep store) : Newest s.queue := by
  obtain ⟨empty, hempty, rfl⟩ := Option.map_eq_some_iff.mp hstore
  have hpos := s.queue.settings.history_pos
  have hhistory : s.queue.history = s.queue.recorded.reverse.take s.queue.settings.historyLimit.toNat := by
    unfold History.empty? at hempty
    split at hempty <;> cases hempty
    rw [Queue.history, hkept, Store.keep_all_entries (show Store.Within _ from Nat.zero_le _)]
    change (s.queue.recorded.reverse ++ []).take (max 1 s.queue.settings.historyLimit.toNat) = _
    rw [List.append_nil, Nat.max_eq_right (by omega)]
  have hlength := hs.entries_perm.length_eq
  rw [List.length_map, List.length_map, ← List.countP_eq_length_filter] at hlength
  have hcount : s.queue.history.length = min s.queue.settings.historyLimit.toNat
      (s.queue.jobs.countP fun j => j.finalized && !s.queue.brokenOff.contains j.id) := by
    rw [hhistory, List.length_take, List.length_reverse, hlength]
  refine ⟨hhistory, hcount, fun hnone => ?_⟩
  rw [hcount, hnone]
  simp

/-- In every state of a run in which no listener calls back, each entry agrees with what happened to the one job that it is of.
    The entries stand in the order in which their jobs ended, and there is one of every job that has ended unless a listener
    broke it off to tell so; where no store is supplied, the history is the newest of them, as many as the limit admits. The
    number of a job is the answer to whoever handed it in. -/
theorem entries_coherent (h : Runs (start settings store directory budget) s) (hq : s.queue.Quiet) :
    let s₀ := start settings store directory budget
    (∃ ms, Course s₀ ms s) ∧
      (∀ ms, Course s₀ ms s → ∀ e ∈ s.queue.recorded, ∃ j ∈ s.queue.jobs, s₀.Coherent s ms j e) ∧
      s.queue.recorded.Pairwise (s₀.EndsBefore s) ∧
      (s.queue.recorded.map Entry.jobId).Perm
        ((s.queue.jobs.filter fun j => j.finalized && !s.queue.brokenOff.contains j.id).map fun j => j.id.text) ∧
      (Store.chosen? none settings.historyLimit = some store → Newest s.queue) ∧
      ∀ u, Moments s₀ u → ∀ depth running submission,
        Acknowledges u submission ((enqueue (notifyUpTo depth) running submission).on u) := by
  intro s₀
  obtain ⟨hs, -, -⟩ := h.basics
  have hs₀ : Settled s₀ := start_settled settings store directory budget
  have ht₀ : Timed s₀ := start_timed settings store directory budget
  have horder : InOrder s₀ := .start settings store directory budget
  have hchronicles := h.sparing.chronicles hs₀ ht₀
  have hwritten := (hchronicles.keeps hq start_chronicled).toWritten
  have hcontinues := hchronicles.moments.continues
  refine ⟨h.reaches.course, fun ms hcourse e he => ?_, hchronicles.ordered start_chronicled rfl hq hs, hs.entries_perm,
    fun hdefault => ?_, fun u hu depth running submission => (horder.moments hu).fit.acknowledges depth running submission⟩
  · obtain ⟨j, hj, htext, -⟩ := hs.entry he
    exact ⟨j, hj, hwritten.coherent hs horder hchronicles.moments (fun _ => rfl) (hcourse.tale hq j.id)
      (fun r hsparing hrun hr => hsparing.metadata hrun hq hr (Queue.job?_of_mem hs.fit.nodup hj) htext) he hj htext⟩
  · refine hs.newest (by rw [hcontinues.settings]; exact hdefault) ?_
    obtain ⟨es, hes, hstore⟩ := hcontinues.handed
    rw [hstore, hes]
    rfl

end Runs

/-- One job takes a while and returns a path, and the next one fails: their entries are coherent, the newest in front. -/
theorem two_entries_coherent :
    let empty : Store := .bounded ⟨20, [], by decide⟩
    let s₀ := start .default empty "/" 9
    let s := (s₀.giveAll none [.enqueue ⟨"a", some [.sleep 5, .finish (.object [("output_path", .text "x")])], .none, none, .null⟩,
      .enqueue ⟨"b", some [.fail (.raised .value [])], .none, none, .null⟩, .advance 7]).2
    s.queue.history.map (fun e => (e.jobId, e.status, e.outputPath, e.errorMessage)) =
        [("job-2", .failed, none, some "ValueError"), ("job-1", .completed, some "x", none)] ∧
      (∃ ms, Course s₀ ms s ∧ ∀ e ∈ s.queue.recorded, ∃ j ∈ s.queue.jobs, s₀.Coherent s ms j e) ∧ Newest s.queue := by
  intro empty s₀ s
  have hq : s.queue.Quiet := Queue.quiet_of_none (by decide +kernel)
  obtain ⟨⟨ms, hcourse⟩, hcoherent, -, -, hnewest, -⟩ := entries_coherent (s := s) (runs_drives.giveAll _ _ _) hq
  exact ⟨by decide +kernel, ⟨ms, hcourse, hcoherent ms hcourse⟩, hnewest rfl⟩

/-- A listener that stops like a cancelled task when it is told of the end of a job keeps the job out of the history, although
    nobody calls back. -/
theorem ended_job_missing :
    ∃ settings store directory budget s, Runs (start settings store directory budget) s ∧ s.queue.Quiet ∧
      Store.chosen? none settings.historyLimit = some store ∧
      s.queue.history.length ≠ min settings.historyLimit.toNat (s.queue.jobs.countP Job.finalized) := by
  let listener : Listener := ⟨"l", false, some .finished, none, 1, [.fail .taskCancelled]⟩
  let empty : Store := .bounded ⟨20, [], by decide⟩
  let s := ((start .default empty "/" 9).giveAll none
    [.subscribe listener, .enqueue ⟨"a", some [], .none, none, .null⟩, .settle]).2
  have hquiet : s.queue.Quiet := by
    unfold Queue.Quiet
    decide +kernel
  have hhistory : s.queue.history.length = 0 := by decide +kernel
  have hended : s.queue.jobs.countP Job.finalized = 1 := by decide +kernel
  refine ⟨.default, empty, "/", 9, s, runs_drives.giveAll _ _ _, hquiet, rfl, ?_⟩
  rw [hhistory, hended]
  decide

end Scheduler
end MediaEngine
