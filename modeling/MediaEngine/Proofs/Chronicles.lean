import MediaEngine.Proofs.Books
import MediaEngine.Proofs.Order

/-! # What is written of jobs

An entry is made of a job when it has ended, and nothing that it tells of the job changes afterwards (`Written`). Between
two parts of a step there is an entry of every job that has ended, unless a listener broke it off to tell so (`Chronicled`),
and from one part to the next at most one more job has ended (`Chronicles`). -/

namespace MediaEngine
open Job

namespace Job

/-- Nothing of a job differs that an entry tells once it has ended. -/
structure Keeps (j k : Job) : Prop extends Lasts j k where
  metadata : k.metadata = j.metadata

/-- The job has not started later than now, and ended no later than that and no earlier than it started. It did not fail
    before it started. -/
structure Dated (now : Nat) (j : Job) : Prop where
  started : ∀ n, j.startedAt = some n → n ≤ now
  finished : j.finalized = true → ∃ n, j.finishedAt = some n ∧ n ≤ now ∧ ∀ m, j.startedAt = some m → m ≤ n
  dropped : j.finalized = true → j.startedAt = none → j.errorMessage = none

/-- The entry was made of the job; its status and its metadata are another matter. -/
structure Entry.MadeOf (e : Entry) (j : Job) : Prop where
  jobId : e.jobId = j.id.text
  name : e.name = j.submission.name
  startedAt : e.startedAt = j.startedAt.map MediaEngine.Moment.ofClock
  finishedAt : e.finishedAt = j.finishedAt.map MediaEngine.Moment.ofClock
  errorMessage : e.errorMessage = j.errorMessage
  message : e.message = j.message
  dropped : j.startedAt = none → e.outputPath = none

variable {j k l : Job} {e : Entry} {now later : Nat}

theorem Keeps.refl (j : Job) : Keeps j j := ⟨.refl j, rfl⟩

theorem Keeps.trans (h₁ : Keeps j k) (h₂ : Keeps k l) : Keeps j l :=
  ⟨h₁.toLasts.trans h₂.toLasts, h₂.metadata.trans h₁.metadata⟩

theorem Dated.lasts (h : Dated now j) (hk : Lasts j k) (hn : now ≤ later) : Dated later k where
  started n hs := (h.started n (hk.startedAt ▸ hs)).trans hn
  finished hfin := by
    obtain ⟨n, hf, hle, hs⟩ := h.finished (hk.finalized ▸ hfin)
    exact ⟨n, hk.finishedAt.trans hf, hle.trans hn, fun m hm => hs m (hk.startedAt ▸ hm)⟩
  dropped hfin hs := hk.errorMessage.trans (h.dropped (hk.finalized ▸ hfin) (hk.startedAt ▸ hs))

theorem Entry.MadeOf.lasts (h : e.MadeOf j) (hk : Lasts j k) : e.MadeOf k where
  jobId := by rw [h.jobId, hk.id]
  name := by rw [h.name, hk.submission]
  startedAt := by rw [h.startedAt, hk.startedAt]
  finishedAt := by rw [h.finishedAt, hk.finishedAt]
  errorMessage := by rw [h.errorMessage, hk.errorMessage]
  message := by rw [h.message, hk.message]
  dropped hs := h.dropped (hk.startedAt ▸ hs)

theorem entry_madeOf {path : Option String} (h : j.startedAt = none → path = none) : (j.entry path).MadeOf j where
  jobId := rfl
  name := rfl
  startedAt := rfl
  finishedAt := rfl
  errorMessage := rfl
  message := rfl
  dropped := h

end Job

theorem Queue.mem_update {q : Queue} {id : JobId} {f : Job → Job} {k : Job} :
    k ∈ (q.update id f).jobs ↔ ∃ j ∈ q.jobs, (if j.id = id then f j else j) = k := List.mem_map

namespace Scheduler
variable {D : JobId → Prop} {s t u v : Scheduler} {id : JobId} {j k : Job} {b : Bool} {kind : EventKind}

/-! ## What is not written -/

/-- Nothing happens of which an entry would tell. -/
structure Unwritten (s t : Scheduler) : Prop where
  clock : s.loop.now ≤ t.loop.now
  back : ∀ k ∈ t.queue.jobs, ∃ j ∈ s.queue.jobs, Keeps j k
  forth : ∀ j ∈ s.queue.jobs, ∃ k ∈ t.queue.jobs, Keeps j k
  recorded : t.queue.recorded = s.queue.recorded
  brokenOff : ∀ id ∈ s.queue.brokenOff, id ∈ t.queue.brokenOff

namespace Unwritten

theorem of_queue {q : Queue} {l : Loop TimerAction} {ts : List Task} {ns : List Queue.Note} (hn : s.loop.now ≤ l.now)
    (hj : q.jobs = s.queue.jobs) (hr : q.recorded = s.queue.recorded) (hb : q.brokenOff = s.queue.brokenOff) :
    Unwritten s { s with queue := q, loop := l, tasks := ts, notes := ns } where
  clock := hn
  back k hk := ⟨k, hj ▸ hk, .refl k⟩
  forth j hm := ⟨j, hj.symm ▸ hm, .refl j⟩
  recorded := hr
  brokenOff _ hid := hb.symm ▸ hid

theorem refl (s : Scheduler) : Unwritten s s := of_queue (Nat.le_refl _) rfl rfl rfl

theorem noted {n : Queue.Note} : Unwritten s (s.noted n) := of_queue (Nat.le_refl _) rfl rfl rfl

theorem trans (h₁ : Unwritten s t) (h₂ : Unwritten t u) : Unwritten s u where
  clock := h₁.clock.trans h₂.clock
  back l hl := by
    obtain ⟨k, hk, hkl⟩ := h₂.back l hl
    obtain ⟨j, hj, hjk⟩ := h₁.back k hk
    exact ⟨j, hj, hjk.trans hkl⟩
  forth j hj := by
    obtain ⟨k, hk, hjk⟩ := h₁.forth j hj
    obtain ⟨l, hl, hkl⟩ := h₂.forth k hk
    exact ⟨l, hl, hjk.trans hkl⟩
  recorded := h₂.recorded.trans h₁.recorded
  brokenOff id hid := h₂.brokenOff id (h₁.brokenOff id hid)

/-- A job changes in what no entry tells. -/
theorem update {f : Job → Job} (hf : ∀ j ∈ s.queue.jobs, j.id = id → Keeps j (f j)) : Unwritten s (s.mapQueue (·.update id f)) where
  clock := Nat.le_refl _
  back k hk := by
    obtain ⟨j, hj, rfl⟩ := Queue.mem_update.mp hk
    refine ⟨j, hj, ?_⟩
    split
    · exact hf j hj ‹_›
    · exact .refl j
  forth j hj := by
    refine ⟨_, Queue.mem_update.mpr ⟨j, hj, rfl⟩, ?_⟩
    split
    · exact hf j hj ‹_›
    · exact .refl j
  recorded := rfl
  brokenOff _ hid := hid

theorem showing (s : Scheduler) (id : JobId) (status : Job.Status) : Unwritten s (s.showing id status) :=
  update fun j _ _ => { Keeps.refl j with }

theorem touch (h : Touch s t) : Unwritten s t := by
  cases h with
  | noted => exact noted
  | tune id h => exact update fun j _ _ => ⟨(h j).tuned.toLasts, (h j).metadata⟩
  | openGate | subscribe | unsubscribe | countFiring | draw => exact of_queue (Nat.le_refl _) rfl rfl rfl

theorem touches (h : Touches s t) : Unwritten s t := by
  induction h with
  | refl => exact refl s
  | tail _ h ih => exact ih.trans (touch h)

theorem informed (event : Event) (index : Nat) : Unwritten s (s.informed event index) := by
  unfold Scheduler.informed
  split
  · exact refl s
  · split
    · exact refl s
    · exact noted

theorem breakOff (event : Event) : Unwritten s (s.mapQueue (·.breakOff event)) := by
  obtain ⟨ids, hq, hids⟩ := s.queue.breakOff_eq event
  refine { refl s with recorded := by rw [mapQueue_queue, hq], back := ?_, forth := ?_, brokenOff := ?_ } <;>
    rw [mapQueue_queue, hq]
  · exact (refl s).back
  · exact (refl s).forth
  · exact fun id hid => (hids id).mpr (.inl hid)

theorem spreads {event : Event} {indices : List Nat} (h : Spreads event indices b s t) : Unwritten s t := by
  induction h with
  | done => exact refl _
  | next ht _ ih => exact ((informed _ _).trans (touches ht.touches)).trans ih
  | cut ht => exact ((informed _ _).trans (touches ht.touches)).trans (breakOff _)

theorem spread (h : Spread kind id b s t) : Unwritten s t := by
  cases hj : s.queue.job? id with
  | none => exact h.unknown hj ▸ refl s
  | some j => exact spreads (h.known j hj)

theorem signalling (hf : Fit s) (id : JobId) (reason : Option String) : Unwritten s (s.signalling id reason) := by
  unfold Scheduler.signalling
  rcases signalToken_eq (s := s) id reason with ⟨h, -⟩ | ⟨j, hj, hc, h⟩ <;> rw [h]
  · exact refl s
  · have hsignal : Unwritten s (s.mapQueue (·.update id fun j => { j with token := ⟨true, reason, [], []⟩ })) :=
      update fun k hk hid => by
        -- The job is the one whose token was not signalled before.
        have hfound := Queue.job?_of_mem hf.nodup hk
        rw [hid] at hfound
        exact ⟨(tuned_signal (Option.some.inj (hfound.symm.trans hj)) hc _ rfl).toLasts, rfl⟩
    exact hsignal.trans (of_queue (Nat.le_refl _) rfl rfl rfl)

theorem halted (hf : Fit s) (h : Halted id b s t) : Unwritten s t := by
  cases b <;> cases h
  · exact (signalling hf id _).trans noted
  · exact refl s

theorem spawned (h : Spawned id b s t) : Unwritten s t := by
  cases b <;> cases h
  · exact of_queue (Nat.le_refl _) rfl rfl rfl
  · exact refl s

theorem unparking (s : Scheduler) : Unwritten s s.unparking := by
  unfold Scheduler.unparking
  split
  · exact of_queue (Nat.le_refl _) rfl rfl rfl
  · exact refl s

theorem recover (s : Scheduler) : Unwritten s (s.mapQueue Queue.recover) := by
  obtain ⟨e, he⟩ := s.queue.recover_eq
  rw [mapQueue, he]
  exact of_queue (Nat.le_refl _) rfl rfl rfl

theorem pausing (s : Scheduler) (task : TaskId) (id : JobId) (pause : Pause) (phase : Phase) :
    Unwritten s (s.pausing task id pause phase) := by
  cases pause with
  | turn | sleep | gate => exact of_queue (Nat.le_refl _) rfl rfl rfl
  | token =>
    have hpark : Unwritten s (s.mapQueue (·.update id fun j => { j with token := j.token.park task })) :=
      update fun j _ _ => { Keeps.refl j with signalled := fun h => h, reason := fun _ => rfl }
    exact hpark.trans (of_queue (Nat.le_refl _) rfl rfl rfl)

theorem idling (s : Scheduler) (task : TaskId) (name : String) (parked killed : Bool) :
    Unwritten s (s.idling task name parked killed) := by
  rcases idling_cases s task name parked killed with ⟨-, h⟩ | ⟨-, -, h⟩ | ⟨-, -, -, h⟩ <;> rw [h] <;>
    exact of_queue (Nat.le_refl _) rfl rfl rfl

theorem kills {task : TaskId} (h : Kills task s t) : Unwritten s t := by
  have hdoomed : Unwritten s (s.doomed task) := of_queue (Nat.le_refl _) rfl rfl rfl
  cases h with
  | ready => exact hdoomed
  | @waiting x a =>
    have hwithdrawn : Unwritten (s.doomed task) ((s.doomed task).withdrawn task a) := by
      cases a with
      | gate | timer | idle => exact of_queue (Nat.le_refl _) rfl rfl rfl
      | token id => exact update fun j _ _ => { Keeps.refl j with signalled := fun h => h, reason := fun _ => rfl }
    exact (hdoomed.trans hwithdrawn).trans (of_queue (Nat.le_refl _) rfl rfl rfl)

end Unwritten

/-- Who cuts short the telling of an end breaks it off. -/
theorem cut_broken {event : Event} {indices : List Nat} (h : Spreads event indices b s t) (hb : b = true)
    (hk : event.kind = .finished) : event.snapshot.id ∈ t.queue.brokenOff := by
  induction h with
  | done => cases hb
  | next _ _ ih => exact ih hb
  | cut => exact Queue.mem_breakOff.mpr (.inr ⟨hk, rfl⟩)

/-! ## What is written -/

/-- Every job is dated, and every entry was made of a job that has ended. A job in the set still has the metadata with which
    it was handed in, and so has its entry. -/
structure Written (D : JobId → Prop) (s : Scheduler) : Prop where
  order : InOrder s
  dated : ∀ j ∈ s.queue.jobs, j.Dated s.loop.now
  metadata : ∀ j ∈ s.queue.jobs, D j.id → j.metadata = j.submission.metadata
  made : ∀ e ∈ s.queue.recorded, ∃ j ∈ s.queue.jobs, j.finalized = true ∧ e.MadeOf j ∧
    (D j.id → e.metadata = j.submission.metadata)

/-- There is an entry of every job that has ended, unless a listener broke it off to tell so. -/
structure Chronicled (D : JobId → Prop) (s : Scheduler) : Prop extends Written D s where
  complete : ∀ j ∈ s.queue.jobs, j.finalized = true → (∃ e ∈ s.queue.recorded, e.jobId = j.id.text) ∨ j.id ∈ s.queue.brokenOff

namespace Written

theorem unwritten (h : s.Written D) (ho : InOrder t) (hu : Unwritten s t) : t.Written D where
  order := ho
  dated k hk := by
    obtain ⟨j, hj, hjk⟩ := hu.back k hk
    exact (h.dated j hj).lasts hjk.toLasts hu.clock
  metadata k hk hd := by
    obtain ⟨j, hj, hjk⟩ := hu.back k hk
    rw [hjk.metadata, hjk.submission]
    exact h.metadata j hj (hjk.id ▸ hd)
  made e he := by
    rw [hu.recorded] at he
    obtain ⟨j, hj, hfin, hm, hd⟩ := h.made e he
    obtain ⟨k, hk, hjk⟩ := hu.forth j hj
    refine ⟨k, hk, hjk.finalized.trans hfin, hm.lasts hjk.toLasts, fun hdk => ?_⟩
    rw [hjk.submission]
    exact hd (hjk.id ▸ hdk)

theorem only (h : s.Written D) (hj : s.queue.job? id = some j) (hk : k ∈ s.queue.jobs) (hid : k.id = id) : k = j := by
  have hfound := Queue.job?_of_mem h.order.fit.nodup hk
  rw [hid] at hfound
  exact Option.some.inj (hfound.symm.trans hj)

/-- A job that has not ended changes. -/
theorem update (h : s.Written D) (ho : InOrder t) {f : Job → Job} (hj : s.queue.job? id = some j) (hopen : j.finalized = false)
    (hid : (f j).id = j.id) (hsub : (f j).submission = j.submission) (hmeta : (f j).metadata = j.metadata)
    (hdated : (f j).Dated s.loop.now) (hq : t.queue.jobs = (s.queue.update id f).jobs) (hr : t.queue.recorded = s.queue.recorded)
    (hn : t.loop.now = s.loop.now) : t.Written D where
  order := ho
  dated k hk := by
    rw [hq] at hk
    obtain ⟨l, hl, rfl⟩ := Queue.mem_update.mp hk
    rw [hn]
    split
    · exact h.only hj hl ‹_› ▸ hdated
    · exact h.dated l hl
  metadata k hk := by
    rw [hq] at hk
    obtain ⟨l, hl, rfl⟩ := Queue.mem_update.mp hk
    split
    · rename_i hlid
      cases h.only hj hl hlid
      rw [hid, hmeta, hsub]
      exact h.metadata _ hl
    · exact h.metadata l hl
  made e he := by
    obtain ⟨l, hl, hfin, hmade⟩ := h.made e (hr ▸ he)
    have hne : l.id ≠ id := fun hlid => by
      rw [h.only hj hl hlid, hopen] at hfin
      cases hfin
    exact ⟨l, hq ▸ Queue.mem_update.mpr ⟨l, hl, if_neg hne⟩, hfin, hmade⟩

/-- The entry of a job that has ended. -/
theorem hand (h : s.Written D) (ho : InOrder t) {path : Option String} (hk : s.queue.job? id = some k) (hfin : k.finalized = true)
    (hpath : k.startedAt = none → path = none) (hq : t.queue.jobs = s.queue.jobs)
    (hr : t.queue.recorded = s.queue.recorded ++ [k.entry path]) (hn : t.loop.now = s.loop.now) : t.Written D where
  order := ho
  dated l hl := hn.symm ▸ h.dated l (hq ▸ hl)
  metadata l hl := h.metadata l (hq ▸ hl)
  made e he := by
    rw [hr] at he
    rw [hq]
    rcases List.mem_append.mp he with he | he
    · exact h.made e he
    · rw [List.mem_singleton.mp he]
      have hm := Queue.job?_mem hk
      exact ⟨k, hm, hfin, entry_madeOf hpath, h.metadata k hm⟩

end Written

namespace Chronicled

theorem unwritten (h : s.Chronicled D) (ho : InOrder t) (hu : Unwritten s t) : t.Chronicled D where
  toWritten := h.toWritten.unwritten ho hu
  complete k hk hfin := by
    obtain ⟨j, hj, hjk⟩ := hu.back k hk
    rw [hjk.id, hu.recorded]
    exact (h.complete j hj (hjk.finalized ▸ hfin)).imp_right (hu.brokenOff j.id)

/-- A job that has not ended changes, and has not ended then either. -/
theorem update (h : s.Chronicled D) (ht : t.Written D) {f : Job → Job} (hj : s.queue.job? id = some j)
    (hf : (f j).finalized = false) (hq : t.queue.jobs = (s.queue.update id f).jobs) (hr : t.queue.recorded = s.queue.recorded)
    (hb : t.queue.brokenOff = s.queue.brokenOff) : t.Chronicled D where
  toWritten := ht
  complete k hk hfin := by
    rw [hq] at hk
    rw [hr, hb]
    obtain ⟨l, hl, rfl⟩ := Queue.mem_update.mp hk
    split at hfin
    · rename_i hlid
      rw [h.only hj hl hlid, hf] at hfin
      cases hfin
    · rename_i hlid
      rw [if_neg hlid]
      exact h.complete l hl hfin

theorem admitting (h : s.Chronicled D) {submission : Submission} {progress : Progress}
    (ho : InOrder (s.admitting submission progress)) : (s.admitting submission progress).Chronicled D where
  order := ho
  dated k hk := by
    rcases List.mem_append.mp hk with hk | hk
    · exact h.dated k hk
    · rw [List.mem_singleton.mp hk]
      exact ⟨fun _ hs => (by cases hs), fun hf => (by cases hf), fun hf => (by cases hf)⟩
  metadata k hk hd := by
    rcases List.mem_append.mp hk with hk | hk
    · exact h.metadata k hk hd
    · rw [List.mem_singleton.mp hk]
      rfl
  made e he := by
    obtain ⟨j, hj, hmade⟩ := h.made e he
    exact ⟨j, List.mem_append_left _ hj, hmade⟩
  complete k hk hfin := by
    rcases List.mem_append.mp hk with hk | hk
    · exact h.complete k hk hfin
    · rw [List.mem_singleton.mp hk] at hfin
      cases hfin

end Chronicled

/-! ## Entry by entry -/

/-- From the one scheduler to the other the chronicle is kept, and it grows by one entry at a time. -/
structure Chronicles (D : JobId → Prop) (s t : Scheduler) : Prop where
  moments : Moments s t
  keeps : t.queue.Quiet → s.Chronicled D → t.Chronicled D
  between : t.queue.Quiet → s.Chronicled D → ∀ n, s.queue.recorded.length ≤ n → n ≤ t.queue.recorded.length →
    ∃ u, Moments s u ∧ Moments u t ∧ u.Chronicled D ∧ u.queue.recorded = t.queue.recorded.take n

/-- What was recorded stays recorded. -/
theorem Moments.recorded (h : Moments s t) : s.queue.recorded <+: t.queue.recorded := by
  obtain ⟨es, hes, -⟩ := h.continues.handed
  exact ⟨es, hes.symm⟩

namespace Chronicles

theorem trans (h₁ : Chronicles D s t) (h₂ : Chronicles D t u) : Chronicles D s u where
  moments := h₁.moments.trans h₂.moments
  keeps hq hs := h₂.keeps hq (h₁.keeps (hq.before h₂.moments.listeners) hs)
  between hq hs n hn hle := by
    have hqt := hq.before h₂.moments.listeners
    by_cases ht : n ≤ t.queue.recorded.length
    · obtain ⟨v, hsv, hvt, hv, hr⟩ := h₁.between hqt hs n hn ht
      refine ⟨v, hsv, hvt.trans h₂.moments, hv, hr.trans ?_⟩
      obtain ⟨es, hes⟩ := h₂.moments.recorded
      rw [← hes, List.take_append_of_le_length ht]
    · obtain ⟨v, htv, hvu, hv, hr⟩ := h₂.between hq (h₁.keeps hqt hs) n (Nat.le_of_not_le ht) hle
      exact ⟨v, h₁.moments.trans htv, hvu, hv, hr⟩

/-- At most one entry is made. -/
theorem of_one (hm : Moments s t) (h : t.queue.Quiet → s.Chronicled D → t.Chronicled D ∧
    t.queue.recorded.length ≤ s.queue.recorded.length + 1) : Chronicles D s t where
  moments := hm
  keeps hq hs := (h hq hs).1
  between hq hs n hn hle := by
    obtain ⟨ht, hlen⟩ := h hq hs
    by_cases hsn : n = s.queue.recorded.length
    · refine ⟨s, .refl, hm, hs, ?_⟩
      obtain ⟨es, hes⟩ := hm.recorded
      rw [← hes, hsn, List.take_left]
    · refine ⟨t, hm, .refl, ht, (List.take_of_length_le ?_).symm⟩
      omega

/-- No entry is made. -/
theorem of_unwritten (hm : Moments s t) (h : t.queue.Quiet → s.Chronicled D → Unwritten s t) : Chronicles D s t :=
  .of_one hm fun hq hs => ⟨hs.unwritten (hs.order.moments hm) (h hq hs), by rw [(h hq hs).recorded]; exact Nat.le_succ _⟩

theorem refl (s : Scheduler) : Chronicles D s s := .of_unwritten .refl fun _ _ => .refl s

/-- A part of which listeners are told, and after which no entry is made. -/
theorem telling (hpart : Moments s v) (hv : s.Chronicled D → v.Chronicled D) (hr : v.queue.recorded = s.queue.recorded)
    (h : Along (Softly Spread) kind id b v t) (hrest : Moments t u) (hu : Fit t → Unwritten t u) : Chronicles D s u := by
  have hm : Moments v u := h.1.moments.trans hrest
  have hrow : Moments s u := hpart.trans hm
  refine .of_one hrow fun hq hs => ?_
  have hspread := h.2 (hq.before hrest.listeners)
  have hwritten : Unwritten v u := (Unwritten.spread hspread).trans (hu (h.1.fit (hv hs).order.fit))
  refine ⟨(hv hs).unwritten (hs.order.moments hrow) hwritten, ?_⟩
  rw [hwritten.recorded, hr]
  exact Nat.le_succ _

end Chronicles

/-- The entry of a job is handed to the store. -/
theorem recording_some {path : Option String} (hk : t.queue.job? id = some k) :
    (t.recording id path).queue.recorded = t.queue.recorded ++ [k.entry path] ∧ (t.recording id path).queue.jobs = t.queue.jobs ∧
      (t.recording id path).queue.brokenOff = t.queue.brokenOff ∧ (t.recording id path).loop.now = t.loop.now := by
  unfold recording
  rcases record_cases (s := t) id path with ⟨hno, -⟩ | ⟨l, hl, ⟨store, -, h⟩ | ⟨-, h⟩⟩
  · cases hk.symm.trans hno
  · cases hk.symm.trans hl
    rw [h]
    exact ⟨rfl, rfl, rfl, rfl⟩
  · cases hk.symm.trans hl
    rw [h]
    exact ⟨rfl, rfl, rfl, rfl⟩

/-- The latest refusal may be forgotten after the entry of a job was handed to the store. -/
theorem closing_recording (t : Scheduler) (id : JobId) :
    t.closing id = t.recording id none ∨ t.closing id = (t.recording id none).mapQueue Queue.recover := by
  unfold closing recording
  rcases (record id none).on t with ⟨e | ⟨⟩, u⟩
  · exact .inl rfl
  · exact .inr rfl

section Ends
variable {status : Job.Status} {path errorMessage message : Option String}

/-- Those who ended before have their entries, when one more has ended. -/
theorem Chronicled.others (h : s.Chronicled D) (hq : v.queue.jobs = (s.queue.update id (·.ended s.loop.now status errorMessage message)).jobs)
    (hr : v.queue.recorded = s.queue.recorded) (hb : v.queue.brokenOff = s.queue.brokenOff) (hu : Unwritten v t)
    (hk : k ∈ t.queue.jobs) (hfin : k.finalized = true) (hne : k.id ≠ id) :
    (∃ e ∈ t.queue.recorded, e.jobId = k.id.text) ∨ k.id ∈ t.queue.brokenOff := by
  obtain ⟨m, hm, hmk⟩ := hu.back k hk
  rw [hq] at hm
  obtain ⟨l, hl, hlm⟩ := Queue.mem_update.mp hm
  rw [hmk.id] at hne ⊢
  by_cases hid : l.id = id
  · rw [if_pos hid] at hlm
    subst hlm
    exact absurd hid hne
  · rw [if_neg hid] at hlm
    subst hlm
    rw [hu.recorded, hr]
    exact (h.complete l hl (hmk.finalized ▸ hfin)).imp_right fun hid => hu.brokenOff _ (hb.symm ▸ hid)

/-- A job ends: listeners are told, and its entry is made unless one of them broke that off. -/
theorem Chronicles.ends (hpart : Moments s v) (hj : s.queue.job? id = some j) (hopen : s.Chronicled D → j.finalized = false)
    (hdropped : s.Chronicled D → j.startedAt = none → errorMessage = none ∧ path = none)
    (hq : v.queue.jobs = (s.queue.update id (·.ended s.loop.now status errorMessage message)).jobs)
    (hr : v.queue.recorded = s.queue.recorded) (hb : v.queue.brokenOff = s.queue.brokenOff) (hn : v.loop.now = s.loop.now)
    (h : Along (Softly Spread) .finished id b v t) (hu : Recorded id path b t u) : Chronicles D s u := by
  have hrest : Unfolds none t u := hu.unfolds
  have hm : Moments s u := (hpart.trans h.1.moments).trans hrest.moments
  refine .of_one hm fun hquiet hs => ?_
  have hdated : (j.ended s.loop.now status errorMessage message).Dated s.loop.now :=
    have hstarted := (hs.dated j (Queue.job?_mem hj)).started
    ⟨hstarted, fun _ => ⟨s.loop.now, rfl, Nat.le_refl _, hstarted⟩, fun _ hs' => (hdropped hs hs').1⟩
  have hv : v.Written D := hs.toWritten.update (hs.order.moments hpart) hj (hopen hs) rfl rfl rfl hdated hq hr hn
  have hspread := h.2 (hquiet.before hrest.listeners)
  have hvt : Unwritten v t := .spread hspread
  have ht : t.Written D := hv.unwritten (hv.order.moments h.1.moments) hvt
  have hended : v.queue.job? id = some (j.ended s.loop.now status errorMessage message) := by
    rw [Queue.job?, hq]
    exact Queue.job?_update_self (by intro; rfl) hj
  have hothers : ∀ k ∈ t.queue.jobs, k.finalized = true → k.id ≠ id →
      (∃ e ∈ t.queue.recorded, e.jobId = k.id.text) ∨ k.id ∈ t.queue.brokenOff := fun k => hs.others hq hr hb hvt
  -- Where a listener broke off, no entry is made, and it is remembered whose end it was.
  cases b with
  | true =>
    obtain rfl : u = t := hu
    refine ⟨⟨ht, fun k hk hfin => ?_⟩, by rw [hvt.recorded, hr]; exact Nat.le_succ _⟩
    by_cases hid : k.id = id
    · have hbroken := cut_broken (hspread.known _ hended) rfl rfl
      change j.id ∈ _ at hbroken
      rw [Queue.job?_id hj] at hbroken
      exact .inr (hid.symm ▸ hbroken)
    · exact hothers k hk hfin hid
  | false =>
    obtain rfl : u = t.recording id path := hu
    obtain ⟨k, hk, htuned⟩ := Queue.tuned_job?_some hspread.hushed.jobs hended
    obtain ⟨hrecorded, hjobs, hbroken, hnow⟩ := recording_some hk
    have hpath : k.startedAt = none → path = none := fun hnone => (hdropped hs (htuned.startedAt ▸ hnone)).2
    refine ⟨⟨ht.hand (hs.order.moments hm) hk htuned.finalized hpath hjobs hrecorded hnow, fun l hl hfin => ?_⟩, ?_⟩
    · rw [hjobs] at hl
      rw [hrecorded, hbroken]
      by_cases hid : l.id = id
      · refine .inl ⟨k.entry path, List.mem_append_right _ (List.mem_singleton_self _), ?_⟩
        rw [hid, ← Queue.job?_id hk]
        rfl
      · exact (hothers l hl hfin hid).imp_left (Exists.imp fun _ h => h.imp_left (List.mem_append_left _))
    · rw [hrecorded, hvt.recorded, hr, List.length_append, List.length_singleton]

end Ends

/-! ## What scripts do -/

theorem taking_chronicled (h : s.Chronicled D) {q : Queue} (hq : s.queue.startNext? = some (id, q)) : (s.taking id q).Chronicled D := by
  obtain ⟨rest, e, hw, he⟩ := taking_eq hq
  obtain ⟨j, hj, hopen⟩ := h.order.fit.waits id (hw ▸ List.mem_cons_self)
  have hdated : (j.started s.loop.now).Dated s.loop.now := by
    refine ⟨fun n hn => ?_, fun hfin => ?_, fun hfin => ?_⟩
    · cases hn
      exact Nat.le_refl _
    · cases hopen.symm.trans hfin
    · cases hopen.symm.trans hfin
  have hjobs : (s.taking id q).queue.jobs = (s.queue.update id (·.started s.loop.now)).jobs := by rw [he]; rfl
  have hrecorded : (s.taking id q).queue.recorded = s.queue.recorded := by rw [he]; rfl
  have hwritten : (s.taking id q).Written D :=
    h.toWritten.update (h.order.take hq) hj hopen rfl rfl rfl hdated hjobs hrecorded rfl
  exact h.update hwritten hj hopen hjobs hrecorded (by rw [he]; rfl)

theorem Chronicles.leave {message : Option String} {l : Loop TimerAction} (hi : id ∈ s.queue.waiting)
    (hj : s.queue.job? id = some j) (hl : l = s.loop ∨ l = s.loop.disarm (.expire id))
    (h : Along (Softly Spread) .finished id b (s.leaving id message l) t) (hu : Closes id b t u) : Chronicles D s u := by
  have hpart : Unfolds none s (s.leaving id message l) := leaving_unfolds hi hj hl message
  have hnow : l.now = s.loop.now := by rcases hl with rfl | rfl <;> rfl
  have hopen : s.Chronicled D → j.finalized = false := fun hs => by
    obtain ⟨k, hk, hopen⟩ := hs.order.fit.waits id hi
    cases hj.symm.trans hk
    exact hopen
  have hends : ∀ {w}, Recorded id none b t w → Chronicles D s w := fun hw =>
    .ends hpart.moments hj hopen (fun _ _ => ⟨rfl, rfl⟩) (by rw [← hnow]; rfl) rfl rfl hnow h hw
  cases b with
  | true => exact hends hu
  | false =>
    obtain rfl : u = t.closing id := hu
    have hrecording : Chronicles D s (t.recording id none) := hends rfl
    rcases closing_recording t id with he | he <;> rw [he]
    · exact hrecording
    · exact hrecording.trans (.of_unwritten (.inert .recover) fun _ _ => .recover _)

end Scheduler

open Scheduler in
/-- Whatever scripts and commands do, the chronicle is kept. -/
theorem Does.chronicles {D : JobId → Prop} {b : Bool} {s t : Scheduler} (h : Does (Softly Spread) b s t) : Chronicles D s t := by
  induction h with
  | still | halt => exact .refl _
  | trans _ _ ih₁ ih₂ => exact ih₁.trans ih₂
  | touch h => exact .of_unwritten (.inert h.inert) fun _ _ => .touch h
  | signal hf hid =>
    exact .of_unwritten (Unfolds.moments (Does.unfolds (N := Softly Spread) (.signal hf hid))) fun _ _ => .signalling hf _ _
  | @ask b s t u id j hf hid hj hst hst' h hu =>
    have hpart : Unfolds none s (s.showing id .cancelling) := showing_unfolds hid hj hst hst'
    have hshown : Unfolds none s t := hpart.trans h.1
    have hrest : Unfolds none t u := hu.unfolds (hshown.fit hf) (hshown.active hid)
    exact .telling hpart.moments (fun hs => hs.unwritten (hs.order.moments hpart.moments) (.showing s id .cancelling)) rfl h
      hrest.moments fun hf => .halted hf hu
  | leave hf hid hj hl h hu => exact .leave hid hj hl h hu
  | unpark => exact .of_unwritten (.inert (unparking_inert _)) fun _ _ => .unparking _
  | @refuse s submission hf =>
    exact .of_unwritten (Unfolds.moments (Does.unfolds (N := Softly Spread) (.refuse submission hf))) fun _ _ =>
      .of_queue (Nat.le_refl _) rfl rfl rfl
  | @enter b s t submission progress hf hfull h =>
    have hpart : Unfolds none s (s.admitting submission progress) := admitting_unfolds submission progress hfull
    exact .telling hpart.moments (fun hs => hs.admitting (hs.order.moments hpart.moments)) rfl h .refl fun _ => .refl t
  | @arm s id x hx =>
    exact .of_unwritten (Unfolds.moments (Does.unfolds (N := Softly Spread) (.arm hx))) fun _ _ => .of_queue (Nat.le_refl _) rfl rfl rfl
  | @start b s t u id q hf hq h hu =>
    have hpart : Unfolds none s (s.taking id q) := .one (.take hq)
    have hrest : Unfolds none t u := hu.unfolds (h.1.active (mem_taking hq))
    obtain ⟨rest, e, -, he⟩ := taking_eq hq
    exact .telling hpart.moments (fun hs => taking_chronicled hs hq) (by rw [he]; rfl) h hrest.moments fun _ => .spawned hu

namespace Scheduler
variable {D : JobId → Prop} {s t u v : Scheduler} {id : JobId} {j k : Job} {b c d killed : Bool} {status : Job.Status}
  {task : TaskId} {phase : Phase}

/-! ## Turns -/

theorem Works.chronicles (h : Works (Softly Spread) id c d b s t) : Chronicles D s t := by
  induction h with
  | does h => exact h.chronicles
  | @cools b s t j hu hc h =>
    have hfree : s.queue.isCancelled id = false := by rw [Queue.isCancelled, hu.job]; exact hc
    have hpart : Unfolds (some id) s (s.showing id .coolingDown) := .one (.cool rfl hu.active hfree)
    exact .telling hpart.moments (fun hs => hs.unwritten (hs.order.moments hpart.moments) (.showing s id .coolingDown)) rfl h .refl
      fun _ => .refl t
  | trans _ _ ih₁ ih₂ => exact ih₁.trans ih₂

/-- An active job has started. -/
theorem Written.started (h : s.Written D) (ha : id ∈ s.queue.active) (hj : s.queue.job? id = some j) : j.startedAt ≠ none := by
  have hstarted := (h.order.begun id j hj).mpr (h.order.active id ha)
  intro hno
  rw [hno] at hstarted
  cases hstarted

theorem Concludes.chronicles (h : Concludes (Softly Spread) id c status b s t) : Chronicles D s t := by
  cases h with
  | @ends j path errorMessage message w _ hu _ _ _ h hr =>
    have hpart : Unfolds (some id) s (s.ending id status errorMessage message) := .one (.finish rfl hu.active hu.job hu.unended)
    exact .ends hpart.moments hu.job (fun _ => hu.unended) (fun hs hno => absurd hno (hs.started hu.active hu.job)) rfl rfl rfl rfl
      h hr

theorem Chronicles.retire (task : TaskId) : Chronicles D s (s.retire task) :=
  .of_unwritten (.inert (retire_inert s task)) fun _ _ => .of_queue (Nat.le_refl _) rfl rfl rfl

/-- Once the slot of a job is free, the next ones start. -/
theorem Vacates.chronicles (h : Vacates (Softly Spread) id s t) : Chronicles D s t := by
  have hrelease : Chronicles D s (s.mapQueue (·.release id)) :=
    .of_unwritten (.single (.release id)) fun _ _ => .of_queue (Nat.le_refl _) rfl rfl rfl
  cases h with
  | fills h => exact (hrelease.trans h.does.chronicles).trans (.of_unwritten (.inert (unparking_inert _)) fun _ _ => .unparking _)
  | cut h => exact hrelease.trans h.does.chronicles

theorem TurnOf.chronicles (h : TurnOf (Softly Spread) task id phase killed s t) (hphase : s.phase? task = some (id, phase)) :
    Chronicles D s t := by
  cases h with
  | waits _ hw =>
    obtain ⟨between, hb, -⟩ := hw.unfolds.phase hphase
    exact hw.chronicles.trans (.of_unwritten (pausing_moments ⟨between, hb⟩ _ _) fun _ _ => .pausing _ _ _ _ _)
  | ends _ hw hc ht hv =>
    exact (((hw.chronicles.trans hc.chronicles).trans (.retire task)).trans
      (.of_unwritten (.inert ht.inert) fun _ _ => .touches ht)).trans hv.chronicles
  | stops _ hw hc hv => exact ((hw.chronicles.trans (.retire task)).trans hc.chronicles).trans hv.chronicles

/-! ## Steps -/

/-- The metadata of a job in the set are left alone. -/
def Spares (D : JobId → Prop) (s t : Scheduler) : Prop :=
  ∀ id j k, D id → s.queue.job? id = some j → t.queue.job? id = some k → k.metadata = j.metadata

/-- Who handed a job in changes its metadata. -/
theorem Chronicled.annotated (h : s.Chronicled D) {m : Members} (hd : Spares D s (s.annotated id m)) :
    (s.annotated id m).Chronicled D := by
  have hlasts : ∀ j : Job, Lasts j (if j.id = id then { j with metadata := some m } else j) := fun j => by
    split
    · exact { Lasts.refl j with }
    · exact .refl j
  have hinert := annotated_inert s id m
  have hsame : ∀ k ∈ (s.annotated id m).queue.jobs, ∃ j ∈ s.queue.jobs, Lasts j k ∧ (D k.id → k.metadata = j.metadata) := by
    intro k hk
    obtain ⟨j, hj, rfl⟩ := Queue.mem_update.mp hk
    refine ⟨j, hj, hlasts j, fun hdk => ?_⟩
    rw [(hlasts j).id] at hdk
    have hfound := Queue.job?_of_mem (h.order.fit.stays hinert.toStays).nodup hk
    rw [(hlasts j).id] at hfound
    exact hd j.id j _ hdk (Queue.job?_of_mem h.order.fit.nodup hj) hfound
  refine ⟨⟨h.order.moments (.inert hinert), fun k hk => ?_, fun k hk hdk => ?_, fun e he => ?_⟩, fun k hk hfin => ?_⟩
  · obtain ⟨j, hj, hjk, -⟩ := hsame k hk
    exact (h.dated j hj).lasts hjk (Nat.le_refl _)
  · obtain ⟨j, hj, hjk, hmeta⟩ := hsame k hk
    rw [hmeta hdk, hjk.submission]
    exact h.metadata j hj (hjk.id ▸ hdk)
  · obtain ⟨j, hj, hfin, hmade, hmeta⟩ := h.made e he
    refine ⟨_, Queue.mem_update.mpr ⟨j, hj, rfl⟩, (hlasts j).finalized.trans hfin, hmade.lasts (hlasts j), fun hdj => ?_⟩
    rw [(hlasts j).submission]
    exact hmeta ((hlasts j).id ▸ hdj)
  · obtain ⟨j, hj, hjk, -⟩ := hsame k hk
    rw [hjk.id]
    exact h.complete j hj (hjk.finalized ▸ hfin)

theorem next?_now {l l' : Loop TimerAction} {task : TaskId} (h : l.next? = some (task, l')) : l'.now = l.now := by
  unfold Loop.next? at h
  split at h <;> cases h
  rfl

theorem fire?_now {l l' : Loop TimerAction} {time : Nat} {action : TimerAction} (h : l.fire? time = some (action, l')) :
    l.now ≤ l'.now := by
  unfold Loop.fire? at h
  split at h
  · cases h
  · split at h <;> cases h
    exact Nat.le_max_left _ _

theorem Unwritten.loop {l : Loop TimerAction} (hn : s.loop.now ≤ l.now) : Unwritten s { s with loop := l } := .of_queue hn rfl rfl rfl

/-- Every step keeps the chronicle. -/
theorem Deed.chronicles (h : Deed (Softly Spread) (Does (Softly Spread)) s t) (hs : Settled s) (hd : Spares D s t) :
    Chronicles D s t := by
  -- The loop may take a task or a timer first, which concerns no job.
  have taken : ∀ {task : TaskId} {l : Loop TimerAction}, s.loop.next? = some (task, l) → Chronicles D s (heeding { s with loop := l } task) :=
    fun {task l} hnext => .of_unwritten
      (.inert (.turning hnext))
      fun _ _ => .of_queue (Nat.le_of_eq (next?_now hnext).symm) rfl rfl rfl
  have fired : ∀ {action : TimerAction} {time : Nat} {l : Loop TimerAction}, s.loop.fire? time = some (action, l) →
      Chronicles D s { s with loop := l } :=
    fun hfire => .of_unwritten (.inert (.fired hfire))
      fun _ _ => .loop (fire?_now hfire)
  cases h with
  | does h => exact h.chronicles
  | kills h => exact .of_unwritten (.inert (h.inert hs.fit)) fun _ _ => .kills h
  | annotates id m =>
    exact .of_one (.inert (annotated_inert s id m)) fun _ h => ⟨h.annotated hd, Nat.le_succ _⟩
  | joins name => exact .of_unwritten (.inert .spawn) fun _ _ => .of_queue (Nat.le_refl _) rfl rfl rfl
  | @rests task l hnext _ =>
    exact .of_unwritten (.inert (.next hnext)) fun _ _ => .loop (Nat.le_of_eq (next?_now hnext).symm)
  | drops hnext _ _ _ _ => exact (taken hnext).trans (.retire _)
  | @plays task l x i phase j t hnext hx _ hwork _ _ hturn =>
    exact (taken hnext).trans (hturn.chronicles (turning_phase hnext hx hwork))
  | @waits task l x name parked hnext hx _ hwork =>
    exact (taken hnext).trans (.of_unwritten (.inert (idling_turn hs.fit hx hwork l)) fun _ _ => .idling _ task name parked x.killed)
  | expires hfire h => exact (fired hfire).trans h.chronicles
  | wakes hfire => exact (fired hfire).trans (.of_unwritten (.inert (.wake _)) fun _ _ => .of_queue (Nat.le_refl _) rfl rfl rfl)
  | moveTo time => exact .of_unwritten (.inert (.loop fun _ hm _ _ => hm)) fun _ _ => .loop (Nat.le_max_left _ _)

end Scheduler
end MediaEngine
