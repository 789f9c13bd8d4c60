import MediaEngine.Proofs.Evolution.Inert

/-! # What holds even while an event is told

In the middle of an operation a job may have left its place and not yet reached the next one. What the
queue keeps even then is `Fit`: numbers are distinct and below the next one, a job waits at most once and
has not ended while it does, a job that is active does not wait, and every entry is of a job. -/

namespace MediaEngine.Scheduler
open Job

structure Fit (s : Scheduler) : Prop where
  nodup : s.queue.ids.Nodup
  fresh : ∀ id ∈ s.queue.ids, id < s.queue.nextId
  once_waiting : s.queue.waiting.Nodup
  once_active : s.queue.active.Nodup
  waits : ∀ id ∈ s.queue.waiting, ∃ j, s.queue.job? id = some j ∧ j.finalized = false
  apart : ∀ id ∈ s.queue.active, ¬ s.Upcoming id
  filed : ∀ e ∈ s.queue.recorded, ∃ id ∈ s.queue.ids, e.jobId = id.text

namespace Fit
variable {s t : Scheduler} {id : JobId} {q : Queue} {now : Nat} {l : Loop TimerAction}

theorem start (settings : Settings) (store : Store) (directory : String) (budget : Nat) :
    Fit (start settings store directory budget) where
  nodup := List.nodup_nil
  fresh := by simp [Scheduler.start, Queue.start, Queue.ids]
  once_waiting := List.nodup_nil
  once_active := List.nodup_nil
  waits := by simp [Scheduler.start, Queue.start]
  apart := by simp [Scheduler.start, Queue.start]
  filed := by simp [Scheduler.start, Queue.start]

theorem waiting_lt (h : Fit s) (hid : id ∈ s.queue.waiting) : id < s.queue.nextId := by
  obtain ⟨j, hj, -⟩ := h.waits id hid
  exact h.fresh id (Queue.job?_mem_ids hj)

/-- The next number was given to no job. -/
theorem nextId_fresh (h : Fit s) : s.queue.nextId ∉ s.queue.ids := fun hm => Nat.lt_irrefl _ (h.fresh _ hm)

/-- A job that is admitted is found by its number, and all others as before. -/
theorem job?_admitted (h : Fit s) (submission : Submission) (progress : Progress) (i : JobId) :
    (s.queue.draw.enlist (.admitted s.queue.nextId submission progress)).job? i =
      if i = s.queue.nextId then some (.admitted s.queue.nextId submission progress) else s.queue.job? i :=
  Queue.job?_enlist h.nextId_fresh i

theorem stays (h : Fit s) (hs : Stays s t) : Fit t where
  nodup := by rw [Queue.tuned_ids hs.jobs]; exact h.nodup
  fresh id hid := by
    rw [Queue.tuned_ids hs.jobs] at hid
    exact Nat.lt_of_lt_of_le (h.fresh id hid) hs.nextId
  once_waiting := by rw [hs.waiting]; exact h.once_waiting
  once_active := by rw [hs.active]; exact h.once_active
  waits id hid := by
    rw [hs.waiting] at hid
    obtain ⟨j, hj, hopen⟩ := h.waits id hid
    obtain ⟨k, hk, ht⟩ := Queue.tuned_job?_some hs.jobs hj
    exact ⟨k, hk, ht.finalized.trans hopen⟩
  apart id hid hup := by
    rw [hs.active] at hid
    refine h.apart id hid ?_
    rcases hup with hw | hn
    · exact .inl (hs.waiting ▸ hw)
    · exact .inr (Nat.le_trans hs.nextId hn)
  filed e he := by
    rw [Queue.tuned_ids hs.jobs]
    rcases hs.filed e he with he | he
    · exact h.filed e he
    · exact he

/-- A job that does not wait may be changed at will as long as it keeps its number. -/
theorem update (h : Fit s) {f : Job → Job} (hf : ∀ j, (f j).id = j.id) (hid : id ∉ s.queue.waiting)
    (l : Loop TimerAction) : Fit { s with queue := s.queue.update id f, loop := l } where
  nodup := by rw [Queue.ids_update hf]; exact h.nodup
  fresh i hi := by rw [Queue.ids_update hf] at hi; exact h.fresh i hi
  once_waiting := h.once_waiting
  once_active := h.once_active
  waits i hi := by
    have hne : i ≠ id := fun he => hid (he ▸ hi)
    rw [Queue.job?_update_ne hf hne]
    exact h.waits i hi
  apart := h.apart
  filed := by rw [Queue.ids_update hf]; exact h.filed

theorem nodup_snoc {l : List Nat} {a : Nat} (h : l.Nodup) (ha : a ∉ l) : (l ++ [a]).Nodup := by
  refine List.nodup_append.mpr ⟨h, List.nodup_singleton a, fun b hb c hc hbc => ha ?_⟩
  rw [← List.mem_singleton.mp hc, ← hbc]
  exact hb

theorem enroll (h : Fit s) (submission : Submission) (progress : Progress) :
    Fit (s.mapQueue fun q => q.draw.enlist (.admitted q.nextId submission progress)) := by
  have hnotw : s.queue.nextId ∉ s.queue.waiting := fun hm => Nat.lt_irrefl _ (h.waiting_lt hm)
  have hjob := h.job?_admitted submission progress
  have hids : (s.queue.draw.enlist (.admitted s.queue.nextId submission progress)).ids =
      s.queue.ids ++ [s.queue.nextId] := Queue.ids_enlist _ _
  -- The new job waits under a number above all others; nothing else changes.
  constructor <;> simp only [mapQueue_queue]
  · rw [hids]
    exact nodup_snoc h.nodup h.nextId_fresh
  · intro i hi
    rw [hids] at hi
    rcases List.mem_append.mp hi with hi | hi
    · exact Nat.lt_succ_of_lt (h.fresh i hi)
    · rw [List.mem_singleton.mp hi]
      exact Nat.lt_succ_self _
  · exact nodup_snoc h.once_waiting hnotw
  · exact h.once_active
  · intro i hi
    rcases List.mem_append.mp hi with hi | hi
    · obtain ⟨j, hj, hopen⟩ := h.waits i hi
      refine ⟨j, ?_, hopen⟩
      rw [hjob, if_neg fun he : i = s.queue.nextId => hnotw (he ▸ hi)]
      exact hj
    · have hid : i = s.queue.nextId := List.mem_singleton.mp hi
      rw [hjob, if_pos hid]
      exact ⟨_, rfl, rfl⟩
  · intro i hi hup
    refine h.apart i hi ?_
    rcases hup with hw | hn
    · rcases List.mem_append.mp hw with hw | hw
      · exact .inl hw
      · rw [List.mem_singleton.mp hw]
        exact .inr (Nat.le_refl _)
    · exact .inr (Nat.le_of_succ_le hn)
  · intro e he
    obtain ⟨i, hi, ht⟩ := h.filed e he
    exact ⟨i, hids ▸ List.mem_append_left _ hi, ht⟩

theorem take (h : Fit s) (hq : s.queue.startNext? = some (id, q)) (now : Nat) (l : Loop TimerAction) :
    Fit { s with queue := q.recover.activate id now, loop := l } := by
  obtain ⟨rest, e, hw, he⟩ := Queue.activate_eq hq now
  have hn : (id :: rest).Nodup := hw ▸ h.once_waiting
  have hid : id ∈ s.queue.waiting := hw ▸ List.mem_cons_self
  have hsub : ∀ i ∈ rest, i ∈ s.queue.waiting := fun i hi => hw ▸ List.mem_cons_of_mem _ hi
  have keeps : ∀ j : Job, (j.started now).id = j.id := fun _ => rfl
  rw [he]
  constructor
  · rw [Queue.ids_update keeps]
    exact h.nodup
  · intro i hi
    rw [Queue.ids_update keeps] at hi
    exact h.fresh i hi
  · exact hn.of_cons
  · exact nodup_snoc h.once_active fun hm => h.apart id hm (.inl hid)
  · intro i hi
    obtain ⟨j, hj, hopen⟩ := h.waits i (hsub i hi)
    have hne : i ≠ id := fun he => (List.nodup_cons.mp hn).1 (he ▸ hi)
    exact ⟨j, (Queue.job?_update_ne keeps hne).trans hj, hopen⟩
  · intro i hi hup
    rcases List.mem_append.mp hi with hi | hi
    · exact h.apart i hi (hup.imp_left (hsub i))
    · rw [List.mem_singleton.mp hi] at hup
      rcases hup with hw' | hn'
      · exact (List.nodup_cons.mp hn).1 hw'
      · exact absurd (h.waiting_lt hid) (Nat.not_lt.mpr hn')
  · rw [Queue.ids_update keeps]
    exact h.filed

theorem withdraw (h : Fit s) (id : JobId) (l : Loop TimerAction) :
    Fit { s with queue := s.queue.withdraw id, loop := l } where
  nodup := h.nodup
  fresh := h.fresh
  once_waiting := h.once_waiting.erase id
  once_active := h.once_active
  waits i hi := h.waits i (List.mem_of_mem_erase hi)
  apart i hi hup := h.apart i hi (hup.imp_left List.mem_of_mem_erase)
  filed := h.filed

theorem not_mem_withdraw (h : Fit s) (id : JobId) : id ∉ (s.queue.withdraw id).waiting :=
  h.once_waiting.not_mem_erase

/-- A job that is taken out of those that wait is not upcoming any longer. -/
theorem past_withdraw (h : Fit s) (hid : id ∈ s.queue.waiting) (l : Loop TimerAction) :
    ¬ Upcoming { s with queue := s.queue.withdraw id, loop := l } id := by
  rintro (hw | hn)
  · exact h.not_mem_withdraw id hw
  · exact Nat.lt_irrefl _ (Nat.lt_of_lt_of_le (h.waiting_lt hid) hn)

theorem release (h : Fit s) (id : JobId) : Fit (s.mapQueue (·.release id)) where
  __ := h
  once_active := h.once_active.erase id
  apart i hi := h.apart i (List.mem_of_mem_erase hi)

theorem breakOff (h : Fit s) (event : Event) : Fit (s.mapQueue (·.breakOff event)) := by
  obtain ⟨ids, hq, -⟩ := s.queue.breakOff_eq event
  rw [mapQueue, hq]
  exact { h with }

/-- What the queue keeps while an event is told is kept however things evolve. -/
theorem evolves {told : Option Event} {b : Bool} (h : Fit s) (he : Evolves told b s t) : Fit t := by
  induction he with
  | steady hs => exact h.stays hs.toStays
  | halt => exact h
  | trans _ _ ih₁ ih₂ => exact ih₂ (ih₁ h)
  | hear who => exact h.stays (.of_queue rfl)
  | breakOff _ ih => exact (ih h).breakOff _
  | enroll submission progress _ => exact h.enroll submission progress
  | start hq _ hc ih => exact (ih (h.take hq _ _)).stays hc.stays
  | ask hid _ _ _ _ hc ih =>
    exact (ih (h.update (by intro; rfl) (fun hw => h.apart _ hid (.inl hw)) _)).stays hc.stays
  | @leave _ _ s _ _ _ _ _ _ _ _ _ _ _ hc ih =>
    exact (ih ((h.withdraw _ s.loop).update (by intro; rfl) (h.not_mem_withdraw _) _)).stays hc.stays

end Fit

end MediaEngine.Scheduler

namespace MediaEngine.Evolves
open Job Scheduler
variable {told : Option Event} {b : Bool} {s t : Scheduler} {id : JobId}

/-- A job that is active stays so: none ends here that is. -/
theorem active (h : Evolves told b s t) (hid : id ∈ s.queue.active) : id ∈ t.queue.active := by
  induction h with
  | steady hs => rw [hs.active]; exact hid
  | halt => exact hid
  | trans _ _ ih₁ ih₂ => exact ih₂ (ih₁ hid)
  | hear => exact hid
  | @breakOff event _ t _ ih =>
    obtain ⟨ids, hq, -⟩ := t.queue.breakOff_eq event
    rw [mapQueue_queue, hq]
    exact ih hid
  | enroll => exact hid
  | start hq _ hc ih =>
    obtain ⟨-, rest, -, rfl⟩ := Queue.startNext?_eq hq
    rw [hc.stays.active]
    refine ih (List.mem_append_left _ ?_)
    rw [Queue.recover_active]
    exact hid
  | ask _ _ _ _ _ hc ih => rw [hc.stays.active]; exact ih hid
  | leave _ _ _ hc ih => rw [hc.stays.active]; exact ih hid

theorem upcoming_of_stays (hs : Stays s t) (hu : t.Upcoming id) : s.Upcoming id := by
  rcases hu with hw | hn
  · exact .inl (hs.waiting ▸ hw)
  · exact .inr (Nat.le_trans hs.nextId hn)

theorem upcoming_breakOff (event : Event) : (s.mapQueue (·.breakOff event)).Upcoming id ↔ s.Upcoming id := by
  obtain ⟨ids, hq, -⟩ := s.queue.breakOff_eq event
  rw [mapQueue, hq]
  rfl

/-- What is upcoming in the end was so in the beginning. -/
theorem upcoming (h : Evolves told b s t) (hu : t.Upcoming id) : s.Upcoming id := by
  induction h with
  | steady hs => exact upcoming_of_stays hs.toStays hu
  | halt => exact hu
  | trans _ _ ih₁ ih₂ => exact ih₁ (ih₂ hu)
  | hear => exact hu
  | breakOff _ ih => exact ih ((upcoming_breakOff _).mp hu)
  | @enroll _ s =>
    rcases hu with hw | hn
    · rcases List.mem_append.mp hw with hw | hw
      · exact .inl hw
      · exact .inr (Nat.le_of_eq (List.mem_singleton.mp hw).symm)
    · exact .inr (Nat.le_of_succ_le hn)
  | start hq _ hc ih =>
    obtain ⟨rest, e, hw, he⟩ := Queue.activate_eq hq _
    have hu' := ih (upcoming_of_stays hc.stays hu)
    rw [he] at hu'
    exact hu'.imp_left fun hm => hw ▸ List.mem_cons_of_mem _ hm
  | ask _ _ _ _ _ hc ih => exact ih (upcoming_of_stays hc.stays hu)
  | leave _ _ _ hc ih =>
    exact (ih (upcoming_of_stays hc.stays hu)).imp_left List.mem_of_mem_erase

/-- No job is lost, and nothing else comes into the history than what is recorded. -/
theorem continues (h : Evolves told b s t) : Queue.Continues s.queue t.queue := by
  induction h with
  | steady hs => exact hs.continues
  | halt => exact .refl _
  | trans _ _ ih₁ ih₂ => exact ih₁.trans ih₂
  | hear => exact .refl _
  | breakOff _ ih => exact ih.trans (.breakOff _ _)
  | @enroll _ s => exact .of_knows (.enlist s.queue.draw _) rfl rfl rfl
  | @start _ _ _ _ _ _ _ now _ hq _ hc ih =>
    refine Queue.Continues.trans ?_ (ih.trans hc.stays.continues)
    have hknows := Queue.Knows.start hq now
    obtain ⟨rest, e, -, he⟩ := Queue.activate_eq hq now
    rw [he] at hknows ⊢
    exact .of_knows hknows rfl rfl rfl
  | ask _ _ _ _ _ hc ih =>
    refine Queue.Continues.trans ?_ (ih.trans hc.stays.continues)
    exact .of_knows (Queue.Knows.update _ _ (by intro; rfl) (by intro; rfl)) rfl rfl rfl
  | leave _ _ _ hc ih =>
    refine Queue.Continues.trans ?_ (ih.trans hc.stays.continues)
    exact .of_knows (Queue.Knows.update _ _ (by intro; rfl) (by intro; rfl)) rfl rfl rfl

end MediaEngine.Evolves
