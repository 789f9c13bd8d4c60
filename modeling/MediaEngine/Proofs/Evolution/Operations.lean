import MediaEngine.Proofs.Evolution.Tells

/-! # The operations of a queue evolve

A relation that knows which event is told tells each operation, for any way of telling listeners that this
relation tells (`Notifies`). What listeners do is on the other side of that assumption; it is met later, by
induction on how deep listeners may call back. -/

namespace MediaEngine.Scheduler
open Job Queue

/-- What the queue relies on when it tells listeners of an event: all metadata can be copied, the relation tells what
    they do, only the fault of a cancelled task comes back, and on the end of a job it is remembered then. -/
structure Notifies (R : Option Event → Bool → Scheduler → Scheduler → Prop) (notify : Notify) : Prop where
  copies : notify.copies = .total
  leads : ∀ told kind id s, kind ≠ .finished → Leads (R told) s (notify kind id)
  ends : ∀ id s j, s.queue.job? id = some j → Leads (R (some ⟨.finished, j.snapshot⟩)) s (notify .finished id)
  fault : ∀ kind id s e t, (notify kind id).on s = (.error e, t) → e = .taskCancelled
  breaks : ∀ id s t, (notify .finished id).on s = (.error .taskCancelled, t) → id ∈ t.queue.brokenOff

/-- What telling listeners comes to by a relation that knows which event is told. -/
def hearsay (R : Option Event → Bool → Scheduler → Scheduler → Prop) (told : Option Event) : Telling := fun kind id b s t =>
  match kind with
  | .queued => R told b s t
  | .started => R none b s t
  | .status => R none b s t
  | .finished =>
    (∀ j, s.queue.job? id = some j → R (some ⟨.finished, j.snapshot⟩) b s t) ∧ (b = true → id ∈ t.queue.brokenOff)

section Operations
variable {R : Option Event → Bool → Scheduler → Scheduler → Prop} {notify : Notify} {told : Option Event}
  {s t : Scheduler} {id : JobId} {j : Job}

theorem Notifies.tells (hn : Notifies R notify) (told : Option Event) : Tells (hearsay R told) notify := by
  refine ⟨hn.copies, fun kind id s => ?_, hn.fault⟩
  cases kind with
  | queued => exact hn.leads told .queued id s (by decide)
  | started => exact hn.leads none .started id s (by decide)
  | status => exact hn.leads none .status id s (by decide)
  | finished =>
    refine fun hfit => ⟨fun j hj => hn.ends id s j hj hfit, fun hb => ?_⟩
    rcases hr : (notify .finished id).on s with ⟨e | ⟨⟩, t⟩ <;> rw [hr] at hb
    · cases hn.fault _ _ _ _ _ hr
      exact hn.breaks id s t hr
    · cases hb

/-! ## Ends of jobs -/

/-- Handing an entry to the store: what follows it is inert. -/
theorem recording_inert (s : Scheduler) (id : JobId) (path : Option String) : Inert (s.keep id path) (s.recording id path) := by
  unfold recording keep
  rcases record_cases (s := s) id path with ⟨hj, h⟩ | ⟨j, hj, ⟨store, hs, h⟩ | ⟨hs, h⟩⟩ <;> simp only [hj, h]
  · exact .refl s
  · rw [hs]
    exact .noted rfl rfl
  · rw [hs]
    exact .refl _

theorem closing_inert (s : Scheduler) (id : JobId) : Inert (s.keep id none) (s.closing id) := by
  have h := recording_inert s id none
  unfold recording at h
  unfold closing
  rcases hr : (record id none).on s with ⟨e | ⟨⟩, t⟩ <;> rw [hr] at h
  · exact h
  · exact h.trans .recover

theorem unparking_inert (s : Scheduler) : Inert s s.unparking := by
  unfold unparking
  split
  · exact (Inert.park []).trans (.wake _)
  · exact .refl s

/-- Letting those go on who wait for the queue to be idle is inert. -/
theorem releaseParked_on : ∃ t, releaseParked.on s = (.ok (), t) ∧ Inert s t :=
  ⟨_, releaseParked_unparking, unparking_inert s⟩

/-- A job that has not ended ends: how it ended is settled, listeners are told, and its entry is kept. -/
theorem finish_on (hn : Notifies R notify) (hfit : Fit s) (hid : id ∉ s.queue.waiting)
    (hj : s.queue.job? id = some j) (hopen : j.finalized = false) (status : Job.Status)
    (path errorMessage message : Option String) :
    ∃ r t u, (finish notify id status path errorMessage message).on s = (r, u) ∧
      R (some ⟨.finished, (j.ended s.loop.now status errorMessage message).snapshot⟩) (Broken r)
        (s.mapQueue (·.update id (·.ended s.loop.now status errorMessage message))) t ∧
      Handed id path (Broken r) t u := by
  obtain ⟨r, t, u, hr, ⟨he, hbroken⟩, hu, -⟩ :=
    finish_told (hn.tells none) hfit hid hj hopen status path errorMessage message
  refine ⟨r, t, u, hr, he _ (job?_update_self (by intro; rfl) hj), ?_⟩
  cases hb : Broken r with
  | true => rw [hb] at hu; exact ⟨hu, hbroken hb⟩
  | false =>
    rw [hb] at hu
    cases hu
    exact recording_inert t id path

theorem finish_ends (hn : Notifies Evolves notify) (hfit : Fit s) (hid : id ∉ s.queue.waiting)
    (hj : s.queue.job? id = some j) (hopen : j.finalized = false) (status : Job.Status)
    (path errorMessage message : Option String) :
    ∃ r u, (finish notify id status path errorMessage message).on s = (r, u) ∧
      Ends id status path errorMessage message (Broken r) s u := by
  obtain ⟨r, t, u, hr, he, hf⟩ := finish_on hn hfit hid hj hopen status path errorMessage message
  exact ⟨r, u, hr, j, s.loop.now, t, hj, hopen, he, hf.kept⟩

end Operations

/-! ## Relations that know which event is told -/

section Relations
variable {R : Option Event → Bool → Scheduler → Scheduler → Prop}

instance [Cancels R] (told : Option Event) : Drops (hearsay R told) (R told) where
  ask {b s t u id j} hfit hid hj hst hst' h hu := by
    have hfit₁ : Fit (s.mapQueue (·.update id fun j => { j with status := .cancelling })) :=
      hfit.update (by intro; rfl) (fun hw => hfit.apart id hid (.inl hw)) s.loop
    have htold : R none b _ t := h
    refine Cancels.ask hid hj hst hst' htold ?_
    cases b
    · exact ⟨_, signalling_signals (Tracks.fit htold hfit₁) id _, hu⟩
    · exact hu
  leave {b s t u id j message l} _ hid hj hl h hu := by
    have hsub : ∀ timer ∈ l.timers, timer ∈ s.loop.timers := by
      rcases hl with rfl | rfl
      · exact fun _ hm => hm
      · exact fun _ => List.mem_of_mem_filter
    have hleft : (s.leaving id message l).queue.job? id = some (j.ended l.now .canceled none message) :=
      job?_update_self (q := s.queue.withdraw id) (by intro; rfl) hj
    obtain ⟨htold, hbroken⟩ := h
    have hhanded : Handed id none b t u := by
      cases b
      · cases hu
        exact closing_inert t id
      · exact ⟨hu, hbroken rfl⟩
    exact Cancels.leave hid hj hsub (htold _ hleft) hhanded
  unpark := Tracks.inert (unparking_inert _)

instance [Grows R] (told : Option Event) : Fills (hearsay R told) (R told) where
  refuse _ _ := Tracks.inert ((Inert.refuse _).trans (.noted rfl rfl))
  enter {b s t submission progress} _ hf h := by
    have hlog : R told false s (s.admitting submission progress) :=
      Tracks.trans (Grows.enroll submission progress hf) (Tracks.inert (.noted rfl rfl))
    have htold : R told b _ t := h
    exact Tracks.trans hlog htold
  arm := Grows.arm
  start {b s t u id q} _ hq h hu := by
    have htold : R none b _ t := h
    exact Grows.start hq htold hu

variable {notify : Notify} {told : Option Event} {s : Scheduler} {id : JobId}

theorem startUpTo_leads [Grows R] (hn : Notifies R notify) (n : Nat) : Leads (R told) s (startUpTo notify n) :=
  startUpTo_told (hn.tells told) n

theorem startWaiting_leads [Grows R] (hn : Notifies R notify) : Leads (R told) s (startWaiting notify) :=
  startWaiting_told (hn.tells told)

theorem afterAdmission_leads [Grows R] (hn : Notifies R notify) (id : JobId) : Leads (R told) s (afterAdmission notify id) :=
  Leads.bind (hn.leads told .queued id s (by decide)) fun _ _ _ _ =>
    Leads.bind (armExpiry_told (hearsay R told) id) fun _ _ _ _ =>
      Leads.bind (startWaiting_leads hn) fun _ _ _ _ => Leads.pure id

theorem enqueue_leads [Grows R] (hn : Notifies R notify) (submission : Submission) :
    Leads (R told) s (enqueue notify true submission) := enqueue_told (hn.tells told) submission

/-- Nothing is handed in where nothing could run it. -/
theorem enqueue_outside_leads {R : Bool → Scheduler → Scheduler → Prop} [Tracks R] (submission : Submission) :
    Leads R s (enqueue notify false submission) := by
  cases hd : submission.defect with
  | some part => exact Leads.of_inert (enqueue_defect hd) rfl (.refl s)
  | none =>
    cases hf : s.queue.isFull with
    | true => exact Leads.of_inert (enqueue_full hd hf) rfl ((Inert.refuse _).trans (.noted rfl rfl))
    | false => exact Leads.of_inert (enqueue_outside hd hf) rfl (.refl s)

theorem cancelAll_leads [Cancels R] (hn : Notifies R notify) : Leads (R told) s (cancelAll notify) :=
  cancelAll_told (hn.tells told)

/-- A job that has waited too long is dropped, where the timeout can be told in whole seconds. -/
theorem expire_leads [Cancels R] (hn : Notifies R notify) {seconds : Int} (ht : s.queue.settings.timeoutWhole = .ok seconds) :
    Leads (R told) s (expire notify id) := expire_told (hn.tells told) ht

end Relations

end MediaEngine.Scheduler
