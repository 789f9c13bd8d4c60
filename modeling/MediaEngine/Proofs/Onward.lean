import MediaEngine.Proofs.Places

/-! # What an evolution does to one number

A number that is not upcoming keeps its place while a scheduler evolves, and all that may happen to its
job is that it is asked to stop (`Frame`). An upcoming number is placed wherever it ends up. Both are
proved at once, by induction on the evolution: what happens in between, when a job has left one place and
not reached the next, is a frame for it and a change of places for others. -/

namespace MediaEngine.Scheduler
open Job

/-- What may happen to the status of a job that is not upcoming. -/
inductive Heads (b : Bool) (s t : Scheduler) (id : JobId) (j k : Job) : Prop
  | still : k.status = j.status → (t.HasAsked id → s.HasAsked id) → Heads b s t id j k
  | asked : id ∈ s.queue.active → j.status ≠ .cancelling → j.status ≠ .canceled → k.status = .cancelling →
      (b = false → t.HasAsked id) → (t.HasAsked id → s.HasAsked id ∨ k.token.cancelled = true) → Heads b s t id j k

/-- What an evolution leaves alone about a number that is not upcoming. -/
structure Frame (told : Option Event) (b : Bool) (s t : Scheduler) (id : JobId) : Prop where
  past : ¬ t.Upcoming id
  active : id ∈ t.queue.active ↔ id ∈ s.queue.active
  entries : t.entriesOf id = s.entriesOf id
  lives : ∀ i, t.Lives i id → s.Lives i id
  brokenOff : id ∈ t.queue.brokenOff → id ∈ s.queue.brokenOff ∨
    (b = true ∧ ∃ event, told = some event ∧ event.snapshot.id = id)
  broken : id ∈ s.queue.brokenOff → id ∈ t.queue.brokenOff
  told : ∀ status, t.HasTold id status → s.HasTold id status ∨
    ∃ event, told = some event ∧ event.snapshot.id = id ∧ event.snapshot.status = status
  asked : s.HasAsked id → t.HasAsked id
  quiet : id ∉ s.queue.active → t.HasAsked id → s.HasAsked id
  unknown : s.queue.job? id = none → t.queue.job? id = none
  job : ∀ j, s.queue.job? id = some j → ∃ k, t.queue.job? id = some k ∧ Lasts j k ∧ Heads b s t id j k
  settings : t.queue.settings = s.queue.settings

theorem nothing_told {id : JobId} : ∀ event : Event, none = some event → event.snapshot.id ≠ id := fun _ h => by cases h

namespace Frame
variable {told : Option Event} {b : Bool} {s t u : Scheduler} {id : JobId} {j : Job}

theorem of_same (h : Same s t id) (hp : ¬ s.Upcoming id) : Frame told b s t id where
  past hu := hp (h.upcoming.mp hu)
  active := h.active
  entries := h.entries
  lives := h.lives
  told status ht := .inl (h.told status ht)
  asked := h.asked.mpr
  quiet _ := h.asked.mp
  unknown := h.job_none
  job j hj := by
    obtain ⟨k, hk, ht⟩ := h.job_some hj
    exact ⟨k, hk, ht.toLasts, .still ht.status h.asked.mp⟩
  brokenOff hb := .inl (h.brokenOff.mp hb)
  broken := h.brokenOff.mpr
  settings := h.settings

theorem trans (h₁ : Frame told b s t id) (h₂ : Frame told b t u id) : Frame told b s u id where
  past := h₂.past
  active := h₂.active.trans h₁.active
  entries := h₂.entries.trans h₁.entries
  lives i hi := h₁.lives i (h₂.lives i hi)
  told status hu := by
    rcases h₂.told status hu with ht | hv
    · exact h₁.told status ht
    · exact .inr hv
  asked ha := h₂.asked (h₁.asked ha)
  quiet hn hu := h₁.quiet hn (h₂.quiet (fun ha => hn (h₁.active.mp ha)) hu)
  unknown hj := h₂.unknown (h₁.unknown hj)
  job j hj := by
    obtain ⟨k, hk, hjk, hs⟩ := h₁.job j hj
    obtain ⟨l, hl, hkl, ht⟩ := h₂.job k hk
    refine ⟨l, hl, hjk.trans hkl, ?_⟩
    -- A job is asked once at the most, so one of the two parts left its status alone.
    cases hs with
    | still hst hq =>
      cases ht with
      | still hst' hq' => exact .still (hst'.trans hst) fun hu => hq (hq' hu)
      | asked ha hne hne' hc hb hq' =>
        refine .asked (h₁.active.mp ha) (hst ▸ hne) (hst ▸ hne') hc hb fun hu => ?_
        exact (hq' hu).imp_left hq
    | asked ha hne hne' hc hb hq =>
      cases ht with
      | still hst' hq' =>
        refine .asked ha hne hne' (hst'.trans hc) (fun hf => h₂.asked (hb hf)) fun hu => ?_
        exact (hq (hq' hu)).imp_right hkl.signalled
      | asked _ hne _ _ _ _ => exact absurd hc hne
  brokenOff hu := by
    rcases h₂.brokenOff hu with ht | hv
    · exact h₁.brokenOff ht
    · exact .inr hv
  broken hb := h₂.broken (h₁.broken hb)
  settings := h₂.settings.trans h₁.settings

/-- Nothing follows an evolution that was cut short, so what precedes it was not. -/
theorem cut (h : Frame told false s t id) (hu : Frame told b t u id) : Frame told b s u id := by
  refine trans { h with
    brokenOff := fun hb => .inl ((h.brokenOff hb).resolve_right fun ⟨hf, _⟩ => Bool.false_ne_true hf)
    job := fun j hj => ?_ } hu
  obtain ⟨k, hk, hl, hs⟩ := h.job j hj
  refine ⟨k, hk, hl, ?_⟩
  cases hs with
  | still hst hq => exact .still hst hq
  | asked ha hne hne' hc hb hq => exact .asked ha hne hne' hc (fun _ => hb rfl) hq

/-- The event that is told is of another job. -/
theorem other {told' : Option Event} (h : Frame told b s t id)
    (hn : ∀ event, told = some event → event.snapshot.id ≠ id) : Frame told' b s t id where
  __ := h
  told status ht := by
    rcases h.told status ht with hs | ⟨event, he, hid, -⟩
    · exact .inl hs
    · exact absurd hid (hn event he)
  brokenOff hb := by
    rcases h.brokenOff hb with hs | ⟨-, event, he, hid⟩
    · exact .inl hs
    · exact absurd hid (hn event he)

/-- An evolution that tells nothing of the job leaves alone what was told of it. -/
theorem told_iff (h : Frame told b s t id) (hn : ∀ event, told = some event → event.snapshot.id ≠ id) :
    (∀ status, t.HasTold id status → s.HasTold id status) ∧ (id ∈ t.queue.brokenOff ↔ id ∈ s.queue.brokenOff) := by
  refine ⟨fun status ht => ?_, fun hb => ?_, h.broken⟩
  · rcases h.told status ht with hs | ⟨event, he, hid, -⟩
    · exact hs
    · exact absurd hid (hn event he)
  · rcases h.brokenOff hb with hs | ⟨-, event, he, hid⟩
    · exact hs
    · exact absurd hid (hn event he)

end Frame

/-! ## Places under a frame -/

section Places
variable {told : Option Event} {b : Bool} {s t u : Scheduler} {id : JobId} {j : Job}

theorem Closed.same {k : Job} (h : s.Closed id j) (hs : Same s t id) (hst : k.status = j.status) : t.Closed id k := by
  cases h with
  | lost hb hr => exact .lost (hs.brokenOff.mpr hb) (hs.entries.trans hr)
  | filed e hb hr he hv hf =>
    obtain ⟨status, hterm, hn, hw⟩ := hf
    refine .filed e (fun h => hb (hs.brokenOff.mp h)) (hs.entries.trans hr) (he.trans hst.symm) (by rw [hv, hst])
      ⟨status, hterm, fun told h => hn told (hs.told told h), ?_⟩
    rw [hst, hs.asked]
    exact hw

theorem Placed.same (h : s.Placed id) (hs : Same s t id) : t.Placed id := by
  cases h with
  | upcoming hu hb => exact .upcoming (hs.upcoming.mpr hu) (hs.blank hb)
  | skipped hp hj ha hb =>
    exact .skipped (fun hu => hp (hs.upcoming.mp hu)) (hs.job_none hj) (fun hm => ha (hs.active.mp hm)) (hs.blank hb)
  | active j ha hj ho hr hn hq hl =>
    obtain ⟨k, hk, ht⟩ := hs.job_some hj
    refine .active k (hs.active.mpr ha) hk (ht.finalized.trans ho) (hs.entries.trans hr)
      (hs.untold hn) (fun h => ht.signalled (hq (hs.asked.mp h)))
      fun i k hi hk => hl i k (hs.lives i hi) (hs.lives k hk)
  | stray j hp ha hj ho hb hn =>
    obtain ⟨k, hk, ht⟩ := hs.job_some hj
    exact .stray k (fun hu => hp (hs.upcoming.mp hu)) (fun hm => ha (hs.active.mp hm)) hk (ht.finalized.trans ho)
      (hs.blank hb) (hs.settings ▸ hn)
  | gone j hp ha hj hf hl hc =>
    obtain ⟨k, hk, ht⟩ := hs.job_some hj
    exact .gone k (fun hu => hp (hs.upcoming.mp hu)) (fun hm => ha (hs.active.mp hm)) hk (ht.finalized.trans hf)
      (fun i hi => hl i (hs.lives i hi)) (hc.same hs ht.status)

/-- A place outlasts a frame that tells nothing of the job. -/
theorem Placed.frame (h : s.Placed id) (hp : ¬ s.Upcoming id) (hf : Frame told b s t id)
    (hn : ∀ event, told = some event → event.snapshot.id ≠ id) : t.Placed id := by
  obtain ⟨htold, hbroken⟩ := hf.told_iff hn
  have untold : s.Untold id → t.Untold id := fun hu =>
    ⟨fun status ht => hu.told status (htold status ht), fun hb => hu.brokenOff (hbroken.mp hb)⟩
  have blank : id ∉ s.queue.active → s.Blank id → t.Blank id := fun ha hb =>
    ⟨hf.entries.trans hb.entries, fun i hi => hb.idle i (hf.lives i hi), fun h => hb.unasked (hf.quiet ha h),
      untold hb.untold⟩
  cases h with
  | upcoming hu _ => exact absurd hu hp
  | skipped _ hj ha hb => exact .skipped hf.past (hf.unknown hj) (fun hm => ha (hf.active.mp hm)) (blank ha hb)
  | stray j _ ha hj ho hb hn =>
    obtain ⟨k, hk, hlast, -⟩ := hf.job j hj
    exact .stray k hf.past (fun hm => ha (hf.active.mp hm)) hk (hlast.finalized.trans ho) (blank ha hb) (hf.settings ▸ hn)
  | active j ha hj ho hr hno hq hl =>
    obtain ⟨k, hk, hlast, hs⟩ := hf.job j hj
    refine .active k (hf.active.mpr ha) hk (hlast.finalized.trans ho) (hf.entries.trans hr)
      (untold hno) (fun h => ?_) fun i k hi hk => hl i k (hf.lives i hi) (hf.lives k hk)
    cases hs with
    | still _ hback => exact hlast.signalled (hq (hback h))
    | asked _ _ _ _ _ hback =>
      rcases hback h with h | h
      · exact hlast.signalled (hq h)
      · exact h
  | gone j _ ha hj hfin hl hc =>
    obtain ⟨k, hk, hlast, hs⟩ := hf.job j hj
    -- A job that is not active is not asked.
    have hst : k.status = j.status := by
      cases hs with
      | still hst _ => exact hst
      | asked hm _ _ _ _ _ => exact absurd hm ha
    refine .gone k hf.past (fun hm => ha (hf.active.mp hm)) hk (hlast.finalized.trans hfin)
      (fun i hi => hl i (hf.lives i hi)) ?_
    cases hc with
    | lost hb hr => exact .lost (hf.broken hb) (hf.entries.trans hr)
    | filed e hb hr he hv hfaith =>
      obtain ⟨status, hterm, hno, hw⟩ := hfaith
      refine .filed e (fun h => hb (hbroken.mp h)) (hf.entries.trans hr) (he.trans hst.symm) (by rw [hv, hst])
        ⟨status, hterm, fun told h => hno told (htold told h), ?_⟩
      have hask : t.HasAsked id ↔ s.HasAsked id := ⟨hf.quiet ha, hf.asked⟩
      rw [hst, hask]
      exact hw

theorem Placed.blank (h : s.Placed id) (hf : s.Fit) (hu : s.Upcoming id) : s.Blank id := by
  cases h with
  | upcoming _ hb => exact hb
  | skipped hp _ _ _ => exact absurd hu hp
  | active j ha _ _ _ _ _ _ => exact absurd hu (hf.apart id ha)
  | stray j hp _ _ _ _ _ => exact absurd hu hp
  | gone j hp _ _ _ _ _ => exact absurd hu hp

end Places

/-! ## Going onward -/

/-- Nothing has happened to any upcoming job. -/
def Fresh (s : Scheduler) : Prop := ∀ id, s.Upcoming id → s.Blank id

/-- What an evolution does to a number. -/
structure Onward (told : Option Event) (b : Bool) (s t : Scheduler) (id : JobId) : Prop where
  frame : ¬ s.Upcoming id → Frame told b s t id
  placed : s.Upcoming id → t.Placed id

/-- The event that is told is of a job that is not upcoming. -/
def Past (told : Option Event) (s : Scheduler) : Prop := ∀ event, told = some event → ¬ s.Upcoming event.snapshot.id

theorem Past.none {s : Scheduler} : Past none s := fun _ h => by cases h

theorem Past.some {s : Scheduler} {event : Event} (h : ¬ s.Upcoming event.snapshot.id) : Past (some event) s :=
  fun _ he => by cases he; exact h

theorem Past.of_upcoming {told : Option Event} {s t : Scheduler} (h : Past told s)
    (hu : ∀ id, t.Upcoming id → s.Upcoming id) : Past told t := fun event he ht => h event he (hu _ ht)

namespace Onward
variable {told : Option Event} {b : Bool} {s t u : Scheduler} {id : JobId}

theorem of_same (h : Same s t id) (hf : s.Fresh) : Onward told b s t id where
  frame := Frame.of_same h
  placed hu := .upcoming (h.upcoming.mpr hu) (h.blank (hf id hu))

/-- Where one evolution ends the next one takes up. -/
theorem next (hp : Past told s) (h₁ : Onward told b s t id) (h₂ : Onward told b t u id) : Onward told b s u id where
  frame hu := (h₁.frame hu).trans (h₂.frame (h₁.frame hu).past)
  placed hu := by
    by_cases ht : t.Upcoming id
    · exact h₂.placed ht
    · refine (h₁.placed hu).frame ht (h₂.frame ht) fun event he hid => hp event he ?_
      rw [hid]
      exact hu

/-- Only an evolution that was not cut short is followed by another. -/
theorem cut (hp : Past told s) (h₁ : Onward told false s t id) (h₂ : Onward told b t u id) :
    Onward told b s u id where
  frame hu := (h₁.frame hu).cut (h₂.frame (h₁.frame hu).past)
  placed hu := by
    by_cases ht : t.Upcoming id
    · exact h₂.placed ht
    · refine (h₁.placed hu).frame ht (h₂.frame ht) fun event he hid => hp event he ?_
      rw [hid]
      exact hu

theorem other {told' : Option Event} (h : Onward told b s t id)
    (hn : ∀ event, told = some event → event.snapshot.id ≠ id) : Onward told' b s t id :=
  ⟨fun hu => (h.frame hu).other hn, h.placed⟩

theorem past (h : ∀ id, Onward told b s t id) (hp : Past told s) : Past told t := fun event he =>
  ((h _).frame (hp event he)).past

theorem fresh (h : ∀ id, Onward told b s t id) (hf : t.Fit) : t.Fresh := fun id hu => by
  by_cases hs : s.Upcoming id
  · exact ((h id).placed hs).blank hf hu
  · exact absurd hu ((h id).frame hs).past

end Onward

end MediaEngine.Scheduler
