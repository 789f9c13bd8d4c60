import MediaEngine.Proofs.Turning

/-! # Tokens in a run

A token is signalled once and for all: what signals it later changes neither that it is signalled nor why.
Only the token of a job that is active is signalled, and so how the token of a job that has ended stands is
settled, too. All of this is read off what one moment does to tokens (`Moment.tokens`). -/

namespace MediaEngine
open Job

/-- The token of a job is signalled, for a reason. -/
def Queue.Signalled (q : Queue) (id : JobId) (reason : Option String) : Prop :=
  ∃ j, q.job? id = some j ∧ j.token.cancelled = true ∧ j.token.reason = reason

namespace Scheduler
variable {s t u : Scheduler} {id i : JobId} {reason : Option String}

/-! ## One moment -/

theorem isCancelled_iff (q : Queue) (id : JobId) : q.isCancelled id = true ↔ ∃ reason, q.Signalled id reason := by
  unfold Queue.isCancelled Queue.Signalled
  cases q.job? id with
  | none => simp
  | some j => simp

/-- Tuning signals no other token than those that count as cancelled afterwards. -/
theorem signalled_of_tuned (hj : List.Forall₂ Tuned s.queue.jobs t.queue.jobs)
    (hc : t.queue.isCancelled id = s.queue.isCancelled id) : t.queue.Signalled id reason ↔ s.queue.Signalled id reason := by
  constructor
  · rintro ⟨k, hk, hsig, hreason⟩
    obtain ⟨r, j, hj', hsig', -⟩ := (isCancelled_iff _ _).mp (hc ▸ (isCancelled_iff _ _).mpr ⟨_, k, hk, hsig, rfl⟩)
    obtain ⟨l, hl, ht⟩ := Queue.tuned_job?_some hj hj'
    cases hk.symm.trans hl
    exact ⟨j, hj', hsig', (ht.reason hsig').symm.trans hreason⟩
  · rintro ⟨j, hj', hsig, hreason⟩
    obtain ⟨k, hk, ht⟩ := Queue.tuned_job?_some hj hj'
    exact ⟨k, hk, ht.signalled hsig, (ht.reason hsig).trans hreason⟩

theorem signalled_update {q : Queue} {f : Job → Job} (hf : ∀ j, (f j).id = j.id) (ht : ∀ j, (f j).token = j.token)
    (i : JobId) :
    (q.update i f).Signalled id reason ↔ q.Signalled id reason := by
  unfold Queue.Signalled
  rw [Queue.job?_update hf]
  split
  · cases q.job? id with
    | none => rfl
    | some j => simp [ht]
  · rfl

/-- A moment signals the token of one job that is active, or it leaves all tokens as they are. -/
theorem Moment.tokens (hf : Fit s) (h : Moment s t) :
    (∃ i r, i ∈ s.queue.active ∧ Signals i r s t) ∨ ∀ id r, t.queue.Signalled id r ↔ s.queue.Signalled id r := by
  cases h with
  | release => exact .inr fun _ _ => .rfl
  | occurs h =>
    cases h with
    | inert h => exact .inr fun id _ => signalled_of_tuned h.jobs (h.signalled id)
    | signal hid h => exact .inl ⟨_, _, hid, h⟩
    | hear | asked | arm | spawn | turn => exact .inr fun _ _ => .rfl
    | breakOff event =>
      obtain ⟨ids, hq, -⟩ := s.queue.breakOff_eq event
      rw [mapQueue, hq]
      exact .inr fun _ _ => .rfl
    | enroll submission progress =>
      -- The job that is admitted has a number of its own, and its token is not signalled.
      refine .inr fun id r => ?_
      unfold Queue.Signalled
      rw [mapQueue_queue, hf.job?_admitted submission progress]
      split
      · rename_i hid
        constructor
        · rintro ⟨j, hj, hsig, -⟩
          cases hj
          cases hsig
        · rintro ⟨j, hj, -⟩
          have hmem : id ∈ s.queue.ids := Queue.job?_mem_ids hj
          rw [hid] at hmem
          exact absurd hmem hf.nextId_fresh
      · rfl
    | take hq =>
      obtain ⟨rest, e, -, he⟩ := taking_eq hq
      rw [he]
      exact .inr fun _ _ => signalled_update (by intro; rfl) (by intro; rfl) _
    | ask | cool | finish => exact .inr fun _ _ => signalled_update (by intro; rfl) (by intro; rfl) _
    | leave => exact .inr fun _ _ => signalled_update (by intro; rfl) (by intro; rfl) _
    | keep =>
      refine .inr fun _ _ => ?_
      unfold Scheduler.keep
      split <;> rfl

/-- A token that is signalled stays so, for the same reason. -/
theorem Moment.signalled (hf : Fit s) (h : Moment s t) (hs : s.queue.Signalled id reason) : t.queue.Signalled id reason := by
  rcases h.tokens hf with ⟨i, r, -, hi⟩ | hsame
  · obtain ⟨j, hj, hsig, hreason⟩ := hs
    obtain ⟨k, hk, ht⟩ := Queue.tuned_job?_some hi.jobs hj
    exact ⟨k, hk, ht.signalled hsig, (ht.reason hsig).trans hreason⟩
  · exact (hsame id reason).mpr hs

/-- A token that is signalled after a moment was so before, or its job is active and it is signalled now. -/
theorem Moment.first (hf : Fit s) (h : Moment s t) (ht : t.queue.Signalled id reason) : s.queue.Signalled id reason ∨
    (id ∈ s.queue.active ∧ s.queue.isCancelled id = false ∧ Signals id reason s t) := by
  rcases h.tokens hf with ⟨i, r, hactive, hi⟩ | hsame
  · by_cases hid : id = i
    · subst hid
      cases hc : s.queue.isCancelled id with
      | true =>
        have hct := (isCancelled_iff _ _).mpr ⟨_, ht⟩
        exact .inl ((signalled_of_tuned hi.jobs (hct.trans hc.symm)).mp ht)
      | false =>
        obtain ⟨k, hk, hsig, hreason⟩ := ht
        have hj : ∃ j, s.queue.job? id = some j := by
          cases hj : s.queue.job? id with
          | none => rw [Queue.tuned_job?_none hi.jobs hj] at hk; cases hk
          | some j => exact ⟨j, rfl⟩
        obtain ⟨j, hj⟩ := hj
        obtain ⟨l, hl, -, hr⟩ := hi.own j hj
        cases hk.symm.trans hl
        rw [Queue.isCancelled, hj] at hc
        exact .inr ⟨hactive, rfl, (hr hc).symm.trans hreason ▸ hi⟩
    · exact .inl ((signalled_of_tuned hi.jobs (hi.others id hid)).mp ht)
  · exact .inl ((hsame id reason).mp ht)

theorem Fit.moment (hf : Fit s) (h : Moment s t) : Fit t := by
  cases h with
  | occurs h => exact hf.occurs h
  | release id => exact hf.release id

/-- What waits or is still to be admitted after a moment was so before. -/
theorem Moment.upcoming (h : Moment s t) (hu : t.Upcoming id) : s.Upcoming id := by
  cases h with
  | release => exact hu
  | occurs h =>
    cases h with
    | inert h => exact Evolves.upcoming_of_stays h.toStays hu
    | signal _ h => exact Evolves.upcoming_of_stays h.toStays hu
    | keep i path => exact Evolves.upcoming_of_stays (keep_stays s i path) hu
    | breakOff event => exact (Evolves.upcoming_breakOff event).mp hu
    | enroll =>
      rcases hu with hw | hn
      · exact (List.mem_append.mp hw).elim .inl fun hw => .inr (Nat.le_of_eq (List.mem_singleton.mp hw).symm)
      · exact .inr (Nat.le_of_succ_le hn)
    | take hq =>
      obtain ⟨rest, e, hw, he⟩ := taking_eq hq
      unfold Upcoming at hu
      rw [he] at hu
      exact hu.imp_left fun hm => hw ▸ List.mem_cons_of_mem _ hm
    | leave => exact hu.imp_left List.mem_of_mem_erase
    | _ => exact hu

/-- What is active after a moment was active or waited before. -/
theorem Moment.active (h : Moment s t) (ha : id ∈ t.queue.active) : id ∈ s.queue.active ∨ id ∈ s.queue.waiting := by
  cases h with
  | release => exact .inl (List.mem_of_mem_erase ha)
  | occurs h =>
    cases h with
    | inert h => exact .inl (h.active ▸ ha)
    | signal _ h => exact .inl (h.active ▸ ha)
    | keep i path => exact .inl ((keep_stays s i path).active ▸ ha)
    | breakOff event =>
      obtain ⟨ids, hq, -⟩ := s.queue.breakOff_eq event
      rw [mapQueue_queue, hq] at ha
      exact .inl ha
    | take hq =>
      obtain ⟨rest, e, hw, -⟩ := taking_eq hq
      rw [taking_active hq] at ha
      exact (List.mem_append.mp ha).imp_right fun ha => by rw [hw, List.mem_singleton.mp ha]; exact List.mem_cons_self
    | _ => exact .inl ha

/-! ## Moments in a row -/

namespace Moments

theorem fit (h : Moments s t) (hf : Fit s) : Fit t := by
  induction h with
  | refl => exact hf
  | tail _ h ih => exact ih.moment h

theorem upcoming (h : Moments s t) (hu : t.Upcoming id) : s.Upcoming id := by
  induction h with
  | refl => exact hu
  | tail _ h ih => exact ih (h.upcoming hu)

theorem signalled (h : Moments s t) (hf : Fit s) (hs : s.queue.Signalled id reason) : t.queue.Signalled id reason := by
  induction h with
  | refl => exact hs
  | tail hrow h ih => exact h.signalled (fit hrow hf) ih

/-- There is a first signal, and the token is signalled for its reason. -/
theorem first (h : Moments s t) (hf : Fit s) (hs : s.queue.isCancelled id = false) (ht : t.queue.Signalled id reason) :
    ∃ u v, Moments s u ∧ u.queue.isCancelled id = false ∧ Signals id reason u v ∧ Moments v t := by
  induction h with
  | refl => rw [(isCancelled_iff _ _).mpr ⟨_, ht⟩] at hs; cases hs
  | @tail b c hrow h ih =>
    rcases h.first (fit hrow hf) ht with hb | ⟨-, hc, hsig⟩
    · obtain ⟨u, v, hu, hc, hsig, hv⟩ := ih hb
      exact ⟨u, v, hu, hc, hsig, hv.tail h⟩
    · exact ⟨b, c, hrow, hc, hsig, .refl⟩

/-- A job that is neither upcoming nor active stays so, and nothing signals its token. -/
theorem gone (h : Moments s t) (hf : Fit s) (hu : ¬ s.Upcoming id) (ha : id ∉ s.queue.active) :
    ¬ t.Upcoming id ∧ id ∉ t.queue.active ∧ ∀ r, t.queue.Signalled id r ↔ s.queue.Signalled id r := by
  induction h with
  | refl => exact ⟨hu, ha, fun _ => .rfl⟩
  | tail hrow h ih =>
    obtain ⟨hu', ha', hsame⟩ := ih
    have hfit := fit hrow hf
    refine ⟨fun h' => hu' (h.upcoming h'), fun h' => ?_, fun r => ⟨fun h' => ?_, fun h' => ?_⟩⟩
    · exact (h.active h').elim ha' fun hw => hu' (.inl hw)
    · exact (hsame r).mp ((h.first hfit h').resolve_right fun h'' => ha' h''.1)
    · exact h.signalled hfit ((hsame r).mpr h')

end Moments

/-! ## Moves -/

/-- What a move does to the queue is a row of moments, and at most one job that waits is dropped after it. -/
theorem Moves.row (h : Moves s t) (hs : Settled s) :
    ∃ u, Moments s u ∧ (t.queue = u.queue ∨ ∃ i, t.queue = u.queue.withdraw i) := by
  cases h with
  | obey supplied depth c hc => exact ⟨_, obey_moments hs.fit supplied depth hc, .inl rfl⟩
  | turn depth task => exact ⟨_, runTask_moments hs depth task, .inl rfl⟩
  | loop l => exact ⟨s, .refl, .inl rfl⟩
  | fire depth action =>
    cases action with
    | wake task => exact ⟨_, .inert (.wake [task]), .inl rfl⟩
    | expire i =>
      cases ht : s.queue.settings.timeoutWhole with
      | ok seconds =>
        have hrow : Moments s ((Scheduler.fire (notifyUpTo depth) (.expire i)).on s).2 :=
          fire_moments hs.fit depth fun _ _ => ⟨seconds, ht⟩
        exact ⟨_, hrow, .inl rfl⟩
      | error e =>
        refine ⟨s, .refl, ?_⟩
        rcases expire_untimely (notifyUpTo depth) i ht with h | ⟨-, -, h⟩
        · exact .inl (congrArg Scheduler.queue h)
        · exact .inr ⟨i, congrArg Scheduler.queue h⟩

/-- No listener is forgotten. -/
theorem Moves.listeners (h : Moves s t) (hs : Settled s) : s.queue.listeners <+: t.queue.listeners := by
  obtain ⟨u, hu, he | ⟨i, he⟩⟩ := h.row hs <;> rw [he] <;> exact hu.listeners

/-- A move signals tokens as moments do. -/
theorem Moves.signalled_iff (h : Moves s t) (hs : Settled s) :
    ∃ u, Moments s u ∧ ∀ id reason, t.queue.Signalled id reason ↔ u.queue.Signalled id reason := by
  obtain ⟨u, hu, he | ⟨i, he⟩⟩ := h.row hs
  · exact ⟨u, hu, fun id reason => by rw [he]⟩
  · exact ⟨u, hu, fun id reason => by rw [he]; exact .rfl⟩

/-- A token that is signalled in a run stays so, for the same reason. -/
theorem Reaches.signalled (h : Reaches s t) (hs : Settled s) (hsig : s.queue.Signalled id reason) :
    t.queue.Signalled id reason := by
  induction h with
  | refl => exact hsig
  | move h hm ih =>
    have hset := (h.passes hs).settled
    obtain ⟨u, hu, hiff⟩ := hm.signalled_iff hset
    exact (hiff id reason).mpr (hu.signalled hset.fit ih)

/-- A token that is signalled in a run was so from the start, or it is signalled for the reason of its first signal. -/
theorem Reaches.first (h : Reaches s t) (hs : Settled s) (hsig : t.queue.Signalled id reason) : s.queue.Signalled id reason ∨
    ∃ r u v, Reaches s r ∧ Moments r u ∧ u.queue.isCancelled id = false ∧ Signals id reason u v := by
  induction h with
  | refl => exact .inl hsig
  | @move b c h hm ih =>
    have hset := (h.passes hs).settled
    obtain ⟨u, hu, hiff⟩ := hm.signalled_iff hset
    have hsig := (hiff id reason).mp hsig
    cases hc : b.queue.isCancelled id with
    | true =>
      obtain ⟨r, hr⟩ := (isCancelled_iff _ _).mp hc
      obtain ⟨j, hj, -, hreason⟩ := hu.signalled hset.fit hr
      obtain ⟨k, hk, -, hreason'⟩ := hsig
      cases hj.symm.trans hk
      rw [← hreason, hreason'] at hr
      exact ih hr
    | false =>
      obtain ⟨v, w, hv, hcv, hvw, -⟩ := hu.first hset.fit hc hsig
      exact .inr ⟨b, v, w, h, hv, hcv, hvw⟩

/-! ## Calls -/

/-- The first call that signals a token says why; later calls change nothing. -/
theorem signalToken_signalled {j : Job} (hf : Fit s) (hj : s.queue.job? id = some j) (reason : Option String) :
    ((signalToken id reason).on s).2.queue.Signalled id (if j.token.cancelled then j.token.reason else reason) := by
  have hsig := signalling_signals hf id reason
  obtain ⟨k, hk, hc, hr⟩ := hsig.own j hj
  refine ⟨k, hk, hc, ?_⟩
  split
  · rename_i hold
    obtain ⟨l, hl, hlast⟩ := Queue.tuned_job?_some hsig.jobs hj
    cases hk.symm.trans hl
    exact hlast.reason hold
  · rename_i hold
    exact hr (Bool.eq_false_iff.mpr hold)

end Scheduler

end MediaEngine
