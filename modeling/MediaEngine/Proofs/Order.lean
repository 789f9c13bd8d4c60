import MediaEngine.Proofs.Accounting
import MediaEngine.Proofs.Staffing
import MediaEngine.Proofs.Steps
import MediaEngine.Proofs.Tokens

/-! # The order of starts

Jobs leave those that wait at the front, when they start or all are cancelled, and in the middle, when they
have waited too long. Still the jobs that started, and after them those that wait, stand in order of
admission, and whoever is in neither list was dropped (`InOrder`). Every moment of a run keeps this. -/

namespace MediaEngine.Scheduler
open Job

/-- The job was taken out of those that wait: it has ended as canceled and never started. -/
def Dropped (s : Scheduler) (id : JobId) : Prop :=
  ∃ j, s.queue.job? id = some j ∧ j.finalized = true ∧ j.status = .canceled ∧ j.startedAt = none

/-- The jobs that started and those that wait are in order of admission, and all others were dropped. -/
structure InOrder (s : Scheduler) : Prop where
  fit : Fit s
  sorted : s.queue.ids.Pairwise (· < ·)
  queued : (s.starts ++ s.queue.waiting).Sublist s.queue.ids
  begun : ∀ id j, s.queue.job? id = some j → (j.startedAt.isSome = true ↔ id ∈ s.starts)
  active : ∀ id ∈ s.queue.active, id ∈ s.starts
  rest : ∀ id ∈ s.queue.ids, id ∈ s.starts ∨ id ∈ s.queue.waiting ∨ s.Dropped id

variable {s t : Scheduler} {id : JobId} {own : Option JobId}

theorem Dropped.tuned (h : s.Dropped id) (hj : List.Forall₂ Tuned s.queue.jobs t.queue.jobs) : t.Dropped id := by
  obtain ⟨j, hk, hfin, hst, hbegun⟩ := h
  obtain ⟨k, hk', ht⟩ := Queue.tuned_job?_some hj hk
  exact ⟨k, hk', ht.finalized.trans hfin, ht.status.trans hst, ht.startedAt.trans hbegun⟩

namespace InOrder

theorem start (settings : Settings) (store : Store) (directory : String) (budget : Nat) :
    InOrder (start settings store directory budget) where
  fit := .start settings store directory budget
  sorted := .nil
  queued := List.Sublist.slnil
  begun _ _ h := by cases h
  active _ h := by cases h
  rest _ h := by cases h

/-- A job that waits did not start. -/
theorem unstarted (h : InOrder s) (hid : id ∈ s.queue.waiting) : id ∉ s.starts := fun hs =>
  List.disjoint_of_nodup_append (h.queued.nodup h.fit.nodup) hs hid

theorem waits_unstarted (h : InOrder s) (hid : id ∈ s.queue.waiting) {j : Job} (hj : s.queue.job? id = some j) : j.startedAt = none :=
  Option.not_isSome_iff_eq_none.mp fun hs => h.unstarted hid ((h.begun id j hj).mp hs)

/-- No job moves, ends or starts. -/
theorem tuned (h : InOrder s) (hf : Fit t) (hj : List.Forall₂ Tuned s.queue.jobs t.queue.jobs)
    (hw : t.queue.waiting = s.queue.waiting) (ha : t.queue.active = s.queue.active) (hs : t.starts = s.starts) : InOrder t where
  fit := hf
  sorted := Queue.tuned_ids hj ▸ h.sorted
  queued := by
    rw [hs, hw, Queue.tuned_ids hj]
    exact h.queued
  begun id k hk := by
    have hr := Queue.tuned_job? hj id
    rw [hk] at hr
    obtain ⟨j, hj', ht⟩ : ∃ j, s.queue.job? id = some j ∧ Tuned j k := by
      cases hj' : s.queue.job? id with
      | none => rw [hj'] at hr; cases hr
      | some j => rw [hj'] at hr; cases hr with | some ht => exact ⟨j, rfl, ht⟩
    rw [ht.startedAt, hs]
    exact h.begun id j hj'
  active id hid := hs ▸ h.active id (ha ▸ hid)
  rest id hid := by
    rw [hs, hw]
    exact (h.rest id (Queue.tuned_ids hj ▸ hid)).imp_right (.imp_right (Dropped.tuned · hj))

theorem of_queue (h : InOrder s) (hq : t.queue = s.queue) (hn : t.notes = s.notes) : InOrder t :=
  h.tuned (h.fit.stays (.of_queue hq)) (hq ▸ Queue.tuned_refl _) (congrArg Queue.waiting hq) (congrArg Queue.active hq)
    (by rw [starts, hn]; rfl)

/-- A job that is active changes, and no other does. -/
theorem update (h : InOrder s) (ha : id ∈ s.queue.active) {f : Job → Job} (hf : ∀ j, (f j).id = j.id)
    (hs : ∀ j, (f j).startedAt = j.startedAt) : InOrder (s.mapQueue (·.update id f)) where
  fit := h.fit.update hf (fun hw => h.fit.apart id ha (.inl hw)) s.loop
  sorted := by rw [mapQueue_queue, Queue.ids_update hf]; exact h.sorted
  queued := by rw [mapQueue_queue, Queue.ids_update hf]; exact h.queued
  begun i k hk := by
    rw [mapQueue_queue, Queue.job?_update hf] at hk
    split at hk
    · obtain ⟨j, hj, rfl⟩ := Option.map_eq_some_iff.mp hk
      rw [hs]
      exact h.begun i j hj
    · exact h.begun i k hk
  active := h.active
  rest i hi := by
    rw [mapQueue_queue, Queue.ids_update hf] at hi
    by_cases hid : i = id
    · exact .inl (hid ▸ h.active id ha)
    · refine (h.rest i hi).imp_right (.imp_right fun hdropped => ?_)
      obtain ⟨j, hj, hd⟩ := hdropped
      refine ⟨j, ?_, hd⟩
      exact (Queue.job?_update_ne hf hid).trans hj

theorem enroll (h : InOrder s) (submission : Submission) (progress : Progress) :
    InOrder (s.mapQueue fun q => q.draw.enlist (.admitted q.nextId submission progress)) := by
  have hnew := h.fit.nextId_fresh
  have hjob := h.fit.job?_admitted submission progress
  have hids : (s.queue.draw.enlist (.admitted s.queue.nextId submission progress)).ids = s.queue.ids ++ [s.queue.nextId] :=
    Queue.ids_enlist _ _
  refine ⟨h.fit.enroll submission progress, ?_, ?_, fun i j hj => ?_, h.active, fun i hi => ?_⟩ <;>
    simp only [mapQueue_queue] at *
  · rw [hids]
    -- The new number is above all that were given.
    refine List.pairwise_append.mpr ⟨h.sorted, List.pairwise_singleton _ _, fun a ha b hb => ?_⟩
    rw [List.mem_singleton.mp hb]
    exact h.fit.fresh a ha
  · rw [hids]
    change (s.starts ++ (s.queue.waiting ++ [s.queue.nextId])).Sublist _
    rw [← List.append_assoc]
    exact h.queued.append (.refl _)
  · rw [hjob] at hj
    split at hj
    · rename_i hi
      cases hj
      refine iff_of_false (fun hs => by cases hs) fun hs => hnew ?_
      exact hi ▸ h.queued.mem (List.mem_append_left _ hs)
    · exact h.begun i j hj
  · rw [hids] at hi
    rcases List.mem_append.mp hi with hi | hi
    · refine (h.rest i hi).imp_right (.imp (List.mem_append_left _) fun hdropped => ?_)
      obtain ⟨j, hj, hd⟩ := hdropped
      refine ⟨j, ?_, hd⟩
      rw [mapQueue_queue, hjob, if_neg fun he : i = s.queue.nextId => hnew (he ▸ hi)]
      exact hj
    · exact .inr (.inl (List.mem_append_right _ hi))

theorem starts_taking (s : Scheduler) (id : JobId) (q : Queue) : (s.taking id q).starts = s.starts ++ [id] :=
  starts_append (t := s.taking id q) rfl

theorem take (h : InOrder s) {q : Queue} (hq : s.queue.startNext? = some (id, q)) : InOrder (s.taking id q) := by
  obtain ⟨rest, e, hw, he⟩ := taking_eq hq
  have keeps : ∀ j : Job, (j.started s.loop.now).id = j.id := fun _ => rfl
  have hstarts := starts_taking s id q
  have hnot : id ∉ s.starts := h.unstarted (hw ▸ List.mem_cons_self)
  refine ⟨h.fit.taking hq, ?_, ?_, fun i k hk => ?_, fun i hi => ?_, fun i hi => ?_⟩
  · rw [he, Queue.ids_update keeps]
    exact h.sorted
  · have hqueued := h.queued
    rw [hw] at hqueued
    rw [he, Queue.ids_update keeps, hstarts, List.append_assoc]
    exact hqueued
  · rw [hstarts]
    rw [he, Queue.job?_update keeps] at hk
    split at hk
    · rename_i hi
      obtain ⟨j, hj, rfl⟩ := Option.map_eq_some_iff.mp hk
      exact iff_of_true rfl (List.mem_append_right _ (List.mem_singleton.mpr hi))
    · rename_i hi
      rw [List.mem_append, List.mem_singleton]
      exact (h.begun i k hk).trans ⟨.inl, (·.resolve_right hi)⟩
  · rw [taking_active hq] at hi
    rw [hstarts]
    exact (List.mem_append.mp hi).elim (fun hi => List.mem_append_left _ (h.active i hi)) (List.mem_append_right _)
  · rw [he, Queue.ids_update keeps] at hi
    rw [hstarts]
    by_cases hid : i = id
    · exact .inl (List.mem_append_right _ (List.mem_singleton.mpr hid))
    · rcases h.rest i hi with hs | hwait | ⟨j, hj, hd⟩
      · exact .inl (List.mem_append_left _ hs)
      · refine .inr (.inl ?_)
        rw [hw] at hwait
        rw [he]
        exact (List.mem_cons.mp hwait).resolve_left hid
      · refine .inr (.inr ⟨j, ?_, hd⟩)
        rw [he, Queue.job?_update_ne keeps hid]
        exact hj

theorem leave (h : InOrder s) {j : Job} (hid : id ∈ s.queue.waiting) (hj : s.queue.job? id = some j) (now : Nat)
    (message : Option String) (l : Loop TimerAction) :
    InOrder { s with queue := (s.queue.withdraw id).update id (·.ended now .canceled none message), loop := l } := by
  let ended := fun j : Job => j.ended now .canceled none message
  have keeps : ∀ j, (ended j).id = j.id := fun _ => rfl
  have hids : ((s.queue.withdraw id).update id ended).ids = s.queue.ids := Queue.ids_update keeps
  refine ⟨(h.fit.withdraw id s.loop).update keeps (h.fit.not_mem_withdraw id) l, ?_, ?_, fun i k hk => ?_, h.active,
    fun i hi => ?_⟩
  · change ((s.queue.withdraw id).update id ended).ids.Pairwise _
    rw [hids]
    exact h.sorted
  · change (s.starts ++ s.queue.waiting.erase id).Sublist ((s.queue.withdraw id).update id ended).ids
    rw [hids]
    exact ((List.Sublist.refl _).append List.erase_sublist).trans h.queued
  · change ((s.queue.withdraw id).update id ended).job? i = some k at hk
    change k.startedAt.isSome = true ↔ i ∈ s.starts
    rw [Queue.job?_update keeps] at hk
    split at hk
    · obtain ⟨j, hj, rfl⟩ := Option.map_eq_some_iff.mp hk
      exact h.begun i j hj
    · exact h.begun i k hk
  · change i ∈ ((s.queue.withdraw id).update id ended).ids at hi
    rw [hids] at hi
    by_cases he : i = id
    · subst he
      have hnever : j.startedAt = none := h.waits_unstarted hid hj
      exact .inr (.inr ⟨ended j, Queue.job?_update_self (q := s.queue.withdraw i) keeps hj, rfl, rfl, hnever⟩)
    · refine (h.rest i hi).imp_right (.imp (List.mem_erase_of_ne he).mpr fun hdropped => ?_)
      obtain ⟨k, hk, hd⟩ := hdropped
      refine ⟨k, ?_, hd⟩
      exact (Queue.job?_update_ne (q := s.queue.withdraw id) keeps he).trans hk

theorem release (h : InOrder s) (id : JobId) : InOrder (s.mapQueue (·.release id)) where
  fit := h.fit.release id
  sorted := h.sorted
  queued := h.queued
  begun := h.begun
  active i hi := h.active i (List.mem_of_mem_erase hi)
  rest := h.rest

theorem keep_starts (s : Scheduler) (id : JobId) (path : Option String) : (s.keep id path).starts = s.starts := by
  unfold keep
  split <;> rfl

/-- Every moment keeps the order. -/
theorem moment (h : InOrder s) (hm : Moment s t) : InOrder t := by
  cases hm with
  | release id => exact h.release id
  | occurs ho =>
    have noted : ∀ n : Queue.Note, n.started? = none → InOrder (s.noted n) := fun n hn =>
      h.tuned (h.fit.stays (.of_queue rfl)) (Queue.tuned_refl _) rfl rfl (Still.noted hn).starts
    have hf := h.fit.occurs ho
    cases ho with
    | inert hi => exact h.tuned hf hi.jobs hi.waiting hi.active hi.starts
    | signal _ hi => exact h.tuned hf hi.jobs hi.waiting hi.active hi.starts
    | hear who event => exact noted _ rfl
    | asked id => exact noted _ rfl
    | breakOff event =>
      obtain ⟨ids, hq, -⟩ := s.queue.breakOff_eq event
      rw [mapQueue, hq] at hf ⊢
      exact h.tuned hf (Queue.tuned_refl _) rfl rfl rfl
    | arm | spawn | turn => exact h.tuned hf (Queue.tuned_refl _) rfl rfl rfl
    | keep id path =>
      have hk := keep_stays s id path
      exact h.tuned hf hk.jobs hk.waiting hk.active (keep_starts s id path)
    | enroll submission progress _ => exact h.enroll submission progress
    | take hq => exact h.take hq
    | ask ha | cool _ ha | finish _ ha => exact h.update ha (by intro; rfl) (by intro; rfl)
    | leave hid hj _ => exact h.leave hid hj _ _ _

theorem moments (h : InOrder s) (hm : Moments s t) : InOrder t := by
  induction hm with
  | refl => exact h
  | tail _ hm ih => exact ih.moment hm

end InOrder

/-! ## Starts -/

/-- The job may start next: it was admitted and has neither started nor ended, and every job that was admitted before
    it has started, or was dropped. -/
structure Due (s : Scheduler) (id : JobId) : Prop where
  admitted : ∃ j, s.queue.job? id = some j ∧ j.finalized = false
  first : id ∉ s.starts
  earlier : ∀ k, [k, id].Sublist s.queue.ids → k ∈ s.starts ∨ s.Dropped k

theorem InOrder.due (h : InOrder s) {q : Queue} (hq : s.queue.startNext? = some (id, q)) : s.Due id := by
  obtain ⟨-, rest, hw, -⟩ := Queue.startNext?_eq hq
  have hid : id ∈ s.queue.waiting := hw ▸ List.mem_cons_self
  refine ⟨h.fit.waits id hid, h.unstarted hid, fun k hk => ?_⟩
  have hlt : k < id := List.rel_of_pairwise_cons (h.sorted.sublist hk) (List.mem_singleton_self id)
  rcases h.rest k (hk.mem List.mem_cons_self) with hs | hwait | hd
  · exact .inl hs
  · -- Whoever waits behind the first one was admitted after it.
    have hsorted : (id :: rest).Pairwise (· < ·) :=
      hw ▸ (h.sorted.sublist h.queued).sublist (List.sublist_append_right _ _)
    rw [hw] at hwait
    rcases List.mem_cons.mp hwait with rfl | hrest
    · exact absurd hlt (Nat.lt_irrefl _)
    · exact absurd hlt (Nat.lt_asymm (List.rel_of_pairwise_cons hsorted hrest))
  · exact .inr hd

/-- A moment starts no job, or one that is due. -/
theorem InOrder.starts_moment (h : InOrder s) (hm : Moment s t) :
    t.starts = s.starts ∨ ∃ id, t.starts = s.starts ++ [id] ∧ s.Due id := by
  cases hm with
  | release => exact .inl rfl
  | occurs ho =>
    cases ho with
    | inert hi => exact .inl hi.starts
    | signal _ hi => exact .inl hi.starts
    | hear | asked => exact .inl (Still.noted rfl).starts
    | keep id path => exact .inl (keep_starts s id path)
    | take hq => exact .inr ⟨_, starts_taking s _ _, h.due hq⟩
    | _ => exact .inl rfl

/-- A job that was dropped stays so. -/
theorem InOrder.dropped (h : InOrder s) (hm : Moment s t) (hd : s.Dropped id) : t.Dropped id := by
  obtain ⟨j, hj, hfin, -, hbegun⟩ := hd
  have hold : id ∉ s.starts := fun hs => by
    have := (h.begun id j hj).mpr hs
    rw [hbegun] at this
    cases this
  obtain ⟨k, hk, -⟩ := (Moments.continues (.single hm)).knows id j hj
  rcases (h.moment hm).rest id (Queue.job?_mem_ids hk) with hs | hw | hd
  · refine absurd ?_ hold
    rcases h.starts_moment hm with hsame | ⟨i, hmore, hdue⟩
    · rwa [hsame] at hs
    · rw [hmore, List.mem_append, List.mem_singleton] at hs
      refine hs.resolve_right fun hi => ?_
      obtain ⟨l, hl, hopen⟩ := hdue.admitted
      rw [← hi, hj] at hl
      cases hl
      rw [hfin] at hopen
      cases hopen
  · have hopen := (h.fit.waiting_of_upcoming (hm.upcoming (.inl hw)) hj).2
    rw [hfin] at hopen
    cases hopen
  · exact hd

theorem InOrder.dropped_later (h : InOrder s) (hm : Moments s t) (hd : s.Dropped id) : t.Dropped id := by
  induction hm with
  | refl => exact hd
  | tail hrow hm ih => exact (h.moments hrow).dropped hm ih

/-- In every state of a run the jobs are in order. -/
theorem Runs.inOrder {settings : Settings} {store : Store} {directory : String} {budget : Nat}
    (h : Runs (Scheduler.start settings store directory budget) s) : InOrder s :=
  (InOrder.start settings store directory budget).moments h.moments

/-- What the commands of a run do is a row of moments, whatever can be copied. At each of them the jobs that started are
    some of those that were admitted, in the same order and each of them once; and a job that starts has neither started
    nor ended before, while every job that was admitted before it has started or was dropped. -/
theorem starts_in_order (settings : Settings) (store : Store) (directory : String) (budget : Nat) (copies : Copying)
    (supplied : Option Store) (commands : List Command) :
    let s₀ := Scheduler.start settings store directory budget
    Moments s₀ (s₀.giveAllWithin copies supplied commands).2 ∧
      ∀ s, Moments s₀ s → s.starts.Sublist s.queue.ids ∧ s.starts.Nodup ∧
        (∀ j ∈ s.queue.jobs, j.startedAt.isSome = true ↔ j.id ∈ s.starts) ∧
        ∀ t, Moment s t → t.starts = s.starts ∨ ∃ id, t.starts = s.starts ++ [id] ∧ s.Due id := by
  refine ⟨giveAllWithin_moments settings store directory budget copies supplied commands, fun s hs => ?_⟩
  have h : InOrder s := (InOrder.start settings store directory budget).moments hs
  have hsub : s.starts.Sublist s.queue.ids := (List.sublist_append_left _ _).trans h.queued
  exact ⟨hsub, hsub.nodup h.fit.nodup, fun j hj => h.begun j.id j (Queue.job?_of_mem h.fit.nodup hj),
    fun _ ht => h.starts_moment ht⟩

end MediaEngine.Scheduler
