import Mathlib.Logic.Relation
import MediaEngine.Proofs.Evolution.Playing

/-! # One thing after the other

An evolution is a tree; what is observed of it is a sequence. `Occurs` lists the single things that happen
to a scheduler, `Unfolds` puts them in a row. Of the job whose turn it is more may happen than of others:
only in its own turn a job cools down and ends, and its task goes on to another phase. -/

namespace MediaEngine.Scheduler
open Job

/-- One thing that happens to a scheduler, in the turn of a job if it is the turn of one. -/
inductive Occurs (own : Option JobId) : Scheduler → Scheduler → Prop
  | inert {s t} : Inert s t → Occurs own s t
  | signal {s t id reason} : id ∈ s.queue.active → Signals id reason s t → Occurs own s t
  | hear {s} (who : String) (event : Event) : Occurs own s (s.noted (.heard who event))
  | breakOff {s} (event : Event) : Occurs own s (s.mapQueue (·.breakOff event))
  | enroll {s} (submission : Submission) (progress : Progress) : s.queue.isFull = false →
      Occurs own s (s.mapQueue fun q => q.draw.enlist (.admitted q.nextId submission progress))
  | arm {s id x} : s.queue.settings.timeoutSeconds = .ok x → Occurs own s (s.arming id)
  /-- The first job that waits becomes active. -/
  | take {s id q} : s.queue.startNext? = some (id, q) → Occurs own s (s.taking id q)
  | spawn {s id} : id ∈ s.queue.active → Occurs own s (s.spawn (.job id .fresh))
  | ask {s id j} : id ∈ s.queue.active → s.queue.job? id = some j → j.status ≠ .cancelling → j.status ≠ .canceled →
      Occurs own s (s.mapQueue (·.update id fun j => { j with status := .cancelling }))
  | asked {s} (id : JobId) : Occurs own s (s.noted (.logged (.asked id)))
  /-- A job that waits ends. -/
  | leave {s id j now message l} : id ∈ s.queue.waiting → s.queue.job? id = some j →
      (∀ timer ∈ l.timers, timer ∈ s.loop.timers) →
      Occurs own s { s with queue := (s.queue.withdraw id).update id (·.ended now .canceled none message), loop := l }
  | keep {s} (id : JobId) (path : Option String) : Occurs own s (s.keep id path)
  | cool {s id} : own = some id → id ∈ s.queue.active → s.queue.isCancelled id = false →
      Occurs own s (s.mapQueue (·.update id fun j => { j with status := .coolingDown }))
  | finish {s id j now status errorMessage message} : own = some id → id ∈ s.queue.active → s.queue.job? id = some j →
      j.finalized = false → Occurs own s (s.mapQueue (·.update id (·.ended now status errorMessage message)))
  | turn {s id task phase g} : own = some id → (∃ before, s.phase? task = some (id, before)) →
      (∀ x : Task, (g x).work = .job id phase) → Occurs own s { s with tasks := s.tasks.modify task g }

/-- Things that happen one after the other. -/
def Unfolds (own : Option JobId) : Scheduler → Scheduler → Prop := Relation.ReflTransGen (Occurs own)

variable {own : Option JobId} {s t u : Scheduler} {id : JobId}

/-! ## What a thing that happens keeps -/

theorem Fit.occurs (hf : Fit s) (h : Occurs own s t) : Fit t := by
  have updated : ∀ {id} {f : Job → Job}, (∀ j, (f j).id = j.id) → id ∈ s.queue.active → Fit (s.mapQueue (·.update id f)) :=
    fun hid ha => hf.update hid (fun hw => hf.apart _ ha (.inl hw)) s.loop
  cases h with
  | inert h => exact hf.stays h.toStays
  | signal _ h => exact hf.stays h.toStays
  | hear | asked | arm | spawn | turn => exact hf.stays (.of_queue rfl)
  | breakOff event => exact hf.breakOff event
  | enroll submission progress _ => exact hf.enroll submission progress
  | take hq => exact hf.taking hq
  | ask ha | cool _ ha | finish _ ha => exact updated (by intro; rfl) ha
  | leave => exact (hf.withdraw _ s.loop).update (by intro; rfl) (hf.not_mem_withdraw _) _
  | keep id path => exact hf.stays (keep_stays s id path)

namespace Occurs

/-- A job that is active stays so. -/
theorem active (h : Occurs own s t) (hid : id ∈ s.queue.active) : id ∈ t.queue.active := by
  cases h with
  | inert h => rw [h.active]; exact hid
  | signal _ h => rw [h.active]; exact hid
  | breakOff event =>
    obtain ⟨ids, hq, -⟩ := s.queue.breakOff_eq event
    rw [mapQueue_queue, hq]
    exact hid
  | take hq => rw [taking_active hq]; exact List.mem_append_left _ hid
  | keep id path => rw [(keep_stays s id path).active]; exact hid
  | _ => exact hid

theorem continues (h : Occurs own s t) : Queue.Continues s.queue t.queue := by
  have updated : ∀ {id} {f : Job → Job}, (∀ j, (f j).id = j.id) → (∀ j, (f j).submission = j.submission) →
      Queue.Continues s.queue (s.queue.update id f) := fun hid hs => .of_knows (.update _ _ hid hs) rfl rfl rfl
  cases h with
  | inert h => exact h.continues
  | signal _ h => exact h.continues
  | hear | asked | arm | spawn | turn => exact .refl _
  | breakOff event => exact .breakOff _ _
  | enroll => exact .of_knows (.enlist s.queue.draw _) rfl rfl rfl
  | take hq =>
    have hknows := Queue.Knows.start hq s.loop.now
    obtain ⟨rest, e, -, he⟩ := taking_eq hq
    change Queue.Knows s.queue (s.taking _ _).queue at hknows
    rw [he] at hknows ⊢
    exact .of_knows hknows rfl rfl rfl
  | ask | cool | finish => exact updated (by intro; rfl) (by intro; rfl)
  | leave => exact .of_knows (Queue.Knows.update _ _ (by intro; rfl) (by intro; rfl)) rfl rfl rfl
  | keep id path => exact (keep_stays s id path).continues

/-- No listener is forgotten. -/
theorem listeners (h : Occurs own s t) : s.queue.listeners <+: t.queue.listeners := by
  cases h with
  | inert h => exact h.listeners
  | signal _ h => exact h.listeners
  | breakOff event =>
    obtain ⟨ids, hq, -⟩ := s.queue.breakOff_eq event
    rw [mapQueue_queue, hq]
    exact List.prefix_rfl
  | take hq =>
    obtain ⟨rest, e, -, he⟩ := taking_eq hq
    rw [he]
    exact List.prefix_rfl
  | keep id path =>
    unfold Scheduler.keep
    split <;> exact List.prefix_rfl
  | _ => exact List.prefix_rfl

theorem keep_tasks (s : Scheduler) (id : JobId) (path : Option String) : (s.keep id path).tasks = s.tasks := by
  unfold Scheduler.keep
  split <;> rfl

/-- A task stays the task of its job, and goes on to another phase only in the turn of this job. -/
theorem phase (h : Occurs own s t) {i : TaskId} {before : Phase} (hi : s.phase? i = some (id, before)) :
    ∃ after, t.phase? i = some (id, after) ∧ (own ≠ some id → after = before) := by
  have same : t.phase? i = s.phase? i → ∃ after, t.phase? i = some (id, after) ∧ (own ≠ some id → after = before) :=
    fun h => ⟨before, h.trans hi, fun _ => rfl⟩
  -- Only a turn changes the phase of a task, and there is one only in the turn of its job.
  cases h with
  | inert h => exact same (h.phase i)
  | signal _ h => exact same (h.phase i)
  | keep => exact same (by rw [phase?, keep_tasks]; rfl)
  | spawn =>
    refine same ?_
    obtain ⟨x, hx, -⟩ := Option.bind_eq_some_iff.mp hi
    have hlt : i < s.tasks.length := (List.getElem?_eq_some_iff.mp hx).1
    change ((s.tasks ++ [_])[i]?).bind _ = (s.tasks[i]?).bind _
    rw [List.getElem?_append_left hlt]
  | @turn owner task after g hown hbefore hg =>
    by_cases htask : task = i
    · subst htask
      obtain ⟨ph, hph⟩ := hbefore
      cases hi.symm.trans hph
      obtain ⟨x, hx, -⟩ := Option.bind_eq_some_iff.mp hi
      refine ⟨after, ?_, fun hne => absurd hown hne⟩
      change ((s.tasks.modify task g)[task]?).bind _ = _
      rw [List.getElem?_modify_eq, hx]
      change (g x).work.phase? = _
      rw [hg]
      rfl
    · refine same ?_
      change ((s.tasks.modify task g)[i]?).bind _ = (s.tasks[i]?).bind _
      rw [List.getElem?_modify_ne _ _ htask]
  | _ => exact same rfl

end Occurs

/-! ## What things in a row keep -/

namespace Unfolds

theorem fit (h : Unfolds own s t) (hf : Fit s) : Fit t := by
  induction h with
  | refl => exact hf
  | tail _ h ih => exact ih.occurs h

theorem active (h : Unfolds own s t) (hid : id ∈ s.queue.active) : id ∈ t.queue.active := by
  induction h with
  | refl => exact hid
  | tail _ h ih => exact h.active ih

theorem continues (h : Unfolds own s t) : Queue.Continues s.queue t.queue := by
  induction h with
  | refl => exact .refl _
  | tail _ h ih => exact ih.trans h.continues

theorem listeners (h : Unfolds own s t) : s.queue.listeners <+: t.queue.listeners := by
  induction h with
  | refl => exact List.prefix_rfl
  | tail _ h ih => exact ih.trans h.listeners

theorem phase (h : Unfolds own s t) {i : TaskId} {before : Phase} (hi : s.phase? i = some (id, before)) :
    ∃ after, t.phase? i = some (id, after) ∧ (own ≠ some id → after = before) := by
  induction h with
  | refl => exact ⟨before, hi, fun _ => rfl⟩
  | tail _ h ih =>
    obtain ⟨between, hb, hsame⟩ := ih
    obtain ⟨after, ha, hsame'⟩ := h.phase hb
    exact ⟨after, ha, fun hne => (hsame' hne).trans (hsame hne)⟩

theorem one (h : Occurs own s t) : Unfolds own s t := .single h

theorem inert (h : Inert s t) : Unfolds own s t := one (.inert h)

end Unfolds

instance (own : Option JobId) : Tracks fun _ => Unfolds own where
  fit := Unfolds.fit
  active := Unfolds.active
  inert := .inert
  signal hid h := .one (.signal hid h)
  halt := .refl
  trans := .trans

instance (own : Option JobId) : Grows fun _ _ => Unfolds own where
  tracks _ := inferInstance
  continues := Unfolds.continues
  hear who := .one (.hear who _)
  breakOff h := h.tail (.breakOff _)
  enroll submission progress hf := .one (.enroll submission progress hf)
  arm hx := .one (.arm hx)
  start {_ b s t _ id _} hq h hc := by
    have htaken : Unfolds own s t := .head (.take hq) h
    cases b <;> cases hc
    · refine htaken.tail (.spawn (h.active ?_))
      rw [taking_active hq]
      exact List.mem_append_right _ (List.mem_singleton_self id)
    · exact htaken
  ask {_ b s t _ id _} hid hj hst hst' h hc := by
    have hask : Unfolds own s t := .head (.ask hid hj hst hst') h
    cases b
    · obtain ⟨v, hv, rfl⟩ := hc
      exact (hask.tail (.signal (hask.active hid) hv)).tail (.asked id)
    · cases hc
      exact hask
  leave {_ b s t _ id _ _ _ path _} hid hj hl h hc := by
    have hleave : Unfolds own s t := .head (.leave hid hj hl) h
    cases b
    · exact (hleave.tail (.keep id path)).tail (.inert hc)
    · cases hc.1
      exact hleave

/-- However deep listeners may act, what telling them comes to unfolds. -/
theorem notifyUpTo_unfolds (n : Nat) : Tells (hearsay (fun _ _ => Unfolds none) none) (notifyUpTo n) :=
  (notifyUpTo_notifies n).tells none

/-- What comes after an act forgets no listener. -/
theorem listeners_after {α β : Type} {x : Act α} {f : α → Act β} (hf : Fit ((x.on s).2))
    (h : ∀ a, Leads (fun _ => Unfolds none) ((x.on s).2) (f a)) :
    (x.on s).2.queue.listeners <+: ((x >>= f).on s).2.queue.listeners := by
  rw [Act.on_bind]
  rcases hx : x.on s with ⟨e | a, t⟩
  · exact List.prefix_rfl
  · rw [hx] at hf h
    exact (h a hf).listeners

end MediaEngine.Scheduler
