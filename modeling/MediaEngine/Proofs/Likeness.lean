import MediaEngine.Proofs.Audience
import MediaEngine.Proofs.Streams

/-! # Runs that are alike

Two runs in which the same is done may differ in who listens, or in what can be copied. What they have in common is the
same in all such cases (`Likeness`): the schedulers differ in nothing but their audiences and in what was noted, and they
stay alike when both are changed in the same way. Then every act yields the same in both and leaves schedulers that are
alike (`Mirrors`). Acts are taken apart along the ways to build them; only where listeners are told (`Informs`) is something
to be shown for each likeness. What it asks of scripts is kept on its own (`Terms`). -/

namespace MediaEngine
namespace Job

/-! ## Terms for scripts -/

/-- What is asked of scripts: which metadata they hand in, whom they subscribe, and whom they unsubscribe. -/
structure Terms where
  holds : Members → Bool
  /-- The values that metadata may be changed to under a key. -/
  sets : String → Value → Bool
  seats : Listener → Bool
  leaves : String → Bool
  holds_set : ∀ m key value, holds m = true → sets key value = true → holds (Members.set key value m) = true

mutual

/-- A step that meets the terms, as does what follows from it. -/
def Step.meets (terms : Terms) : Step → Bool
  | .enqueue s => s.meets terms
  | .enqueueOrStop s => s.meets terms
  | .subscribe l => terms.seats l && l.meets terms
  | .unsubscribe name => terms.leaves name
  | _ => true

/-- A script of such steps. -/
def scriptMeets (terms : Terms) : List Step → Bool
  | [] => true
  | s :: rest => s.meets terms && scriptMeets terms rest

/-- A body of such steps. -/
def bodyMeets (terms : Terms) : Option (List Step) → Bool
  | none => true
  | some steps => scriptMeets terms steps

/-- A preview of such steps. -/
def PreviewScript.meets (terms : Terms) : PreviewScript → Bool
  | .none => true
  | .notRunnable => true
  | .waiting steps => scriptMeets terms steps
  | .immediate steps => scriptMeets terms steps

/-- A submission that meets the terms, in its scripts and its metadata. -/
def Submission.meets (terms : Terms) : Submission → Bool
  | ⟨_, body, preview, metadata, _⟩ => metadata.all terms.holds && (bodyMeets terms body && preview.meets terms)

/-- A listener who acts in such steps. -/
def Listener.meets (terms : Terms) : Listener → Bool
  | ⟨_, _, _, _, _, steps⟩ => scriptMeets terms steps

end

theorem Listener.meets_eq (terms : Terms) (l : Listener) : l.meets terms = scriptMeets terms l.steps := by
  cases l
  rw [meets]

/-- Nothing is asked of scripts. -/
def Terms.none : Terms where
  holds _ := true
  sets _ _ := true
  seats _ := true
  leaves _ := true
  holds_set _ _ _ _ _ := rfl

mutual

theorem Step.meets_none : ∀ step : Step, step.meets .none = true
  | .enqueue s => by rw [Step.meets, s.meets_none]
  | .enqueueOrStop s => by rw [Step.meets, s.meets_none]
  | .subscribe l => by rw [Step.meets, l.meets_none]; rfl
  | .log _ | .pause | .sleep _ | .gate _ | .openGate _ | .awaitToken | .seeToken | .check | .onCancel _ | .cancelToken _
  | .output _ | .total _ | .estimate _ | .bridge .. | .frame _ | .compile _ | .cancelAll | .seeQueue | .fail _ | .finish _
  | .seeResult | .unsubscribe _ => rfl

theorem scriptMeets_none : ∀ steps : List Step, scriptMeets .none steps = true
  | [] => rfl
  | step :: rest => by rw [scriptMeets, step.meets_none, scriptMeets_none rest]; rfl

theorem bodyMeets_none : ∀ body : Option (List Step), bodyMeets .none body = true
  | .none => rfl
  | .some steps => by rw [bodyMeets, scriptMeets_none steps]

theorem PreviewScript.meets_none : ∀ preview : PreviewScript, preview.meets .none = true
  | .none => rfl
  | .notRunnable => rfl
  | .waiting steps => by rw [PreviewScript.meets, scriptMeets_none steps]
  | .immediate steps => by rw [PreviewScript.meets, scriptMeets_none steps]

theorem Submission.meets_none : ∀ s : Submission, s.meets .none = true
  | ⟨_, body, preview, metadata, _⟩ => by
    rw [Submission.meets, bodyMeets_none body, preview.meets_none]
    cases metadata <;> rfl

theorem Listener.meets_none : ∀ l : Listener, l.meets .none = true
  | ⟨_, _, _, _, _, steps⟩ => by rw [Listener.meets, scriptMeets_none steps]

end

/-- The parts of a submission that meets the terms. -/
structure Submission.Sound (terms : Terms) (s : Submission) : Prop where
  metadata : s.metadata.all terms.holds = true
  body : bodyMeets terms s.body = true
  preview : s.preview.meets terms = true

theorem Submission.sound {terms : Terms} {s : Submission} (h : s.meets terms = true) : s.Sound terms := by
  cases s
  rw [meets, Bool.and_eq_true, Bool.and_eq_true] at h
  exact ⟨h.1, h.2.1, h.2.2⟩

end Job

open Job

/-- Such steps are left of the scripts of a job. -/
def Phase.meets (terms : Terms) : Phase → Bool
  | .fresh => true
  | .body rest => scriptMeets terms rest
  | .preview _ rest => scriptMeets terms rest

/-- A task that has such steps left. -/
def Work.meets (terms : Terms) : Work → Bool
  | .job _ phase => phase.meets terms
  | .waitIdle _ _ => true

/-- A job meets the terms, with the metadata that it has now. -/
structure Job.Fair (terms : Terms) (j : Job) : Prop where
  submission : j.submission.meets terms = true
  metadata : j.metadata.all terms.holds = true

/-- All jobs meet the terms. -/
def Queue.Fair (terms : Terms) (q : Queue) : Prop := ∀ j ∈ q.jobs, j.Fair terms

theorem Queue.Fair.update {terms : Terms} {q : Queue} (h : q.Fair terms) (id : JobId) {f : Job → Job}
    (hf : ∀ j, j.Fair terms → (f j).Fair terms) : (q.update id f).Fair terms := fun j hj => by
  obtain ⟨k, hk, rfl⟩ := List.mem_map.mp hj
  split
  · exact hf k (h k hk)
  · exact h k hk

namespace Queue
variable {q r : Queue} {id : JobId}

/-- The queue without the job that has waited longest. -/
def unqueued (q : Queue) : Queue := { q with waiting := q.waiting.tail }

theorem unqueued_of_shift? (h : q.shift? = some (id, r)) : r = q.unqueued := by
  obtain ⟨rest, hw, rfl⟩ := shift?_eq h
  rw [unqueued, hw]
  rfl

theorem unqueued_of_startNext? (h : q.startNext? = some (id, r)) : r = q.unqueued := by
  obtain ⟨-, rest, hw, rfl⟩ := startNext?_eq h
  rw [unqueued, hw]
  rfl

/-- Which job has waited longest does not depend on the audience. -/
theorem shift?_facing (q : Queue) (a : List Subscription) (b : List Nat) :
    (q.facing a b).shift?.map Prod.fst = q.shift?.map Prod.fst := by
  obtain ⟨settings, jobs, nextId, waiting, active, parked, subscriptions, subscribed, fullEvent, store, recorded, brokenOff⟩ := q
  cases waiting <;> rfl

theorem startNext?_facing (q : Queue) (a : List Subscription) (b : List Nat) :
    (q.facing a b).startNext?.map Prod.fst = q.startNext?.map Prod.fst := by
  change (if q.hasSlot then (q.facing a b).shift? else none).map Prod.fst = _
  unfold startNext?
  split
  · exact shift?_facing q a b
  · rfl

end Queue

namespace Scheduler

/-- All jobs meet the terms, also in what is left of their scripts. -/
structure Fair (terms : Terms) (s : Scheduler) : Prop where
  queue : s.queue.Fair terms
  tasks : ∀ x ∈ s.tasks, x.work.meets terms = true

/-- If nothing is asked of scripts, nothing is asked of jobs. -/
theorem fair_none (s : Scheduler) : s.Fair .none where
  queue j _ := by
    refine ⟨j.submission.meets_none, ?_⟩
    cases j.metadata <;> rfl
  tasks x _ := by
    obtain ⟨work, -, -⟩ := x
    cases work with
    | waitIdle => rfl
    | job _ phase =>
      cases phase with
      | fresh => rfl
      | body rest | preview _ rest => exact scriptMeets_none rest

/-- Tasks meet the terms when one of them is changed. -/
theorem meets_modify {terms : Terms} {tasks : List Task} (h : ∀ x ∈ tasks, x.work.meets terms = true) (task : TaskId)
    {f : Task → Task} (hf : ∀ x : Task, x.work.meets terms = true → (f x).work.meets terms = true) :
    ∀ x ∈ tasks.modify task f, x.work.meets terms = true := fun x hx => by
  obtain ⟨i, hi⟩ := List.mem_iff_getElem?.mp hx
  obtain ⟨y, hy, rfl⟩ := Option.map_eq_some_iff.mp ((List.getElem?_modify ..).symm.trans hi)
  have hold := h y (List.mem_of_getElem? hy)
  split
  · exact hf y hold
  · exact hold

/-- A likeness of schedulers that meet terms: they differ in nothing but their audiences and in what was noted, and stay
    alike when both are changed in the same way. -/
class Likeness (terms : outParam Terms) (R : Scheduler → Scheduler → Prop) : Prop where
  same {s t : Scheduler} : R s t → t = s.facing t.queue.subscriptions t.queue.subscribed t.notes
  fair {s t : Scheduler} : R s t → s.Fair terms
  /-- What is changed is not the audience, nor does the change depend on it. -/
  change {s t : Scheduler} (g : Scheduler → Scheduler) : R s t → (∀ s a b ns, g (s.facing a b ns) = (g s).facing a b ns) →
    (g s).Fair terms → R (g s) (g t)
  /-- What is noted is not that somebody heard of an event. -/
  noted {s t : Scheduler} {n : Queue.Note} : R s t → (∀ who, n.heardBy? who = none) → R (s.noted n) (t.noted n)
  subscribe {s t : Scheduler} {l : Listener} : R s t → terms.seats l = true → l.meets terms = true →
    R (s.mapQueue (·.subscribe l)) (t.mapQueue (·.subscribe l))
  /-- Whoever leaves is known in both, or in none. -/
  unsubscribe {s t : Scheduler} {name : String} : R s t → terms.leaves name = true →
    (s.queue.subscription? name = none ∧ t.queue.subscription? name = none) ∨
      ∃ i i', s.queue.subscription? name = some i ∧ t.queue.subscription? name = some i' ∧
        R (s.mapQueue (·.unsubscribe i)) (t.mapQueue (·.unsubscribe i'))

variable {terms : Terms} {R : Scheduler → Scheduler → Prop} {α β : Type} {P : α → Prop} {Q : β → Prop} {s t : Scheduler}

/-- In two schedulers two acts end in the same way, and they are alike afterwards. What they yield has a property. -/
def Mirrored (R : Scheduler → Scheduler → Prop) (P : α → Prop) (x y : Act α) (s t : Scheduler) : Prop :=
  ∃ r s' t', x.on s = (r, s') ∧ y.on t = (r, t') ∧ R s' t' ∧ ∀ v, r = .ok v → P v

/-- An act that is mirrored by another one in schedulers that are alike. -/
def Mirrors (R : Scheduler → Scheduler → Prop) (P : α → Prop) (x y : Act α) : Prop := ∀ ⦃s t⦄, R s t → Mirrored R P x y s t

/-- An act that is mirrored by itself. -/
abbrev Reflects (R : Scheduler → Scheduler → Prop) (P : α → Prop) (x : Act α) : Prop := Mirrors R P x x

/-- Nothing is asked of what an act yields. -/
def Any (_ : α) : Prop := True

/-! ## Ways to build acts -/

section Building
variable {x y : Act α} {f g : α → Act β}

/-- Both schedulers are left as other acts leave them. -/
theorem Mirrored.of_on {x y v w : Act β} {s₁ t₁ : Scheduler} (hs : x.on s = v.on s₁) (ht : y.on t = w.on t₁)
    (h : Mirrored R Q v w s₁ t₁) : Mirrored R Q x y s t := by
  unfold Mirrored
  rw [hs, ht]
  exact h

namespace Mirrors

theorem bind (hx : Mirrors R P x y) (hf : ∀ v, P v → Mirrors R Q (f v) (g v)) : Mirrors R Q (x >>= f) (y >>= g) := by
  intro s t hst
  obtain ⟨r, s', t', hs, ht, h, hr⟩ := hx hst
  cases r with
  | error e => exact ⟨.error e, s', t', Act.on_bind_error hs, Act.on_bind_error ht, h, fun _ hv => by cases hv⟩
  | ok v => exact .of_on (Act.on_bind_ok hs) (Act.on_bind_ok ht) (hf v (hr v rfl) h)

theorem pure {v : α} (hv : P v) : Reflects R P (pure v) := fun s t h =>
  ⟨.ok v, s, t, rfl, rfl, h, fun _ he => by cases he; exact hv⟩

theorem throw (fault : Fault) : Reflects R P (throw fault : Act α) := fun s t h =>
  ⟨.error fault, s, t, rfl, rfl, h, fun _ he => by cases he⟩

theorem yieldOr (e : Except Fault α) : Reflects R Any (yieldOr e) := fun s t h =>
  ⟨e, s, t, Act.on_yieldOr e, Act.on_yieldOr e, h, fun _ _ => trivial⟩

theorem outcome {f g : Except Fault α → Act β} (hx : Mirrors R P x y)
    (hf : ∀ r, (∀ v, r = .ok v → P v) → Mirrors R Q (f r) (g r)) : Mirrors R Q (outcome x >>= f) (outcome y >>= g) := by
  intro s t hst
  obtain ⟨r, s', t', hs, ht, h, hr⟩ := hx hst
  refine .of_on ?_ ?_ (hf r hr h) <;> rw [Act.on_outcome_bind]
  · rw [hs]
  · rw [ht]

variable [like : Likeness terms R]
include like

/-- Nothing is read of the queue that an audience changes. -/
theorem queue {f g : Queue → Act β} (hg : ∀ q a b, g (q.facing a b) = g q) (h : ∀ q, q.Fair terms → Mirrors R Q (f q) (g q)) :
    Mirrors R Q (queueNow >>= f) (queueNow >>= g) := fun s t hst => by
  have hqueue : t.queue = s.queue.facing t.queue.subscriptions t.queue.subscribed := congrArg Scheduler.queue (Likeness.same hst)
  have ht : g t.queue = g s.queue := hqueue ▸ hg s.queue _ _
  exact .of_on (v := f s.queue) (w := g s.queue) rfl (congrArg (fun y => y.on t) ht) (h s.queue (Likeness.fair hst).queue hst)

/-- Nothing is read that an audience changes. -/
theorem state {f g : Scheduler → Act β} (hg : ∀ s a b ns, g (s.facing a b ns) = g s)
    (h : ∀ s, s.Fair terms → Mirrors R Q (f s) (g s)) : Mirrors R Q (get >>= f) (get >>= g) := fun s t hst => by
  have ht : g t = g s := Likeness.same hst ▸ hg s _ _ _
  exact .of_on (v := f s) (w := g s) rfl (congrArg (fun y => y.on t) ht) (h s (Likeness.fair hst) hst)

theorem time {f g : Nat → Act β} (h : ∀ now, Mirrors R Q (f now) (g now)) : Mirrors R Q (timeNow >>= f) (timeNow >>= g) :=
  fun s t hst => by
    have hloop := congrArg Scheduler.loop (Likeness.same hst)
    have ht : g t.loop.now = g s.loop.now := congrArg (fun l => g l.now) hloop
    exact .of_on (v := f s.loop.now) (w := g s.loop.now) rfl (congrArg (fun y => y.on t) ht) (h s.loop.now hst)

/-- What is changed is not the audience, nor does the change depend on it. -/
theorem change {g : Scheduler → Scheduler} {v : α} (hx : ∀ s, x.on s = (.ok v, g s))
    (hg : ∀ s a b ns, g (s.facing a b ns) = (g s).facing a b ns) (hfair : ∀ s, s.Fair terms → (g s).Fair terms) :
    Reflects R Any x := fun s t h =>
  ⟨.ok v, g s, g t, hx s, hx t, Likeness.change g h hg (hfair s (Likeness.fair h)), fun _ _ => trivial⟩

theorem onLoop (f : Loop TimerAction → Loop TimerAction) : Reflects R Any (onLoop f) :=
  .change (fun _ => rfl) (fun _ _ _ _ => rfl) fun _ h => ⟨h.queue, h.tasks⟩

theorem onQueue {f : Queue → Queue} (hf : ∀ q a b, f (q.facing a b) = (f q).facing a b)
    (hfair : ∀ q, q.Fair terms → (f q).Fair terms) : Reflects R Any (onQueue f) :=
  .change (fun _ => rfl) (fun s a b ns => congrArg (fun q => { s with queue := q, notes := ns }) (hf s.queue a b))
    fun s h => ⟨hfair s.queue h.queue, h.tasks⟩

theorem update (id : JobId) {f : Job → Job} (hf : ∀ j, (f j).submission = j.submission ∧ (f j).metadata = j.metadata) :
    Reflects R Any (Scheduler.onQueue (·.update id f)) :=
  .onQueue (fun _ _ _ => rfl) fun _ h => h.update id fun j hj => ⟨(hf j).1 ▸ hj.submission, (hf j).2 ▸ hj.metadata⟩

theorem onTask (task : TaskId) {f : Task → Task} (hf : ∀ x : Task, x.work.meets terms = true → (f x).work.meets terms = true) :
    Reflects R Any (onTask task f) :=
  .change (fun _ => rfl) (fun _ _ _ _ => rfl) fun _ h => ⟨h.queue, meets_modify h.tasks task hf⟩

theorem note {n : Queue.Note} (hn : ∀ who, n.heardBy? who = none) : Reflects R Any (note n) := fun s t h =>
  ⟨.ok (), s.noted n, t.noted n, rfl, rfl, Likeness.noted h hn, fun _ _ => trivial⟩

/-- An act takes a job out of those that wait, and goes on in a way that depends on nothing but which one it is. -/
theorem next {g : Queue → Option (JobId × Queue)} (hg : ∀ q a b, (g (q.facing a b)).map Prod.fst = (g q).map Prod.fst)
    {x y v w : Act β} {x' y' : JobId → Act β} (hnone : ∀ u, g u.queue = none → x.on u = v.on u ∧ y.on u = w.on u)
    (hsome : ∀ u id q, g u.queue = some (id, q) → x.on u = (x' id).on u ∧ y.on u = (y' id).on u)
    (hv : Mirrors R Q v w) (hx : ∀ id, Mirrors R Q (x' id) (y' id)) : Mirrors R Q x y := fun s t h => by
  have hqueue : t.queue = s.queue.facing t.queue.subscriptions t.queue.subscribed := congrArg Scheduler.queue (Likeness.same h)
  have hsame : (g t.queue).map Prod.fst = (g s.queue).map Prod.fst := hqueue ▸ hg ..
  cases hs : g s.queue with
  | none =>
    have ht : g t.queue = none := by simpa [hs] using hsame
    exact .of_on (hnone s hs).1 (hnone t ht).2 (hv h)
  | some next =>
    obtain ⟨r, ht⟩ : ∃ r, g t.queue = some (next.1, r) := by simpa [hs] using hsame
    exact .of_on (hsome s next.1 next.2 hs).1 (hsome t next.1 r ht).2 (hx next.1 h)

end Mirrors
end Building

variable [like : Likeness terms R]
include like

/-! ## Operations -/

theorem wake_mirrors (tasks : List TaskId) : Reflects R Any (wake tasks) := by
  have hwoken : ∀ x : Task, x.work.meets terms = true → x.woken.work.meets terms = true := fun x hx => by
    unfold Task.woken
    split <;> exact hx
  refine .change (fun _ => rfl) (fun _ _ _ _ => rfl) fun s h => ⟨h.queue, fun x hx => ?_⟩
  obtain ⟨i, hi⟩ := List.mem_iff_getElem?.mp hx
  rw [rousing_tasks] at hi
  split at hi
  · obtain ⟨y, hy, rfl⟩ := Option.map_eq_some_iff.mp hi
    exact hwoken y (h.tasks y (List.mem_of_getElem? hy))
  · exact h.tasks x (List.mem_of_getElem? hi)

theorem createTask_mirrors {work : Work} (h : work.meets terms = true) : Reflects R Any (createTask work) := by
  refine .change (fun _ => rfl) (fun _ _ _ _ => rfl) fun s hs => ⟨hs.queue, fun x hx => ?_⟩
  rcases List.mem_append.mp hx with hx | hx
  · exact hs.tasks x hx
  · rw [List.mem_singleton.mp hx]
    exact h

theorem openGate_mirrors (gate : String) : Reflects R Any (openGate gate) :=
  .state (fun _ _ _ _ => rfl) fun _ _ => .bind (.onLoop _) fun _ _ => wake_mirrors _

omit like in
theorem forM_mirrors {γ : Type} {f : γ → Act Unit} (hf : ∀ c, Reflects R Any (f c)) (list : List γ) :
    Reflects R Any (list.forM f) := by
  induction list with
  | nil => exact .pure trivial
  | cons c rest ih => exact .bind (hf c) fun _ _ => ih

theorem signalToken_mirrors (id : JobId) (reason : Option String) : Reflects R Any (signalToken id reason) := by
  refine .queue (fun _ _ _ => rfl) fun q _ => ?_
  cases q.job? id with
  | none => exact .pure trivial
  | some job =>
    dsimp only
    cases job.token.signal reason with
    | none => exact .pure trivial
    | some signal =>
      exact .bind (.update id fun _ => ⟨rfl, rfl⟩) fun _ _ => .bind (wake_mirrors _) fun _ _ =>
        .bind (forM_mirrors (fun _ => .note fun _ => rfl) _) fun _ _ => .pure trivial

theorem record_mirrors (id : JobId) (path : Option String) : Reflects R Any (record id path) := by
  refine .queue (fun _ _ _ => rfl) fun q _ => ?_
  cases q.job? id with
  | none => exact .pure trivial
  | some job =>
    refine .bind (.onQueue (fun _ _ _ => rfl) fun _ h => h) fun _ _ => ?_
    split
    · exact .note fun _ => rfl
    · exact .throw _

theorem releaseParked_mirrors : Reflects R Any releaseParked := by
  refine .queue (fun _ _ _ => rfl) fun q _ => ?_
  split
  · exact .bind (.onQueue (fun _ _ _ => rfl) fun _ h => h) fun _ _ => wake_mirrors _
  · exact .pure trivial

theorem armExpiry_mirrors (id : JobId) : Reflects R Any (armExpiry id) := by
  refine .queue (fun _ _ _ => rfl) fun q _ => ?_
  dsimp only
  split
  · exact .bind (.yieldOr _) fun _ _ => .time fun _ => .onLoop _
  · exact .pure trivial

theorem unqueue_mirrors : Reflects R Any (onQueue Queue.unqueued) := .onQueue (fun _ _ _ => rfl) fun _ h => h

theorem activate_mirrors (id : JobId) (now : Nat) : Reflects R Any (onQueue (·.activate id now)) :=
  .onQueue (fun _ _ _ => rfl) fun q h => Queue.Fair.update (q := { q with active := q.active ++ [id] }) h id fun _ hj =>
    ⟨hj.submission, hj.metadata⟩

theorem recover_mirrors : Reflects R Any (onQueue (·.recover)) := by
  refine .onQueue (fun q _ _ => ?_) fun q h => ?_ <;> unfold Queue.recover
  · change (if q.isFull then _ else _) = _
    split <;> rfl
  · split <;> exact h

/-! ### Who is next

Which job is next is read together with the queue that is left without it, and that has its audience. So these acts are told
apart by which job it is, and what they do then depends on nothing else. -/

/-- Starts a job that waits, and then others. -/
def startFirst (notify : Notify) (n : Nat) (id : JobId) : Act Unit := do
  onQueue Queue.unqueued
  onQueue (·.recover)
  onLoop (·.disarm (.expire id))
  startJob notify id
  startUpTo notify n

/-- Cancels a job that waits, and then others. -/
def cancelFirst (notify : Notify) (n : Nat) (id : JobId) : Act (List JobId) := do
  onQueue Queue.unqueued
  onLoop (·.disarm (.expire id))
  cancel notify id (some cancelAllMessage)
  onQueue (·.recover)
  return id :: (← cancelUpTo notify n)

section Next
variable {notify : Notify} {n : Nat} {id : JobId} {q : Queue}
omit like

theorem startUpTo_first (h : s.queue.startNext? = some (id, q)) :
    (startUpTo notify (n + 1)).on s = (startFirst notify n id).on s := by
  rw [startUpTo_some h, Queue.unqueued_of_startNext? h]
  rfl

theorem cancelUpTo_last (h : s.queue.shift? = none) : (cancelUpTo notify (n + 1)).on s = (.ok [], s) := by
  rw [cancelUpTo, Act.on_queueNow_bind, h]
  rfl

theorem cancelUpTo_first (h : s.queue.shift? = some (id, q)) :
    (cancelUpTo notify (n + 1)).on s = (cancelFirst notify n id).on s := by
  rw [cancelUpTo, Act.on_queueNow_bind, h, Queue.unqueued_of_shift? h]
  rfl

end Next

/-! ### Telling and keeping -/

theorem breakOff_mirrors (event : Event) : Reflects R Any (onQueue (·.breakOff event)) := by
  refine .onQueue (fun q _ _ => ?_) fun q h => ?_ <;> unfold Queue.breakOff <;> split
  · rfl
  · rfl
  · exact h
  · exact h

theorem hearAll_mirrors {hearing hearing' : Hearing} {event : Event} {indices : List Nat}
    (hh : ∀ index ∈ indices, Mirrors R Any (hearing event index) (hearing' event index)) :
    Mirrors R Any (hearAll hearing event indices) (hearAll hearing' event indices) := by
  induction indices with
  | nil => exact .pure trivial
  | cons index rest ih =>
    have ih := ih fun i hi => hh i (List.mem_cons_of_mem _ hi)
    refine .outcome (hh index List.mem_cons_self) fun r _ => ?_
    cases r with
    | ok _ => exact ih
    | error fault =>
      dsimp only
      split
      · exact .bind (breakOff_mirrors event) fun _ _ => .throw _
      · exact .bind (.note fun _ => rfl) fun _ _ => ih

/-- Of whatever happens to a job, listeners are told in ways that mirror each other, and metadata that meet the terms can be
    copied in both or in none. -/
structure Informs (terms : Terms) (R : Scheduler → Scheduler → Prop) (notify notify' : Notify) : Prop where
  tells (kind : EventKind) (id : JobId) : Mirrors R Any (notify kind id) (notify' kind id)
  copies (m : Members) : terms.holds m = true → notify'.copies m = notify.copies m

omit like in
theorem Informs.isCopied {notify notify' : Notify} (hn : Informs terms R notify notify') {j : Job} (h : j.Fair terms) :
    j.isCopied notify'.copies = j.isCopied notify.copies := by
  have hm := h.metadata
  rw [Job.isCopied, Job.isCopied]
  cases hj : j.metadata with
  | none => rfl
  | some m =>
    rw [hj] at hm
    exact hn.copies m hm

omit like in
theorem Informs.shown {notify notify' : Notify} (hn : Informs terms R notify notify') {q : Queue} (h : q.Fair terms)
    (supplied : Option Store) : q.shown notify'.copies supplied = q.shown notify.copies supplied := by
  have hall : q.isCopied notify'.copies = q.isCopied notify.copies := by
    rw [Queue.isCopied, Queue.isCopied, Bool.eq_iff_iff, List.all_eq_true, List.all_eq_true]
    refine forall₂_congr fun j hj => ?_
    obtain ⟨id, -, hid⟩ := List.mem_filterMap.mp hj
    rw [hn.isCopied (h j (List.mem_of_find?_eq_some hid))]
  rw [Queue.shown, Queue.shown, hall]

section Operations
variable {notify notify' : Notify} (hn : Informs terms R notify notify') (id : JobId)
include hn

theorem file_mirrors (path : Option String) : Mirrors R Any (file notify.copies id path) (file notify'.copies id path) := by
  refine .queue (fun _ _ _ => rfl) fun q hq => ?_
  cases hj : q.job? id with
  | none => exact .pure trivial
  | some job =>
    dsimp only
    rw [hn.isCopied (hq job (List.mem_of_find?_eq_some hj))]
    split
    · exact record_mirrors id path
    · exact .bind (.onQueue (fun _ _ _ => rfl) fun _ h => h) fun _ _ => .throw _

theorem finish_mirrors (status : Job.Status) (path errorMessage message : Option String) :
    Mirrors R Any (finish notify id status path errorMessage message) (finish notify' id status path errorMessage message) := by
  refine .queue (fun _ _ _ => rfl) fun q _ => ?_
  cases q.job? id with
  | none => exact .pure trivial
  | some job =>
    dsimp only
    split
    · exact .note fun _ => rfl
    · exact .time fun _ => .bind (.update id fun _ => ⟨rfl, rfl⟩) fun _ _ => .bind (hn.tells .finished id) fun _ _ =>
        file_mirrors hn id path

theorem cancel_mirrors (message : Option String) : Mirrors R Any (cancel notify id message) (cancel notify' id message) :=
  finish_mirrors hn id .canceled none none message

theorem setStatus_mirrors (status : Job.Status) : Mirrors R Any (setStatus notify id status) (setStatus notify' id status) :=
  .bind (.update id fun _ => ⟨rfl, rfl⟩) fun _ _ => hn.tells .status id

theorem startJob_mirrors : Mirrors R Any (startJob notify id) (startJob notify' id) :=
  .time fun _ => .bind (activate_mirrors id _) fun _ _ => .queue (fun _ _ _ => rfl) fun _ _ =>
    .bind (.note fun _ => rfl) fun _ _ => .bind (hn.tells .started id) fun _ _ => createTask_mirrors rfl

theorem ask_mirrors : Mirrors R Any (ask notify id) (ask notify' id) := by
  refine .queue (fun _ _ _ => rfl) fun q _ => ?_
  cases q.job? id with
  | none => exact .pure trivial
  | some job =>
    dsimp only
    split
    · exact .pure trivial
    · exact .bind (setStatus_mirrors hn id .cancelling) fun _ _ => .bind (signalToken_mirrors id _) fun _ _ =>
        .bind (.note fun _ => rfl) fun _ _ => .pure trivial

omit id

theorem askAll_mirrors (ids : List JobId) : Mirrors R Any (askAll notify ids) (askAll notify' ids) := by
  induction ids with
  | nil => exact .pure trivial
  | cons id rest ih =>
    refine .bind (ask_mirrors hn id) fun asked _ => ?_
    split
    · exact .bind ih fun _ _ => .pure trivial
    · exact ih

theorem startUpTo_mirrors (n : Nat) : Mirrors R Any (startUpTo notify n) (startUpTo notify' n) := by
  induction n with
  | zero => exact .pure trivial
  | succ n ih =>
    refine .next Queue.startNext?_facing (v := pure ()) (w := pure ()) (fun u hu => ⟨startUpTo_none hu n, startUpTo_none hu n⟩)
      (fun u id q hu => ⟨startUpTo_first hu, startUpTo_first hu⟩) (.pure trivial) fun id => ?_
    exact .bind unqueue_mirrors fun _ _ => .bind recover_mirrors fun _ _ => .bind (.onLoop _) fun _ _ =>
      .bind (startJob_mirrors hn id) fun _ _ => ih

theorem startWaiting_mirrors : Mirrors R Any (startWaiting notify) (startWaiting notify') :=
  .state (fun _ _ _ _ => rfl) fun _ _ => startUpTo_mirrors hn _

theorem cancelUpTo_mirrors (n : Nat) : Mirrors R Any (cancelUpTo notify n) (cancelUpTo notify' n) := by
  induction n with
  | zero => exact .pure trivial
  | succ n ih =>
    refine .next Queue.shift?_facing (v := pure []) (w := pure []) (fun u hu => ⟨cancelUpTo_last hu, cancelUpTo_last hu⟩)
      (fun u id q hu => ⟨cancelUpTo_first hu, cancelUpTo_first hu⟩) (.pure trivial) fun id => ?_
    exact .bind unqueue_mirrors fun _ _ => .bind (.onLoop _) fun _ _ => .bind (cancel_mirrors hn id _) fun _ _ =>
      .bind recover_mirrors fun _ _ => .bind ih fun _ _ => .pure trivial

theorem cancelAll_mirrors : Mirrors R Any (cancelAll notify) (cancelAll notify') :=
  .queue (fun _ _ _ => rfl) fun _ _ => .bind (askAll_mirrors hn _) fun _ _ => .state (fun _ _ _ _ => rfl) fun _ _ =>
    .bind (cancelUpTo_mirrors hn _) fun _ _ => .bind releaseParked_mirrors fun _ _ => .pure trivial

theorem expire_mirrors (id : JobId) : Mirrors R Any (expire notify id) (expire notify' id) := by
  refine .queue (fun _ _ _ => rfl) fun q _ => ?_
  split
  · exact .bind (.onQueue (fun _ _ _ => rfl) fun _ h => h) fun _ _ => .bind (.yieldOr _) fun _ _ =>
      .bind (cancel_mirrors hn id _) fun _ _ => .bind recover_mirrors fun _ _ => releaseParked_mirrors
  · exact .pure trivial

theorem enqueue_mirrors (running : Bool) {submission : Submission} (hfair : submission.meets terms = true) :
    Mirrors R Any (enqueue notify running submission) (enqueue notify' running submission) := by
  unfold enqueue
  cases submission.defect with
  | some part => exact .throw _
  | none =>
    refine .queue (fun _ _ _ => rfl) fun q _ => ?_
    split
    · exact .time fun _ => .bind (.onQueue (fun _ _ _ => rfl) fun _ h => h) fun _ _ => .bind (.note fun _ => rfl) fun _ _ =>
        .throw _
    · split
      · exact .throw _
      · have admits : ∀ j : Job, j.Fair terms → ∀ r : Queue, r.Fair terms → (r.enlist j).Fair terms := fun j hj r hr k hk => by
          rcases List.mem_append.mp hk with hk | hk
          · exact hr k hk
          · exact List.mem_singleton.mp hk ▸ hj
        exact .bind (.onQueue (fun _ _ _ => rfl) fun _ h => h) fun _ _ => .bind (.yieldOr _) fun progress _ =>
          .bind (.onQueue (fun _ _ _ => rfl) (admits _ ⟨hfair, (Submission.sound hfair).metadata⟩)) fun _ _ =>
          .bind (.note fun _ => rfl) fun _ _ => .bind (hn.tells .queued q.nextId) fun _ _ =>
          .bind (armExpiry_mirrors _) fun _ _ => .bind (startWaiting_mirrors hn) fun _ _ => .pure trivial

end Operations

/-! ## Scripts -/

theorem subscribe_mirrors {l : Listener} (h : (terms.seats l && l.meets terms) = true) :
    Reflects R Any (onQueue (·.subscribe l)) := fun s t hst => by
  obtain ⟨hseats, hmeets⟩ := Bool.and_eq_true_iff.mp h
  exact ⟨.ok (), s.mapQueue (·.subscribe l), t.mapQueue (·.subscribe l), rfl, rfl, Likeness.subscribe hst hseats hmeets,
    fun _ _ => trivial⟩

theorem unsubscribe_mirrors {name : String} (h : terms.leaves name = true) : Reflects R Any (unsubscribe name) := fun s t hst => by
  rcases Likeness.unsubscribe hst h with ⟨hs, ht⟩ | ⟨i, i', hs, ht, hleft⟩
  · refine ⟨.error (.unknownName name), s, t, ?_, ?_, hst, fun _ _ => trivial⟩ <;> rw [unsubscribe, Act.on_queueNow_bind]
    · rw [hs]
      rfl
    · rw [ht]
      rfl
  · refine ⟨.ok (), s.mapQueue (·.unsubscribe i), t.mapQueue (·.unsubscribe i'), ?_, ?_, hleft, fun _ _ => trivial⟩ <;>
      rw [unsubscribe, Act.on_queueNow_bind]
    · rw [hs]
      rfl
    · rw [ht]
      rfl

section Scripts
variable (p : Player)

theorem tell_mirrors (what : String) (value : Value) : Reflects R Any (tell p what value) := .note fun _ => rfl

theorem ownJob?_mirrors : Reflects R Any (ownJob? p) := .queue (fun _ _ _ => rfl) fun _ _ => .pure trivial

theorem withJob_mirrors {f : Job → Act Unit} (hf : ∀ j, Reflects R Any (f j)) : Reflects R Any (withJob p f) := by
  refine .bind (ownJob?_mirrors p) fun job _ => ?_
  cases job with
  | none => exact .pure trivial
  | some job => exact hf job

theorem moveProgress_mirrors (what : String) (f : Progress → Except ArithmeticError Progress) :
    Reflects R Any (moveProgress p what f) :=
  withJob_mirrors p fun _ => .bind (.yieldOr _) fun _ _ => .bind (.update _ fun _ => ⟨rfl, rfl⟩) fun _ _ => tell_mirrors p _ _

theorem makeBridge_mirrors (fps tolerance frames : Value) : Reflects R Any (makeBridge p fps tolerance frames) :=
  withJob_mirrors p fun _ => .bind (.yieldOr _) fun _ _ => .bind (.update _ fun _ => ⟨rfl, rfl⟩) fun _ _ =>
    .update _ fun _ => ⟨rfl, rfl⟩

theorem showFrame_mirrors (index : Value) : Reflects R Any (showFrame p index) := by
  refine withJob_mirrors p fun j => ?_
  cases j.bridge with
  | none => exact .pure trivial
  | some bridge =>
    exact .bind (.update _ fun _ => ⟨rfl, rfl⟩) fun _ _ => .bind (.yieldOr _) fun _ _ =>
      .bind (.update _ fun _ => ⟨rfl, rfl⟩) fun _ _ => tell_mirrors p _ _

theorem registerCancel_mirrors (label : Value) : Reflects R Any (registerCancel p label) := by
  refine withJob_mirrors p fun j => ?_
  split
  · exact tell_mirrors p _ _
  · exact .update _ fun _ => ⟨rfl, rfl⟩

theorem compileChain_mirrors (chain : Value) : Reflects R Any (compileChain p chain) :=
  .state (fun _ _ _ _ => rfl) fun _ _ => .bind (.yieldOr _) fun _ _ => tell_mirrors p _ _

variable {notify notify' : Notify} (hn : Informs terms R notify notify')
include hn

theorem handIn_mirrors {submission : Submission} (h : submission.meets terms = true) :
    Mirrors R Any (handIn notify p submission) (handIn notify' p submission) := by
  refine .outcome (enqueue_mirrors hn true h) fun r _ => ?_
  cases r with
  | ok job => exact .note fun _ => rfl
  | error fault =>
    dsimp only
    split
    · exact .throw _
    · exact .note fun _ => rfl

theorem perform_mirrors {step : Job.Step} (h : step.meets terms = true) :
    Mirrors R Any (perform notify p step) (perform notify' p step) := by
  have silent : ∀ {x y : Act Unit}, Mirrors R Any x y →
      Mirrors R Any (do x; return none : Act (Option Value)) (do y; return none : Act (Option Value)) := fun hx =>
    .bind hx fun _ _ => .pure trivial
  cases step with
  | pause | sleep | gate | finish => exact .pure trivial
  | log value => exact silent (tell_mirrors p _ _)
  | openGate name => exact silent (openGate_mirrors name)
  | awaitToken | seeToken => exact silent (withJob_mirrors p fun _ => tell_mirrors p _ _)
  | check =>
    refine silent (withJob_mirrors p fun j => ?_)
    split
    · exact .throw _
    · exact .pure trivial
  | onCancel label => exact silent (registerCancel_mirrors p label)
  | cancelToken reason => exact silent (withJob_mirrors p fun _ => .bind (signalToken_mirrors _ _) fun _ _ => tell_mirrors p _ _)
  | output | total | estimate => exact silent (moveProgress_mirrors p _ _)
  | bridge => exact silent (makeBridge_mirrors p _ _ _)
  | frame => exact silent (showFrame_mirrors p _)
  | compile => exact silent (compileChain_mirrors p _)
  | cancelAll => exact .bind (cancelAll_mirrors hn) fun _ _ => silent (tell_mirrors p _ _)
  | seeQueue => exact .queue (fun _ _ _ => rfl) fun _ _ => silent (tell_mirrors p _ _)
  | enqueue submission =>
    exact silent (handIn_mirrors p hn (by rwa [Job.Step.meets] at h))
  | enqueueOrStop submission =>
    exact .bind (enqueue_mirrors hn true (by rwa [Job.Step.meets] at h)) fun _ _ => silent (tell_mirrors p _ _)
  | fail fault => exact .throw fault
  | seeResult =>
    unfold perform
    cases p.result with
    | none => exact .pure trivial
    | some r => exact silent (tell_mirrors p _ _)
  | subscribe listener => exact silent (subscribe_mirrors (by rwa [Job.Step.meets] at h))
  | unsubscribe name => exact silent (unsubscribe_mirrors (by rwa [Job.Step.meets] at h))

theorem playAtOnce_mirrors {steps : List Job.Step} (h : scriptMeets terms steps = true) :
    Mirrors R Any (playAtOnce notify p steps) (playAtOnce notify' p steps) := by
  induction steps with
  | nil => exact .pure trivial
  | cons step rest ih =>
    rw [scriptMeets, Bool.and_eq_true_iff] at h
    unfold playAtOnce
    split
    · exact ih h.2
    · refine .bind (perform_mirrors p hn h.1) fun value _ => ?_
      cases value with
      | some value => exact .pure trivial
      | none => exact ih h.2

omit hn in
theorem pause?_mirrors (step : Job.Step) : Reflects R Any (pause? p step) := by
  cases step with
  | gate name => exact .state (fun _ _ _ _ => rfl) fun _ _ => .pure trivial
  | awaitToken =>
    refine .bind (ownJob?_mirrors p) fun job _ => ?_
    cases job <;> exact .pure trivial
  | _ => exact .pure trivial

end Scripts

/-! ## Turns -/

/-- Steps that meet the terms are left of a script. -/
def Played.meets (terms : Terms) : Played → Bool
  | .returned _ => true
  | .waiting _ rest => scriptMeets terms rest

/-- Such steps are left of the scripts of a job. -/
def TurnEnd.meets (terms : Terms) : TurnEnd → Bool
  | .waiting _ phase => phase.meets terms
  | .over => true

theorem takeTimes_mirrors (j : Job) (result : RunResult) : Reflects R Any (takeTimes j result) := by
  have silently : ∀ f : Progress → Except ArithmeticError Progress, Reflects R Any (takeTimes.moveSilently j.id f) := fun f => by
    refine .queue (fun _ _ _ => rfl) fun q _ => ?_
    cases q.job? j.id with
    | none => exact .pure trivial
    | some job => exact .bind (.yieldOr _) fun _ _ => .update _ fun _ => ⟨rfl, rfl⟩
  unfold takeTimes
  cases result.totalTime with
  | none =>
    cases result.outputTime with
    | none => exact .pure trivial
    | some t => exact silently _
  | some t =>
    refine .bind (silently _) fun _ _ => ?_
    cases result.outputTime with
    | none => exact .pure trivial
    | some t => exact silently _

section Turns
variable {notify notify' : Notify} (hn : Informs terms R notify notify')
include hn

theorem play_mirrors (p : Player) {steps : List Job.Step} (h : scriptMeets terms steps = true) :
    Mirrors R (fun v => v.meets terms = true) (play notify p steps) (play notify' p steps) := by
  induction steps with
  | nil => exact .pure rfl
  | cons step rest ih =>
    have hrest := (Bool.and_eq_true_iff.mp h).2
    refine .bind (pause?_mirrors p step) fun pause _ => ?_
    cases pause with
    | some pause =>
      refine .pure ?_
      unfold Played.meets
      dsimp only
      split
      · exact h
      · exact hrest
    | none =>
      refine .bind (perform_mirrors p hn (Bool.and_eq_true_iff.mp h).1) fun value _ => ?_
      cases value with
      | some value => exact .pure rfl
      | none => exact ih hrest

theorem previewed_mirrors (j : Job) (result : RunResult) :
    Mirrors R (fun v => v.meets terms = true) (previewed notify j result) (previewed notify' j result) := by
  refine .queue (fun _ _ _ => rfl) fun q _ => ?_
  split
  · exact .throw _
  · exact .bind (finish_mirrors hn j.id .completed result.outputPath none none) fun _ _ => .pure rfl

theorem playPreview_mirrors (j : Job) (result : RunResult) {steps : List Job.Step} (h : scriptMeets terms steps = true) :
    Mirrors R (fun v => v.meets terms = true) (playPreview notify j result steps) (playPreview notify' j result steps) := by
  refine .bind (play_mirrors hn _ h) fun played hplayed => ?_
  cases played with
  | waiting pause rest => exact .pure hplayed
  | returned value => exact previewed_mirrors hn j result

theorem settleBody_mirrors {j : Job} (h : j.submission.meets terms = true) (value : Value) :
    Mirrors R (fun v => v.meets terms = true) (settleBody notify j value) (settleBody notify' j value) := by
  have hpreview := (Submission.sound h).preview
  refine .bind (.yieldOr _) fun result _ => .bind (takeTimes_mirrors j result) fun _ _ => .queue (fun _ _ _ => rfl) fun q _ => ?_
  split
  · exact .bind (cancel_mirrors hn j.id none) fun _ _ => .pure rfl
  · cases hp : j.submission.preview with
    | waiting steps =>
      rw [hp] at hpreview
      exact .bind (setStatus_mirrors hn j.id .coolingDown) fun _ _ =>
        playPreview_mirrors hn j result (by rwa [PreviewScript.meets] at hpreview)
    | immediate steps =>
      rw [hp] at hpreview
      exact .bind (setStatus_mirrors hn j.id .coolingDown) fun _ _ =>
        .bind (playAtOnce_mirrors _ hn (by rwa [PreviewScript.meets] at hpreview)) fun _ _ => previewed_mirrors hn j result
    | none | notRunnable => exact .bind (finish_mirrors hn j.id .completed result.outputPath none none) fun _ _ => .pure rfl

theorem playBody_mirrors {j : Job} (hj : j.submission.meets terms = true) {steps : List Job.Step}
    (h : scriptMeets terms steps = true) :
    Mirrors R (fun v => v.meets terms = true) (playBody notify j steps) (playBody notify' j steps) := by
  refine .bind (play_mirrors hn _ h) fun played hplayed => ?_
  cases played with
  | waiting pause rest => exact .pure hplayed
  | returned value => exact settleBody_mirrors hn hj value

theorem playJob_mirrors {j : Job} (hj : j.submission.meets terms = true) {phase : Phase} (h : phase.meets terms = true)
    (killed : Bool) :
    Mirrors R (fun v => v.meets terms = true) (playJob notify j phase killed) (playJob notify' j phase killed) := by
  unfold playJob
  split
  · exact .throw _
  · cases phase with
    | fresh =>
      refine playBody_mirrors hn hj ?_
      have hbody := (Submission.sound hj).body
      cases hb : j.submission.body with
      | none => rfl
      | some steps =>
        rw [hb] at hbody
        exact hbody
    | body rest => exact playBody_mirrors hn hj h
    | preview result rest => exact playPreview_mirrors hn j result h

theorem absorb_mirrors (id : JobId) (fault : Fault) : Mirrors R Any (absorb notify id fault) (absorb notify' id fault) := by
  refine .queue (fun _ _ _ => rfl) fun q _ => ?_
  split
  · exact cancel_mirrors hn id none
  · exact finish_mirrors hn id .failed none _ none

theorem vacate_mirrors (id : JobId) : Mirrors R Any (vacate notify id) (vacate notify' id) :=
  .bind (.onQueue (fun _ _ _ => rfl) fun _ h => h) fun _ _ => .bind (startWaiting_mirrors hn) fun _ _ => releaseParked_mirrors

omit hn in
theorem pauseTask_mirrors (task : TaskId) (id : JobId) (pause : Pause) : Reflects R Any (pauseTask task id pause) := by
  cases pause with
  | turn => exact Mirrors.onLoop (·.wake [task])
  | sleep milliseconds => exact .time fun _ => .bind (.onTask task fun _ h => h) fun _ _ => .onLoop _
  | gate name => exact .bind (.onTask task fun _ h => h) fun _ _ => .onLoop _
  | token => exact .bind (.onTask task fun _ h => h) fun _ _ => .update _ fun _ => ⟨rfl, rfl⟩

theorem runJob_mirrors (task : TaskId) (id : JobId) {phase : Phase} (h : phase.meets terms = true) (killed : Bool) :
    Mirrors R Any (runJob notify task id phase killed) (runJob notify' task id phase killed) := by
  have hretire : Reflects R Any (onTask task fun t => { t with turn := .over }) := .onTask task fun _ h => h
  refine .queue (fun _ _ _ => rfl) fun q hq => ?_
  cases hj : q.job? id with
  | none => exact .pure trivial
  | some job =>
    refine .outcome (playJob_mirrors hn (hq job (List.mem_of_find?_eq_some hj)).submission h killed) fun r hr => ?_
    cases r with
    | error fault =>
      exact .bind hretire fun _ _ => .outcome (absorb_mirrors hn id fault) fun _ _ =>
        .outcome (vacate_mirrors hn id) fun _ _ => .pure trivial
    | ok ended =>
      cases ended with
      | waiting pause phase => exact .bind (.onTask task fun _ _ => hr _ rfl) fun _ _ => pauseTask_mirrors task id pause
      | _ => exact .bind hretire fun _ _ => .outcome (vacate_mirrors hn id) fun _ _ => .pure trivial

omit hn in
theorem runWaitIdle_mirrors (task : TaskId) (name : String) (parked killed : Bool) :
    Reflects R Any (runWaitIdle task name parked killed) := by
  have hretire : Reflects R Any (onTask task fun t => { t with turn := .over }) := .onTask task fun _ h => h
  unfold runWaitIdle
  split
  · exact hretire
  · refine .queue (fun _ _ _ => rfl) fun q _ => ?_
    split
    · exact .bind hretire fun _ _ => .note fun _ => rfl
    · exact .bind (.onTask task fun _ _ => rfl) fun _ _ => .onQueue (fun _ _ _ => rfl) fun _ h => h

theorem runTask_mirrors (task : TaskId) : Mirrors R Any (runTask notify task) (runTask notify' task) := by
  refine .state (fun _ _ _ _ => rfl) fun s hs => ?_
  cases hx : s.tasks[task]? with
  | none => exact .pure trivial
  | some x =>
    have hfair := hs.tasks x (List.mem_of_getElem? hx)
    obtain ⟨work, turn, killed⟩ := x
    dsimp only
    split
    · exact .pure trivial
    · refine .bind (.onTask task fun _ h => h) fun _ _ => ?_
      cases work with
      | waitIdle name parked => exact runWaitIdle_mirrors task name parked killed
      | job id phase =>
        have hrun := runJob_mirrors hn task id hfair
        cases phase with
        | fresh =>
          cases killed with
          | true => exact .onTask task fun _ h => h
          | false => exact hrun false
        | body rest => exact hrun killed
        | preview result rest => exact hrun killed

theorem settleUpTo_mirrors (n : Nat) : Mirrors R Any (settleUpTo notify n) (settleUpTo notify' n) := by
  induction n with
  | zero => exact .pure trivial
  | succ n ih =>
    refine .state (fun _ _ _ _ => rfl) fun s _ => ?_
    cases s.loop.next? with
    | none => exact .pure trivial
    | some next => exact .bind (.onLoop _) fun _ _ => .outcome (runTask_mirrors hn next.1) fun _ _ => ih

theorem settle_mirrors : Mirrors R Any (settle notify) (settle notify') :=
  .state (fun _ _ _ _ => rfl) fun _ _ => settleUpTo_mirrors hn _

theorem fire_mirrors (action : TimerAction) : Mirrors R Any (fire notify action) (fire notify' action) := by
  cases action with
  | expire id => exact .outcome (expire_mirrors hn id) fun _ _ => .pure trivial
  | wake task => exact wake_mirrors [task]

theorem fireUpTo_mirrors (time n : Nat) : Mirrors R Any (fireUpTo notify time n) (fireUpTo notify' time n) := by
  induction n with
  | zero => exact .pure trivial
  | succ n ih =>
    refine .state (fun _ _ _ _ => rfl) fun s _ => ?_
    cases s.loop.fire? time with
    | none => exact .pure trivial
    | some next =>
      exact .bind (.onLoop _) fun _ _ => .bind (fire_mirrors hn next.1) fun _ _ => .bind (settle_mirrors hn) fun _ _ => ih

theorem advance_mirrors (milliseconds : Nat) : Mirrors R Any (advance notify milliseconds) (advance notify' milliseconds) :=
  .bind (settle_mirrors hn) fun _ _ => .time fun _ => .state (fun _ _ _ _ => rfl) fun _ _ =>
    .bind (fireUpTo_mirrors hn _ _) fun _ _ => .onLoop _

end Turns

/-! ## Commands -/

theorem withdrawTask_mirrors (task : TaskId) (a : Await) : Reflects R Any (withdrawTask task a) := by
  cases a with
  | gate name => exact Mirrors.onLoop (·.leave task)
  | token job => exact Mirrors.update job fun _ => ⟨rfl, rfl⟩
  | timer => exact Mirrors.onLoop (·.disarm (.wake task))
  | idle => exact .change (fun _ => rfl) (fun _ _ _ _ => rfl) fun _ h => ⟨h.queue, h.tasks⟩

theorem killTask_mirrors (task : TaskId) : Reflects R Any (killTask task) := by
  refine .state (fun _ _ _ _ => rfl) fun s _ => ?_
  cases s.tasks[task]? with
  | none => exact .pure trivial
  | some x =>
    dsimp only
    split
    · exact .pure trivial
    · exact .bind (.onTask task fun _ h => h) fun _ _ => .pure trivial
    · exact .bind (.onTask task fun _ h => h) fun _ _ => .bind (withdrawTask_mirrors task _) fun _ _ =>
        .bind (wake_mirrors [task]) fun _ _ => .pure trivial

theorem killLatest_mirrors (name : String) (p : Work → Bool) : Reflects R Any (killLatest name p) := by
  refine .state (fun _ _ _ _ => rfl) fun s _ => ?_
  cases s.latestTask? p with
  | none => exact .throw _
  | some task => exact killTask_mirrors task

theorem setMetadata_mirrors (name : String) {key : String} {value : Value} (h : terms.sets key value = true) :
    Reflects R Any (setMetadata name key value) := by
  refine .queue (fun _ _ _ => rfl) fun q hq => ?_
  cases hj : q.latest? name with
  | none => exact .throw _
  | some job =>
    have hfair : job.Fair terms := hq job (List.mem_reverse.mp (List.mem_of_find?_eq_some hj))
    obtain ⟨submission, metadata⟩ := hfair
    dsimp only
    split
    · exact .throw _
    · rename_i m hm
      rw [hm] at metadata
      exact .onQueue (fun _ _ _ => rfl) fun _ hr => hr.update _ fun j hj =>
        ⟨hj.submission, terms.holds_set m key value metadata h⟩

/-- A command that meets the terms, as does what follows from it. -/
def Command.meets (terms : Terms) : Command → Bool
  | .enqueue submission => submission.meets terms
  | .enqueueOutside submission => submission.meets terms
  | .subscribe l => terms.seats l && l.meets terms
  | .unsubscribe name => terms.leaves name
  | .setMetadata _ key value => terms.sets key value
  | _ => true

omit like in
theorem Command.meets_none (c : Command) : c.meets .none = true := by
  cases c with
  | enqueue submission | enqueueOutside submission => exact submission.meets_none
  | subscribe l => exact l.meets_none
  | _ => rfl

section Commands
variable {notify notify' : Notify} {c : Command}

theorem obey_mirrors (hn : Informs terms R notify notify') (supplied : Option Store) (h : c.meets terms = true) :
    Mirrors R Any (obey supplied notify c) (obey supplied notify' c) := by
  have replies : ∀ {α : Type} {x y : Act α} {f : α → Reply}, Mirrors R Any x y →
      Mirrors R Any (do return f (← x)) (do return f (← y)) := fun hx => .bind hx fun _ _ => .pure trivial
  have done : ∀ {x y : Act Unit}, Mirrors R Any x y →
      Mirrors R Any (do x; return .done : Act Reply) (do y; return .done : Act Reply) := fun hx =>
    .bind hx fun _ _ => .pure trivial
  cases c with
  | enqueue submission => exact replies (enqueue_mirrors hn true h)
  | enqueueOutside submission => exact replies (enqueue_mirrors hn false h)
  | cancelAll => exact replies (cancelAll_mirrors hn)
  | settle => exact done (settle_mirrors hn)
  | advance milliseconds => exact done (advance_mirrors hn milliseconds)
  | openGate name => exact done (openGate_mirrors name)
  | kill job => exact replies (killLatest_mirrors job _)
  | waitIdle name => exact done (createTask_mirrors rfl)
  | cancelWait name => exact replies (killLatest_mirrors name _)
  | subscribe l => exact done (subscribe_mirrors h)
  | unsubscribe name => exact done (unsubscribe_mirrors h)
  | view =>
    refine .queue (fun _ _ _ => rfl) fun q hq => ?_
    rw [hn.shown hq]
    exact replies (.yieldOr _)
  | warnings => exact .queue (fun _ _ _ => rfl) fun _ _ => .time fun _ => replies (.yieldOr _)
  | changeViews => exact .pure trivial
  | setMetadata name key value => exact done (setMetadata_mirrors name h)

end Commands


end Scheduler
end MediaEngine
