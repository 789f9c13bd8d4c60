import MediaEngine.Proofs.Doing
import MediaEngine.Proofs.Verdicts

/-! # The course of a turn

What the turn of a job comes to, with the schedulers between its parts as they are: its script is played, in
between the job may cool down, and then it waits, or it ends and its slot is given to the next one
(`TurnOf`). -/

namespace MediaEngine
open Job

/-- Whether the preview of a job is what is left to be played. -/
def Phase.isPreview : Phase → Bool
  | .preview .. => true
  | _ => false

/-- Whether nothing of a job was played. -/
def Phase.isFresh : Phase → Bool
  | .fresh => true
  | _ => false

namespace Scheduler
/-- The scheduler once it is settled how a job ends. -/
def ending (s : Scheduler) (id : JobId) (status : Job.Status) (errorMessage message : Option String) : Scheduler :=
  s.mapQueue (·.update id (·.ended s.loop.now status errorMessage message))

/-- The job is active and has not ended. -/
structure Underway (s : Scheduler) (id : JobId) (j : Job) : Prop where
  fit : Fit s
  active : id ∈ s.queue.active
  job : s.queue.job? id = some j
  unended : j.finalized = false

/-- The script of a job is played. The first two marks tell whether the job has cooled down before and after, the third
    that this was cut short. -/
inductive Works (N : Telling) (id : JobId) : Bool → Bool → Bool → Scheduler → Scheduler → Prop
  | does {c b s t} : Does N b s t → Works N id c c b s t
  | cools {b s t j} : s.Underway id j → j.token.cancelled = false → Along N .status id b (s.showing id .coolingDown) t →
      Works N id false true b s t
  | trans {c d e b s t u} : Works N id c d false s t → Works N id d e b t u → Works N id c e b s u

/-- A job ends: a signalled token wins over everything else, and a job with a preview is completed only if it has cooled
    down. -/
inductive Concludes (N : Telling) (id : JobId) (cooled : Bool) (status : Job.Status) (b : Bool) (s : Scheduler) : Scheduler → Prop
  | ends {j : Job} {path errorMessage message : Option String} {t u : Scheduler} : s.Underway id j →
      (j.token.cancelled = true → status = .canceled) → status.isTerminal = true →
      (status = .completed → j.submission.hasPreview = true → cooled = true) →
      Along N .finished id b (s.ending id status errorMessage message) t → Recorded id path b t u →
      Concludes N id cooled status b s u

/-- What playing a job on has come to: it waits, it has ended, or it stopped with a fault, before it ended or while it
    did. -/
def Arrives (N : Telling) (id : JobId) (c : Bool) (s : Scheduler) : Except Fault TurnEnd → Scheduler → Prop
  | .ok (.waiting _ phase), t => Works N id c phase.isPreview false s t
  | .ok .over, t => ∃ d status m, Works N id c d false s m ∧ Concludes N id d status false m t
  | .error f, t => (∃ d, Works N id c d f.isTaskCancelled s t) ∨
      ∃ d status m, Works N id c d false s m ∧ Concludes N id d status f.isTaskCancelled m t

/-- Jobs that wait start, the first one first, at most a number of them. -/
inductive Starts (N : Telling) : Nat → Bool → Scheduler → Scheduler → Prop
  | most {s} : Starts N 0 false s s
  | done {n s} : s.queue.startNext? = none → Starts N (n + 1) false s s
  | next {n b s t u id q} : Fit s → s.queue.startNext? = some (id, q) → Along N .started id false (s.taking id q) t →
      Starts N n b (t.spawn (.job id .fresh)) u → Starts N (n + 1) b s u
  | cut {n s t id q} : Fit s → s.queue.startNext? = some (id, q) → Along N .started id true (s.taking id q) t →
      Starts N (n + 1) true s t

/-- The slot of a job is given to those that wait, and unless this is cut short, those go on who wait for the queue to be
    idle. -/
inductive Vacates (N : Telling) (id : JobId) (s : Scheduler) : Scheduler → Prop
  | fills {t : Scheduler} : Starts N (s.queue.waiting.length + s.budget) false (s.mapQueue (·.release id)) t →
      Vacates N id s t.unparking
  | cut {t : Scheduler} : Starts N (s.queue.waiting.length + s.budget) true (s.mapQueue (·.release id)) t → Vacates N id s t

/-- The turn of a job: it waits again, it ends, or it stops with a fault and is ended. If its task was cancelled it stops
    at once. -/
inductive TurnOf (N : Telling) (task : TaskId) (id : JobId) (phase : Phase) (killed : Bool) (s : Scheduler) : Scheduler → Prop
  | waits {pause : Pause} {after : Phase} {t : Scheduler} : killed = false →
      Works N id phase.isPreview after.isPreview false s t → TurnOf N task id phase killed s (t.pausing task id pause after)
  | ends {d b : Bool} {status : Job.Status} {t u v w : Scheduler} : killed = false →
      Works N id phase.isPreview d false s t → Concludes N id d status b t u → Touches (u.retire task) v → Vacates N id v w →
      TurnOf N task id phase killed s w
  | stops {d b c : Bool} {status : Job.Status} {t u v : Scheduler} : (killed = true → t = s ∧ status = .canceled) →
      Works N id phase.isPreview d b s t → Concludes N id d status c (t.retire task) u → Vacates N id u v →
      TurnOf N task id phase killed s v

variable {N : Telling} {s t u : Scheduler} {id : JobId} {j k : Job} {b c d : Bool} {status : Job.Status}

/-- What happens outside of its turn leaves alone how far a job is that does not wait any longer, and a canceled job stays
    canceled. -/
theorem Occurs.lasts (hu : ¬ s.Upcoming id) (hj : s.queue.job? id = some j) (h : Occurs none s t) :
    ∃ k, t.queue.job? id = some k ∧ Lasts j k ∧ (j.status = .canceled → k.status = .canceled) := by
  -- The job is past, so it is neither the one that starts nor the one that leaves.
  have same : t.queue.job? id = some j →
      ∃ k, t.queue.job? id = some k ∧ Lasts j k ∧ (j.status = .canceled → k.status = .canceled) := fun hk =>
    ⟨j, hk, .refl j, fun h => h⟩
  have tuned : List.Forall₂ Tuned s.queue.jobs t.queue.jobs →
      ∃ k, t.queue.job? id = some k ∧ Lasts j k ∧ (j.status = .canceled → k.status = .canceled) := fun h => by
    obtain ⟨k, hk, ht⟩ := Queue.tuned_job?_some h hj
    exact ⟨k, hk, ht.toLasts, ht.status.trans⟩
  have other : ∀ {q : Queue} {i : JobId} {f : Job → Job}, q.jobs = s.queue.jobs → (∀ j, (f j).id = j.id) → i ∈ s.queue.waiting →
      (q.update i f).job? id = some j := fun hq hid hi => by
    have hne : id ≠ _ := fun he => hu (.inl (he ▸ hi))
    rw [Queue.job?_update_ne hid hne, Queue.job?, hq]
    exact hj
  cases h with
  | inert h => exact tuned h.jobs
  | signal _ h => exact tuned h.jobs
  | hear | asked | arm | spawn => exact same hj
  | breakOff event =>
    obtain ⟨ids, hq, -⟩ := s.queue.breakOff_eq event
    exact same (by rw [mapQueue_queue, hq]; exact hj)
  | enroll => exact same (Queue.job?_enlist_some hj)
  | take hq =>
    obtain ⟨rest, e, hw, he⟩ := taking_eq hq
    refine same ?_
    rw [he]
    exact other rfl (by intro; rfl) (hw ▸ List.mem_cons_self)
  | @ask i k hi hk _ hne =>
    by_cases hid : id = i
    · subst hid
      cases hj.symm.trans hk
      exact ⟨_, Queue.job?_update_self (by intro; rfl) hj, { Lasts.refl j with }, fun h => absurd h hne⟩
    · exact same ((Queue.job?_update_ne (by intro; rfl) hid).trans hj)
  | leave hi => exact same (other rfl (by intro; rfl) hi)
  | keep i path => exact tuned (keep_stays s i path).jobs
  | cool h | finish h | turn h => cases h

theorem Unfolds.lasts (h : Unfolds none s t) (hu : ¬ s.Upcoming id) (hj : s.queue.job? id = some j) :
    ∃ k, t.queue.job? id = some k ∧ Lasts j k ∧ (j.status = .canceled → k.status = .canceled) := by
  induction h with
  | refl => exact ⟨j, hj, .refl j, fun h => h⟩
  | tail hst hstep ih =>
    obtain ⟨k, hk, hjk, hc⟩ := ih
    obtain ⟨l, hl, hkl, hc'⟩ := hstep.lasts (fun h => hu (Moments.upcoming (Unfolds.moments hst) h)) hk
    exact ⟨l, hl, hjk.trans hkl, fun h => hc' (hc h)⟩

theorem Underway.unfolds (h : s.Underway id j) (hu : Unfolds none s t) : ∃ k, t.Underway id k ∧ k.submission = j.submission := by
  obtain ⟨k, hk, hlasts, -⟩ := hu.lasts (h.fit.apart id h.active) h.job
  exact ⟨k, ⟨hu.fit h.fit, hu.active h.active, hk, hlasts.finalized.trans h.unended⟩, hlasts.submission⟩

theorem Underway.showing (h : s.Underway id j) (status : Job.Status) :
    (s.showing id status).Underway id { j with status := status } where
  fit := h.fit.update (by intro; rfl) (fun hw => h.fit.apart id h.active (.inl hw)) s.loop
  active := h.active
  job := Queue.job?_update_self (by intro; rfl) h.job
  unended := h.unended

/-! ## Parts of a turn -/

theorem Works.underway (h : Works N id c d b s t) (hu : s.Underway id j) :
    ∃ k, t.Underway id k ∧ k.submission = j.submission := by
  induction h generalizing j with
  | does h => exact hu.unfolds h.unfolds
  | cools _ _ h =>
    obtain ⟨k, hk, hsub⟩ := (hu.showing .coolingDown).unfolds h.1
    exact ⟨k, hk, hsub⟩
  | trans _ _ ih₁ ih₂ =>
    obtain ⟨k, hk, hsub⟩ := ih₁ hu
    obtain ⟨l, hl, hsub'⟩ := ih₂ hk
    exact ⟨l, hl, hsub'.trans hsub⟩

theorem Works.unfolds (h : Works N id c d b s t) : Unfolds (some id) s t := by
  induction h with
  | does h => exact h.unfolds.within
  | cools hu hc h =>
    refine .head (.cool rfl hu.active ?_) h.1.within
    rw [Queue.isCancelled, hu.job]
    exact hc
  | trans _ _ ih₁ ih₂ => exact ih₁.trans ih₂

theorem Concludes.unfolds (h : Concludes N id c status b s t) : Unfolds (some id) s t := by
  cases h with
  | ends hu _ _ _ h hr => exact .trans (.head (.finish rfl hu.active hu.job hu.unended) h.1.within) hr.unfolds

/-- A job that ends has ended, and if it was canceled it is so. -/
theorem Concludes.ended (h : Concludes N id c status b s t) :
    Fit t ∧ id ∈ t.queue.active ∧ ∃ k, t.queue.job? id = some k ∧ k.finalized = true ∧ (status = .canceled → k.status = .canceled) := by
  cases h with
  | @ends j path errorMessage message v _ hu _ _ _ h hr =>
    have hfit : Fit (s.ending id status errorMessage message) :=
      hu.fit.update (by intro; rfl) (fun hw => hu.fit.apart id hu.active (.inl hw)) s.loop
    have hrow : Unfolds none (s.ending id status errorMessage message) t := h.1.trans hr.unfolds
    obtain ⟨k, hk, hlasts, hc⟩ := hrow.lasts (hu.fit.apart id hu.active) (Queue.job?_update_self (by intro; rfl) hu.job)
    exact ⟨hrow.fit hfit, hrow.active hu.active, k, hk, hlasts.finalized, hc⟩

/-- What was played before counts as played. -/
theorem Works.arrives {r : Except Fault TurnEnd} (h : Works N id c d false s t) (ha : Arrives N id d t r u) :
    Arrives N id c s r u := by
  match r, ha with
  | .ok (.waiting _ _), ha => exact h.trans ha
  | .ok .over, ⟨e, status, m, hw, hc⟩ => exact ⟨e, status, m, h.trans hw, hc⟩
  | .error f, .inl ⟨e, hw⟩ => exact .inl ⟨e, h.trans hw⟩
  | .error f, .inr ⟨e, status, m, hw, hc⟩ => exact .inr ⟨e, status, m, h.trans hw, hc⟩

/-! ## Playing a job on -/

/-- Playing a job on, which is underway, arrives somewhere. -/
def Pursues (N : Telling) (j : Job) (c : Bool) (s : Scheduler) (x : Act TurnEnd) : Prop :=
  ∀ k, s.Underway j.id k → k.submission = j.submission → Arrives N j.id c s (x.on s).1 (x.on s).2

namespace Pursues
variable {α : Type} {x : Act α} {f : α → Act TurnEnd} {notify : Notify}

theorem works (hx : ∀ k, s.Underway j.id k → k.submission = j.submission → ∃ r t, x.on s = (r, t) ∧ Works N j.id c d (Broken r) s t)
    (hf : ∀ a t, x.on s = (.ok a, t) → Pursues N j d t (f a)) : Pursues N j c s (x >>= f) := by
  intro k hk hsub
  obtain ⟨r, t, hr, hw⟩ := hx k hk hsub
  rw [Act.on_bind, hr]
  cases r with
  | error e => exact .inl ⟨d, hw⟩
  | ok a =>
    obtain ⟨l, hl, hsub'⟩ := hw.underway hk
    exact hw.arrives (hf a t hr l hl (hsub'.trans hsub))

theorem bind (hx : ∀ k, s.Underway j.id k → Leads (Does N) s x) (hf : ∀ a t, x.on s = (.ok a, t) → Pursues N j c t (f a)) :
    Pursues N j c s (x >>= f) :=
  works (fun k hk _ => ⟨_, _, rfl, .does (hx k hk hk.fit)⟩) hf

theorem throw (e : Fault) : Pursues N j c s (MonadExcept.throw e) := fun _ hk _ =>
  .inl ⟨c, .does (Leads.throw (R := Does N) e hk.fit)⟩

theorem waiting (pause : Pause) {phase : Phase} (h : phase.isPreview = c) : Pursues N j c s (Pure.pure (.waiting pause phase)) :=
  fun _ _ _ => h ▸ .does .still

theorem same {x y : Act TurnEnd} (hy : y.on s = x.on s) (h : Pursues N j c s x) : Pursues N j c s y := by
  intro k hk hsub
  rw [hy]
  exact h k hk hsub

theorem concludes (hn : Tells (Along N) notify) {path errorMessage message : Option String} (hterm : status.isTerminal = true)
    (hc : s.queue.isCancelled j.id = true → status = .canceled)
    (hp : status = .completed → j.submission.hasPreview = true → c = true) :
    Pursues N j c s (do
      finish notify j.id status path errorMessage message
      return .over) := by
  intro k hk hsub
  obtain ⟨r, t, u, hr, ht, hu, -⟩ := finish_told hn hk.fit (fun hw => hk.fit.apart _ hk.active (.inl hw)) hk.job hk.unended
    status path errorMessage message
  have hends : Concludes N j.id c status (Broken r) s u := by
    refine .ends hk (fun h => hc ?_) hterm (fun h => hsub ▸ hp h) ht hu
    rw [Queue.isCancelled, hk.job]
    exact h
  rw [Act.on_bind, hr]
  cases r with
  | error e => exact .inr ⟨c, status, s, .does .still, hends⟩
  | ok _ => exact ⟨c, status, s, .does .still, hends⟩

end Pursues

section Playing
variable {notify : Notify}

theorem Underway.player {p : Player} (h : s.Underway id k) (hp : p.job = some id) : p.Active s := fun i hi => by
  cases hp.symm.trans hi
  exact h.active

theorem previewed_pursues (hn : Tells (Along N) notify) (result : RunResult) : Pursues N j true s (previewed notify j result) := by
  refine Pursues.same (Act.on_queueNow_bind _) ?_
  split
  · exact Pursues.throw _
  · rename_i hc
    exact Pursues.concludes hn rfl (fun h => absurd h hc) fun _ _ => rfl

theorem serves_does (hn : Tells (Along N) notify) : Serves (Does N) notify :=
  ⟨fun submission _ => enqueue_told hn submission, fun _ => cancelAll_told hn⟩

theorem playPreview_pursues (hn : Tells (Along N) notify) (result : RunResult) (steps : List Step) :
    Pursues N j true s (playPreview notify j result steps) := by
  refine Pursues.bind (fun _ hk => play_leads (serves_does hn) (hk.player rfl) steps) fun played t _ => ?_
  cases played with
  | waiting pause rest => exact Pursues.waiting _ rfl
  | returned value => exact previewed_pursues hn result

/-- Cooling down, as an act. -/
theorem cool_works (hn : Tells (Along N) notify) (hk : s.Underway id k) (hc : s.queue.isCancelled id = false) :
    ∃ r t, (setStatus notify id .coolingDown).on s = (r, t) ∧ Works N id false true (Broken r) s t := by
  rw [Queue.isCancelled, hk.job] at hc
  exact ⟨_, _, rfl, .cools hk hc (hn.leads .status id _ (hk.showing .coolingDown).fit)⟩

theorem settleBody_pursues (hn : Tells (Along N) notify) (value : Value) : Pursues N j false s (settleBody notify j value) := by
  have hread : Broken ((RunResult.ofValue value).mapError Fault.result) = false := by
    cases RunResult.ofValue value <;> rfl
  refine Pursues.bind (fun _ _ => (Calm.yieldOr hread).leads) fun result t _ => ?_
  refine Pursues.bind (fun _ _ => (calm_takeTimes j result).leads) fun _ u _ => ?_
  refine Pursues.same (Act.on_queueNow_bind _) ?_
  split
  · exact Pursues.concludes hn rfl (fun _ => rfl) fun h => by cases h
  · rename_i hc
    have hc : u.queue.isCancelled j.id = false := Bool.eq_false_iff.mpr hc
    cases hp : j.submission.preview with
    | waiting steps => exact Pursues.works (fun _ hk _ => cool_works hn hk hc) fun _ v _ => playPreview_pursues hn result _
    | immediate steps =>
      exact Pursues.works (fun _ hk _ => cool_works hn hk hc) fun _ v _ =>
        Pursues.bind (fun _ hk => playAtOnce_leads (serves_does hn) (hk.player rfl) _) fun _ w _ => previewed_pursues hn result
    | none | notRunnable =>
      refine Pursues.concludes hn rfl (fun h => by rw [hc] at h; cases h) fun _ h => ?_
      rw [Submission.hasPreview, hp] at h
      cases h

theorem playBody_pursues (hn : Tells (Along N) notify) (steps : List Step) : Pursues N j false s (playBody notify j steps) := by
  refine Pursues.bind (fun _ hk => play_leads (serves_does hn) (hk.player rfl) steps) fun played t _ => ?_
  cases played with
  | waiting pause rest => exact Pursues.waiting _ rfl
  | returned value => exact settleBody_pursues hn value

theorem playJob_pursues (hn : Tells (Along N) notify) (phase : Phase) (killed : Bool) :
    Pursues N j phase.isPreview s (playJob notify j phase killed) := by
  unfold playJob
  split
  · exact Pursues.throw _
  · cases phase with
    | fresh => exact playBody_pursues hn _
    | body rest => exact playBody_pursues hn rest
    | preview result rest => exact playPreview_pursues hn result rest

end Playing

/-! ## The turn of a job -/

section Turn
variable {notify : Notify} {task : TaskId} {n : Nat}

theorem startUpTo_starts (hn : Tells (Along N) notify) (hf : Fit s) (n : Nat) : ∃ r t, (startUpTo notify n).on s = (r, t) ∧
    Starts N n (Broken r) s t ∧ (Broken r = false → r = .ok ()) := by
  induction n generalizing s with
  | zero => exact ⟨.ok (), s, rfl, .most, fun _ => rfl⟩
  | succ n ih =>
    cases hq : s.queue.startNext? with
    | none => exact ⟨.ok (), s, startUpTo_none hq n, .done hq, fun _ => rfl⟩
    | some next =>
      obtain ⟨id, q⟩ := next
      have htold := hn.leads .started id (s.taking id q) (hf.taking hq)
      rw [startUpTo_some hq, Act.on_bind, startJob_eq, Act.on_bind]
      rcases hr : (notify .started id).on (s.taking id q) with ⟨e | ⟨⟩, t⟩ <;> rw [hr] at htold
      · cases hn.fault _ _ _ _ _ hr
        exact ⟨_, t, rfl, .cut hf hq htold, fun h => by cases h⟩
      · obtain ⟨r, u, hr', hu, hok⟩ := ih ((htold.1.fit (hf.taking hq)).stays (t := t.spawn (.job id .fresh)) (.of_queue rfl))
        exact ⟨r, u, hr', .next hf hq htold hu, hok⟩

/-- Starting jobs is something that scripts do. -/
theorem Starts.does (h : Starts N n b s t) : Does N b s t := by
  induction h with
  | most | done => exact .still
  | next hf hq h _ ih => exact .trans (.start hf hq h rfl) ih
  | cut hf hq h => exact .start hf hq h rfl

/-- Where starting jobs is cut short, one is active. -/
theorem Starts.cut_busy (h : Starts N n true s t) : t.queue.active ≠ [] := by
  generalize hb : true = b at h
  induction h with
  | most | done => cases hb
  | next _ _ _ _ ih => exact ih hb
  | cut _ hq h => exact List.ne_nil_of_mem (h.1.active (mem_taking hq))

theorem vacate_vacates (hn : Tells (Along N) notify) (hf : Fit s) : Vacates N id s ((vacate notify id).on s).2 := by
  have hvacate : (vacate notify id).on s =
      (startUpTo notify (s.queue.waiting.length + s.budget) >>= fun _ => releaseParked).on (s.mapQueue (·.release id)) := rfl
  obtain ⟨r, t, hr, hstarts, hok⟩ := startUpTo_starts hn (hf.release id) (s.queue.waiting.length + s.budget)
  rw [hvacate]
  cases hb : Broken r with
  | true =>
    cases r with
    | ok => cases hb
    | error e =>
      rw [Act.on_bind_error hr]
      exact .cut (hb ▸ hstarts)
  | false =>
    rw [hok hb] at hr
    rw [Act.on_bind_ok hr, releaseParked_unparking]
    exact .fills (hb ▸ hstarts)

/-- Once the slot of a job is free, what follows happens in a row. -/
theorem Vacates.unfolds (h : Vacates N id s t) : Unfolds none (s.mapQueue (·.release id)) t := by
  cases h with
  | fills h => exact h.does.unfolds.tail (.inert (unparking_inert _))
  | cut h => exact h.does.unfolds

/-- A job that is underway is ended by the fault with which it stopped; if it was asked to stop, it counts as canceled. -/
theorem absorb_concludes (hn : Tells (Along N) notify) (hu : s.Underway id j) (c : Bool) (fault : Fault) :
    ∃ b status, Concludes N id c status b s ((absorb notify id fault).on s).2 ∧
      (fault.meansCancelled = true → status = .canceled) := by
  have hend : ∀ (status : Job.Status) (errorMessage : Option String), status.isTerminal = true → status ≠ .completed →
      (s.queue.isCancelled id = true → status = .canceled) →
      ∃ b, Concludes N id c status b s ((finish notify id status none errorMessage none).on s).2 := by
    intro status errorMessage hterm hne hc
    obtain ⟨r, t, u, hr, ht, hu', -⟩ := finish_told hn hu.fit (fun hw => hu.fit.apart _ hu.active (.inl hw)) hu.job hu.unended
      status none errorMessage none
    rw [hr]
    refine ⟨Broken r, .ends hu (fun h => hc ?_) hterm (fun h => absurd h hne) ht hu'⟩
    rw [Queue.isCancelled, hu.job]
    exact h
  unfold absorb
  rw [Act.on_queueNow_bind]
  split
  · obtain ⟨b, h⟩ := hend .canceled none rfl (by decide) fun _ => rfl
    exact ⟨b, .canceled, h, fun _ => rfl⟩
  · rename_i hno
    obtain ⟨hm, hc⟩ := Bool.or_eq_false_iff.mp (Bool.eq_false_iff.mpr hno)
    obtain ⟨b, h⟩ := hend .failed (some fault.description) rfl (by decide) fun h => by rw [hc] at h; cases h
    exact ⟨b, .failed, h, fun h => by rw [hm] at h; cases h⟩

theorem Underway.retire (hu : s.Underway id j) (task : TaskId) : (s.retire task).Underway id j :=
  ⟨hu.fit.stays (.of_queue rfl), hu.active, hu.job, hu.unended⟩

/-- A task that was cancelled stops at once. -/
theorem playJob_killed (j : Job) (phase : Phase) : (playJob notify j phase true).on s = (.error .taskCancelled, s) := rfl

theorem runJob_turnOf (hn : Tells (Along N) notify) (hu : s.Underway id j) (task : TaskId) (phase : Phase) (killed : Bool) :
    TurnOf N task id phase killed s ((runJob notify task id phase killed).on s).2 := by
  have hid : j.id = id := Queue.job?_id hu.job
  have harrives := playJob_pursues hn phase killed j (hid ▸ hu) rfl
  have hran := runJob_ran notify task hu.job phase killed
  have hkilled : killed = true → (playJob notify j phase killed).on s = (.error .taskCancelled, s) := fun h => by
    rw [h, playJob_killed]
  rw [hid] at harrives
  generalize (playJob notify j phase killed).on s = rt at harrives hran hkilled
  generalize ((runJob notify task id phase killed).on s).2 = u at hran
  have spared : ∀ {r : TurnEnd} {t : Scheduler}, rt = (.ok r, t) → killed = false := fun hr =>
    Bool.eq_false_iff.mpr fun h => by cases hr.symm.trans (hkilled h)
  cases hran with
  | waits => exact .waits (spared rfl) harrives
  | @ended t =>
    obtain ⟨d, status, m, hw, hc⟩ := harrives
    obtain ⟨hfit, -⟩ := hc.ended
    exact .ends (spared rfl) hw hc .refl (vacate_vacates hn (hfit.stays (.of_queue rfl)))
  | @stops fault t =>
    rcases harrives with ⟨d, hw⟩ | ⟨d, status, m, hw, hc⟩
    · obtain ⟨k, hk, -⟩ := hw.underway hu
      obtain ⟨b, status, hc, hcanceled⟩ := absorb_concludes hn (hk.retire task) d fault
      refine .stops (fun h => ?_) hw hc (vacate_vacates hn hc.ended.1)
      cases hkilled h
      exact ⟨rfl, hcanceled rfl⟩
    · obtain ⟨hfit, -, k, hk, hfin, -⟩ := hc.ended
      have hopen : killed = false := Bool.eq_false_iff.mpr fun h => by
        -- The job of a task that stops at once has not ended.
        cases hkilled h
        cases hu.job.symm.trans hk
        rw [hu.unended] at hfin
        cases hfin
      have htouch := absorb_touches notify (s := t.retire task) hk hfin fault
      have hretired : Fit (t.retire task) := hfit.stays (.of_queue rfl)
      exact .ends hopen hw hc htouch (vacate_vacates hn (hretired.stays htouch.inert.toStays))

end Turn

end Scheduler

end MediaEngine
