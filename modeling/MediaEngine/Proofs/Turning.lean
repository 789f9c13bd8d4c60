import MediaEngine.Proofs.Rounding
import MediaEngine.Proofs.Runs
import MediaEngine.Proofs.Unfolding

/-! # The turn of a job, in a row

What was said of a turn in terms of evolutions is said here of any relation that tells what scripts do, and
how the job whose turn it is cools down and ends (`Owns`). In a row, a turn either lets the job wait or frees
its slot (`TurnsTo`), and every move of a run is a row of moments. -/

namespace MediaEngine.Scheduler
open Job

/-- What the turn of a job relies on: the relation tells what scripts call on the queue for, and how the job cools
    down and ends. -/
structure Owns (R : Bool → Scheduler → Scheduler → Prop) (notify : Notify) (id : JobId) : Prop extends Serves R notify where
  cools : ∀ s, id ∈ s.queue.active → s.queue.isCancelled id = false → Leads R s (setStatus notify id .coolingDown)
  ends : ∀ status path errorMessage message s, id ∈ s.queue.active →
    Leads R s (finish notify id status path errorMessage message)

section Turn
variable {R : Bool → Scheduler → Scheduler → Prop} [Traces R] {notify : Notify} {s t u : Scheduler} {id : JobId} {j : Job}

theorem previewed_leads (ho : Owns R notify id) (hid : j.id = id) (ha : id ∈ s.queue.active) (result : RunResult) :
    Leads R s (previewed notify j result) := by
  refine Leads.same (Act.on_queueNow_bind _) ?_
  rw [hid]
  split
  · exact Leads.throw _
  · exact Leads.bind (ho.ends _ _ _ _ s ha) fun _ _ _ _ => Leads.pure _

theorem playPreview_leads (ho : Owns R notify id) (hid : j.id = id) (ha : id ∈ s.queue.active) (result : RunResult)
    (steps : List Step) : Leads R s (playPreview notify j result steps) := by
  have hp : (previewPlayer j result).Active s := fun i hi => by cases hi; rwa [hid]
  refine Leads.bind (play_leads ho.toServes hp steps) fun played t _ he => ?_
  cases played with
  | waiting pause rest => exact Leads.pure _
  | returned value => exact previewed_leads ho hid (Traces.active he ha) result

theorem settleBody_leads (ho : Owns R notify id) (hid : j.id = id) (ha : id ∈ s.queue.active) (value : Value) :
    Leads R s (settleBody notify j value) := by
  have hread : Broken ((RunResult.ofValue value).mapError Fault.result) = false := by
    cases RunResult.ofValue value <;> rfl
  refine Leads.bind (Calm.yieldOr hread).leads fun result t _ ht => ?_
  refine Leads.bind (calm_takeTimes j result).leads fun _ u _ hu => ?_
  have ha : id ∈ u.queue.active := Traces.active hu (Traces.active ht ha)
  refine Leads.same (Act.on_queueNow_bind _) ?_
  rw [hid]
  split
  · exact Leads.bind (ho.ends _ _ _ _ u ha) fun _ _ _ _ => Leads.pure _
  · rename_i hc
    have hc : u.queue.isCancelled id = false := Bool.eq_false_iff.mpr hc
    split
    · exact Leads.bind (ho.cools u ha hc) fun _ v _ hv => playPreview_leads ho hid (Traces.active hv ha) result _
    · refine Leads.bind (ho.cools u ha hc) fun _ v _ hv => ?_
      have ha : id ∈ v.queue.active := Traces.active hv ha
      have hp : (previewPlayer j result).Active v := fun i hi => by cases hi; rwa [hid]
      exact Leads.bind (playAtOnce_leads ho.toServes hp _) fun _ w _ hw =>
        previewed_leads ho hid (Traces.active hw ha) result
    · exact Leads.bind (ho.ends _ _ _ _ u ha) fun _ _ _ _ => Leads.pure _

theorem playBody_leads (ho : Owns R notify id) (hid : j.id = id) (ha : id ∈ s.queue.active) (steps : List Step) :
    Leads R s (playBody notify j steps) := by
  have hp : (bodyPlayer j).Active s := fun i hi => by cases hi; rwa [hid]
  refine Leads.bind (play_leads ho.toServes hp steps) fun played t _ he => ?_
  cases played with
  | waiting pause rest => exact Leads.pure _
  | returned value => exact settleBody_leads ho hid (Traces.active he ha) value

theorem playJob_leads (ho : Owns R notify id) (hid : j.id = id) (ha : id ∈ s.queue.active) (phase : Phase) (killed : Bool) :
    Leads R s (playJob notify j phase killed) := by
  unfold playJob
  split
  · exact Leads.throw _
  · cases phase with
    | fresh => exact playBody_leads ho hid ha _
    | body rest => exact playBody_leads ho hid ha rest
    | preview result rest => exact playPreview_leads ho hid ha result rest

theorem absorb_leads (ho : Owns R notify id) (ha : id ∈ s.queue.active) (fault : Fault) :
    Leads R s (absorb notify id fault) := by
  refine Leads.same (Act.on_queueNow_bind _) ?_
  split
  · exact ho.ends _ _ _ _ s ha
  · exact ho.ends _ _ _ _ s ha

end Turn

/-! ## Turns in a row -/

section Row
variable {notify : Notify} {s t u : Scheduler} {id : JobId} {task : TaskId}

/-- In its own turn a job cools down and ends. -/
theorem unfolds_owns (hn : Notifies (fun _ _ => Unfolds (some id)) notify) : Owns (fun _ => Unfolds (some id)) notify id where
  toServes := hn.serves none
  cools s ha hc := Leads.step (Act.on_onQueue _) (.one (.cool rfl ha hc)) (hn.leads none .status id _ (by decide))
  ends status path errorMessage message s ha := by
    refine Leads.fit_of fun hfit => ?_
    cases hj : s.queue.job? id with
    | none => exact Leads.of_inert (r := .ok ()) (by rw [finish, Act.on_queueNow_bind, hj]; rfl) rfl (.refl s)
    | some j =>
      cases hfin : j.finalized with
      | true => exact Leads.of_inert (finish_again hj hfin _ _ _ _) rfl (.noted rfl rfl)
      | false =>
        obtain ⟨r, t, u, hr, ht, hu⟩ := finish_on hn hfit (fun hw => hfit.apart id ha (.inl hw)) hj hfin status path
          errorMessage message
        refine Leads.of_on hr fun _ => ?_
        have hends : Unfolds (some id) s t := .head (.finish rfl ha hj hfin) ht
        cases hb : Broken r with
        | true =>
          rw [hb] at hu
          cases hu.1
          exact hends
        | false =>
          rw [hb] at hu
          exact (hends.tail (.keep id path)).tail (.inert hu)

/-- What the turn of a job comes to: the job waits again, or its slot is free and the next jobs start. -/
inductive TurnsTo (id : JobId) (s t : Scheduler) : Prop
  | pauses : Unfolds (some id) s t → TurnsTo id s t
  | vacates {u : Scheduler} : Unfolds (some id) s u → Unfolds none (u.mapQueue (·.release id)) t → TurnsTo id s t

theorem vacate_unfolds (hn : Notifies (fun _ _ => Unfolds none) notify) (hf : Fit s) :
    Unfolds none (s.mapQueue (·.release id)) ((vacate notify id).on s).2 :=
  fillSlots_leads (R := fun _ _ => Unfolds none) hn (hf.release id)

theorem vacate_listeners (hf : Fit s) (depth : Nat) (id : JobId) :
    s.queue.listeners <+: ((vacate (notifyUpTo depth) id).on s).2.queue.listeners :=
  Unfolds.listeners (s := s.mapQueue (·.release id)) (vacate_unfolds (notifyUpTo_notifies depth) hf)

theorem runJob_turnsTo (hn : ∀ own, Notifies (fun _ _ => Unfolds own) notify) (hf : Fit s) (ha : id ∈ s.queue.active)
    {phase : Phase} (hp : s.phase? task = some (id, phase)) (killed : Bool) :
    TurnsTo id s ((runJob notify task id phase killed).on s).2 := by
  have ho := unfolds_owns (hn (some id))
  cases hj : s.queue.job? id with
  | none =>
    rw [runJob, Act.on_queueNow_bind, hj]
    exact .pauses .refl
  | some j =>
    have hplay := playJob_leads ho (Queue.job?_id hj) ha phase killed hf
    have hran := runJob_ran notify task hj phase killed
    generalize (playJob notify j phase killed).on s = rt at hplay hran
    generalize ((runJob notify task id phase killed).on s).2 = u at hran
    have hretire : Unfolds (some id) s (rt.2.retire task) := Relation.ReflTransGen.tail hplay (.inert (retire_inert rt.2 task))
    cases hran with
    | @waits pause phase t =>
      obtain ⟨g, hg, hi⟩ := pausing_inert t task id pause phase
      obtain ⟨between, hb, -⟩ := Unfolds.phase hplay hp
      exact .pauses ((Relation.ReflTransGen.tail hplay (.turn rfl ⟨between, hb⟩ hg)).tail (.inert hi))
    | ended => exact .vacates hretire (vacate_unfolds (hn none) (hretire.fit hf))
    | @stops fault t =>
      have habsorb := absorb_leads ho (s := t.retire task) (hretire.active ha) fault (hretire.fit hf)
      have hends : Unfolds (some id) s _ := hretire.trans habsorb
      exact .vacates hends (vacate_unfolds (hn none) (hends.fit hf))

end Row

/-! ## Moments of a run -/

/-- One thing that happens in a run: it happens in the turn of a job or outside of one, or a slot gets free. -/
inductive Moment : Scheduler → Scheduler → Prop
  | occurs {own s t} : Occurs own s t → Moment s t
  | release {s} (id : JobId) : Moment s (s.mapQueue (·.release id))

/-- What happens in a run, one thing after the other. -/
def Moments : Scheduler → Scheduler → Prop := Relation.ReflTransGen Moment

variable {s t u : Scheduler} {id : JobId} {own : Option JobId}

theorem Unfolds.moments (h : Unfolds own s t) : Moments s t := Relation.ReflTransGen.mono (fun _ _ => .occurs) _ _ h

theorem Moments.one (h : Occurs none s t) : Moments s t := .single (.occurs h)

theorem Moments.inert (h : Inert s t) : Moments s t := (Unfolds.inert h : Unfolds none s t).moments

/-- The task of a job goes on to another phase in its own turn. -/
theorem pausing_moments {task : TaskId} (hphase : ∃ before, s.phase? task = some (id, before)) (pause : Pause) (phase : Phase) :
    Moments s (s.pausing task id pause phase) := by
  obtain ⟨g, hg, hi⟩ := pausing_inert s task id pause phase
  have hturn : Unfolds (some id) s _ := .one (.turn rfl hphase hg)
  exact hturn.moments.trans (Moments.inert hi)

theorem Moments.listeners (h : Moments s t) : s.queue.listeners <+: t.queue.listeners := by
  induction h with
  | refl => exact List.prefix_rfl
  | tail _ h ih =>
    refine ih.trans ?_
    cases h with
    | occurs h => exact h.listeners
    | release => exact List.prefix_rfl

theorem Moments.continues (h : Moments s t) : Queue.Continues s.queue t.queue := by
  induction h with
  | refl => exact .refl _
  | tail _ h ih =>
    refine ih.trans ?_
    cases h with
    | occurs h => exact h.continues
    | release => exact .of_knows (fun _ j hj => ⟨j, hj, rfl⟩) rfl rfl rfl

theorem TurnsTo.moments (h : TurnsTo id s t) : Moments s t := by
  cases h with
  | pauses h => exact h.moments
  | vacates h h' => exact (h.moments.tail (.release id)).trans h'.moments

/-- A timer that drops a job is set only where the timeout can be told in whole seconds. -/
def Timed (s : Scheduler) : Prop := ∀ id, s.Expects id → s.queue.settings.Timely

theorem Timed.moment (hs : Timed s) (h : Moment s t) : Timed t := by
  have kept : t.queue.settings = s.queue.settings → (∀ id, t.Expects id → s.Expects id) → Timed t := fun hset hexp id hid =>
    hset ▸ hs id (hexp id hid)
  cases h with
  | release => exact hs
  | occurs h =>
    refine (em (∃ id x, s.queue.settings.timeoutSeconds = .ok x ∧ t = s.arming id)).elim ?_ fun hno =>
      kept h.continues.settings ?_
    · rintro ⟨id, x, hx, rfl⟩ _ _
      exact Settings.timely_of_covers ((Settings.timeoutSeconds_ok _).mp ⟨x, hx⟩)
    · cases h with
      | inert h => exact h.expects
      | signal _ h => exact h.expects
      | arm hx => exact absurd ⟨_, _, hx, rfl⟩ hno
      | take => exact fun id ⟨timer, hm, ha⟩ => ⟨timer, List.mem_of_mem_filter hm, ha⟩
      | leave _ _ hl => exact fun id ⟨timer, hm, ha⟩ => ⟨timer, hl timer hm, ha⟩
      | keep =>
        intro i hi
        unfold Scheduler.keep at hi
        split at hi <;> exact hi
      | _ => exact fun _ h => h

theorem Timed.moments (hs : Timed s) (h : Moments s t) : Timed t := by
  induction h with
  | refl => exact hs
  | tail _ h ih => exact ih.moment h

/-! ## Moves are rows of moments -/

theorem obey_moments (hf : Fit s) (supplied : Option Store) (depth : Nat) {c : Command} (hc : c.isImmediate = true) :
    Moments s ((obey supplied (notifyUpTo depth) c).on s).2 :=
  have h : Unfolds none s _ := obey_leads (R := fun _ _ => Unfolds none) (notifyUpTo_notifies depth) supplied hc hf
  h.moments

theorem runTask_moments (hs : Settled s) (depth : Nat) (task : TaskId) :
    Moments s ((runTask (notifyUpTo depth) task).on s).2 := by
  cases h : s.playing? task with
  | none => exact .inert (runTask_idle hs.fit h)
  | some playing =>
    obtain ⟨id, phase, killed⟩ := playing
    obtain ⟨hlives, hphase, hrun⟩ := playing_on (notifyUpTo depth) h
    have hheed := heeding_inert s task
    have hsettled := hs.inert hheed
    rw [hrun]
    exact (Moments.inert hheed).trans
      (runJob_turnsTo (fun _ => notifyUpTo_notifies depth) hsettled.fit (hsettled.working hlives).1.active hphase killed).moments

theorem fire_moments (hf : Fit s) (depth : Nat) {action : TimerAction}
    (ht : ∀ id, action = .expire id → s.queue.settings.Timely) :
    Moments s ((fire (notifyUpTo depth) action).on s).2 := by
  cases action with
  | wake task => exact .inert (.wake [task])
  | expire id =>
    obtain ⟨seconds, hseconds⟩ := ht id rfl
    have h : Unfolds none s ((expire (notifyUpTo depth) id).on s).2 :=
      @expire_leads (fun _ _ => Unfolds none) _ none _ _ _ (notifyUpTo_notifies depth) _ hseconds hf
    exact h.moments

/-- Where the timeout can be told, what a move does to the queue is a row of moments. -/
theorem Moves.moments (h : Moves s t) (hs : Settled s) (ht : s.queue.settings.Timely) :
    ∃ u, Moments s u ∧ t.queue = u.queue := by
  cases h with
  | obey supplied depth c hc => exact ⟨_, obey_moments hs.fit supplied depth hc, rfl⟩
  | turn depth task => exact ⟨_, runTask_moments hs depth task, rfl⟩
  | fire depth action => exact ⟨_, fire_moments hs.fit depth fun _ _ => ht, rfl⟩
  | loop l => exact ⟨s, .refl, rfl⟩

theorem mem_of_earliest {α : Type} {timers : List (Timer α)} {timer : Timer α} (h : Loop.earliest timers = some timer) :
    timer ∈ timers := by
  induction timers generalizing timer with
  | nil => cases h
  | cons first rest ih =>
    rw [Loop.earliest] at h
    cases hrest : Loop.earliest rest with
    | none =>
      rw [hrest] at h
      cases h
      exact List.mem_cons_self
    | some best =>
      rw [hrest] at h
      dsimp only at h
      split at h <;> cases h
      · exact List.mem_cons_of_mem _ (ih hrest)
      · exact List.mem_cons_self

/-- What fires was set, and firing sets nothing. -/
theorem fire?_set {l l' : Loop TimerAction} {time : Nat} {action : TimerAction} (h : l.fire? time = some (action, l')) :
    (∃ timer ∈ l.timers, timer.action = action) ∧ ∀ timer ∈ l'.timers, timer ∈ l.timers := by
  unfold Loop.fire? at h
  cases hbest : Loop.earliest l.timers with
  | none => rw [hbest] at h; cases h
  | some timer =>
    rw [hbest] at h
    dsimp only at h
    split at h
    · cases h
      exact ⟨⟨timer, mem_of_earliest hbest, rfl⟩, fun _ => List.mem_of_mem_erase⟩
    · cases h

theorem next?_timers {l l' : Loop TimerAction} {task : TaskId} (h : l.next? = some (task, l')) : l'.timers = l.timers := by
  unfold Loop.next? at h
  split at h
  · cases h
  · cases h
    rfl

/-- Whoever is next leaves the order of turns. -/
theorem Inert.next {l : Loop TimerAction} {task : TaskId} (h : s.loop.next? = some (task, l)) : Inert s { s with loop := l } :=
  .loop fun _ hm _ _ => next?_timers h ▸ hm

/-- A timer that fires is set no longer. -/
theorem Inert.fired {l : Loop TimerAction} {time : Nat} {action : TimerAction} (h : s.loop.fire? time = some (action, l)) :
    Inert s { s with loop := l } := .loop fun timer hm _ _ => (fire?_set h).2 timer hm

/-- A turn begins. -/
theorem Inert.turning {l : Loop TimerAction} {task : TaskId} (h : s.loop.next? = some (task, l)) :
    Inert s (heeding { s with loop := l } task) := (Inert.next h).trans (heeding_inert _ task)

/-- As its turn begins, a task is where it was. -/
theorem turning_phase {l : Loop TimerAction} {task : TaskId} {x : Task} {phase : Phase} (hnext : s.loop.next? = some (task, l))
    (hx : s.tasks[task]? = some x) (hwork : x.work = .job id phase) :
    (heeding { s with loop := l } task).phase? task = some (id, phase) := by
  rw [(Inert.turning hnext).phase, phase?, hx]
  exact congrArg Work.phase? hwork

/-- What commands do in a state that is settled and timed is a row of moments. -/
theorem moments_drives : Drives .total fun s t => Settled s → Timed s → Settled t ∧ Timed t ∧ Moments s t where
  refl _ hs ht := ⟨hs, ht, .refl⟩
  trans h h' hs ht := by
    obtain ⟨hs, ht, hm⟩ := h hs ht
    obtain ⟨hs', ht', hm'⟩ := h' hs ht
    exact ⟨hs', ht', hm.trans hm'⟩
  obey supplied depth c hc hs ht := by
    have hm := obey_moments hs.fit supplied depth hc
    exact ⟨(Moves.passes (.obey supplied depth c hc) hs).settled, ht.moments hm, hm⟩
  turn {s task l} depth hnext hs ht := by
    have hl : Inert s { s with loop := l } := .next hnext
    have hsl := hs.inert hl
    have hm := (Moments.inert hl).trans (runTask_moments hsl depth task)
    exact ⟨(Moves.passes (.turn depth task) hsl).settled, ht.moments hm, hm⟩
  fire {s action time l} depth hfire hs ht := by
    obtain ⟨⟨timer, htimer, haction⟩, -⟩ := fire?_set hfire
    have hl : Inert s { s with loop := l } := .fired hfire
    have hsl := hs.inert hl
    have htimely : ∀ id, action = .expire id → s.queue.settings.Timely := fun id hid => ht id ⟨timer, htimer, haction.trans hid⟩
    have hm := (Moments.inert hl).trans (fire_moments hsl.fit depth htimely)
    exact ⟨(Moves.passes (.fire depth action) hsl).settled, ht.moments hm, hm⟩
  moveTo {s} time hs ht := by
    have hl : Inert s { s with loop := s.loop.moveTo time } := .loop fun _ hm _ _ => hm
    exact ⟨hs.inert hl, ht.moments (.inert hl), .inert hl⟩

end MediaEngine.Scheduler
