import MediaEngine.Proofs.Evolution.Fit
import MediaEngine.Proofs.Evolution.Touch
import MediaEngine.Scheduler.Operations

/-! # Acts by which a scheduler evolves

There is more than one relation by which to tell what acts do to a scheduler. What a relation has to allow
so that it tells what scripts do is `Traces`, and `Tracks` where all that is inert is allowed; what it has to
allow besides so that it tells how jobs are cancelled is `Cancels`, and so that it tells all that the queue does
`Grows`: the ways in which an evolution may grow. `Leads` says of an act that it is told by a relation, cut
short exactly where the act ends with the fault of a cancelled task. The lemmas here follow the ways to build
an act. -/

namespace MediaEngine
open Job Scheduler

namespace Scheduler

/-- The scheduler once its next job, which no longer waits in `q`, is active and its start is logged. -/
def taking (s : Scheduler) (id : JobId) (q : Queue) : Scheduler :=
  let t : Scheduler := { s with queue := q.recover.activate id s.loop.now, loop := s.loop.disarm (.expire id) }
  t.noted (.logged (.started (((t.queue.job? id).map Job.name).getD "") id t.queue.active.length))

theorem taking_eq {s : Scheduler} {id : JobId} {q : Queue} (hq : s.queue.startNext? = some (id, q)) :
    ∃ rest e, s.queue.waiting = id :: rest ∧ (s.taking id q).queue = Queue.update
      { s.queue with waiting := rest, fullEvent := e, active := s.queue.active ++ [id] } id (·.started s.loop.now) :=
  Queue.activate_eq hq s.loop.now

theorem taking_active {s : Scheduler} {id : JobId} {q : Queue} (hq : s.queue.startNext? = some (id, q)) :
    (s.taking id q).queue.active = s.queue.active ++ [id] := by
  obtain ⟨rest, e, -, he⟩ := taking_eq hq
  rw [he]
  rfl

theorem mem_taking {s : Scheduler} {id : JobId} {q : Queue} (hq : s.queue.startNext? = some (id, q)) :
    id ∈ (s.taking id q).queue.active := by
  rw [taking_active hq]
  exact List.mem_append_right _ (List.mem_singleton_self id)

theorem Fit.taking {s : Scheduler} {id : JobId} {q : Queue} (h : Fit s) (hq : s.queue.startNext? = some (id, q)) :
    Fit (s.taking id q) :=
  (h.take hq s.loop.now (s.loop.disarm (.expire id))).stays (.of_queue rfl)

/-- The scheduler once a timer is set that drops a job. -/
def arming (s : Scheduler) (id : JobId) : Scheduler :=
  { s with loop := (s.loop.disarm (.expire id)).arm (s.loop.now + s.queue.settings.queueTimeout.toNat) (.expire id) }

/-- The scheduler once the token of a job is signalled, unless it was before. -/
def signalling (s : Scheduler) (id : JobId) (reason : Option String) : Scheduler := ((signalToken id reason).on s).2

/-- What follows once all were told that a job is asked to stop: its token is signalled, and that is logged. -/
def Stopped (id : JobId) (reason : Option String) : Bool → Scheduler → Scheduler → Prop
  | true, t, u => u = t
  | false, t, u => ∃ v, Signals id reason t v ∧ u = v.noted (.logged (.asked id))

/-- What follows once all were told that a job ended: its entry is handed to the store. -/
def Handed (id : JobId) (path : Option String) : Bool → Scheduler → Scheduler → Prop
  | true, t, u => u = t ∧ id ∈ t.queue.brokenOff
  | false, t, u => Inert (t.keep id path) u

end Scheduler

/-- A relation that tells what scripts do; `true` means that the act was cut short. -/
class Traces (R : Bool → Scheduler → Scheduler → Prop) : Prop where
  fit {b s t} : R b s t → Fit s → Fit t
  active {b s t id} : R b s t → id ∈ s.queue.active → id ∈ t.queue.active
  refl {s} : R false s s
  touch {s t} : Touch s t → R false s t
  signal {s id reason} : Fit s → id ∈ s.queue.active → R false s (s.signalling id reason)
  halt {s} : R true s s
  trans {b s t u} : R false s t → R b t u → R b s u

/-- A relation that tells what scripts do and allows all that is inert. -/
class Tracks (R : Bool → Scheduler → Scheduler → Prop) : Prop where
  fit {b s t} : R b s t → Fit s → Fit t
  active {b s t id} : R b s t → id ∈ s.queue.active → id ∈ t.queue.active
  inert {s t} : Inert s t → R false s t
  signal {s t id reason} : id ∈ s.queue.active → Signals id reason s t → R false s t
  halt {s} : R true s s
  trans {b s t u} : R false s t → R b t u → R b s u

/-- A relation that tells how jobs are cancelled while an event may be told: active ones are asked to stop, and those
    that wait leave. -/
class Cancels (R : Option Event → Bool → Scheduler → Scheduler → Prop) : Prop where
  tracks (told) : Tracks (R told)
  ask {told b s t u id j} : id ∈ s.queue.active → s.queue.job? id = some j →
    j.status ≠ .cancelling → j.status ≠ .canceled →
    R none b (s.mapQueue (·.update id fun j => { j with status := .cancelling })) t →
    Stopped id (some cancelAllReason) b t u → R told b s u
  leave {told b s t u id j now message path l} : id ∈ s.queue.waiting → s.queue.job? id = some j →
    (∀ timer ∈ l.timers, timer ∈ s.loop.timers) →
    R (some ⟨.finished, (j.ended now .canceled none message).snapshot⟩) b
      { s with queue := (s.queue.withdraw id).update id (·.ended now .canceled none message), loop := l } t →
    Handed id path b t u → R told b s u

/-- A relation that tells all that the queue does while an event may be told: it allows the ways in which an evolution
    grows. -/
class Grows (R : Option Event → Bool → Scheduler → Scheduler → Prop) : Prop extends Cancels R where
  continues {told b s t} : R told b s t → Queue.Continues s.queue t.queue
  hear {event s} (who : String) : R (some event) false s (s.noted (.heard who event))
  breakOff {event s t} : R (some event) true s t → R (some event) true s (t.mapQueue (·.breakOff event))
  enroll {told s} (submission : Submission) (progress : Progress) : s.queue.isFull = false →
    R told false s (s.mapQueue fun q => q.draw.enlist (.admitted q.nextId submission progress))
  arm {told s id x} : s.queue.settings.timeoutSeconds = .ok x → R told false s (s.arming id)
  start {told b s t u id q} : s.queue.startNext? = some (id, q) → R none b (s.taking id q) t → Spawned id b t u →
    R told b s u

attribute [instance] Cancels.tracks

theorem Scheduler.Stopped.asked {id : JobId} {reason : Option String} {b : Bool} {s t : Scheduler}
    (h : Stopped id reason b s t) (hj : (s.queue.job? id).isSome) : Asked id b s t := by
  cases b
  · obtain ⟨v, hv, rfl⟩ := h
    exact ⟨v, hv.toSteady, hv.cancelled hj, rfl⟩
  · exact h

theorem Scheduler.Handed.kept {id : JobId} {path : Option String} {b : Bool} {s t : Scheduler} (h : Handed id path b s t) :
    Kept id path b s t := by
  cases b
  · exact Inert.toSteady h
  · exact h

instance (told : Option Event) : Tracks (Evolves told) where
  fit h hfit := hfit.evolves h
  active h := h.active
  inert h := .steady h.toSteady
  signal _ h := .steady h.toSteady
  halt := .halt
  trans := .trans

instance : Grows Evolves where
  tracks told := inferInstance
  continues h := h.continues
  hear := .hear
  breakOff := .breakOff
  enroll := .enroll
  arm _ := .steady { Steady.refl _ with }
  start hq h hc := .start hq ((Evolves.steady (.noted rfl)).trans h) hc
  ask hid hj hst hst' h hc := by
    refine .ask hid hj hst hst' h (hc.asked ?_)
    obtain ⟨k, hk, -⟩ := h.continues.knows _ _ (Queue.job?_update_self (by intro; rfl) hj)
    rw [hk]
    rfl
  leave hid hj _ h hc := .leave hid hj h hc.kept

/-! ## Elementary acts -/

namespace Scheduler
variable {s t : Scheduler}

theorem arithmetic_unbroken {α : Type} (x : Except ArithmeticError α) :
    Broken (x.mapError Fault.arithmetic) = false := by cases x <;> rfl

/-- A signal on the token of a job tunes the job. -/
theorem tuned_signal {j k : Job} (hkj : k = j) (hc : j.token.cancelled = false) (token : Token CancelNote TaskId)
    (ht : token.cancelled = true) : Tuned k { k with token := token } := by
  subst hkj
  exact { Tuned.refl k with signalled := fun _ => ht, reason := fun h => by rw [hc] at h; cases h }

/-- What is noted one after the other is appended. -/
theorem forM_note (who : CancelNote → Queue.Note) (cs : List CancelNote) (s : Scheduler) :
    (cs.forM fun c => note (who c)).on s = (.ok ⟨⟩, { s with notes := s.notes ++ cs.map who }) := by
  induction cs generalizing s with
  | nil => rw [List.map_nil, List.append_nil]; rfl
  | cons c cs ih =>
    have h := ih (s.noted (who c))
    rw [noted_notes, List.append_assoc] at h
    exact h

theorem Touches.noted {ns : List Queue.Note} (h : ∀ n ∈ ns, n.isFaint = true) : Touches s { s with notes := s.notes ++ ns } := by
  induction ns generalizing s with
  | nil => rw [List.append_nil]
  | cons n ns ih =>
    have hrest := ih (s := s.noted n) fun m hm => h m (List.mem_cons_of_mem _ hm)
    rw [noted_notes, List.append_assoc] at hrest
    exact .head (.noted (h n List.mem_cons_self)) hrest

/-- What the callbacks of a token note when it is signalled. -/
def called (callbacks : List CancelNote) (reason : Option String) : List Queue.Note :=
  callbacks.map fun c => .told c.who "on_cancel" (.list [c.label, .textOr reason])

theorem called_faint (callbacks : List CancelNote) (reason : Option String) : ∀ n ∈ called callbacks reason, n.isFaint = true := by
  intro n hn
  obtain ⟨c, -, rfl⟩ := List.mem_map.mp hn
  rfl

/-- The scheduler once a token that was not signalled is signalled: those who wait for it are ready, and its callbacks
    note the reason. -/
def signalled (s : Scheduler) (id : JobId) (token : Token CancelNote TaskId) (reason : Option String) : Scheduler :=
  let t := (s.mapQueue (·.update id fun j => { j with token := ⟨true, reason, [], []⟩ })).rousing token.waiters
  { t with notes := t.notes ++ called token.callbacks reason }

/-- Signalling the token of a job, as an act: nothing happens where there is none, or it was signalled before. -/
theorem signalToken_eq (id : JobId) (reason : Option String) :
    ((signalToken id reason).on s = (.ok false, s) ∧ ∀ j, s.queue.job? id = some j → j.token.cancelled = true) ∨
    ∃ j, s.queue.job? id = some j ∧ j.token.cancelled = false ∧
      (signalToken id reason).on s = (.ok true, s.signalled id j.token reason) := by
  unfold signalToken
  rw [Act.on_queueNow_bind]
  cases hj : s.queue.job? id with
  | none => exact .inl ⟨rfl, fun _ h => by cases h⟩
  | some j =>
    cases hc : j.token.cancelled with
    | true =>
      have hsig : j.token.signal reason = none := by simp [Token.signal, hc]
      refine .inl ⟨?_, fun k hk => by cases hk; exact hc⟩
      simp only [hsig]
      rfl
    | false =>
      have hsig : j.token.signal reason = some ⟨⟨true, reason, [], []⟩, j.token.callbacks, j.token.waiters⟩ := by
        simp [Token.signal, hc]
      refine .inr ⟨j, rfl, hc, ?_⟩
      simp only [hsig]
      exact Act.on_bind_ok (forM_note _ _ _)

theorem signalling_on (id : JobId) (reason : Option String) :
    ∃ b, (signalToken id reason).on s = (.ok b, s.signalling id reason) := by
  unfold signalling
  rcases signalToken_eq (s := s) id reason with ⟨h, -⟩ | ⟨j, -, -, h⟩
  · exact ⟨false, by rw [h]⟩
  · exact ⟨true, by rw [h]⟩

/-- What a signal on a token that was not signalled does to the queue. -/
theorem update_signals (hfit : Fit s) {id : JobId} {j : Job} (hj : s.queue.job? id = some j)
    (hc : j.token.cancelled = false) (reason : Option String) :
    Signals id reason s (s.mapQueue (·.update id fun k => { k with token := ⟨true, reason, [], []⟩ })) := by
  have hjobs : ∀ k ∈ s.queue.jobs, k.id = id → Tuned k { k with token := ⟨true, reason, [], []⟩ } := fun k hk hid => by
    have hkj : s.queue.job? id = some k := hid ▸ Queue.job?_of_mem hfit.nodup hk
    exact tuned_signal (Option.some.inj (hkj.symm.trans hj)) hc _ rfl
  refine ⟨{ Steady.refl s with continues := ?_, jobs := Queue.tuned_update hjobs }, { Still.refl s with },
    fun i hi => ?_, fun k hk => ?_⟩
  · exact .of_knows (.of_tuned (Queue.tuned_update hjobs)) rfl rfl rfl
  · rw [Queue.isCancelled, mapQueue_queue, Queue.job?_update_ne (by intro; rfl) hi]
    rfl
  · exact ⟨_, Queue.job?_update_self (by intro; rfl) hk, rfl, fun _ => rfl⟩

/-- A signal on the token of a job, as the least that is said of it. -/
theorem signalling_signals (hfit : Fit s) (id : JobId) (reason : Option String) :
    Signals id reason s (s.signalling id reason) := by
  unfold signalling
  rcases signalToken_eq (s := s) id reason with ⟨h, hdone⟩ | ⟨j, hj, hc, h⟩
  · rw [h]
    exact ⟨.refl s, .refl s, fun _ _ => rfl, fun j hj => ⟨j, hj, hdone j hj, fun hc => by rw [hdone j hj] at hc; cases hc⟩⟩
  · rw [h]
    exact (update_signals hfit hj hc reason).trans_inert ((Inert.wake _).trans (Touches.noted (called_faint _ _)).inert)

end Scheduler

instance {R : Bool → Scheduler → Scheduler → Prop} [Tracks R] : Traces R where
  fit := Tracks.fit
  active := Tracks.active
  refl := Tracks.inert (.refl _)
  touch h := Tracks.inert h.inert
  signal hfit hid := Tracks.signal hid (signalling_signals hfit _ _)
  halt := Tracks.halt
  trans := Tracks.trans

/-! ## Ways to build an act -/

variable {α β : Type} {R : Bool → Scheduler → Scheduler → Prop} {s t : Scheduler} {x : Act α} {f : α → Act β}

/-- What the act does is told by the relation. -/
def Leads (R : Bool → Scheduler → Scheduler → Prop) (s : Scheduler) (x : Act α) : Prop :=
  Fit s → R (Broken (x.on s).1) s (x.on s).2

namespace Leads

/-- An act that is known by what it yields and leaves. -/
theorem of_on {r : Except Fault α} (hx : x.on s = (r, t)) (h : Fit s → R (Broken r) s t) : Leads R s x := by
  intro hfit
  rw [hx]
  exact h hfit

theorem fit_of (h : Fit s → Leads R s x) : Leads R s x := fun hfit => h hfit hfit

section Traces
variable [Traces R]

theorem pure (a : α) : Leads R s (Pure.pure a : Act α) := fun _ => Traces.refl

theorem throw (e : Fault) : Leads R s (MonadExcept.throw e : Act α) := by
  refine of_on (Act.on_throw e) fun _ => ?_
  change R e.isTaskCancelled s s
  cases e.isTaskCancelled
  · exact Traces.refl
  · exact Traces.halt

theorem bind (hx : Leads R s x) (hf : ∀ a t, x.on s = (.ok a, t) → R false s t → Leads R t (f a)) :
    Leads R s (x >>= f) := by
  intro hfit
  have he := hx hfit
  rw [Act.on_bind]
  rcases hr : x.on s with ⟨_ | a, t⟩
  · rw [hr] at he
    exact he
  · rw [hr] at he
    exact Traces.trans he (hf a t hr he (Traces.fit he hfit))

/-- The first act is known and told by the relation. -/
theorem step {a : α} (hx : x.on s = (.ok a, t)) (he : R false s t) (hf : Leads R t (f a)) : Leads R s (x >>= f) := by
  refine bind (of_on hx fun _ => he) fun b u hb _ => ?_
  rw [hx] at hb
  cases hb
  exact hf

/-- The first act is known and changes nothing. -/
theorem look {a : α} (hx : x.on s = (.ok a, s)) (hf : Leads R s (f a)) : Leads R s (x >>= f) :=
  step hx Traces.refl hf

/-- An act that goes on with another act on another scheduler, to which the relation leads by the first one. -/
theorem joint {y : Act β} {s' : Scheduler} (hy : y.on s = (x >>= f).on s')
    (hx : Fit s → ∃ r u, x.on s' = (r, u) ∧ R (Broken r) s u) (hf : ∀ a u, Leads R u (f a)) : Leads R s y := by
  intro hfit
  obtain ⟨r, u, hr, he⟩ := hx hfit
  rw [hy, Act.on_bind, hr]
  cases r with
  | error e => exact he
  | ok a => exact Traces.trans he (hf a u (Traces.fit he hfit))

/-- An act that comes to what another act does on a scheduler to which the relation leads. -/
theorem resume {y z : Act β} (hy : y.on s = z.on t) (he : R false s t) (hz : Leads R t z) : Leads R s y := by
  intro hfit
  rw [hy]
  exact Traces.trans he (hz (Traces.fit he hfit))

/-- An act that comes to what another act does on the same scheduler. -/
theorem same {y z : Act β} (hy : y.on s = z.on s) (hz : Leads R s z) : Leads R s y :=
  resume hy Traces.refl hz

/-- An act that yields something or fails, is not cut short, and changes nothing. -/
theorem unchanged {r : Except Fault α} (hx : x.on s = (r, s)) (hr : Broken r = false) : Leads R s x :=
  of_on hx fun _ => hr ▸ Traces.refl

/-- Faults are taken care of, except that of a cancelled task, which goes through. -/
theorem absorb {h : Except Fault α → Act β} (hx : Leads R s x)
    (hok : ∀ a t, x.on s = (.ok a, t) → R false s t → Leads R t (h (.ok a)))
    (herr : ∀ e t, x.on s = (.error e, t) → R false s t → Leads R t (h (.error e)))
    (hcut : ∀ e, e.isTaskCancelled = true → h (.error e) = MonadExcept.throw e) :
    Leads R s (outcome x >>= h) := by
  intro hfit
  have he := hx hfit
  rw [Act.on_outcome_bind]
  rcases hr : x.on s with ⟨e | a, t⟩ <;> rw [hr] at he
  · change R e.isTaskCancelled s t at he
    cases hc : e.isTaskCancelled <;> rw [hc] at he
    · exact Traces.trans he (herr e t hr he (Traces.fit he hfit))
    · rw [hcut e hc, Act.on_throw]
      change R e.isTaskCancelled s t
      rw [hc]
      exact he
  · exact Traces.trans he (hok a t hr he (Traces.fit he hfit))

end Traces

section Tracks
variable [Tracks R]

/-- The first act is known and inert. -/
theorem inert {a : α} (hx : x.on s = (.ok a, t)) (hs : Inert s t) (hf : Leads R t (f a)) : Leads R s (x >>= f) :=
  step hx (Tracks.inert hs) hf

/-- An act that is inert and not cut short. -/
theorem of_inert {r : Except Fault α} (hx : x.on s = (r, t)) (hr : Broken r = false) (hs : Inert s t) : Leads R s x :=
  of_on hx fun _ => hr ▸ Tracks.inert hs

end Tracks

end Leads

end MediaEngine
