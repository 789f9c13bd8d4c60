import MediaEngine.Proofs.Evolution.Calm
import MediaEngine.Proofs.Evolution.Operations
import MediaEngine.Scheduler.Notify

/-! # Playing a script

Scripts call back into the queue, and the queue tells listeners, who play scripts. The two sides meet
here: playing is followed for any way of telling listeners that `Notifies` allows, and then the telling
itself is shown to be allowed, by induction on how deep listeners may act. -/

namespace MediaEngine
open Job

/-- A step that signals the token of its job. -/
def Job.Step.signals : Step → Bool
  | .cancelToken _ => true
  | _ => false

namespace Scheduler

/-- What scripts call on the queue for is told by the relation. -/
structure Serves (R : Bool → Scheduler → Scheduler → Prop) (notify : Notify) : Prop where
  enqueue : ∀ submission s, Leads R s (enqueue notify true submission)
  cancelAll : ∀ s, Leads R s (cancelAll notify)

theorem Notifies.serves {R : Option Event → Bool → Scheduler → Scheduler → Prop} [Grows R] {notify : Notify}
    (hn : Notifies R notify) (told : Option Event) : Serves (R told) notify :=
  ⟨fun submission _ => enqueue_leads hn submission, fun _ => cancelAll_leads hn⟩

/-- The job of the player, if there is one, is active. -/
def Player.Active (p : Player) (s : Scheduler) : Prop := ∀ id, p.job = some id → id ∈ s.queue.active

section Playing
variable {notify : Notify} {R : Bool → Scheduler → Scheduler → Prop} [Traces R] {s t : Scheduler} {p : Player}
  {step : Step}

/-! ## Steps -/

omit [Traces R] in
theorem perform_calm {C : Scheduler → Scheduler → Prop} [Modest C] (h : step.mayBreak = false) (hs : step.signals = false) :
    Calm C s (perform notify p step) := by
  have noted : ∀ {s} (what : String) (value : Value),
      Calm C s (do tell p what value; return none : Act (Option Value)) := fun what value =>
    Calm.bind (calm_tell what value) fun _ _ => Calm.pure none
  have done : ∀ {s} {x : Act Unit}, Calm C s x → Calm C s (do x; return none : Act (Option Value)) := fun hx =>
    Calm.bind hx fun _ _ => Calm.pure none
  cases step with
  | log value => exact noted _ _
  | pause | sleep _ | gate _ => exact Calm.pure none
  | openGate name => exact done (calm_openGate name)
  | awaitToken => exact done (calm_withJob fun j _ => calm_tell _ _)
  | seeToken => exact done (calm_withJob fun j _ => calm_tell _ _)
  | check =>
    refine done (calm_withJob fun j _ => ?_)
    split
    · exact Calm.throw rfl
    · exact Calm.pure ()
  | onCancel label => exact done (calm_registerCancel label)
  | output value => exact done (calm_moveProgress _ _)
  | total value => exact done (calm_moveProgress _ _)
  | estimate value => exact done (calm_moveProgress _ _)
  | bridge fps tolerance frames => exact done (calm_makeBridge _ _ _)
  | frame index => exact done (calm_showFrame index)
  | compile chain => exact done (calm_compileChain chain)
  | seeQueue => exact Calm.resume (Act.on_queueNow_bind _) (noted _ _)
  | fail fault => exact Calm.throw h
  | finish value => exact Calm.pure _
  | seeResult =>
    cases hr : p.result with
    | none => exact Calm.resume (by rw [perform, hr]) (Calm.pure none)
    | some r => exact Calm.resume (by rw [perform, hr]) (noted "result" (resultValue r))
  | subscribe listener => exact done (Calm.onQueue (Modest.touch (.subscribe listener)))
  | unsubscribe name => exact done (calm_unsubscribe name)
  -- The steps that may break off or signal a token were excluded.
  | cancelAll | enqueue _ | enqueueOrStop _ => cases h
  | cancelToken _ => cases hs

/-- Who plays the script of a job that is active may signal its token. -/
theorem signalOwn_leads (hp : p.Active s) (reason : Option String) :
    Leads R s (withJob p fun job => do
      let first ← signalToken job.id reason
      tell p "cancel_token" (.bool first)) := by
  refine Leads.fit_of fun hfit => ?_
  refine Leads.look (x := ownJob? p) (a := p.job.bind s.queue.job?) rfl ?_
  cases hj : p.job.bind s.queue.job? with
  | none => exact Leads.pure ()
  | some j =>
    obtain ⟨id, hid, hj⟩ := Option.bind_eq_some_iff.mp hj
    obtain ⟨b, ht⟩ := signalling_on (s := s) j.id reason
    have hactive : j.id ∈ s.queue.active := Queue.job?_id hj ▸ hp id hid
    exact Leads.step ht (Traces.signal hfit hactive) (calm_tell _ _).leads

theorem handIn_leads (hq : Serves R notify) (submission : Submission) : Leads R s (handIn notify p submission) := by
  refine Leads.absorb (hq.enqueue submission s) (fun id t _ _ => ?_) (fun e t _ _ => ?_) fun e he => ?_
  · exact (Calm.note rfl).leads
  · dsimp only
    split
    · exact Leads.throw e
    · exact (Calm.note rfl).leads
  · simp only [he]
    rfl

theorem perform_leads (hq : Serves R notify) (hp : p.Active s) (step : Step) : Leads R s (perform notify p step) := by
  cases hb : step.mayBreak with
  | false =>
    cases hs : step.signals with
    | false => exact (perform_calm hb hs).leads
    | true =>
      cases step with
      | cancelToken reason => exact Leads.bind (signalOwn_leads hp reason) fun _ _ _ _ => Leads.pure none
      | _ => cases hs
  | true =>
    cases step with
    | fail fault => exact Leads.throw fault
    | cancelAll =>
      exact Leads.bind (hq.cancelAll s) fun c _ _ _ => (Calm.bind (calm_tell _ _) fun _ _ => Calm.pure none).leads
    | enqueue submission => exact Leads.bind (handIn_leads hq submission) fun _ _ _ _ => Leads.pure none
    | enqueueOrStop submission =>
      exact Leads.bind (hq.enqueue submission s) fun id _ _ _ =>
        (Calm.bind (calm_tell _ _) fun _ _ => Calm.pure none).leads
    | _ => cases hb

/-! ## Scripts -/

theorem Player.Active.tracks (hp : p.Active s) {b : Bool} (h : R b s t) : p.Active t := fun id hid =>
  Traces.active h (hp id hid)

theorem playAtOnce_leads (hq : Serves R notify) (hp : p.Active s) (steps : List Step) :
    Leads R s (playAtOnce notify p steps) := by
  induction steps generalizing s with
  | nil => exact Leads.pure ()
  | cons step rest ih =>
    unfold playAtOnce
    split
    · exact ih hp
    · refine Leads.bind (perform_leads hq hp step) fun value t _ he => ?_
      cases value with
      | some _ => exact Leads.pure ()
      | none => exact ih (hp.tracks he)

theorem pause?_on (step : Step) : ∃ r, (pause? p step).on s = (.ok r, s) := by
  cases step with
  | awaitToken =>
    rcases hj : p.job.bind s.queue.job? with _ | j
    · exact ⟨none, Act.on_bind_ok (x := ownJob? p) (a := none) (by rw [← hj]; rfl)⟩
    · exact ⟨_, Act.on_bind_ok (x := ownJob? p) (a := some j) (by rw [← hj]; rfl)⟩
  | _ => exact ⟨_, rfl⟩

theorem play_leads (hq : Serves R notify) (hp : p.Active s) (steps : List Step) : Leads R s (play notify p steps) := by
  induction steps generalizing s with
  | nil => exact Leads.pure _
  | cons step rest ih =>
    unfold play
    obtain ⟨r, hr⟩ := pause?_on (s := s) (p := p) step
    refine Leads.look hr ?_
    cases r with
    | some pause => exact Leads.pure _
    | none =>
      refine Leads.bind (perform_leads hq hp step) fun value t _ he => ?_
      cases value with
      | some value => exact Leads.pure _
      | none => exact ih (hp.tracks he)

end Playing

/-! ## Telling listeners -/

section Telling
variable {R : Option Event → Bool → Scheduler → Scheduler → Prop} {notify : Notify} {hearing : Hearing}
  {told : Option Event} {s : Scheduler} {event : Event} {index : Nat}

/-- What is relied on when one listener is told of an event: the relation tells what it does. -/
def Hears (R : Option Event → Bool → Scheduler → Scheduler → Prop) (hearing : Hearing) : Prop :=
  ∀ told event index s, event.kind ≠ .finished ∨ told = some event → Leads (R told) s (hearing event index)

/-- Telling all fails only with the fault of a cancelled task, and on the end of a job it is remembered then. -/
theorem hearAll_error {indices : List Nat} {e : Fault} {t : Scheduler}
    (hr : (hearAll hearing event indices).on s = (.error e, t)) :
    e = .taskCancelled ∧ (event.kind = .finished → event.snapshot.id ∈ t.queue.brokenOff) := by
  induction indices generalizing s with
  | nil => cases hr
  | cons index rest ih =>
    unfold hearAll at hr
    rw [Act.on_outcome_bind] at hr
    rcases hx : (hearing event index).on s with ⟨f | ⟨⟩, u⟩ <;> rw [hx] at hr <;> dsimp only at hr
    · cases hf : f.isTaskCancelled with
      | true =>
        rw [hf, if_pos rfl, Act.on_bind_ok (Act.on_onQueue _), Act.on_throw] at hr
        cases hr
        exact ⟨Fault.eq_taskCancelled hf, fun hk => Queue.mem_breakOff.mpr (.inr ⟨hk, rfl⟩)⟩
      | false =>
        rw [hf, if_neg Bool.false_ne_true, Act.on_bind_ok (Act.on_log _)] at hr
        exact ih hr
    · exact ih hr

/-- Where all metadata can be copied, telling an event fails as telling all does. -/
theorem announce_error {kind : EventKind} {id : JobId} {e : Fault} {t : Scheduler}
    (hr : (announce .total hearing kind id).on s = (.error e, t)) :
    e = .taskCancelled ∧ (kind = .finished → id ∈ t.queue.brokenOff) := by
  cases hj : s.queue.job? id with
  | none =>
    rw [announce_none hj] at hr
    cases hr
  | some j =>
    rw [announce_total hj] at hr
    exact Queue.job?_id hj ▸ hearAll_error hr

/-- Telling listeners one after the other is told by a relation that tells what each of them does. -/
theorem hearAll_traces {R : Bool → Scheduler → Scheduler → Prop} [Traces R] {indices : List Nat}
    (hh : ∀ index ∈ indices, ∀ s, Leads R s (hearing event index))
    (hb : ∀ s t, R true s t → R true s (t.mapQueue (·.breakOff event))) : Leads R s (hearAll hearing event indices) := by
  induction indices generalizing s with
  | nil => exact Leads.pure ()
  | cons index rest ih =>
    intro hfit
    have hx := hh index List.mem_cons_self s hfit
    have ih := fun {s} => ih (s := s) fun index hi => hh index (List.mem_cons_of_mem _ hi)
    unfold hearAll
    rw [Act.on_outcome_bind]
    rcases hr : (hearing event index).on s with ⟨e | ⟨⟩, t⟩ <;> rw [hr] at hx
    · change R e.isTaskCancelled s t at hx
      dsimp only
      cases hc : e.isTaskCancelled <;> rw [hc] at hx
      · rw [if_neg Bool.false_ne_true, Act.on_bind_ok (Act.on_log _)]
        exact Traces.trans hx (Traces.trans (Traces.touch (.noted rfl)) (ih ((Traces.fit hx hfit).stays (.of_queue rfl))))
      · rw [if_pos rfl, Act.on_bind_ok (Act.on_onQueue _), Act.on_throw]
        change R e.isTaskCancelled s _
        rw [hc]
        exact hb s t hx
    · exact Traces.trans hx (ih (Traces.fit hx hfit))

variable [Grows R]

theorem hear_hears : Hears R hear := by
  intro told event index s h
  refine Leads.same (Act.on_queueNow_bind _) ?_
  cases s.queue.subscriptions[index]? with
  | none => exact Leads.pure ()
  | some sub =>
    change Leads (R told) s (ite _ _ _)
    split
    · exact Leads.pure ()
    · rcases h with h | rfl
      · exact Leads.of_inert (Act.on_note _) rfl (.noted (by simpa [Queue.Note.isPlain] using h) rfl)
      · exact Leads.of_on (Act.on_note _) fun _ => Grows.hear sub.listener.name

theorem hearAndAct_hears (hn : Notifies R notify) : Hears R (hearAndAct notify) := by
  intro told event index s h
  refine Leads.bind (hear_hears told event index s h) fun _ t _ _ => ?_
  refine Leads.same (Act.on_queueNow_bind _) ?_
  cases t.queue.subscriptions[index]? with
  | none => exact Leads.pure ()
  | some sub =>
    change Leads (R told) t (ite _ _ _)
    split
    · exact Leads.inert rfl (.countFiring index) (playAtOnce_leads (hn.serves told) (fun _ h => by cases h) _)
    · exact Leads.pure ()

/-- A listener that stops like a cancelled task breaks the telling off. -/
theorem breakOff_told {t : Scheduler} (h : event.kind ≠ .finished ∨ told = some event) (hx : R told true s t) :
    R told true s (t.mapQueue (·.breakOff event)) := by
  rcases h with h | rfl
  · rw [mapQueue, Queue.breakOff, if_neg h]
    exact hx
  · exact Grows.breakOff hx

theorem hearAll_leads (hh : Hears R hearing) (h : event.kind ≠ .finished ∨ told = some event) (indices : List Nat) :
    Leads (R told) s (hearAll hearing event indices) :=
  hearAll_traces (fun index _ s => hh told event index s h) fun _ _ => breakOff_told h

/-- Telling listeners one of which is told in an allowed way is an allowed way to tell them. -/
theorem announce_notifies (hh : Hears R hearing) : Notifies R (announce .total hearing) where
  copies := rfl
  leads told kind id s hk := by
    cases hj : s.queue.job? id with
    | none => exact Leads.same (announce_none hj ..) (Leads.pure ())
    | some j => exact Leads.same (announce_total hj ..) (hearAll_leads hh (.inl hk) _)
  ends id s j hj := Leads.same (announce_total hj ..) (hearAll_leads hh (.inr rfl) _)
  fault _ _ _ _ _ hr := (announce_error hr).1
  breaks _ _ _ hr := (announce_error hr).2 rfl

/-- However deep listeners may act, telling them is allowed. -/
theorem notifyUpTo_notifies (n : Nat) : Notifies R (notifyUpTo n) := by
  induction n with
  | zero => exact announce_notifies hear_hears
  | succ n ih => exact announce_notifies (hearAndAct_hears ih)

end Telling

end Scheduler

end MediaEngine
