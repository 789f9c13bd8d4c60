import MediaEngine.Proofs.Evolution.Leads
import MediaEngine.Scheduler.Play

/-! # Steps that keep calm

Most steps of a script only note something, change the progress of a job, or subscribe. They are made of
touches and never end with the fault of a cancelled task (`Calm`). What is left are the step that signals a
token, the steps that call back into the queue, and the one that stops like a cancelled task. What is done to
tasks from outside is calm in a looser sense, in which all that is inert is allowed. -/

namespace MediaEngine
open Job Scheduler

/-- The act makes changes of a modest kind and does not end with the fault of a cancelled task. -/
def Calm {α : Type} (C : Scheduler → Scheduler → Prop) (s : Scheduler) (x : Act α) : Prop :=
  Fit s → ∃ r t, x.on s = (r, t) ∧ Broken r = false ∧ C s t

variable {C : Scheduler → Scheduler → Prop}

namespace Calm
variable {α β : Type} {s t : Scheduler} {x : Act α} {f : α → Act β}

theorem leads {R : Bool → Scheduler → Scheduler → Prop} [Traces R] (h : Calm Touches s x) : Leads R s x :=
  Leads.fit_of fun hfit => by
    obtain ⟨r, t, hx, hr, hs⟩ := h hfit
    refine Leads.of_on hx fun _ => ?_
    rw [hr]
    clear hx
    induction hs with
    | refl => exact Traces.refl
    | tail _ h ih => exact Traces.trans ih (Traces.touch h)

theorem leads_inert {R : Bool → Scheduler → Scheduler → Prop} [Tracks R] (h : Calm Inert s x) : Leads R s x :=
  Leads.fit_of fun hfit => by
    obtain ⟨r, t, hx, hr, hs⟩ := h hfit
    exact Leads.of_inert hx hr hs

theorem of_on {r : Except Fault α} (hx : x.on s = (r, t)) (hr : Broken r = false) (hs : C s t) : Calm C s x :=
  fun _ => ⟨r, t, hx, hr, hs⟩

variable [Modest C]

theorem pure (a : α) : Calm C s (Pure.pure a : Act α) := of_on (Act.on_pure a) rfl (Modest.refl s)

theorem throw {e : Fault} (h : e.isTaskCancelled = false) : Calm C s (MonadExcept.throw e : Act α) :=
  of_on (Act.on_throw e) h (Modest.refl s)

theorem note {n : Queue.Note} (h : n.isFaint = true) : Calm C s (Scheduler.note n) :=
  of_on (Act.on_note n) rfl (Modest.touch (.noted h))

omit [Modest C] in
theorem onQueue {f : Queue → Queue} (h : C s (s.mapQueue f)) : Calm C s (Scheduler.onQueue f) :=
  of_on (Act.on_onQueue f) rfl h

theorem yieldOr {e : Except Fault α} (h : Broken e = false) : Calm C s (Scheduler.yieldOr e) :=
  of_on (Act.on_yieldOr e) h (Modest.refl s)

theorem bind (hx : Calm C s x) (hf : ∀ a t, Calm C t (f a)) : Calm C s (x >>= f) := by
  intro hfit
  obtain ⟨r, t, hr, hb, hs⟩ := hx hfit
  cases r with
  | error e => exact ⟨.error e, t, Act.on_bind_error hr, hb, hs⟩
  | ok a =>
    obtain ⟨r', u, hr', hb', hs'⟩ := hf a t (hfit.stays (Modest.inert hs).toStays)
    exact ⟨r', u, (Act.on_bind_ok hr).trans hr', hb', Modest.trans hs hs'⟩

omit [Modest C] in
/-- An act that comes to what another act does on the same scheduler. -/
theorem resume {y : Act α} (hy : y.on s = x.on s) (h : Calm C s x) : Calm C s y := by
  intro hfit
  rw [hy]
  exact h hfit

end Calm

namespace Scheduler
variable [Modest C] {s : Scheduler} {p : Player}

theorem calm_tell (what : String) (value : Value) : Calm C s (tell p what value) := Calm.note rfl

theorem calm_openGate (gate : String) : Calm C s (openGate gate) := by
  have hopen : (openGate gate : Act Unit).on s = (.ok (), s.opening gate) := rfl
  exact Calm.of_on hopen rfl (Modest.touch (.openGate gate))

theorem calm_withJob {f : Job → Act Unit} (hf : ∀ j s, Calm C s (f j)) : Calm C s (withJob p f) := by
  refine Calm.bind (x := ownJob? p) (Calm.of_on (r := .ok (p.job.bind s.queue.job?)) rfl rfl (Modest.refl s)) fun j t => ?_
  cases j with
  | none => exact Calm.pure ()
  | some j => exact hf j t

theorem calm_update {id : JobId} {f : Job → Job} (hf : ∀ j, Retouched j (f j)) : Calm C s (onQueue (·.update id f)) :=
  Calm.onQueue (Modest.touch (.tune id hf))

theorem retouched_refl (j : Job) : Retouched j j := ⟨rfl, rfl, rfl, rfl, rfl, rfl, rfl, rfl, rfl, rfl, rfl, rfl⟩

theorem calm_setProgress (id : JobId) (progress : Progress) : Calm C s (setProgress id progress) :=
  calm_update fun j => { retouched_refl j with }

theorem calm_setBridge (id : JobId) (bridge : Bridge) : Calm C s (setBridge id bridge) :=
  calm_update fun j => { retouched_refl j with }

theorem calm_moveProgress (what : String) (f : Progress → Except ArithmeticError Progress) :
    Calm C s (moveProgress p what f) :=
  calm_withJob fun _ _ => Calm.bind (Calm.yieldOr (arithmetic_unbroken _)) fun _ _ =>
    Calm.bind (calm_setProgress _ _) fun _ _ => calm_tell _ _

theorem bridge_unbroken {α : Type} (x : Except BridgeError α) : Broken (x.mapError Fault.bridge) = false := by
  cases x <;> rfl

theorem calm_makeBridge (fps tolerance frames : Value) : Calm C s (makeBridge p fps tolerance frames) :=
  calm_withJob fun _ _ => Calm.bind (Calm.yieldOr (bridge_unbroken _)) fun (_, _) _ =>
    Calm.bind (calm_setProgress _ _) fun _ _ => calm_setBridge _ _

theorem calm_showFrame (index : Value) : Calm C s (showFrame p index) := by
  refine calm_withJob fun j s => ?_
  cases j.bridge with
  | none => exact Calm.pure ()
  | some bridge =>
    exact Calm.bind (calm_setBridge _ _) fun _ _ => Calm.bind (Calm.yieldOr (bridge_unbroken _)) fun _ _ =>
      Calm.bind (calm_setProgress _ _) fun _ _ => calm_tell _ _

theorem calm_registerCancel (label : Value) : Calm C s (registerCancel p label) := by
  refine calm_withJob fun j s => ?_
  split
  · exact calm_tell _ _
  · exact calm_update fun j => { retouched_refl j with }

theorem calm_compileChain (chain : Value) : Calm C s (compileChain p chain) := by
  refine Calm.resume (Act.on_get_bind _) (Calm.bind (Calm.yieldOr ?_) fun _ _ => calm_tell _ _)
  cases compile s.directory (.value chain) (.value .null) <;> rfl

theorem calm_unsubscribe (name : String) : Calm C s (unsubscribe name) := by
  refine Calm.resume (Act.on_queueNow_bind _) ?_
  cases s.queue.subscription? name with
  | none => exact Calm.throw rfl
  | some index => exact Calm.onQueue (Modest.touch (.unsubscribe index))

end Scheduler

end MediaEngine
