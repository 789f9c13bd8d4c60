import MediaEngine.Proofs.Evolution.Playing
import MediaEngine.Proofs.Placing
import MediaEngine.Scheduler.Task

/-! # The turn of a job

The task of a job plays its script and then either waits or ends the job. While it plays, the job may cool
down, which a job whose token is signalled does not (`Plays`); it ends as something else than canceled
only with its token not signalled (`Finishes`). -/

namespace MediaEngine
open Job Scheduler

/-- How a scheduler evolves while the script of a job is played. -/
inductive Plays (id : JobId) : Bool → Scheduler → Scheduler → Prop
  | evolves {b s t} : Evolves none b s t → Plays id b s t
  | trans {b s t u} : Plays id false s t → Plays id b t u → Plays id b s u
  /-- The job cools down while its preview is made. -/
  | cools {b s t j} : s.queue.job? id = some j → j.token.cancelled = false →
      Evolves none b (s.mapQueue (·.update id fun j => { j with status := .coolingDown })) t → Plays id b s t

/-- The script was played, and the job ended. -/
def Finishes (id : JobId) (b : Bool) (s u : Scheduler) : Prop :=
  ∃ t status path errorMessage message, Plays id false s t ∧ status.isTerminal = true ∧
    (t.queue.isCancelled id = true → status = .canceled) ∧ Ends id status path errorMessage message b t u

/-- What comes of playing a job on. -/
def Outcome (id : JobId) (s : Scheduler) : Except Fault TurnEnd → Scheduler → Prop
  | .ok (.waiting _ _), t => Plays id false s t
  | .ok .over, t => Finishes id false s t
  | .error f, t => Plays id f.isTaskCancelled s t ∨ Finishes id f.isTaskCancelled s t

theorem Plays.finishes {id : JobId} {b : Bool} {s t u : Scheduler} (h : Plays id false s t) (hf : Finishes id b t u) :
    Finishes id b s u := by
  obtain ⟨v, status, path, errorMessage, message, hp, hrest⟩ := hf
  exact ⟨v, status, path, errorMessage, message, h.trans hp, hrest⟩

/-- What is played before counts as played. -/
theorem Plays.outcome {id : JobId} {s t u : Scheduler} {r : Except Fault TurnEnd} (h : Plays id false s t)
    (ho : Outcome id t r u) : Outcome id s r u := by
  match r, ho with
  | .ok (.waiting _ _), ho => exact h.trans ho
  | .ok .over, ho => exact h.finishes ho
  | .error f, .inl ho => exact .inl (h.trans ho)
  | .error f, .inr ho => exact .inr (h.finishes ho)

namespace Scheduler

/-- The job is active and has not ended. -/
structure Working (s : Scheduler) (id : JobId) : Prop where
  fit : Fit s
  fresh : Fresh s
  active : id ∈ s.queue.active
  placed : s.Placed id

/-- What a turn does beside its own job. -/
structure Beside (id : JobId) (s t : Scheduler) : Prop where
  others : ∀ i, i ≠ id → Onward none true s t i
  lives : ∀ i, t.Lives i id → s.Lives i id
  continues : Queue.Continues s.queue t.queue

variable {s t u : Scheduler} {id i : JobId} {b : Bool} {j : Job}

/-- The job of a number that works. -/
theorem Working.job (h : Working s id) : ∃ j, s.queue.job? id = some j ∧ j.finalized = false ∧ s.entriesOf id = [] ∧
    s.Untold id ∧ (s.HasAsked id → j.token.cancelled = true) ∧
    ∀ i k, s.Lives i id → s.Lives k id → i = k := by
  cases h.placed with
  | upcoming hu _ => exact absurd hu (h.fit.apart id h.active)
  | active j _ hj ho hr hn hq hl => exact ⟨j, hj, ho, hr, hn, hq, hl⟩
  | skipped _ _ ha _ | stray _ _ ha _ _ _ _ | gone _ _ ha _ _ _ _ => exact absurd h.active ha

theorem Working.past (h : Working s id) : ¬ s.Upcoming id := h.fit.apart id h.active

theorem Beside.trans (h₁ : Beside id s t) (h₂ : Beside id t u) : Beside id s u where
  others i hi := (h₁.others i hi).next Past.none (h₂.others i hi)
  lives i hi := h₁.lives i (h₂.lives i hi)
  continues := h₁.continues.trans h₂.continues

/-- Whether an evolution was cut short does not matter beside the job whose turn it is. -/
theorem Onward.weaken {told : Option Event} (h : Onward told b s t i) : Onward told true s t i where
  placed := h.placed
  frame hu := { h.frame hu with
    brokenOff := fun hb => ((h.frame hu).brokenOff hb).imp_right fun ht => ⟨rfl, ht.2⟩
    job := fun j hj => by
      obtain ⟨k, hk, hl, hs⟩ := (h.frame hu).job j hj
      refine ⟨k, hk, hl, ?_⟩
      cases hs with
      | still hst hq => exact .still hst hq
      | asked ha hne hne' hc _ hq => exact .asked ha hne hne' hc (fun h => by cases h) hq }

/-- Where all other numbers go onward, upcoming jobs stay fresh. -/
theorem fresh_beside (h : ∀ i, i ≠ id → Onward none true s t i) (hfit : Fit t) (hid : ¬ t.Upcoming id) : Fresh t := by
  intro i hu
  have hi : i ≠ id := fun he => hid (he ▸ hu)
  by_cases hs : s.Upcoming i
  · exact ((h i hi).placed hs).blank hfit hu
  · exact absurd hu ((h i hi).frame hs).past

/-- A job that works goes on to work while things evolve. -/
theorem Working.evolves (hw : Working s id) (h : Evolves none b s t) : Working t id ∧ Beside id s t := by
  have hon := h.onward hw.fit hw.fresh Past.none
  have hf := (hon id).frame hw.past
  have hfit := hw.fit.evolves h
  exact ⟨⟨hfit, Onward.fresh hon hfit, hf.active.mpr hw.active, hw.placed.frame hw.past hf nothing_told⟩,
    fun i _ => (hon i).weaken, hf.lives, h.continues⟩

theorem Working.cools (hw : Working s id) : Working (s.mapQueue (·.update id fun j => { j with status := .coolingDown })) id ∧
    Beside id s (s.mapQueue (·.update id fun j => { j with status := .coolingDown })) := by
  obtain ⟨j, hj, ho, hr, hn, hq, hl⟩ := hw.job
  have hsame : ∀ k, k ≠ id → Same s (s.mapQueue (·.update id fun j => { j with status := .coolingDown })) k :=
    fun k hk => same_update (by intro; rfl) s.loop hk
  refine ⟨⟨hw.fit.update (by intro; rfl) (fun h => hw.past (.inl h)) s.loop, fresh_open hw.fresh hw.past hsame, hw.active, ?_⟩,
    fun i hi => .of_same (hsame i hi) hw.fresh, fun _ h => h, ?_⟩
  · exact .active _ hw.active (Queue.job?_update_self (by intro; rfl) hj) ho hr ⟨hn.told, hn.brokenOff⟩ hq hl
  · exact .of_knows (Queue.Knows.update _ _ (by intro; rfl) (by intro; rfl)) rfl rfl rfl

theorem Working.plays (hw : Working s id) (h : Plays id b s t) : Working t id ∧ Beside id s t := by
  induction h with
  | evolves h => exact hw.evolves h
  | trans _ _ ih₁ ih₂ =>
    obtain ⟨hw₁, h₁⟩ := ih₁ hw
    obtain ⟨hw₂, h₂⟩ := ih₂ hw₁
    exact ⟨hw₂, h₁.trans h₂⟩
  | cools _ _ h =>
    obtain ⟨hw₁, h₁⟩ := hw.cools
    obtain ⟨hw₂, h₂⟩ := hw₁.evolves h
    exact ⟨hw₂, h₁.trans h₂⟩

/-! ## Playing a job on -/

/-- Playing a job on comes to one of the outcomes. -/
def Goes (id : JobId) (s : Scheduler) (x : Act TurnEnd) : Prop :=
  Working s id → Outcome id s (x.on s).1 (x.on s).2

section Playing
variable {α : Type} {x : Act α} {f : α → Act TurnEnd} {notify : Notify}

theorem Goes.of_plays (hx : Working s id → ∃ r t, x.on s = (r, t) ∧ Plays id (Broken r) s t)
    (hf : ∀ a t, x.on s = (.ok a, t) → Goes id t (f a)) : Goes id s (x >>= f) := by
  intro hw
  obtain ⟨r, t, hr, hp⟩ := hx hw
  rw [Act.on_bind, hr]
  cases r with
  | error e => exact .inl hp
  | ok a => exact hp.outcome (hf a t hr (hw.plays hp).1)

theorem Goes.bind (hx : Working s id → Leads (Evolves none) s x) (hf : ∀ a t, x.on s = (.ok a, t) → Goes id t (f a)) :
    Goes id s (x >>= f) :=
  .of_plays (fun hw => ⟨_, _, rfl, .evolves (hx hw hw.fit)⟩) hf

theorem Goes.throw (e : Fault) : Goes id s (MonadExcept.throw e) := fun hw =>
  .inl (.evolves (Leads.throw (R := Evolves none) e hw.fit))

theorem Goes.waiting (pause : Pause) (phase : Phase) : Goes id s (Pure.pure (.waiting pause phase)) :=
  fun _ => .evolves (.steady (.refl s))

theorem Goes.resume {x y : Act TurnEnd} (hy : y.on s = x.on s) (h : Goes id s x) : Goes id s y := by
  intro hw
  rw [hy]
  exact h hw

/-- A job that works ends, and that is its turn. -/
theorem Goes.finish (hn : Notifies Evolves notify) (status : Job.Status) (path errorMessage message : Option String)
    (hterm : status.isTerminal = true) (hc : s.queue.isCancelled id = true → status = .canceled) :
    Goes id s (do
      Scheduler.finish notify id status path errorMessage message
      return .over) := by
  intro hw
  obtain ⟨j, hj, ho, -⟩ := hw.job
  obtain ⟨r, u, hr, he⟩ := finish_ends hn hw.fit (fun h => hw.past (.inl h)) hj ho status path errorMessage message
  have hf : Finishes id (Broken r) s u :=
    ⟨s, status, path, errorMessage, message, .evolves (.steady (.refl s)), hterm, hc, he⟩
  rw [Act.on_bind, hr]
  cases r with
  | error e => exact .inr hf
  | ok _ => exact hf

/-- Cooling down, as an act. -/
theorem cool_on (hn : Notifies Evolves notify) (hw : Working s id) (hc : s.queue.isCancelled id = false) :
    ∃ r t, (setStatus notify id .coolingDown).on s = (r, t) ∧ Plays id (Broken r) s t := by
  obtain ⟨j, hj, -⟩ := hw.job
  have hsig : j.token.cancelled = false := by
    rw [Queue.isCancelled, hj] at hc
    exact hc
  have hnotify := hn.leads none .status id (s.mapQueue (·.update id fun j => { j with status := .coolingDown }))
    (by decide) hw.cools.1.fit
  exact ⟨_, _, rfl, .cools hj hsig hnotify⟩

theorem calm_takeTimes {C : Scheduler → Scheduler → Prop} [Modest C] (j : Job) (result : RunResult) : Calm C s (takeTimes j result) := by
  have move : ∀ {s} (id : JobId) (f : Progress → Except ArithmeticError Progress),
      Calm C s (takeTimes.moveSilently id f) := fun {s} id f => by
    refine Calm.resume (Act.on_queueNow_bind _) ?_
    cases s.queue.job? id with
    | none => exact Calm.pure ()
    | some k => exact Calm.bind (Calm.yieldOr (arithmetic_unbroken _)) fun _ _ => calm_setProgress _ _
  unfold takeTimes
  cases result.totalTime with
  | none =>
    cases result.outputTime with
    | none => exact Calm.pure ()
    | some _ => exact move _ _
  | some _ =>
    cases result.outputTime with
    | none => exact Calm.bind (move _ _) fun _ _ => Calm.pure ()
    | some _ => exact Calm.bind (move _ _) fun _ _ => move _ _

theorem previewed_goes (hn : Notifies Evolves notify) (hid : j.id = id) (result : RunResult) :
    Goes id s (previewed notify j result) := by
  refine Goes.resume (Act.on_queueNow_bind _) ?_
  rw [hid]
  split
  · exact Goes.throw _
  · rename_i hc
    exact Goes.finish hn .completed _ none none rfl fun h => absurd h hc

/-- Who plays a script of a job that works. -/
theorem Working.player {p : Player} (hw : Working s id) (hp : p.job = some id) : p.Active s := fun i hi => by
  cases hp.symm.trans hi
  exact hw.active

theorem playPreview_goes (hn : Notifies Evolves notify) (hid : j.id = id) (result : RunResult) (steps : List Step) :
    Goes id s (playPreview notify j result steps) := by
  refine Goes.bind (fun hw => play_leads (hn.serves none) (hw.player (congrArg some hid)) steps) fun played t _ => ?_
  cases played with
  | waiting pause rest => exact Goes.waiting _ _
  | returned value => exact previewed_goes hn hid result

theorem settleBody_goes (hn : Notifies Evolves notify) (hid : j.id = id) (value : Value) :
    Goes id s (settleBody notify j value) := by
  have hread : Broken ((RunResult.ofValue value).mapError Fault.result) = false := by
    cases RunResult.ofValue value <;> rfl
  refine Goes.bind (fun _ => (Calm.yieldOr hread).leads) fun result t _ => ?_
  refine Goes.bind (fun _ => (calm_takeTimes j result).leads) fun _ u _ => ?_
  refine Goes.resume (Act.on_queueNow_bind _) ?_
  rw [hid]
  split
  · exact Goes.finish hn .canceled none none none rfl fun _ => rfl
  · rename_i hc
    have hc : u.queue.isCancelled id = false := Bool.eq_false_iff.mpr hc
    split
    · exact Goes.of_plays (fun hw => cool_on hn hw hc) fun _ v _ => playPreview_goes hn hid result _
    · exact Goes.of_plays (fun hw => cool_on hn hw hc) fun _ v _ =>
        Goes.bind (fun hw => playAtOnce_leads (hn.serves none) (hw.player (congrArg some hid)) _) fun _ w _ =>
          previewed_goes hn hid result
    · exact Goes.finish hn .completed _ none none rfl fun h => by rw [hc] at h; cases h

theorem playBody_goes (hn : Notifies Evolves notify) (hid : j.id = id) (steps : List Step) :
    Goes id s (playBody notify j steps) := by
  refine Goes.bind (fun hw => play_leads (hn.serves none) (hw.player (congrArg some hid)) steps) fun played t _ => ?_
  cases played with
  | waiting pause rest => exact Goes.waiting _ _
  | returned value => exact settleBody_goes hn hid value

theorem playJob_goes (hn : Notifies Evolves notify) (hid : j.id = id) (phase : Phase) (killed : Bool) :
    Goes id s (playJob notify j phase killed) := by
  unfold playJob
  split
  · exact Goes.throw _
  · cases phase with
    | fresh => exact playBody_goes hn hid _
    | body rest => exact playBody_goes hn hid rest
    | preview result rest => exact playPreview_goes hn hid result rest

end Playing

end Scheduler

end MediaEngine
