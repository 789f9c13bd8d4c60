import MediaEngine.Proofs.Quiet

/-! # What scripts do, part by part

`Does` lists the parts of which all is made that scripts and commands do, with the schedulers between them as
they are; what telling listeners comes to is left open. It says more than a row (`Does.unfolds`): which parts
belong together. Where listeners do not call back, telling them is known (`Spread`), and a part is known as a
whole. Where they do, telling them is again something that scripts do, and what is kept by every part is kept
by that (`Carried`). -/

namespace MediaEngine
open Job

/-- Listeners are told in this way, and what happens meanwhile happens in a row. -/
def Along (N : Telling) : Telling := fun kind id b s t => Scheduler.Unfolds none s t ∧ N kind id b s t

/-- The scheduler once a job has another status. -/
def Scheduler.showing (s : Scheduler) (id : JobId) (status : Job.Status) : Scheduler :=
  s.mapQueue (·.update id fun j => { j with status := status })

open Scheduler in
/-- What scripts and commands do, listeners being told in this way; `true` means that it was cut short. -/
inductive Does (N : Telling) : Bool → Scheduler → Scheduler → Prop
  | still {s} : Does N false s s
  | halt {s} : Does N true s s
  | trans {b s t u} : Does N false s t → Does N b t u → Does N b s u
  | touch {s t} : Touch s t → Does N false s t
  | signal {s id reason} : Fit s → id ∈ s.queue.active → Does N false s (s.signalling id reason)
  | ask {b s t u id j} : Fit s → id ∈ s.queue.active → s.queue.job? id = some j → j.status ≠ .cancelling →
      j.status ≠ .canceled → Along N .status id b (s.showing id .cancelling) t → Halted id b t u → Does N b s u
  | leave {b s t u id j message l} : Fit s → id ∈ s.queue.waiting → s.queue.job? id = some j →
      l = s.loop ∨ l = s.loop.disarm (.expire id) → Along N .finished id b (s.leaving id message l) t → Closes id b t u →
      Does N b s u
  | unpark {s} : Does N false s s.unparking
  | refuse {s} (submission : Submission) : s.queue.isFull = true → Does N false s (s.refusing submission)
  | enter {b s t submission progress} : Fit s → s.queue.isFull = false →
      Along N .queued s.queue.nextId b (s.admitting submission progress) t → Does N b s t
  | arm {s id x} : s.queue.settings.timeoutSeconds = .ok x → Does N false s (s.arming id)
  | start {b s t u id q} : Fit s → s.queue.startNext? = some (id, q) → Along N .started id b (s.taking id q) t →
      Spawned id b t u → Does N b s u

namespace Scheduler
variable {N : Telling} {R : Bool → Scheduler → Scheduler → Prop} {s t u : Scheduler} {own : Option JobId} {id : JobId} {b : Bool}

/-! ## Rows -/

/-- What happens outside of the turn of a job may happen in it. -/
theorem Unfolds.within (h : Unfolds none s t) : Unfolds own s t := by
  refine Relation.ReflTransGen.mono (fun s t h => ?_) _ _ h
  cases h with
  | inert h => exact .inert h
  | signal hid h => exact .signal hid h
  | hear who event => exact .hear who event
  | breakOff event => exact .breakOff event
  | enroll submission progress hf => exact .enroll submission progress hf
  | arm hx => exact .arm hx
  | take hq => exact .take hq
  | spawn hid => exact .spawn hid
  | ask hid hj hst hst' => exact .ask hid hj hst hst'
  | asked id => exact .asked id
  | leave hid hj hl => exact .leave hid hj hl
  | keep id path => exact .keep id path
  | cool h | finish h | turn h => cases h

theorem Recorded.unfolds {path : Option String} (h : Recorded id path b s t) : Unfolds own s t := by
  cases b <;> cases h
  · exact (Unfolds.one (.keep id path)).tail (.inert (recording_inert s id path))
  · exact .refl

/-- The entry of a job is handed to the store, and no job moves. -/
theorem Recorded.stays {path : Option String} (h : Recorded id path b s t) : Stays s t := by
  cases b <;> cases h
  · exact (keep_stays s id path).trans (recording_inert s id path).toStays
  · exact .refl s

theorem Closes.unfolds (h : Closes id b s t) : Unfolds own s t := by
  cases b <;> cases h
  · exact (Unfolds.one (.keep id none)).tail (.inert (closing_inert s id))
  · exact .refl

theorem showing_unfolds {j : Job} (hid : id ∈ s.queue.active) (hj : s.queue.job? id = some j) (hst : j.status ≠ .cancelling)
    (hst' : j.status ≠ .canceled) : Unfolds own s (s.showing id .cancelling) := .one (.ask hid hj hst hst')

theorem Halted.unfolds (hf : Fit s) (hid : id ∈ s.queue.active) (h : Halted id b s t) : Unfolds own s t := by
  cases b <;> cases h
  · exact (Unfolds.one (.signal hid (signalling_signals hf id _))).tail (.asked id)
  · exact .refl

theorem leaving_unfolds {j : Job} {l : Loop TimerAction} (hid : id ∈ s.queue.waiting) (hj : s.queue.job? id = some j)
    (hl : l = s.loop ∨ l = s.loop.disarm (.expire id)) (message : Option String) : Unfolds own s (s.leaving id message l) := by
  refine .one (.leave hid hj ?_)
  rcases hl with rfl | rfl
  · exact fun _ hm => hm
  · exact fun _ => List.mem_of_mem_filter

theorem admitting_unfolds (submission : Submission) (progress : Progress) (hf : s.queue.isFull = false) :
    Unfolds own s (s.admitting submission progress) := (Unfolds.one (.enroll submission progress hf)).tail (.inert (.noted rfl rfl))

theorem Spawned.unfolds (hid : id ∈ s.queue.active) (h : Spawned id b s t) : Unfolds own s t := by
  cases b <;> cases h
  · exact .one (.spawn hid)
  · exact .refl

instance (own : Option JobId) : Fills (fun _ _ _ => Unfolds own) fun _ => Unfolds own where
  ask {b s t u id j} hfit hid hj hst hst' h hu := by
    have hask : Unfolds own s t := (showing_unfolds hid hj hst hst').trans h
    exact hask.trans (hu.unfolds (hask.fit hfit) (hask.active hid))
  leave _ hid hj hl h hu := ((leaving_unfolds hid hj hl _).trans h).trans hu.unfolds
  unpark := .inert (unparking_inert _)
  refuse submission _ := .inert ((Inert.refuse _).trans (.noted rfl rfl))
  enter _ hf h := (admitting_unfolds _ _ hf).trans h
  arm hx := .one (.arm hx)
  start {b s t u id q} _ hq h hu := by
    have htaken : Unfolds own s t := .head (.take hq) h
    exact htaken.trans (hu.unfolds (Unfolds.active h (mem_taking hq)))

end Scheduler

namespace Does
open Scheduler
variable {N : Telling} {s t : Scheduler} {b : Bool}

/-- What scripts do happens in a row. -/
theorem unfolds (h : Does N b s t) : Unfolds none s t := by
  induction h with
  | still | halt => exact .refl
  | trans _ _ ih₁ ih₂ => exact ih₁.trans ih₂
  | touch h => exact .inert h.inert
  | signal hf hid => exact .one (.signal hid (signalling_signals hf _ _))
  | ask hf hid hj hst hst' h hu =>
    exact Asks.ask (N := fun _ _ _ => Unfolds none) (R := fun _ => Unfolds none) hf hid hj hst hst' h.1 hu
  | leave hf hid hj hl h hu =>
    exact Drops.leave (N := fun _ _ _ => Unfolds none) (R := fun _ => Unfolds none) hf hid hj hl h.1 hu
  | unpark => exact .inert (unparking_inert _)
  | refuse submission hf =>
    exact Enlists.refuse (fun _ _ _ => Unfolds none) (R := fun _ => Unfolds none) submission hf
  | enter hf hfull h => exact Enlists.enter (N := fun _ _ _ => Unfolds none) (R := fun _ => Unfolds none) (b := true) hf hfull h.1
  | arm hx => exact .one (.arm hx)
  | start hf hq h hu => exact Begins.start (N := fun _ _ _ => Unfolds none) (R := fun _ => Unfolds none) hf hq h.1 hu

theorem fit (h : Does N b s t) (hf : Fit s) : Fit t := h.unfolds.fit hf

/-- What telling listeners comes to may be told less closely. -/
theorem mono {M : Telling} (hN : ∀ kind id b s t, N kind id b s t → M kind id b s t) (h : Does N b s t) : Does M b s t := by
  induction h with
  | still => exact .still
  | halt => exact .halt
  | trans _ _ ih₁ ih₂ => exact .trans ih₁ ih₂
  | touch h => exact .touch h
  | signal hf hid => exact .signal hf hid
  | ask hf hid hj hst hst' h hu => exact .ask hf hid hj hst hst' (h.imp_right (hN _ _ _ _ _)) hu
  | leave hf hid hj hl h hu => exact .leave hf hid hj hl (h.imp_right (hN _ _ _ _ _)) hu
  | unpark => exact .unpark
  | refuse submission hf => exact .refuse submission hf
  | enter hf hfull h => exact .enter hf hfull (h.imp_right (hN _ _ _ _ _))
  | arm hx => exact .arm hx
  | start hf hq h hu => exact .start hf hq (h.imp_right (hN _ _ _ _ _)) hu

end Does

/-- Two things that telling listeners comes to. -/
theorem Tells.both {N M : Telling} {notify : Notify} (hN : Tells (Along N) notify) (hM : Tells (Along M) notify) :
    Tells (Along fun kind id b s t => N kind id b s t ∧ M kind id b s t) notify where
  copies := hN.copies
  leads kind id s hf := ⟨(hN.leads kind id s hf).1, (hN.leads kind id s hf).2, (hM.leads kind id s hf).2⟩
  fault := hN.fault

instance (N : Telling) : Fills (Along N) (Does N) where
  fit := Does.fit
  active h := h.unfolds.active
  refl := .still
  touch := .touch
  signal := .signal
  halt := .halt
  trans := .trans
  ask := .ask
  leave := .leave
  unpark := .unpark
  refuse := .refuse
  enter := .enter
  arm := .arm
  start := .start

/-! ## Listeners who call back -/

open Scheduler in
/-- What holds from one scheduler to another whatever listeners do, as it holds of all that their scripts call on the queue
    for. -/
structure Served (P : Bool → Scheduler → Scheduler → Prop) : Prop where
  traces : Traces fun b s t => Unfolds none s t ∧ P b s t
  hear {s} (event : Event) (index : Nat) : P false s (s.informed event index)
  breakOff {s t} (event : Event) : Unfolds none s t → P true s t → P true s (t.mapQueue (·.breakOff event))
  serves (n : Nat) : Tells (Along fun _ _ => P) (notifyUpTo n) → Serves (fun b s t => Unfolds none s t ∧ P b s t) (notifyUpTo n)

namespace Served
open Scheduler
variable {P : Bool → Scheduler → Scheduler → Prop} {s : Scheduler}

theorem informed_unfolds (s : Scheduler) (event : Event) (index : Nat) : Unfolds none s (s.informed event index) := by
  unfold informed
  split
  · exact .refl
  · split
    · exact .refl
    · exact .one (.hear _ event)

/-- Listeners are told in this way if they are so wherever a listener may act on what it is told. -/
theorem announce_tells (hP : Served P) {hearing : Hearing}
    (hh : ∀ event index s, Leads (fun b s t => Unfolds none s t ∧ P b s t) s (hearing event index)) :
    Tells (Along fun _ _ => P) (announce .total hearing) where
  copies := rfl
  leads kind id s := by
    have := hP.traces
    change Leads (fun b s t => Unfolds none s t ∧ P b s t) s _
    cases hj : s.queue.job? id with
    | none => exact Leads.same (announce_none hj ..) (Leads.pure ())
    | some j =>
      exact Leads.same (announce_total hj ..)
        (hearAll_traces (fun index _ => hh _ index) fun s t h => ⟨h.1.tail (.breakOff _), hP.breakOff _ h.1 h.2⟩)
  fault _ _ _ _ _ hr := (announce_error hr).1

theorem hear_leads (hP : Served P) (event : Event) (index : Nat) (s : Scheduler) :
    Leads (fun b s t => Unfolds none s t ∧ P b s t) s (Scheduler.hear event index) :=
  Leads.of_on (hear_on event index s) fun _ => ⟨informed_unfolds s event index, hP.hear event index⟩

/-- A listener that acts on what it hears. -/
theorem hearAndAct_leads (hP : Served P) {notify : Notify} (hs : Serves (fun b s t => Unfolds none s t ∧ P b s t) notify)
    (event : Event) (index : Nat) (s : Scheduler) :
    Leads (fun b s t => Unfolds none s t ∧ P b s t) s (hearAndAct notify event index) := by
  have := hP.traces
  refine Leads.bind (hP.hear_leads event index s) fun _ t _ _ => ?_
  refine Leads.same (Act.on_queueNow_bind _) ?_
  cases t.queue.subscriptions[index]? with
  | none => exact Leads.pure ()
  | some sub =>
    change Leads _ t (ite _ _ _)
    split
    · exact Leads.step (Act.on_onQueue _) (hP.traces.touch (.countFiring index))
        (playAtOnce_leads hs (fun _ h => by cases h) _)
    · exact Leads.pure ()

/-- However deep listeners may act, it holds of telling them. -/
theorem tells (hP : Served P) (n : Nat) : Tells (Along fun _ _ => P) (notifyUpTo n) := by
  induction n with
  | zero => exact hP.announce_tells hP.hear_leads
  | succ n ih => exact hP.announce_tells (hP.hearAndAct_leads (hP.serves n ih))

end Served

open Scheduler in
/-- What holds from one scheduler to another whatever scripts do, where it holds of telling listeners. -/
structure Borne (P : Bool → Scheduler → Scheduler → Prop) : Prop where
  does {b s t} : Does (fun _ _ => P) b s t → P b s t
  trans {b s t u} : Unfolds none s t → P false s t → P b t u → P b s u

open Scheduler in
/-- What holds from one scheduler to another whatever scripts do, those of listeners among them. -/
structure Carried (P : Bool → Scheduler → Scheduler → Prop) : Prop extends Borne P where
  hear {s} (event : Event) (index : Nat) : P false s (s.informed event index)
  breakOff {s t} (event : Event) : P true s t → P true s (t.mapQueue (·.breakOff event))

namespace Borne
open Scheduler
variable {P : Bool → Scheduler → Scheduler → Prop}

theorem traces (hP : Borne P) : Traces fun b s t => Unfolds none s t ∧ P b s t where
  fit h := h.1.fit
  active h := h.1.active
  refl := ⟨.refl, hP.does .still⟩
  touch h := ⟨.inert h.inert, hP.does (.touch h)⟩
  signal hf hid := ⟨(Does.signal (N := fun _ _ => P) hf hid).unfolds, hP.does (.signal hf hid)⟩
  halt := ⟨.refl, hP.does .halt⟩
  trans h h' := ⟨h.1.trans h'.1, hP.trans h.1 h.2 h'.2⟩

theorem serves (hP : Borne P) {notify : Notify} (hn : Tells (Along fun _ _ => P) notify) :
    Serves (fun b s t => Unfolds none s t ∧ P b s t) notify where
  enqueue submission _ hf :=
    have h : Does (fun _ _ => P) _ _ _ := enqueue_told hn submission hf
    ⟨h.unfolds, hP.does h⟩
  cancelAll _ hf :=
    have h : Does (fun _ _ => P) _ _ _ := cancelAll_told hn hf
    ⟨h.unfolds, hP.does h⟩

end Borne

namespace Carried
open Scheduler
variable {P : Bool → Scheduler → Scheduler → Prop}

theorem served (hP : Carried P) : Served P where
  traces := hP.traces
  hear := hP.hear
  breakOff event _ := hP.breakOff event
  serves _ := hP.serves

/-- However deep listeners may act, what is carried by all that scripts do is carried by telling them. -/
theorem tells (hP : Carried P) (n : Nat) : Tells (Along fun _ _ => P) (notifyUpTo n) := hP.served.tells n

end Carried

/-! ## Listeners who do not call back -/

theorem Scheduler.notifyUpTo_softly (n : Nat) : Tells (Along (Softly Spread)) (notifyUpTo n) where
  copies := (notifyUpTo_notifies (R := fun _ _ => Unfolds none) n).copies
  leads kind id s hf := by
    have hrow : Carried fun _ _ _ => True := ⟨⟨fun _ => trivial, fun _ _ _ => trivial⟩, fun _ _ => trivial, fun _ _ => trivial⟩
    exact ⟨((hrow.tells n).leads kind id s hf).1, notifyUpTo_spread n kind id hf⟩
  fault := (notifyUpTo_notifies (R := fun _ _ => Unfolds none) n).fault

end MediaEngine
