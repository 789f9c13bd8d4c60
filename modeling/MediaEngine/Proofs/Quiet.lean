import MediaEngine.Proofs.Unfolding

/-! # Listeners that do not call back

Where no listener hands in or cancels jobs, telling them moves no job and signals no token: at most jobs
are tuned, subscriptions change, and something is noted (`Hushed`). The assumption is made of the state in
the end; no listener is forgotten, and so it was true of all states before. -/

namespace MediaEngine
open Job

/-- A step by which a script calls on the queue. -/
def Job.Step.callsBack : Step → Bool
  | .cancelAll => true
  | .enqueue _ => true
  | .enqueueOrStop _ => true
  | _ => false

/-- No listener that ever subscribed calls back into the queue. -/
def Queue.Quiet (q : Queue) : Prop := ∀ l ∈ q.listeners, ∀ step ∈ l.steps, step.callsBack = false

theorem Queue.Quiet.before {q r : Queue} (h : r.Quiet) (hqr : q.listeners <+: r.listeners) : q.Quiet := fun l hl =>
  h l (hqr.subset hl)

/-- No listener that ever subscribed may be cut short, so none stops like a cancelled task or calls back. -/
def Queue.Gentle (q : Queue) : Prop := ∀ l ∈ q.listeners, ∀ step ∈ l.steps, step.mayBreak = false

theorem Queue.Gentle.before {q r : Queue} (h : r.Gentle) (hqr : q.listeners <+: r.listeners) : q.Gentle := fun l hl =>
  h l (hqr.subset hl)

theorem Queue.Gentle.quiet {q : Queue} (h : q.Gentle) : q.Quiet := fun l hl step hstep => by
  have hb := h l hl step hstep
  cases step with
  | cancelAll | enqueue _ | enqueueOrStop _ => cases hb
  | _ => rfl

/-- No listener that acts on events of this kind may be cut short. -/
def Queue.Spares (q : Queue) (kind : EventKind) : Prop :=
  ∀ l ∈ q.listeners, l.kind = some kind → ∀ step ∈ l.steps, step.mayBreak = false

theorem Queue.Spares.before {q r : Queue} {kind : EventKind} (h : r.Spares kind) (hqr : q.listeners <+: r.listeners) :
    q.Spares kind := fun l hl => h l (hqr.subset hl)

theorem Queue.Gentle.spares {q : Queue} (h : q.Gentle) (kind : EventKind) : q.Spares kind := fun l hl _ => h l hl

theorem Queue.quiet_of_none {q : Queue} (h : q.listeners = []) : q.Quiet := fun l hl => by
  rw [h] at hl
  cases hl

namespace Scheduler
variable {s t u : Scheduler} {own : Option JobId}

/-- No job moves, and the limits are the same. -/
structure Abides (s t : Scheduler) : Prop where
  settings : t.queue.settings = s.queue.settings
  waiting : t.queue.waiting = s.queue.waiting
  active : t.queue.active = s.queue.active

theorem Abides.refl (s : Scheduler) : Abides s s := ⟨rfl, rfl, rfl⟩

theorem Abides.trans (h₁ : Abides s t) (h₂ : Abides t u) : Abides s u :=
  ⟨h₂.settings.trans h₁.settings, h₂.waiting.trans h₁.waiting, h₂.active.trans h₁.active⟩

theorem Steady.abides (h : Steady s t) : Abides s t := ⟨h.continues.settings, h.waiting, h.active⟩

/-- What telling listeners comes to who do not call back. -/
structure Hushed (s t : Scheduler) : Prop extends Still s t, Abides s t where
  jobs : List.Forall₂ Tuned s.queue.jobs t.queue.jobs
  signalled : ∀ id, t.queue.isCancelled id = s.queue.isCancelled id
  recorded : t.queue.recorded = s.queue.recorded

theorem Inert.hushed (h : Inert s t) : Hushed s t :=
  ⟨h.toStill, h.abides, h.jobs, h.signalled, h.recorded⟩

theorem Hushed.refl (s : Scheduler) : Hushed s s := (Inert.refl s).hushed

theorem Hushed.trans (h₁ : Hushed s t) (h₂ : Hushed t u) : Hushed s u :=
  ⟨h₁.toStill.trans h₂.toStill, h₁.toAbides.trans h₂.toAbides, Queue.tuned_trans h₁.jobs h₂.jobs,
    fun id => (h₂.signalled id).trans (h₁.signalled id), h₂.recorded.trans h₁.recorded⟩

theorem Hushed.noted {n : Queue.Note} (h : n.started? = none) : Hushed s (s.noted n) :=
  { Hushed.refl s with toStill := .noted h }

theorem Hushed.breakOff (event : Event) : Hushed s (s.mapQueue (·.breakOff event)) := by
  obtain ⟨ids, hq, -⟩ := s.queue.breakOff_eq event
  rw [mapQueue, hq]
  exact { Hushed.refl s with }

/-! ## Scripts of listeners -/

/-- The small changes that are made without a job: subscriptions may change, tasks may go on, and something may be noted. -/
structure Murmurs (s t : Scheduler) : Prop where
  touches : Touches s t
  queue : ∃ subscriptions subscribed, t.queue = { s.queue with subscriptions := subscriptions, subscribed := subscribed }
  timers : t.loop.timers = s.loop.timers

namespace Murmurs

theorem refl (s : Scheduler) : Murmurs s s := ⟨.refl, ⟨_, _, rfl⟩, rfl⟩

theorem trans (h₁ : Murmurs s t) (h₂ : Murmurs t u) : Murmurs s u := by
  obtain ⟨_, _, hq⟩ := h₁.queue
  obtain ⟨_, _, hq'⟩ := h₂.queue
  exact ⟨h₁.touches.trans h₂.touches, ⟨_, _, by rw [hq', hq]⟩, h₂.timers.trans h₁.timers⟩

theorem inert (h : Murmurs s t) : Inert s t := h.touches.inert

theorem noted {n : Queue.Note} (h : n.isFaint = true) : Murmurs s (s.noted n) := ⟨.single (.noted h), ⟨_, _, rfl⟩, rfl⟩

theorem openGate (gate : String) : Murmurs s (s.opening gate) := ⟨.single (.openGate gate), ⟨_, _, rfl⟩, rfl⟩

theorem subscribe (listener : Listener) : Murmurs s (s.mapQueue (·.subscribe listener)) :=
  ⟨.single (.subscribe listener), ⟨_, _, rfl⟩, rfl⟩

theorem unsubscribe (index : Nat) : Murmurs s (s.mapQueue (·.unsubscribe index)) :=
  ⟨.single (.unsubscribe index), ⟨_, _, rfl⟩, rfl⟩

theorem countFiring (index : Nat) : Murmurs s (s.mapQueue (·.countFiring index)) :=
  ⟨.single (.countFiring index), ⟨_, _, rfl⟩, rfl⟩

end Murmurs

section Scripts
variable {notify : Notify} {p : Player} {step : Step}

theorem withJob_none (hp : p.job = none) (f : Job → Act Unit) : (withJob p f).on s = (.ok (), s) := by
  have hown : (ownJob? p).on s = (.ok none, s) := by
    change (Except.ok (p.job.bind s.queue.job?), s) = _
    rw [hp]
    rfl
  exact Act.on_bind_ok hown

/-- A script without a job that does not call back makes small changes, and none to a job. -/
theorem perform_murmurs (notify : Notify) (hp : p.job = none) (h : step.callsBack = false) :
    ∃ r t, (perform notify p step).on s = (r, t) ∧ Murmurs s t ∧ (step.mayBreak = false → Broken r = false) := by
  have silent : ∀ {x : Act Unit}, x.on s = (.ok (), s) → ∃ r t, (do x; return none : Act (Option Value)).on s = (r, t) ∧
      Murmurs s t ∧ (step.mayBreak = false → Broken r = false) := fun hx =>
    ⟨.ok none, s, Act.on_bind_ok hx, .refl s, fun _ => rfl⟩
  cases step with
  | log value => exact ⟨_, _, rfl, .noted rfl, fun _ => rfl⟩
  | pause | sleep _ | gate _ | finish _ => exact ⟨_, _, rfl, .refl s, fun _ => rfl⟩
  | openGate name => exact ⟨_, _, rfl, .openGate name, fun _ => rfl⟩
  | awaitToken | seeToken | check | onCancel _ | cancelToken _ | output _ | total _ | estimate _ | bridge _ _ _ | frame _ =>
    exact silent (withJob_none hp _)
  | compile chain =>
    rw [perform, compileChain, bind_assoc, Act.on_get_bind]
    cases compile s.directory (.value chain) (.value .null) with
    | ok plan => exact ⟨_, _, rfl, .noted rfl, fun _ => rfl⟩
    | error e => exact ⟨_, _, rfl, .refl s, fun _ => rfl⟩
  | seeQueue => exact ⟨_, _, rfl, .noted rfl, fun _ => rfl⟩
  | fail fault => exact ⟨.error fault, s, rfl, .refl s, fun h => h⟩
  | seeResult =>
    rw [perform]
    cases p.result with
    | none => exact ⟨_, _, rfl, .refl s, fun _ => rfl⟩
    | some r => exact ⟨_, _, rfl, .noted rfl, fun _ => rfl⟩
  | subscribe listener => exact ⟨_, _, rfl, .subscribe listener, fun _ => rfl⟩
  | unsubscribe name =>
    rw [perform, unsubscribe, bind_assoc, Act.on_queueNow_bind]
    cases s.queue.subscription? name with
    | none => exact ⟨_, _, rfl, .refl s, fun _ => rfl⟩
    | some index => exact ⟨_, _, rfl, .unsubscribe index, fun _ => rfl⟩
  | cancelAll | enqueue _ | enqueueOrStop _ => cases h

theorem playAtOnce_murmurs (notify : Notify) (hp : p.job = none) {steps : List Step} (h : ∀ step ∈ steps, step.callsBack = false) :
    ∃ r t, (playAtOnce notify p steps).on s = (r, t) ∧ Murmurs s t ∧
      ((∀ step ∈ steps, step.mayBreak = false) → Broken r = false) := by
  induction steps generalizing s with
  | nil => exact ⟨.ok (), s, rfl, .refl s, fun _ => rfl⟩
  | cons step rest ih =>
    have hrest : ∀ step ∈ rest, step.callsBack = false := fun x hx => h x (List.mem_cons_of_mem _ hx)
    unfold playAtOnce
    split
    · obtain ⟨r, t, hr, ht, hb⟩ := ih hrest
      exact ⟨r, t, hr, ht, fun hs => hb fun x hx => hs x (List.mem_cons_of_mem _ hx)⟩
    · obtain ⟨r, t, hr, ht, hb⟩ := perform_murmurs (s := s) notify hp (h step List.mem_cons_self)
      rcases r with e | value
      · exact ⟨.error e, t, Act.on_bind_error hr, ht, fun hs => hb (hs step List.mem_cons_self)⟩
      · cases value with
        | some value => exact ⟨.ok (), t, Act.on_bind_ok hr, ht, fun _ => rfl⟩
        | none =>
          obtain ⟨r', u, hr', hu, hb'⟩ := ih (s := t) hrest
          exact ⟨r', u, (Act.on_bind_ok hr).trans hr', ht.trans hu, fun hs => hb' fun x hx => hs x (List.mem_cons_of_mem _ hx)⟩

end Scripts

/-! ## Telling listeners -/

/-- The scheduler once a listener was told of an event: this is noted, unless the listener keeps quiet. -/
def informed (s : Scheduler) (event : Event) (index : Nat) : Scheduler :=
  match s.queue.subscriptions[index]? with
  | none => s
  | some sub => if sub.listener.quiet then s else s.noted (.heard sub.listener.name event)

theorem informed_queue (s : Scheduler) (event : Event) (index : Nat) : (s.informed event index).queue = s.queue := by
  unfold informed
  split
  · rfl
  · split <;> rfl

theorem informed_loop (s : Scheduler) (event : Event) (index : Nat) : (s.informed event index).loop = s.loop := by
  unfold informed
  split
  · rfl
  · split <;> rfl

theorem informed_hushed (s : Scheduler) (event : Event) (index : Nat) : Hushed s (s.informed event index) := by
  unfold informed
  split
  · exact .refl s
  · split
    · exact .refl s
    · exact .noted rfl

end Scheduler

open Scheduler in
/-- An event spreads to listeners, one after the other, who do not call back. Whoever stops like a cancelled task puts an
    end to it. -/
inductive Spreads (event : Event) : List Nat → Bool → Scheduler → Scheduler → Prop
  | done {s} : Spreads event [] false s s
  | next {index rest b s t u} : Murmurs (s.informed event index) t → Spreads event rest b t u →
      Spreads event (index :: rest) b s u
  | cut {index rest s t} : Murmurs (s.informed event index) t →
      Spreads event (index :: rest) true s (t.mapQueue (·.breakOff event))

/-- An event of a job, as the job is now, spreads to all who are subscribed. Unless one of them who acts on such events may
    stop like a cancelled task, nothing puts an end to that. -/
structure Spread (kind : EventKind) (id : JobId) (b : Bool) (s t : Scheduler) : Prop where
  whole : t.queue.Spares kind → b = false
  unknown : s.queue.job? id = none → t = s
  known : ∀ j, s.queue.job? id = some j → Spreads ⟨kind, j.snapshot⟩ s.queue.subscribed b s t

open Scheduler in
theorem Spreads.hushed {event : Event} {indices : List Nat} {b : Bool} {s t : Scheduler} (h : Spreads event indices b s t) :
    Hushed s t := by
  induction h with
  | done => exact .refl _
  | next ht _ ih => exact ((informed_hushed _ _ _).trans ht.inert.hushed).trans ih
  | cut ht => exact ((informed_hushed _ _ _).trans ht.inert.hushed).trans (.breakOff _)

open Scheduler in
theorem Spread.hushed {kind : EventKind} {id : JobId} {b : Bool} {s t : Scheduler} (h : Spread kind id b s t) :
    Hushed s t := by
  cases hj : s.queue.job? id with
  | none => exact h.unknown hj ▸ .refl s
  | some j => exact (h.known j hj).hushed

open Scheduler in
/-- However far an event spreads, no job changes. -/
theorem Spreads.queue {event : Event} {indices : List Nat} {b : Bool} {s t : Scheduler} (h : Spreads event indices b s t) :
    ∃ subscriptions subscribed brokenOff, t.queue =
      { s.queue with subscriptions := subscriptions, subscribed := subscribed, brokenOff := brokenOff } := by
  induction h with
  | done => exact ⟨_, _, _, rfl⟩
  | next ht _ ih =>
    obtain ⟨_, _, hq⟩ := ht.queue
    obtain ⟨_, _, _, hq'⟩ := ih
    exact ⟨_, _, _, by rw [hq', hq, informed_queue]⟩
  | @cut _ _ _ t ht =>
    obtain ⟨_, _, hq⟩ := ht.queue
    obtain ⟨_, hb, -⟩ := t.queue.breakOff_eq event
    exact ⟨_, _, _, by rw [mapQueue_queue, hb, hq, informed_queue]⟩

open Scheduler in
theorem Spreads.timers {event : Event} {indices : List Nat} {b : Bool} {s t : Scheduler} (h : Spreads event indices b s t) :
    t.loop.timers = s.loop.timers := by
  induction h with
  | done => rfl
  | next ht _ ih => rw [ih, ht.timers, informed_loop]
  | cut ht => exact ht.timers.trans (by rw [informed_loop])

theorem Spread.queue {kind : EventKind} {id : JobId} {b : Bool} {s t : Scheduler} (h : Spread kind id b s t) :
    ∃ subscriptions subscribed brokenOff, t.queue =
      { s.queue with subscriptions := subscriptions, subscribed := subscribed, brokenOff := brokenOff } := by
  cases hj : s.queue.job? id with
  | none => exact ⟨_, _, _, by rw [h.unknown hj]⟩
  | some j => exact (h.known j hj).queue

theorem Spread.timers {kind : EventKind} {id : JobId} {b : Bool} {s t : Scheduler} (h : Spread kind id b s t) :
    t.loop.timers = s.loop.timers := by
  cases hj : s.queue.job? id with
  | none => rw [h.unknown hj]
  | some j => exact (h.known j hj).timers

/-- Listeners are told in this way where they do not call back. -/
def Softly (N : Telling) : Telling := fun kind id b s t => t.queue.Quiet → N kind id b s t

namespace Scheduler
variable {s t u : Scheduler} {own : Option JobId}

section Telling
variable {notify : Notify} {hearing : Hearing} {event : Event} {index : Nat}

/-- One listener who does not call back is told. -/
def Heeds (hearing : Hearing) : Prop := ∀ event index s, Fit s → ((hearing event index).on s).2.queue.Quiet →
  Murmurs (s.informed event index) ((hearing event index).on s).2 ∧
    (((hearing event index).on s).2.queue.Spares event.kind → Broken ((hearing event index).on s).1 = false)

theorem hear_on (event : Event) (index : Nat) (s : Scheduler) : (hear event index).on s = (.ok (), s.informed event index) := by
  unfold hear informed
  rw [Act.on_queueNow_bind]
  cases s.queue.subscriptions[index]? with
  | none => rfl
  | some sub =>
    dsimp only
    split <;> rfl

theorem hear_heeds : Heeds hear := by
  intro event index s _ _
  rw [hear_on]
  exact ⟨.refl _, fun _ => rfl⟩

theorem hearAndAct_heeds (hn : Notifies (fun _ _ => Unfolds none) notify) : Heeds (hearAndAct notify) := by
  intro event index s hf hq
  have hft : Fit (s.informed event index) := hf.stays (.of_queue (informed_queue s event index))
  unfold hearAndAct at hq ⊢
  rw [Act.on_bind_ok (hear_on event index s), Act.on_queueNow_bind] at hq ⊢
  generalize s.informed event index = t at hq hft ⊢
  cases hsub : t.queue.subscriptions[index]? with
  | none => exact ⟨.refl _, fun _ => rfl⟩
  | some sub =>
    rw [hsub] at hq
    dsimp only at hq ⊢
    split at hq
    · rename_i hacts
      rw [if_pos hacts]
      rw [Act.on_bind_ok (Act.on_onQueue _)] at hq ⊢
      have hcount : Touch t (t.mapQueue (·.countFiring index)) := .countFiring index
      have hfc := hft.stays hcount.inert.toStays
      have hplay : Unfolds none _ _ := playAtOnce_leads (hn.serves none) (s := t.mapQueue (·.countFiring index))
        (p := ⟨sub.listener.name, none, none⟩) (fun _ h => by cases h) sub.listener.steps hfc
      have hkind : sub.listener.kind = some event.kind := by
        rw [Subscription.actsOn, Bool.and_eq_true, Bool.and_eq_true] at hacts
        exact eq_of_beq hacts.1.1
      have hmem : sub.listener ∈ t.queue.listeners := List.mem_map_of_mem (List.mem_of_getElem? hsub)
      have hprefix := hcount.inert.listeners.trans hplay.listeners
      obtain ⟨r, u, hr, hu, hb⟩ := playAtOnce_murmurs (s := t.mapQueue (·.countFiring index)) notify
        (p := ⟨sub.listener.name, none, none⟩) rfl (hq.before hprefix sub.listener hmem)
      rw [hr] at hprefix ⊢
      exact ⟨(Murmurs.countFiring index).trans hu, fun hg => hb (hg.before hprefix sub.listener hmem hkind)⟩
    · rename_i hacts
      rw [if_neg hacts]
      exact ⟨.refl _, fun _ => rfl⟩

theorem hearAll_spreads (hh : Hears (fun _ _ => Unfolds none) hearing) (hq : Heeds hearing) {indices : List Nat}
    (hf : Fit s) (hquiet : ((hearAll hearing event indices).on s).2.queue.Quiet) :
    Spreads event indices (Broken ((hearAll hearing event indices).on s).1) s ((hearAll hearing event indices).on s).2 ∧
      (((hearAll hearing event indices).on s).2.queue.Spares event.kind →
        Broken ((hearAll hearing event indices).on s).1 = false) := by
  induction indices generalizing s with
  | nil => exact ⟨.done, fun _ => rfl⟩
  | cons index rest ih =>
    have hx := hh (some event) event index s (.inr rfl) hf
    have hone := hq event index s hf
    have htold : event.kind ≠ .finished ∨ some event = some event := .inr rfl
    unfold hearAll at hquiet ⊢
    rw [Act.on_outcome_bind] at hquiet ⊢
    -- A listener that fails is logged and the next one is told, unless it stopped like a cancelled task.
    rcases hr : (hearing event index).on s with ⟨e | ⟨⟩, t⟩ <;> rw [hr] at hquiet hx hone <;> dsimp only at hquiet hone ⊢
    · split at hquiet
      · rename_i hc
        rw [if_pos hc]
        rw [Act.on_bind_ok (Act.on_onQueue _), Act.on_throw] at hquiet ⊢
        have hlisteners := (Hushed.breakOff (s := t) event).listeners
        obtain ⟨ht, hb⟩ := hone (hquiet.before hlisteners)
        have hcut : Broken (Except.error e : Except Fault Unit) = true := hc
        refine ⟨hcut ▸ .cut ht, fun hg => hb (hg.before hlisteners)⟩
      · rename_i hc
        rw [if_neg hc]
        rw [Act.on_bind_ok (Act.on_log _)] at hquiet ⊢
        have hn : Murmurs t (t.noted (.logged (.listenerFailed event.kind event.snapshot.id))) := .noted rfl
        have hfn := (Unfolds.fit hx hf).stays hn.inert.toStays
        have hrest := hearAll_leads hh htold rest hfn
        have hqt := hquiet.before (hn.inert.listeners.trans (Unfolds.listeners hrest))
        exact ⟨.next ((hone hqt).1.trans hn) (ih hfn hquiet).1, (ih hfn hquiet).2⟩
    · have hft := Unfolds.fit hx hf
      have hrest := hearAll_leads hh htold rest hft
      exact ⟨.next (hone (hquiet.before (Unfolds.listeners hrest))).1 (ih hft hquiet).1, (ih hft hquiet).2⟩

/-- However deep listeners may act: where they do not call back, an event spreads to them. -/
theorem notifyUpTo_spread (n : Nat) (kind : EventKind) (id : JobId) (hf : Fit s) :
    Softly Spread kind id (Broken ((notifyUpTo n kind id).on s).1) s ((notifyUpTo n kind id).on s).2 := by
  have announced : ∀ {hearing : Hearing}, Hears (fun _ _ => Unfolds none) hearing → Heeds hearing →
      Softly Spread kind id (Broken ((announce .total hearing kind id).on s).1) s ((announce .total hearing kind id).on s).2 :=
    fun hh hh' hq => by
      cases hj : s.queue.job? id with
      | none =>
        rw [announce_none hj]
        exact ⟨fun _ => rfl, fun _ => rfl, fun _ h => by rw [hj] at h; cases h⟩
      | some j =>
        rw [announce_total hj] at hq ⊢
        obtain ⟨hs, hg⟩ := hearAll_spreads hh hh' hf hq
        refine ⟨hg, fun h => (by rw [hj] at h; cases h), fun k hk => ?_⟩
        cases hj.symm.trans hk
        exact hs
  cases n with
  | zero => exact announced hear_hears hear_heeds
  | succ n => exact announced (hearAndAct_hears (notifyUpTo_notifies n)) (hearAndAct_heeds (notifyUpTo_notifies n))

/-- Telling listeners who do not call back moves no job and signals no token. -/
theorem notifyUpTo_hushed (n : Nat) (kind : EventKind) (id : JobId) (hf : Fit s)
    (hq : ((notifyUpTo n kind id).on s).2.queue.Quiet) : Hushed s ((notifyUpTo n kind id).on s).2 :=
  (notifyUpTo_spread n kind id hf hq).hushed

end Telling

/-! ## What holds where no listener calls back -/

/-- What happens in a row, and what is more where no listener calls back. -/
def Quietly (own : Option JobId) (P : Bool → Scheduler → Scheduler → Prop) (b : Bool) (s t : Scheduler) : Prop :=
  Unfolds own s t ∧ (t.queue.Quiet → P b s t)

section Quietly
variable {P : Bool → Scheduler → Scheduler → Prop}

theorem Quietly.leads {α : Type} {x : Act α} (h : Leads (fun _ => Unfolds own) s x)
    (hP : Fit s → (x.on s).2.queue.Quiet → P (Broken (x.on s).1) s (x.on s).2) : Leads (Quietly own P) s x :=
  fun hf => ⟨h hf, hP hf⟩

/-- A property of which nothing but steadiness is asked tells what scripts do. -/
theorem Quietly.tracks (steady : ∀ {s t}, Steady s t → P false s t) (halt : ∀ s, P true s s)
    (trans : ∀ {b s t u}, P false s t → P b t u → P b s u) : Tracks (Quietly own P) where
  fit h := h.1.fit
  active h := h.1.active
  inert h := ⟨.inert h, fun _ => steady h.toSteady⟩
  signal hid h := ⟨.one (.signal hid h), fun _ => steady h.toSteady⟩
  halt := ⟨.refl, fun _ => halt _⟩
  trans h₁ h₂ := ⟨h₁.1.trans h₂.1, fun hq => trans (h₁.2 (hq.before h₂.1.listeners)) (h₂.2 hq)⟩

theorem notifyUpTo_quietly (hP : ∀ {b s t}, Hushed s t → P b s t) (n : Nat) :
    Notifies (fun _ => Quietly own P) (notifyUpTo n) := by
  have hn : Notifies (fun _ _ => Unfolds own) (notifyUpTo n) := notifyUpTo_notifies n
  exact ⟨hn.copies, fun told kind id s hk => Quietly.leads (hn.leads told kind id s hk) fun hf hq => hP (notifyUpTo_hushed n kind id hf hq),
    fun id s j hj => Quietly.leads (hn.ends id s j hj) fun hf hq => hP (notifyUpTo_hushed n .finished id hf hq),
    hn.fault, hn.breaks⟩

end Quietly

/-- No job becomes active and none is added to those that wait. -/
structure Drains (s t : Scheduler) : Prop where
  settings : t.queue.settings = s.queue.settings
  waiting : t.queue.waiting.Sublist s.queue.waiting
  active : t.queue.active = s.queue.active

theorem Abides.drains (h : Abides s t) : Drains s t := ⟨h.settings, h.waiting ▸ .refl _, h.active⟩

theorem Drains.trans (h₁ : Drains s t) (h₂ : Drains t u) : Drains s u :=
  ⟨h₂.settings.trans h₁.settings, h₂.waiting.trans h₁.waiting, h₂.active.trans h₁.active⟩

theorem Handed.abides {id : JobId} {path : Option String} {b : Bool} (h : Handed id path b s t) : Abides s t :=
  ⟨h.kept.stays.continues.settings, h.kept.stays.waiting, h.kept.stays.active⟩

theorem Stopped.abides {id : JobId} {reason : Option String} {b : Bool} (h : Stopped id reason b s t) : Abides s t := by
  cases b
  · obtain ⟨v, hv, rfl⟩ := h
    exact hv.abides.trans (Hushed.noted rfl).toAbides
  · cases h
    exact .refl s

theorem Handed.listeners {id : JobId} {path : Option String} {b : Bool} (h : Handed id path b s t) :
    s.queue.listeners <+: t.queue.listeners := by
  cases b
  · exact (Occurs.keep id path : Occurs none s (s.keep id path)).listeners.trans (Still.listeners (Inert.toStill h))
  · exact h.1 ▸ List.prefix_rfl

theorem Stopped.listeners {id : JobId} {reason : Option String} {b : Bool} (h : Stopped id reason b s t) :
    s.queue.listeners <+: t.queue.listeners := by
  cases b
  · obtain ⟨v, hv, rfl⟩ := h
    exact hv.listeners
  · cases h
    exact List.prefix_rfl

instance (own : Option JobId) : Cancels fun _ => Quietly own fun _ => Drains where
  tracks _ := Quietly.tracks (fun h => h.abides.drains) (fun s => (Abides.refl s).drains) .trans
  ask hid hj hst hst' h hc := by
    refine ⟨@Cancels.ask (fun _ _ => Unfolds own) _ none _ _ _ _ _ _ hid hj hst hst' h.1 hc, fun hq => ?_⟩
    have hd := (h.2 (hq.before hc.listeners)).trans hc.abides.drains
    exact ⟨hd.settings, hd.waiting, hd.active⟩
  leave hid hj hl h hc := by
    refine ⟨@Cancels.leave (fun _ _ => Unfolds own) _ none _ _ _ _ _ _ _ _ _ _ hid hj hl h.1 hc, fun hq => ?_⟩
    have hd := (h.2 (hq.before hc.listeners)).trans hc.abides.drains
    exact ⟨hd.settings, hd.waiting.trans List.erase_sublist, hd.active⟩

end Scheduler

end MediaEngine
