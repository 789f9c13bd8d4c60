import MediaEngine.Proofs.Books
import MediaEngine.Proofs.Losses

/-! # The latest refusal

Where no listener calls back, the queue remembers a refusal exactly as long as the log tells of no time since
at which fewer jobs waited than may (`full_event_retained`). One thing spoils this: that a job leaves those that
wait and its end never gets into the log (`Mislaid`), so that the ledger still has it among those that wait. -/

namespace MediaEngine
open Job

/-- A listener who puts an end to telling that a job has ended is remembered. -/
theorem Spreads.brokenOff {event : Event} {indices : List Nat} {b : Bool} {s t : Scheduler} (h : Spreads event indices b s t)
    (hb : b = true) (hk : event.kind = .finished) : event.snapshot.id ∈ t.queue.brokenOff := by
  induction h with
  | done => cases hb
  | next _ _ ih => exact ih hb
  | cut => exact Queue.mem_breakOff.mpr (.inr ⟨hk, rfl⟩)

namespace Scheduler
variable {s t u : Scheduler} {id : JobId} {j : Job} {b c d : Bool}

/-- No listener calls back, and no end is missing in the log of a job that left those that wait. -/
structure Clear (s : Scheduler) : Prop where
  quiet : s.queue.Quiet
  kept : ∀ id, ¬ s.Mislaid id

theorem Clear.before (h : Clear t) (ho : InOrder s) (hm : Moments s t) : Clear s where
  quiet := h.quiet.before hm.listeners
  kept id hl := h.kept id (ho.mislaid hm hl)

theorem Clear.of_queue (h : Clear t) (hq : t.queue = s.queue) : Clear s where
  quiet := hq ▸ h.quiet
  kept id hl := h.kept id (by
    unfold Mislaid Dropped entriesOf at hl ⊢
    rwa [hq])

/-! ## From one scheduler to another -/

/-- From the one scheduler to the other the order of the jobs is kept; and if all is clear in the end, it was so before and
    the books were kept. -/
structure Tallies (s t : Scheduler) : Prop where
  order : InOrder s → InOrder t
  clear : InOrder s → Clear t → Clear s
  booked : InOrder s → Clear t → Booked s t

namespace Tallies

theorem trans (h₁ : Tallies s t) (h₂ : Tallies t u) : Tallies s u where
  order ho := h₂.order (h₁.order ho)
  clear ho hu := h₁.clear ho (h₂.clear (h₁.order ho) hu)
  booked ho hu :=
    have ht := h₂.clear (h₁.order ho) hu
    (h₁.booked ho ht).trans (h₂.booked (h₁.order ho) hu)

theorem of_moments (hm : Moments s t) (hb : InOrder s → Clear t → Booked s t) : Tallies s t :=
  ⟨fun ho => ho.moments hm, fun ho ht => ht.before ho hm, hb⟩

theorem of_unbooked (hm : Moments s t) (hb : Unbooked s t) : Tallies s t := of_moments hm fun _ _ => .of_unbooked hb

/-- Only tasks differ. -/
theorem of_queue (hq : t.queue = s.queue) (hn : t.notes = s.notes) (hc : t.loop.now = s.loop.now) : Tallies s t where
  order ho := ho.of_queue hq hn
  clear _ ht := ht.of_queue hq
  booked _ _ := .of_unbooked ⟨hc, congrArg _ hq, congrArg _ hq, congrArg _ hq, [], by rw [hn, List.append_nil],
    fun _ h => absurd h List.not_mem_nil⟩

end Tallies

/-! ## Jobs that leave -/

/-- The store takes the entry of a job that left those that wait. -/
theorem closing_taken {k : Job} {store : Store} (hk : t.queue.job? id = some k)
    (hstore : t.queue.store.record? (k.entry none) = some store) :
    (t.closing id).queue = (t.queue.hand (k.entry none) (some store)).recover ∧ (t.closing id).loop = t.loop ∧
      (t.closing id).notes = t.notes ++ [.logged (.finished k.name id k.status k.detail)] := by
  unfold closing
  rcases record_cases (s := t) id none with ⟨hno, -⟩ | ⟨i, hi, ⟨taken, htaken, hr⟩ | ⟨hno, -⟩⟩
  · cases hk.symm.trans hno
  · cases hk.symm.trans hi
    cases hstore.symm.trans htaken
    rw [hr]
    exact ⟨rfl, rfl, rfl⟩
  · cases hk.symm.trans hi
    cases hstore.symm.trans hno

/-- A job leaves those that wait; its end is told, its entry is taken, and that is logged. -/
theorem Booked.leaving {message : Option String} {l : Loop TimerAction} {k : Job} {store : Store}
    (hl : l = s.loop ∨ l = s.loop.disarm (.expire id)) (h : Unbooked (s.leaving id message l) t)
    (hk : t.queue.job? id = some k) (hstore : t.queue.store.record? (k.entry none) = some store) : Booked s (t.closing id) := by
  obtain ⟨hqueue, hloop, hnotes⟩ := closing_taken hk hstore
  obtain ⟨ns, hns, hother⟩ := h.notes
  have hnow : t.loop.now = s.loop.now := h.clock.trans (by rcases hl with rfl | rfl <;> rfl)
  have hw : t.queue.waiting = s.queue.waiting.erase id := h.waiting
  have hset : t.queue.settings = s.queue.settings := h.settings
  have he : t.queue.fullEvent = s.queue.fullEvent := h.fullEvent
  obtain ⟨e, hrecover⟩ := Queue.recover_eq (t.queue.hand (k.entry none) (some store))
  have hforget := recover_fullEvent (t.queue.hand (k.entry none) (some store))
  have hwaiting : (t.closing id).queue.waiting = s.queue.waiting.erase id := by
    rw [hqueue, hrecover]
    exact hw
  have hsettings : (t.closing id).queue.settings = s.queue.settings := by
    rw [hqueue, hrecover]
    exact hset
  refine ⟨(congrArg Loop.now hloop).trans hnow, hsettings, ns ++ [.logged (.finished k.name id k.status k.detail)], ?_,
    fun ledger hledger => ?_⟩
  · rw [hnotes, hns, List.append_assoc]
    rfl
  · rw [Ledger.readAll_append, Ledger.readAll_others hother]
    change (Ledger.turn _ _ _).Agrees _
    rw [hledger.waiting, ← hwaiting]
    refine hledger.turn hsettings ?_ ?_
    · have := hledger.within
      have := (List.erase_sublist (a := id) (l := s.queue.waiting)).length_le
      rw [hwaiting]
      omega
    · rw [hwaiting, hqueue, hforget, ← hw, ← hset, ← he]
      rfl

/-- All is clear only if the end of a job that leaves those that wait gets into the log. -/
theorem Booked.leave {message : Option String} {l : Loop TimerAction} (ho : InOrder s) (hu : Clear u) (hid : id ∈ s.queue.waiting)
    (hj : s.queue.job? id = some j) (hl : l = s.loop ∨ l = s.loop.disarm (.expire id))
    (h : Along (Softly Spread) .finished id b (s.leaving id message l) t) (hc : Closes id b t u) : Booked s u := by
  have hrow : Unfolds none t u := hc.unfolds
  have hquiet : t.queue.Quiet := hu.quiet.before hrow.listeners
  have hspread := h.2 hquiet
  obtain ⟨i, hi, -⟩ := ho.dropped_leaving hid hj message l
  obtain ⟨k, hk, -⟩ := Queue.tuned_job?_some hspread.hushed.jobs hi
  have hlost := ho.lost hid hj (h.1.trans hrow)
  cases b with
  | true =>
    cases hc
    exact absurd (hlost (.inl (Queue.job?_id hi ▸ (hspread.known i hi).brokenOff rfl rfl))) (hu.kept id)
  | false =>
    cases hc
    cases hstore : t.queue.store.record? (k.entry none) with
    | some store => exact .leaving hl (.spread hspread) hk hstore
    | none => exact absurd (hlost (.inr ⟨t, k, hk, hstore, closing_refused hk hstore⟩)) (hu.kept id)

end Scheduler

open Scheduler in
theorem Does.tallies {s t : Scheduler} {b : Bool} (h : Does (Softly Spread) b s t) : Tallies s t := by
  induction h with
  | still | halt => exact .of_queue rfl rfl rfl
  | trans _ _ ih₁ ih₂ => exact ih₁.trans ih₂
  | touch h => exact .of_unbooked (.inert h.inert) (.touch h)
  | signal hf hid =>
    exact .of_unbooked (Unfolds.moments (Does.unfolds (N := Softly Spread) (.signal hf hid))) (.signalling _ _ _)
  | @ask b s t u id j hf hid hj hst hst' h hu =>
    refine .of_moments (Unfolds.moments (Does.ask hf hid hj hst hst' h hu).unfolds) fun _ hclear => .of_unbooked ?_
    have hfit : Fit t := h.1.fit (hf.update (by intro; rfl) (fun hw => hf.apart _ hid (.inl hw)) s.loop)
    have hshow : Unbooked s (s.showing id .cancelling) := .of_queue rfl rfl rfl rfl
    have hrow : Unfolds none t u := hu.unfolds hfit (h.1.active hid)
    have hquiet : t.queue.Quiet := hclear.quiet.before hrow.listeners
    exact (hshow.trans (.spread (h.2 hquiet))).trans (.halted hu)
  | leave hf hid hj hl h hc =>
    exact .of_moments (Unfolds.moments (Does.leave hf hid hj hl h hc).unfolds) fun ho hu => .leave ho hu hid hj hl h hc
  | unpark => exact .of_unbooked (.inert (unparking_inert _)) (.unparking _)
  | refuse submission hf =>
    exact .of_moments (Unfolds.moments (Does.unfolds (N := Softly Spread) (.refuse submission hf))) fun _ _ => .refusing submission hf
  | enter hf hfull h =>
    refine .of_moments (Unfolds.moments (Does.enter hf hfull h).unfolds) fun _ hclear => ?_
    exact (Booked.admitting _ _ hfull).trans (.of_unbooked (.spread (h.2 hclear.quiet)))
  | arm hx => exact .of_unbooked (Unfolds.moments (Does.unfolds (N := Softly Spread) (.arm hx))) (.of_queue rfl rfl rfl rfl)
  | @start b s t u id q hf hq h hu =>
    refine .of_moments (Unfolds.moments (Does.start hf hq h hu).unfolds) fun _ hclear => ?_
    have hquiet : t.queue.Quiet := hu.queue ▸ hclear.quiet
    exact (Booked.taking hq).trans (.of_unbooked ((Unbooked.spread (h.2 hquiet)).trans (.spawned hu)))

namespace Scheduler
variable {s t u : Scheduler} {id : JobId} {j : Job} {b c d : Bool} {status : Job.Status} {task : TaskId} {phase : Phase}
  {killed : Bool}

/-! ## Turns -/

theorem Works.tallies (h : Works (Softly Spread) id c d b s t) : Tallies s t := by
  induction h with
  | does h => exact h.tallies
  | @cools b s t j hu hc h =>
    refine .of_moments (Unfolds.moments (Works.cools hu hc h).unfolds) fun _ hclear => .of_unbooked ?_
    have hshow : Unbooked s (s.showing id .coolingDown) := .of_queue rfl rfl rfl rfl
    exact hshow.trans (.spread (h.2 hclear.quiet))
  | trans _ _ ih₁ ih₂ => exact ih₁.trans ih₂

theorem Concludes.tallies (h : Concludes (Softly Spread) id c status b s t) : Tallies s t := by
  refine .of_moments h.unfolds.moments fun _ hclear => ?_
  cases h with
  | @ends j path errorMessage message v _ hu _ _ _ h hr =>
    have hrow : Unfolds none v t := hr.unfolds
    have hquiet : v.queue.Quiet := hclear.quiet.before hrow.listeners
    have hspread := h.2 hquiet
    have hend : Unbooked s (s.ending id status errorMessage message) := .of_queue rfl rfl rfl rfl
    have hidle : id ∉ v.queue.waiting := by
      rw [hspread.hushed.waiting]
      exact fun hw => hu.fit.apart id hu.active (.inl hw)
    exact (Booked.of_unbooked (hend.trans (.spread hspread))).trans (.recorded hidle hr)

theorem Vacates.tallies (h : Vacates (Softly Spread) id s t) : Tallies s t := by
  have hrelease : Tallies s (s.mapQueue (·.release id)) := .of_unbooked (.single (.release id)) (.of_queue rfl rfl rfl rfl)
  cases h with
  | fills h => exact (hrelease.trans h.does.tallies).trans (.of_unbooked (.inert (unparking_inert _)) (.unparking _))
  | cut h => exact hrelease.trans h.does.tallies

theorem pausing_tallies (s : Scheduler) (task : TaskId) (id : JobId) (pause : Pause) (phase : Phase) :
    Tallies s (s.pausing task id pause phase) := by
  obtain ⟨g, -, hi⟩ := pausing_inert s task id pause phase
  have hretask : Tallies s { s with tasks := s.tasks.modify task g } := .of_queue rfl rfl rfl
  exact ⟨fun ho => (hretask.order ho).moments (.inert hi), fun ho hclear => hretask.clear ho (hclear.before (hretask.order ho) (.inert hi)),
    fun _ _ => .of_unbooked (.pausing s task pause phase)⟩

theorem TurnOf.tallies (h : TurnOf (Softly Spread) task id phase killed s t) : Tallies s t := by
  have hretire : ∀ u : Scheduler, Tallies u (u.retire task) := fun _ => .of_queue rfl rfl rfl
  cases h with
  | waits _ hw => exact hw.tallies.trans (pausing_tallies _ _ _ _ _)
  | ends _ hw hc ht hv =>
    exact (((hw.tallies.trans hc.tallies).trans (hretire _)).trans (.of_unbooked (.inert ht.inert) (.touches ht))).trans hv.tallies
  | stops _ hw hc hv => exact ((hw.tallies.trans (hretire _)).trans hc.tallies).trans hv.tallies

/-! ## Runs -/

/-- The ledger is read on at the time to which a step leads. -/
theorem Booked.reads {v : Scheduler} (h : Booked v t) (hq : v.queue = s.queue) (hn : v.notes = s.notes) :
    ∃ ns, t.notes = s.notes ++ ns ∧
      ∀ l : Ledger, l.Agrees s.queue → (l.readAll s.queue.settings.maxQueueLength t.loop.now ns).Agrees t.queue := by
  obtain ⟨ns, hns, hl⟩ := h.notes
  refine ⟨ns, hn ▸ hns, ?_⟩
  rw [h.clock, ← hq]
  exact hl

theorem Deed.booked (h : Deed (Softly Spread) (Does (Softly Spread)) s t) (ho : InOrder s) (hclear : Clear t) :
    ∃ ns, t.notes = s.notes ++ ns ∧
      ∀ l : Ledger, l.Agrees s.queue → (l.readAll s.queue.settings.maxQueueLength t.loop.now ns).Agrees t.queue := by
  have unbooked : ∀ {v : Scheduler}, v.queue = s.queue → v.notes = s.notes → Unbooked v t → ∃ ns, t.notes = s.notes ++ ns ∧
      ∀ l : Ledger, l.Agrees s.queue → (l.readAll s.queue.settings.maxQueueLength t.loop.now ns).Agrees t.queue :=
    fun hq hn h => (Booked.of_unbooked h).reads hq hn
  cases h with
  | does h => exact (h.tallies.booked ho hclear).reads rfl rfl
  | kills h => exact unbooked rfl rfl (.kills h)
  | annotates | joins => exact unbooked rfl rfl (.of_queue rfl rfl rfl rfl)
  | @rests task l => exact unbooked (v := { s with loop := l }) rfl rfl (.refl _)
  | @drops task l => exact unbooked (v := { s with loop := l }) rfl rfl (.of_queue rfl rfl rfl rfl)
  | @plays task l _ _ _ _ _ _ _ _ _ _ _ hturn =>
    have hheed : InOrder (heeding { s with loop := l } task) := ho.of_queue rfl rfl
    exact (hturn.tallies.booked hheed hclear).reads rfl rfl
  | @waits task l => exact unbooked (v := heeding { s with loop := l } task) rfl rfl (.idling _ _ _ _ _)
  | @expires _ _ l _ _ _ h => exact (h.tallies.booked (s := { s with loop := l }) (ho.of_queue rfl rfl) hclear).reads rfl rfl
  | @wakes _ _ l => exact unbooked (v := { s with loop := l }) rfl rfl (.of_queue rfl rfl rfl rfl)
  | moveTo time => exact unbooked (v := { s with loop := s.loop.moveTo time }) rfl rfl (.refl _)

/-- The ledger of a run: after each step all is read that the step added to the log, at the time to which it led. -/
inductive Logs (s₀ : Scheduler) : Scheduler → Ledger → Prop
  | empty : Logs s₀ s₀ ⟨[], none⟩
  | step {s t : Scheduler} {l : Ledger} : Logs s₀ s l → Step s t →
      Logs s₀ t (l.readAll s₀.queue.settings.maxQueueLength t.loop.now (t.notes.drop s.notes.length))

theorem Logs.runs {s₀ : Scheduler} {l : Ledger} (h : Logs s₀ s l) : Runs s₀ s := by
  induction h with
  | empty => exact .refl
  | step _ hstep ih => exact ih.tail hstep

/-- Every run has a ledger. -/
theorem Runs.logs {s₀ : Scheduler} (h : Runs s₀ s) : ∃ l, Logs s₀ s l := by
  induction h with
  | refl => exact ⟨_, .empty⟩
  | tail _ hstep ih =>
    obtain ⟨l, hl⟩ := ih
    exact ⟨_, hl.step hstep⟩

section Runs
variable {settings : Settings} {store : Store} {directory : String} {budget : Nat} {l : Ledger}

theorem Logs.agrees (h : Logs (start settings store directory budget) s l) (hclear : Clear s) : l.Agrees s.queue := by
  induction h with
  | empty =>
    have := settings.length_pos
    exact ⟨rfl, rfl, show (0 : Int) ≤ settings.maxQueueLength by omega, fun _ he => by cases he⟩
  | @step s t l h hstep ih =>
    obtain ⟨hs, ht, -⟩ := h.runs.basics
    have ho : InOrder s := h.runs.inOrder
    have hset : s.queue.settings = settings := h.runs.settings_eq
    obtain ⟨ns, hns, hread⟩ := (hstep.deed notifyUpTo_softly hs ht).booked ho hclear
    obtain ⟨-, -, hm'⟩ := hstep.sound hs ht
    have hl := hread l (ih (hclear.before ho hm'))
    rw [hns, List.drop_left]
    rwa [hset] at hl

/-- In every state of a run in which no listener calls back and no end was mislaid, the queue remembers a refusal exactly if
    the log tells of one since fewer jobs waited than may, and then the latest of them: as many jobs waited as may when that
    job was turned away, and as many wait now. -/
theorem full_event_retained (h : Logs (start settings store directory budget) s l) (hquiet : s.queue.Quiet)
    (hkept : ∀ id, ¬ s.Mislaid id) :
    l.waiting = s.queue.waiting ∧ s.queue.fullEvent = l.refusal ∧
      ∀ e, s.queue.fullEvent = some e →
        e.queuedJobs = settings.maxQueueLength ∧ (s.queue.waiting.length : Int) = settings.maxQueueLength := by
  have hl := h.agrees ⟨hquiet, hkept⟩
  exact ⟨hl.waiting, hl.refusal.symm, h.runs.settings_eq ▸ hl.full⟩

end Runs

/-- The third of three jobs is turned away, and that is remembered. -/
theorem refusal_remembered :
    let job := fun name : String => Command.enqueue ⟨name, some [.gate "g"], .none, none, .null⟩
    let s := ((start (.floored 1 1 180000 20) (.selective [] []) "/" 9).giveAll none [job "a", job "b", job "c"]).2
    ∃ l, Logs (start (.floored 1 1 180000 20) (.selective [] []) "/" 9) s l ∧ s.queue.fullEvent.isSome = true ∧
      s.queue.fullEvent = l.refusal ∧ s.queue.waiting.length = 1 := by
  intro job s
  obtain ⟨l, hl⟩ := Runs.logs (s := s) (runs_drives.giveAll _ _ _)
  have hbroken : s.queue.brokenOff = [] := by decide +kernel
  have hrecorded : s.queue.recorded.length = 0 := by decide +kernel
  have hkept : ∀ id, ¬ s.Mislaid id := by
    rintro id ⟨-, hb | ⟨e, he, -⟩⟩
    · rw [hbroken] at hb
      cases hb
    · rw [mem_entriesOf, List.eq_nil_of_length_eq_zero hrecorded] at he
      cases he.1
  obtain ⟨-, he, -⟩ := full_event_retained hl (Queue.quiet_of_none (by decide +kernel)) hkept
  exact ⟨l, hl, by decide +kernel, he, by decide +kernel⟩

/-- A refusal is still remembered when no job waits any longer: the store refused the entry of the last one, or a listener
    broke off to be told of its end. -/
theorem refusal_outlives_waiting :
    let s₀ := fun refused : List String => start (.floored 1 1 180000 20) (.selective refused []) "/" 9
    (∃ s, Runs (s₀ ["b"]) s ∧ s.queue.Quiet ∧ s.queue.waiting = [] ∧ s.queue.fullEvent.isSome = true) ∧
      ∃ s, Runs (s₀ []) s ∧ s.queue.Quiet ∧ s.queue.waiting = [] ∧ s.queue.fullEvent.isSome = true := by
  intro s₀
  let job := fun name : String => Command.enqueue ⟨name, some [.gate "g"], .none, none, .null⟩
  let listener : Listener := ⟨"l", false, some .finished, none, 1, [.fail .taskCancelled]⟩
  let s := ((s₀ ["b"]).giveAll none [job "a", job "b", job "c", .cancelAll]).2
  let t := ((s₀ []).giveAll none [.subscribe listener, job "a", job "b", job "c", .cancelAll]).2
  have hquiet : s.queue.Quiet ∧ t.queue.Quiet := by
    unfold Queue.Quiet
    decide +kernel
  exact ⟨⟨s, runs_drives.giveAll _ _ _, hquiet.1, by decide +kernel, by decide +kernel⟩,
    ⟨t, runs_drives.giveAll _ _ _, hquiet.2, by decide +kernel, by decide +kernel⟩⟩

end Scheduler
end MediaEngine
