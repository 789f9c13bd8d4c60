import MediaEngine.Proofs.Chronicles

/-! # When entries are made

No time passes within a step, and an entry that is made in it is of a job that ended in it, also where listeners call
back (`Files`). So every entry shows when its job ended, and the entries stand in the order of these times
(`Registered`). -/

namespace MediaEngine
open Job

namespace Scheduler
variable {N : Telling} {s t u v : Scheduler} {id : JobId} {j k : Job} {own : Option JobId} {b c d killed : Bool}
  {status : Job.Status} {task : TaskId} {phase : Phase} {path : Option String}

/-! ## Jobs that have ended -/

/-- How a job ended does not change. -/
theorem Occurs.ended_lasts (h : Occurs own s t) (hf : Fit s) (hj : s.queue.job? id = some j) (hfin : j.finalized = true) :
    ∃ k, t.queue.job? id = some k ∧ Lasts j k := by
  have hpast : ¬ s.Upcoming id := fun hu => by
    have hopen := (hf.waiting_of_upcoming hu hj).2
    rw [hfin] at hopen
    cases hopen
  have outside : Occurs none s t → ∃ k, t.queue.job? id = some k ∧ Lasts j k := fun h => by
    obtain ⟨k, hk, hjk, -⟩ := h.lasts hpast hj
    exact ⟨k, hk, hjk⟩
  cases h with
  | inert h => exact outside (.inert h)
  | signal ha h => exact outside (.signal ha h)
  | hear who event => exact outside (.hear who event)
  | breakOff event => exact outside (.breakOff event)
  | enroll submission progress hfull => exact outside (.enroll submission progress hfull)
  | arm hx => exact outside (.arm hx)
  | take hq => exact outside (.take hq)
  | spawn ha => exact outside (.spawn ha)
  | ask ha hk hst hst' => exact outside (.ask ha hk hst hst')
  | asked i => exact outside (.asked i)
  | leave hw hk hl => exact outside (.leave hw hk hl)
  | keep i path => exact outside (.keep i path)
  | turn => exact ⟨j, hj, .refl j⟩
  | @cool i =>
    by_cases hid : id = i
    · subst hid
      exact ⟨_, Queue.job?_update_self (by intro; rfl) hj, { Lasts.refl j with }⟩
    · exact ⟨j, (Queue.job?_update_ne (by intro; rfl) hid).trans hj, .refl j⟩
  | @finish i k _ _ _ _ _ _ hk hopen =>
    -- The job that ends had not ended, and so it is another one.
    have hid : id ≠ i := fun he => by
      subst he
      cases hj.symm.trans hk
      cases hopen.symm.trans hfin
    exact ⟨j, (Queue.job?_update_ne (by intro; rfl) hid).trans hj, .refl j⟩

theorem Moments.ended_lasts (h : Moments s t) (hf : Fit s) (hj : s.queue.job? id = some j) (hfin : j.finalized = true) :
    ∃ k, t.queue.job? id = some k ∧ Lasts j k := by
  induction h with
  | refl => exact ⟨j, hj, .refl j⟩
  | @tail t u hrow hm ih =>
    obtain ⟨k, hk, hjk⟩ := ih
    cases hm with
    | release => exact ⟨k, hk, hjk⟩
    | occurs h =>
      obtain ⟨l, hl, hkl⟩ := h.ended_lasts (Moments.fit hrow hf) hk (hjk.finalized.trans hfin)
      exact ⟨l, hl, hjk.trans hkl⟩

/-! ## Within a step -/

/-- No time passes on the way, and every entry that is made on it is of a job that has ended at this time. -/
structure Files (s t : Scheduler) : Prop where
  moments : Moments s t
  clock : t.loop.now = s.loop.now
  entries : ∃ es, t.queue.recorded = s.queue.recorded ++ es ∧
    ∀ e ∈ es, ∃ k ∈ t.queue.jobs, k.finalized = true ∧ k.finishedAt = some s.loop.now ∧ e.MadeOf k

namespace Files

/-- No entry is made. -/
theorem of_same (hm : Moments s t) (hn : t.loop.now = s.loop.now) (hr : t.queue.recorded = s.queue.recorded) : Files s t :=
  ⟨hm, hn, [], by rw [hr, List.append_nil], fun _ he => absurd he List.not_mem_nil⟩

theorem of_unwritten (hm : Moments s t) (hn : t.loop.now = s.loop.now) (h : Unwritten s t) : Files s t := of_same hm hn h.recorded

theorem refl (s : Scheduler) : Files s s := of_same .refl rfl rfl

theorem trans (h₁ : Files s t) (hf : Fit s) (h₂ : Files t u) : Files s u := by
  obtain ⟨es, hes, hmade⟩ := h₁.entries
  obtain ⟨fs, hfs, hmade'⟩ := h₂.entries
  have ht : Fit t := h₁.moments.fit hf
  refine ⟨h₁.moments.trans h₂.moments, h₂.clock.trans h₁.clock, es ++ fs, by rw [hfs, hes, List.append_assoc], fun e he => ?_⟩
  rcases List.mem_append.mp he with he | he
  · obtain ⟨k, hk, hfin, hat, hm⟩ := hmade e he
    obtain ⟨l, hl, hkl⟩ := h₂.moments.ended_lasts ht (Queue.job?_of_mem ht.nodup hk) hfin
    exact ⟨l, Queue.job?_mem hl, hkl.finalized.trans hfin, hkl.finishedAt.trans hat, hm.lasts hkl⟩
  · rw [← h₁.clock]
    exact hmade' e he

/-- The entry of a job that has ended at this time. -/
theorem recorded (hk : t.queue.job? id = some k) (hfin : k.finalized = true) (hat : k.finishedAt = some t.loop.now)
    (hpath : k.startedAt = none → path = none) (h : Recorded id path b t u) : Files t u := by
  have hrow : Unfolds none t u := h.unfolds
  cases b with
  | true =>
    obtain rfl : u = t := h
    exact refl u
  | false =>
    obtain rfl : u = t.recording id path := h
    obtain ⟨hrecorded, hjobs, -, hnow⟩ := recording_some hk
    refine ⟨hrow.moments, hnow, [k.entry path], hrecorded, fun e he => ?_⟩
    rw [List.mem_singleton.mp he, hjobs]
    exact ⟨k, Queue.job?_mem hk, hfin, hat, entry_madeOf hpath⟩

/-- A job ends: listeners are told, and its entry is made. -/
theorem ends (hpart : Files s v) (hf : Fit s) (hk : v.queue.job? id = some k) (hfin : k.finalized = true)
    (hat : k.finishedAt = some s.loop.now) (hpath : k.startedAt = none → path = none) (h : Files v t)
    (hu : Recorded id path b t u) : Files s u := by
  obtain ⟨l, hl, hkl⟩ := h.moments.ended_lasts (hpart.moments.fit hf) hk hfin
  have htold := hpart.trans hf h
  refine htold.trans hf (recorded hl (hkl.finalized.trans hfin) ?_ (fun hno => hpath (hkl.startedAt ▸ hno)) hu)
  rw [hkl.finishedAt, hat, htold.clock]

end Files

/-- Listeners are told, and then entries are made like that. -/
def filing : Telling := fun _ _ _ s t => InOrder s → Files s t

theorem unparking_files (s : Scheduler) : Files s s.unparking :=
  .of_unwritten (.inert (unparking_inert s)) (Unbooked.unparking s).clock (.unparking s)

/-- Listeners are told after a part in which no entry is made, and then nothing more is. -/
theorem Files.telling (hpart : Files s v) (ho : InOrder s) {kind : EventKind} (h : Along filing kind id b v t)
    (hrest : Fit t → Files t u) : Files s u := by
  have htold := h.2 (ho.moments hpart.moments)
  have hrow := hpart.trans ho.fit htold
  exact hrow.trans ho.fit (hrest (hrow.moments.fit ho.fit))

theorem Files.leave {message : Option String} {l : Loop TimerAction} (ho : InOrder s) (hid : id ∈ s.queue.waiting)
    (hj : s.queue.job? id = some j) (hl : l = s.loop ∨ l = s.loop.disarm (.expire id))
    (h : Along filing .finished id b (s.leaving id message l) t) (hu : Closes id b t u) : Files s u := by
  have hnow : l.now = s.loop.now := by rcases hl with rfl | rfl <;> rfl
  have hrow : Unfolds none s (s.leaving id message l) := leaving_unfolds hid hj hl message
  have hpart : Files s (s.leaving id message l) := .of_same hrow.moments hnow rfl
  have hended : (s.leaving id message l).queue.job? id = some (j.ended l.now .canceled none message) :=
    Queue.job?_update_self (q := s.queue.withdraw id) (by intro; rfl) hj
  have hends : ∀ {w}, Recorded id none b t w → Files s w := fun hw =>
    hpart.ends ho.fit hended rfl (congrArg some hnow) (fun _ => rfl) (h.2 (ho.moments hpart.moments)) hw
  cases b with
  | true => exact hends hu
  | false =>
    obtain rfl : u = t.closing id := hu
    have hrecording : Files s (t.recording id none) := hends rfl
    rcases closing_recording t id with he | he <;> rw [he]
    · exact hrecording
    · exact hrecording.trans ho.fit (.of_unwritten (.inert .recover) rfl (.recover _))

end Scheduler

open Scheduler in
theorem Does.files {b : Bool} {s t : Scheduler} (h : Does filing b s t) : InOrder s → Files s t := by
  -- The time stands still while scripts run, so every entry that is made shows it.
  induction h with
  | still | halt => exact fun _ => .refl _
  | trans _ _ ih₁ ih₂ => exact fun ho => (ih₁ ho).trans ho.fit (ih₂ (ho.moments (ih₁ ho).moments))
  | touch h => exact fun _ => .of_unwritten (.inert h.inert) (Unbooked.touch h).clock (.touch h)
  | signal hf hid =>
    exact fun _ => .of_unwritten (Unfolds.moments (Does.unfolds (N := filing) (.signal hf hid))) (Unbooked.signalling _ _ _).clock
      (.signalling hf _ _)
  | @ask b s t u id j hf hid hj hst hst' h hu =>
    intro ho
    have hpart : Unfolds none s (s.showing id .cancelling) := showing_unfolds hid hj hst hst'
    have hshown : Unfolds none s t := hpart.trans h.1
    have hrest : Unfolds none t u := hu.unfolds (hshown.fit hf) (hshown.active hid)
    exact Files.telling (.of_same hpart.moments rfl rfl) ho h fun hf =>
      .of_unwritten hrest.moments (Unbooked.halted hu).clock (.halted hf hu)
  | leave _ hid hj hl h hu => exact fun ho => .leave ho hid hj hl h hu
  | unpark => exact fun _ => unparking_files _
  | refuse submission hf =>
    exact fun _ => .of_same (Unfolds.moments (Does.unfolds (N := filing) (.refuse submission hf))) rfl rfl
  | @enter b s t submission progress _ hfull h =>
    intro ho
    have hpart : Unfolds none s (s.admitting submission progress) := admitting_unfolds submission progress hfull
    exact Files.telling (.of_same hpart.moments rfl rfl) ho h fun _ => .refl t
  | arm hx => exact fun _ => .of_same (Unfolds.moments (Does.unfolds (N := filing) (.arm hx))) rfl rfl
  | @start b s t u id q _ hq h hu =>
    intro ho
    have hpart : Unfolds none s (s.taking id q) := .one (.take hq)
    have hrest : Unfolds none t u := hu.unfolds (h.1.active (mem_taking hq))
    obtain ⟨rest, e, -, he⟩ := taking_eq hq
    exact Files.telling (.of_same hpart.moments rfl (by rw [he]; rfl)) ho h fun _ =>
      .of_unwritten hrest.moments (Unbooked.spawned hu).clock (.spawned hu)

namespace Scheduler
variable {s t u v : Scheduler} {id : JobId} {j k : Job} {b c d killed : Bool} {status : Job.Status} {task : TaskId} {phase : Phase}

theorem carried_files : Carried fun _ s t => InOrder s → Files s t where
  does := Does.files
  trans _ h₁ h₂ ho := (h₁ ho).trans ho.fit (h₂ (ho.moments (h₁ ho).moments))
  hear event index _ := .of_unwritten (Unfolds.moments (Served.informed_unfolds _ event index)) (Unbooked.informed event index).clock
    (.informed event index)
  breakOff event h ho :=
    (h ho).trans ho.fit (.of_unwritten (.one (.breakOff event)) (Unbooked.breakOff event).clock (.breakOff event))

theorem notifyUpTo_filing (n : Nat) : Tells (Along filing) (notifyUpTo n) := carried_files.tells n

/-! ## Turns -/

theorem Works.files (h : Works filing id c d b s t) (ho : InOrder s) : Files s t := by
  induction h with
  | does h => exact h.files ho
  | @cools b s t j hu hc h =>
    have hfree : s.queue.isCancelled id = false := by rw [Queue.isCancelled, hu.job]; exact hc
    have hpart : Unfolds (some id) s (s.showing id .coolingDown) := .one (.cool rfl hu.active hfree)
    exact Files.telling (.of_same hpart.moments rfl rfl) ho h fun _ => .refl t
  | trans _ _ ih₁ ih₂ => exact (ih₁ ho).trans ho.fit (ih₂ (ho.moments (ih₁ ho).moments))

theorem Concludes.files (h : Concludes filing id c status b s t) (ho : InOrder s) : Files s t := by
  cases h with
  | @ends j path errorMessage message v _ hu _ _ _ h hr =>
    have hrow : Unfolds (some id) s (s.ending id status errorMessage message) := .one (.finish rfl hu.active hu.job hu.unended)
    have hpart : Files s (s.ending id status errorMessage message) := .of_same hrow.moments rfl rfl
    have hended : (s.ending id status errorMessage message).queue.job? id = some (j.ended s.loop.now status errorMessage message) :=
      Queue.job?_update_self (by intro; rfl) hu.job
    have hstarted : j.startedAt ≠ none := fun hno => by
      have hstarted := (ho.begun id j hu.job).mpr (ho.active id hu.active)
      rw [hno] at hstarted
      cases hstarted
    exact hpart.ends ho.fit hended rfl rfl (fun hno => absurd hno hstarted) (h.2 (ho.moments hpart.moments)) hr

theorem Vacates.files (h : Vacates filing id s t) (ho : InOrder s) : Files s t := by
  have hrelease : Files s (s.mapQueue (·.release id)) := .of_same (.single (.release id)) rfl rfl
  have hstarts : ∀ {n b t}, Starts filing n b (s.mapQueue (·.release id)) t → Files s t := fun h =>
    hrelease.trans ho.fit (h.does.files (ho.moments hrelease.moments))
  cases h with
  | fills h => exact (hstarts h).trans ho.fit (unparking_files _)
  | cut h => exact hstarts h

theorem TurnOf.files (h : TurnOf filing task id phase killed s t) (hphase : s.phase? task = some (id, phase)) (ho : InOrder s) :
    Files s t := by
  have retire : ∀ {u}, Files s u → Files s (u.retire task) := fun h =>
    h.trans ho.fit (.of_same (.inert (retire_inert _ task)) rfl rfl)
  cases h with
  | @waits pause after t _ hw =>
    obtain ⟨between, hb, -⟩ := hw.unfolds.phase hphase
    exact (hw.files ho).trans ho.fit (.of_unwritten (pausing_moments ⟨between, hb⟩ _ _) (Unbooked.pausing _ _ _ _).clock
      (.pausing _ _ _ _ _))
  | ends _ hw hc ht hv =>
    have hworked := hw.files ho
    have hended := retire (hworked.trans ho.fit (hc.files (ho.moments hworked.moments)))
    have htouched := hended.trans ho.fit (.of_unwritten (.inert ht.inert) (Unbooked.touches ht).clock (.touches ht))
    exact htouched.trans ho.fit (hv.files (ho.moments htouched.moments))
  | stops _ hw hc hv =>
    have hretired := retire (hw.files ho)
    have hended := hretired.trans ho.fit (hc.files (ho.moments hretired.moments))
    exact hended.trans ho.fit (hv.files (ho.moments hended.moments))

/-! ## Steps and runs -/

/-- Every entry was made of a job that has ended, and shows when that was; and the entries stand in the order of these
    times. -/
structure Registered (s : Scheduler) : Prop where
  order : InOrder s
  made : ∀ e ∈ s.queue.recorded, ∃ j ∈ s.queue.jobs, j.finalized = true ∧ e.MadeOf j
  times : ∃ ns : List Nat, s.queue.recorded.map Entry.finishedAt = ns.map (fun n => some (MediaEngine.Moment.ofClock n)) ∧
    ns.Pairwise (· ≤ ·) ∧ ∀ n ∈ ns, n ≤ s.loop.now

theorem Files.registered (h : Files s t) (hs : s.Registered) : t.Registered where
  order := hs.order.moments h.moments
  made e he := by
    obtain ⟨es, hes, hmade⟩ := h.entries
    rw [hes] at he
    rcases List.mem_append.mp he with he | he
    · obtain ⟨j, hj, hfin, hm⟩ := hs.made e he
      obtain ⟨k, hk, hjk⟩ := h.moments.ended_lasts hs.order.fit (Queue.job?_of_mem hs.order.fit.nodup hj) hfin
      exact ⟨k, Queue.job?_mem hk, hjk.finalized.trans hfin, hm.lasts hjk⟩
    · obtain ⟨k, hk, hfin, -, hm⟩ := hmade e he
      exact ⟨k, hk, hfin, hm⟩
  times := by
    obtain ⟨es, hes, hmade⟩ := h.entries
    obtain ⟨ns, hns, hsorted, hle⟩ := hs.times
    -- The entries that are made now all show the time that it is now.
    have hnew : es.map Entry.finishedAt = (List.replicate es.length s.loop.now).map fun n => some (MediaEngine.Moment.ofClock n) := by
      rw [List.map_replicate, List.map_eq_replicate_iff]
      intro e he
      obtain ⟨k, -, -, hat, hm⟩ := hmade e he
      rw [hm.finishedAt, hat]
      rfl
    refine ⟨ns ++ List.replicate es.length s.loop.now, ?_, List.pairwise_append.mpr ⟨hsorted, ?_, ?_⟩, ?_⟩
    · rw [hes, List.map_append, hns, hnew, List.map_append]
    · exact List.pairwise_replicate.mpr (.inr (Nat.le_refl _))
    · intro n hn m hm
      rw [List.eq_of_mem_replicate hm]
      exact hle n hn
    · intro n hn
      rw [h.clock]
      rcases List.mem_append.mp hn with hn | hn
      · exact hle n hn
      · exact Nat.le_of_eq (List.eq_of_mem_replicate hn)

/-- Time passes, and tasks and timers are taken up. -/
theorem Registered.loop {l : Loop TimerAction} (h : s.Registered) (hn : s.loop.now ≤ l.now)
    (ht : ∀ timer ∈ l.timers, timer ∈ s.loop.timers) : Registered { s with loop := l } where
  order := h.order.moments (.inert (.loop fun timer hm _ _ => ht timer hm))
  made := h.made
  times := by
    obtain ⟨ns, hns, hsorted, hle⟩ := h.times
    exact ⟨ns, hns, hsorted, fun n hm => (hle n hm).trans hn⟩

theorem Deed.registered (h : Deed filing (Does filing) s t) (hs : Settled s) (hr : s.Registered) : t.Registered := by
  have next : ∀ {task : TaskId} {l : Loop TimerAction}, s.loop.next? = some (task, l) → Registered { s with loop := l } :=
    fun hnext => hr.loop (Nat.le_of_eq (next?_now hnext).symm) fun timer hm => next?_timers hnext ▸ hm
  have taken : ∀ {task : TaskId} {l : Loop TimerAction}, s.loop.next? = some (task, l) → Registered (heeding { s with loop := l } task) :=
    fun {task l} hnext => (Files.of_same (.inert (heeding_inert { s with loop := l } task)) rfl rfl).registered (next hnext)
  have fired : ∀ {action : TimerAction} {time : Nat} {l : Loop TimerAction}, s.loop.fire? time = some (action, l) →
      Registered { s with loop := l } := fun hfire => hr.loop (fire?_now hfire) (fire?_set hfire).2
  cases h with
  | does h => exact (h.files hr.order).registered hr
  | kills h => exact (Files.of_unwritten (.inert (h.inert hs.fit)) (Unbooked.kills h).clock (.kills h)).registered hr
  | annotates id m => exact (Files.of_same (.inert (annotated_inert s id m)) rfl rfl).registered hr
  | joins name => exact (Files.of_same (.inert .spawn) rfl rfl).registered hr
  | rests hnext _ => exact next hnext
  | drops hnext _ _ _ _ => exact (Files.of_same (.inert (retire_inert _ _)) rfl rfl).registered (taken hnext)
  | @plays task l x i phase j t hnext hx _ hwork _ _ hturn =>
    exact (hturn.files (turning_phase hnext hx hwork) (taken hnext).order).registered (taken hnext)
  | @waits task l x name parked hnext hx _ hwork =>
    exact (Files.of_unwritten (.inert (idling_turn hs.fit hx hwork l)) (Unbooked.idling _ task name parked x.killed).clock
      (.idling _ task name parked x.killed)).registered (taken hnext)
  | expires hfire h => exact (h.files (fired hfire).order).registered (fired hfire)
  | wakes hfire => exact (Files.of_same (.inert (.wake _)) rfl rfl).registered (fired hfire)
  | moveTo time => exact hr.loop (Nat.le_max_left _ _) fun _ hm => hm

theorem Runs.registered (h : Runs s t) (hs : Settled s) (ht : Timed s) (hr : s.Registered) : t.Registered := by
  induction h with
  | refl => exact hr
  | tail h hstep ih =>
    obtain ⟨hs', ht', -⟩ := Runs.sound h hs ht
    exact (hstep.deed notifyUpTo_filing hs' ht').registered hs' ih

theorem start_registered (settings : Settings) (store : Store) (directory : String) (budget : Nat) :
    Registered (start settings store directory budget) where
  order := .start settings store directory budget
  made _ he := by cases he
  times := ⟨[], rfl, .nil, fun _ hn => absurd hn List.not_mem_nil⟩

end Scheduler
end MediaEngine
