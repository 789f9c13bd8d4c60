import MediaEngine.Proofs.Entries
import MediaEngine.Proofs.Filings
import MediaEngine.Proofs.Retention

/-! # Warnings

The entries of the history show their times, and the newest stand in front; so the warnings can always be told, and
that of a timeout is about the first entry that mentions one (`warnings_eq`). That a queue is full is warned of at most
once, always where as many jobs wait as may, and with these counts; where no end was broken off of a job that was dropped, it
is warned of only then, at the time of the latest refusal (`full_warning_agrees`). -/

namespace MediaEngine

namespace Job

/-! ## What is warned of -/

/-- No entry is later than one in front of it. -/
def NewestFirst (es : List Entry) : Prop := es.Pairwise fun e f => f.eventMoment.later? e.eventMoment = some false

theorem laterEntry_stays {latest : Entry} {es : List Entry}
    (h : ∀ e ∈ es, e.eventMoment.later? latest.eventMoment = some false) : es.foldlM laterEntry (some latest) = .ok (some latest) := by
  induction es with
  | nil => rfl
  | cons e rest ih =>
    have hstep : laterEntry (some latest) e = .ok (some latest) := by
      simp only [laterEntry, h e List.mem_cons_self]
      rfl
    rw [List.foldlM_cons, hstep]
    exact ih fun f hf => h f (List.mem_cons_of_mem _ hf)

theorem laterEntry_first {es : List Entry} (h : NewestFirst es) : es.foldlM laterEntry none = .ok es.head? := by
  cases es with
  | nil => rfl
  | cons e rest => exact laterEntry_stays (List.pairwise_cons.mp h).1

theorem latestTimeout_eq {es : List Entry} (h : NewestFirst es) : latestTimeout es = .ok (es.find? Entry.isTimeout) := by
  rw [latestTimeout, laterEntry_first (List.Pairwise.filter _ h), List.head?_filter]

/-- The warnings of a kind. -/
def warningsOf (kind : WarningKind) (ws : List Warning) : List Warning := ws.filter fun w => decide (w.kind = kind)

theorem fullWarning_kind {limits : Limits} {queued : Int} {event : Option FullEvent} {now : Moment} {w : Warning}
    (h : fullWarning limits queued event now = some w) : w.kind = .full := by
  unfold fullWarning at h
  split at h
  · cases h
    rfl
  · split at h <;> cases h
    rfl

/-- With limits at hand it is warned that the queue is full, and of the latest entry of a job that waited too long. -/
theorem warnings_of_latest {es : List Entry} {latest : Option Entry} (h : latestTimeout es = .ok latest) (limits : Limits)
    (queued : Int) (event : Option FullEvent) (now : Moment) :
    ∃ ws, warnings es (some limits) queued event now = .ok ws ∧
      warningsOf .full ws = (fullWarning limits queued event now).toList ∧
      warningsOf .timeout ws = (latest.map fun e => timeoutWarning e now).toList := by
  have hwarnings : warnings es (some limits) queued event now = .ok ((fullWarning limits queued event now).toList ++
      (latest.map fun e => timeoutWarning e now).toList) := by
    unfold warnings
    rw [h]
    rfl
  refine ⟨_, hwarnings, ?_, ?_⟩ <;> rw [warningsOf, List.filter_append]
  · cases hfull : fullWarning limits queued event now with
    | none => cases latest <;> rfl
    | some w =>
      have hw := fullWarning_kind hfull
      cases latest <;> simp [hw, timeoutWarning]
  · cases hfull : fullWarning limits queued event now with
    | none => cases latest <;> simp [timeoutWarning]
    | some w =>
      have hw := fullWarning_kind hfull
      cases latest <;> simp [hw, timeoutWarning]

/-- Warnings of an ordered history: one that the queue is full, and one of the first entry that mentions a timeout. -/
theorem warnings_eq {es : List Entry} (h : NewestFirst es) (limits : Limits) (queued : Int) (event : Option FullEvent) (now : Moment) :
    ∃ ws, warnings es (some limits) queued event now = .ok ws ∧
      warningsOf .full ws = (fullWarning limits queued event now).toList ∧
      warningsOf .timeout ws = ((es.find? Entry.isTimeout).map fun e => timeoutWarning e now).toList :=
  warnings_of_latest (latestTimeout_eq h) limits queued event now

/-- What is told of a full queue: that a job was turned away, or that no further one may wait. Both show how many wait and how
    many may. -/
def fullMessages (limit : Int) : List String :=
  ["Queue full: admission rejected with " ++ Number.intText limit ++ "/" ++ Number.intText limit ++ " waiting",
    "Queue is at capacity (" ++ Number.intText limit ++ "/" ++ Number.intText limit ++ ")"]

theorem fullWarning_length {limits : Limits} {queued : Int} {event : Option FullEvent} {now : Moment} :
    (fullWarning limits queued event now).toList.length ≤ 1 := by
  cases fullWarning limits queued event now <;> simp

theorem fullWarning_none_iff {limits : Limits} {queued : Int} {event : Option FullEvent} {now : Moment} :
    fullWarning limits queued event now = none ↔ event = none ∧ queued < limits.maxQueueLength := by
  cases event with
  | some e => simp [fullWarning]
  | none => simp [fullWarning]

/-- The counts that are shown are those of the limit, if no more wait than may and a refusal counted as many. -/
theorem fullWarning_message {limits : Limits} {queued : Int} {event : Option FullEvent} {now : Moment} {w : Warning}
    (h : fullWarning limits queued event now = some w) (hqueued : queued ≤ limits.maxQueueLength)
    (he : ∀ e, event = some e → e.queuedJobs = limits.maxQueueLength) :
    w.message ∈ fullMessages limits.maxQueueLength ∧ w.occurredAt = (event.map FullEvent.occurredAt).getD now := by
  cases event with
  | some e =>
    cases h
    rw [he e rfl]
    exact ⟨List.mem_cons_self, rfl⟩
  | none =>
    rw [fullWarning] at h
    split at h
    · rename_i hfull
      cases h
      rw [Int.le_antisymm hqueued hfull]
      exact ⟨List.mem_cons_of_mem _ (List.mem_singleton_self _), rfl⟩
    · cases h

end Job

namespace Scheduler
open Job
variable {s t u v : Scheduler} {id : JobId} {j : Job} {b c d killed : Bool} {status : Job.Status} {task : TaskId} {phase : Phase}

/-! ## What the history shows -/

theorem Registered.newestFirst (h : s.Registered) (hn : Newest s.queue) : NewestFirst s.queue.history := by
  obtain ⟨ns, hns, hsorted, -⟩ := h.times
  have hrecorded : s.queue.recorded.Pairwise fun f e => f.eventMoment.later? e.eventMoment = some false := by
    have hshown : (s.queue.recorded.map Entry.finishedAt).Pairwise fun a b =>
        ∃ m n, a = some (MediaEngine.Moment.ofClock m) ∧ b = some (MediaEngine.Moment.ofClock n) ∧ m ≤ n := by
      rw [hns]
      exact List.pairwise_map.mpr (hsorted.imp fun hmn => ⟨_, _, rfl, rfl, hmn⟩)
    refine (List.pairwise_map.mp hshown).imp fun {f e} hfe => ?_
    obtain ⟨m, n, hf, he, hmn⟩ := hfe
    rw [Entry.eventMoment, Entry.eventMoment, Entry.moment?, Entry.moment?, hf, he]
    change (MediaEngine.Moment.ofClock m).later? (.ofClock n) = some false
    rw [Moment.ofClock_later?, decide_eq_false (Nat.not_lt.mpr hmn)]
  rw [hn.history]
  exact (List.pairwise_reverse.mpr hrecorded).sublist (List.take_sublist _ _)

/-! ## What a refusal counted -/

/-- A refusal that is remembered counted as many jobs as may wait. -/
def Counted (s : Scheduler) : Prop := ∀ e, s.queue.fullEvent = some e → e.queuedJobs = s.queue.settings.maxQueueLength

theorem Counted.of_same (h : s.Counted) (hs : t.queue.settings = s.queue.settings) (he : t.queue.fullEvent = s.queue.fullEvent) :
    t.Counted := fun e ht => by
  rw [hs]
  exact h e (he ▸ ht)

/-- Where no more jobs wait than may, a refusal goes on to have counted as many. -/
def Counts (s t : Scheduler) : Prop := s.queue.Limited → s.Counted → t.Counted

namespace Counts

theorem of_same (hs : t.queue.settings = s.queue.settings) (he : t.queue.fullEvent = s.queue.fullEvent) : Counts s t :=
  fun _ h => h.of_same hs he

theorem of_unbooked (h : Unbooked s t) : Counts s t := of_same h.settings h.fullEvent

theorem trans (h₁ : Counts s t) (hm : Moments s t) (h₂ : Counts t u) : Counts s u := fun hl hs =>
  h₂ (limited_moments hl hm) (h₁ hl hs)

/-- A queue that may forget the latest refusal remembers no other one. -/
theorem recover_remembers {q : Queue} {e : FullEvent} (h : q.recover.fullEvent = some e) : q.fullEvent = some e := by
  rw [Booked.recover_fullEvent] at h
  split at h
  · cases h
  · exact h

theorem recover (s : Scheduler) : Counts s (s.mapQueue Queue.recover) := fun _ h e he => by
  obtain ⟨x, hx⟩ := s.queue.recover_eq
  have hold := h e (recover_remembers he)
  rw [mapQueue_queue, hx]
  exact hold

theorem recording (s : Scheduler) (id : JobId) (path : Option String) : Counts s (s.recording id path) := by
  unfold Scheduler.recording
  rcases record_cases (s := s) id path with ⟨-, h⟩ | ⟨j, -, ⟨store, -, h⟩ | ⟨-, h⟩⟩ <;> rw [h] <;> exact of_same rfl rfl

theorem recorded {path : Option String} (h : Recorded id path b s t) : Counts s t := by
  cases b <;> cases h
  · exact recording s id path
  · exact of_same rfl rfl

theorem closes (h : Closes id b s t) : Counts s t := by
  cases b <;> cases h
  · have hrow : Unfolds none s (s.recording id none) := Recorded.unfolds (b := false) rfl
    rcases closing_recording s id with he | he <;> rw [he]
    · exact recording s id none
    · exact (recording s id none).trans hrow.moments (recover _)
  · exact of_same rfl rfl

theorem taking {q : Queue} (hq : s.queue.startNext? = some (id, q)) : Counts s (s.taking id q) := fun _ h e he => by
  obtain ⟨-, rest, -, rfl⟩ := Queue.startNext?_eq hq
  have hold := h e (recover_remembers (q := { s.queue with waiting := rest }) he)
  obtain ⟨x, hx⟩ := Queue.recover_eq { s.queue with waiting := rest }
  unfold Scheduler.taking
  rw [hx]
  exact hold

theorem refusing (submission : Submission) (hf : s.queue.isFull = true) : Counts s (s.refusing submission) := fun hl _ e he => by
  cases he
  exact Int.le_antisymm hl.length (of_decide_eq_true hf)

end Counts

/-- Listeners are told, and refusals go on to have counted as many jobs as may wait. -/
def counting : Telling := fun _ _ _ => Counts

end Scheduler

open Scheduler in
theorem Does.counts {b : Bool} {s t : Scheduler} (h : Does counting b s t) : Counts s t := by
  induction h with
  | still | halt => exact .of_same rfl rfl
  | trans h _ ih₁ ih₂ => exact ih₁.trans h.unfolds.moments ih₂
  | touch h => exact .of_unbooked (.touch h)
  | signal => exact .of_unbooked (.signalling _ _ _)
  | @ask b s t u id j _ hid hj hst hst' h hu =>
    have hshow : Unfolds none s (s.showing id .cancelling) := showing_unfolds hid hj hst hst'
    have hshown : Counts s (s.showing id .cancelling) := .of_same rfl rfl
    have hrow : Unfolds none s t := hshow.trans h.1
    exact (hshown.trans hshow.moments h.2).trans hrow.moments (.of_unbooked (.halted hu))
  | @leave b s t u id j message l _ hid hj hl h hu =>
    have hleave : Unfolds none s (s.leaving id message l) := leaving_unfolds hid hj hl message
    have hleft : Counts s (s.leaving id message l) := .of_same rfl rfl
    have hrow : Unfolds none s t := hleave.trans h.1
    exact (hleft.trans hleave.moments h.2).trans hrow.moments (.closes hu)
  | unpark => exact .of_unbooked (.unparking _)
  | refuse submission hf => exact .refusing submission hf
  | @enter b s t submission progress _ hfull h =>
    have henter : Unfolds none s (s.admitting submission progress) := admitting_unfolds submission progress hfull
    have hentered : Counts s (s.admitting submission progress) := .of_same rfl rfl
    exact hentered.trans henter.moments h.2
  | arm => exact .of_same rfl rfl
  | @start b s t u id q _ hq h hu =>
    have htake : Unfolds none s (s.taking id q) := .one (.take hq)
    have hrow : Unfolds none s t := htake.trans h.1
    exact ((Counts.taking hq).trans htake.moments h.2).trans hrow.moments (.of_unbooked (.spawned hu))

namespace Scheduler
open Job
variable {s t u v : Scheduler} {id : JobId} {j : Job} {b c d killed : Bool} {status : Job.Status} {task : TaskId} {phase : Phase}

theorem carried_counts : Carried fun _ => Counts where
  does := Does.counts
  trans hrow h₁ h₂ := h₁.trans hrow.moments h₂
  hear event index := .of_unbooked (.informed event index)
  breakOff event h hl hs := (h hl hs).of_same (Unbooked.breakOff event).settings (Unbooked.breakOff event).fullEvent

theorem notifyUpTo_counting (n : Nat) : Tells (Along counting) (notifyUpTo n) := carried_counts.tells n

theorem Works.counts (h : Works counting id c d b s t) : Counts s t := by
  induction h with
  | does h => exact h.counts
  | @cools b s t j hu hc h =>
    have hfree : s.queue.isCancelled id = false := by rw [Queue.isCancelled, hu.job]; exact hc
    have hshow : Unfolds (some id) s (s.showing id .coolingDown) := .one (.cool rfl hu.active hfree)
    have hshown : Counts s (s.showing id .coolingDown) := .of_same rfl rfl
    exact hshown.trans hshow.moments h.2
  | trans h _ ih₁ ih₂ => exact ih₁.trans h.unfolds.moments ih₂

theorem Concludes.counts (h : Concludes counting id c status b s t) : Counts s t := by
  cases h with
  | @ends j path errorMessage message v _ hu _ _ _ h hr =>
    have hend : Unfolds (some id) s (s.ending id status errorMessage message) := .one (.finish rfl hu.active hu.job hu.unended)
    have hended : Counts s (s.ending id status errorMessage message) := .of_same rfl rfl
    exact (hended.trans hend.moments h.2).trans (hend.moments.trans h.1.moments) (.recorded hr)

theorem Vacates.counts (h : Vacates counting id s t) : Counts s t := by
  have hrelease : Counts s (s.mapQueue (·.release id)) := .of_same rfl rfl
  have hfree : Moments s (s.mapQueue (·.release id)) := .single (.release id)
  cases h with
  | fills h => exact (hrelease.trans hfree h.does.counts).trans (hfree.trans h.does.unfolds.moments) (.of_unbooked (.unparking _))
  | cut h => exact hrelease.trans hfree h.does.counts

theorem TurnOf.counts (h : TurnOf counting task id phase killed s t) : Counts s t := by
  have hretire : ∀ u : Scheduler, Counts u (u.retire task) := fun _ => .of_same rfl rfl
  have hretired : ∀ u : Scheduler, Moments u (u.retire task) := fun u => .inert (retire_inert u task)
  cases h with
  | waits _ hw => exact hw.counts.trans hw.unfolds.moments (.of_unbooked (.pausing _ _ _ _))
  | @ends _ _ _ u v w _ _ hw hc ht hv =>
    have hended : Moments s (v.retire task) := (hw.unfolds.moments.trans hc.unfolds.moments).trans (hretired v)
    have hcounts : Counts s (v.retire task) :=
      (hw.counts.trans hw.unfolds.moments hc.counts).trans (hw.unfolds.moments.trans hc.unfolds.moments) (hretire v)
    exact (hcounts.trans hended (.of_unbooked (.touches ht))).trans (hended.trans (Moments.inert ht.inert)) hv.counts
  | @stops _ _ _ _ u v _ _ hw hc hv =>
    have hover : Moments s (u.retire task) := hw.unfolds.moments.trans (hretired u)
    have hcounts : Counts s (u.retire task) := hw.counts.trans hw.unfolds.moments (hretire u)
    exact (hcounts.trans hover hc.counts).trans (hover.trans hc.unfolds.moments) hv.counts

theorem Deed.counts (h : Deed counting (Does counting) s t) : Counts s t := by
  cases h with
  | does h => exact h.counts
  | kills h => exact .of_unbooked (.kills h)
  | annotates | joins | rests | drops | wakes | moveTo => exact .of_same rfl rfl
  | plays _ _ _ _ _ _ hturn => exact fun hl hs => hturn.counts hl hs
  | @waits task l x name parked => exact fun hl hs => Counts.of_unbooked (.idling _ task name parked x.killed) hl hs
  | expires _ h => exact fun hl hs => h.counts hl hs

theorem Runs.counted {settings : Settings} {store : Store} {directory : String} {budget : Nat}
    (h : Runs (start settings store directory budget) s) : s.Counted := by
  induction h with
  | refl => exact fun _ he => by cases he
  | tail h hstep ih =>
    obtain ⟨hs, ht, hlimited⟩ := Runs.basics h
    exact (hstep.deed notifyUpTo_counting hs ht).counts hlimited ih

/-! ## Runs -/

section Runs
variable {settings : Settings} {store : Store} {directory : String} {budget : Nat} {l : Ledger}

/-- Where no store is supplied, no entry is refused. -/
theorem Store.unrefused (hdefault : Store.chosen? none settings.historyLimit = some store) (es : List Entry) (e : Entry) :
    (es.foldl Store.keep store).record? e ≠ none := by
  obtain ⟨empty, -, rfl⟩ := Option.map_eq_some_iff.mp hdefault
  exact fun hno => by cases (Store.keep_all_refuses _ es e).mp hno

/-- Where no store is supplied, the history is the newest of the entries, and they stand in order. -/
theorem Runs.history (h : Runs (start settings store directory budget) s)
    (hdefault : Store.chosen? none settings.historyLimit = some store) : Newest s.queue ∧ NewestFirst s.queue.history := by
  have hs₀ := start_settled settings store directory budget
  have ht₀ := start_timed settings store directory budget
  obtain ⟨hs, -, hm⟩ := h.sound hs₀ ht₀
  obtain ⟨es, hes, hstore⟩ := hm.continues.handed
  have hnewest : Newest s.queue := hs.newest (by rw [hm.continues.settings]; exact hdefault) (by rw [hstore, hes]; rfl)
  exact ⟨hnewest, (h.registered hs₀ ht₀ (start_registered settings store directory budget)).newestFirst hnewest⟩

/-- In every state of a run of a queue to which no store was supplied, its own views give at most one warning that it is full,
    which shows as many jobs as may wait out of as many, and there is one wherever as many wait. Where no listener calls back
    and none broke off to be told that a job was dropped, there is one only then, and it has the time of the latest refusal since
    fewer waited, if the log tells of one, and else the time at which the warnings are asked for. -/
theorem full_warning_agrees (h : Logs (start settings store directory budget) s l)
    (hdefault : Store.chosen? none settings.historyLimit = some store) (now : MediaEngine.Moment) :
    ∃ ws, warnings s.queue.history (some s.queue.limits) s.queue.waiting.length s.queue.fullEvent now = .ok ws ∧
      (warningsOf .full ws).length ≤ 1 ∧
      (∀ w ∈ warningsOf .full ws, w.message ∈ fullMessages settings.maxQueueLength) ∧
      ((s.queue.waiting.length : Int) = settings.maxQueueLength → warningsOf .full ws ≠ []) ∧
      (s.queue.Quiet → (∀ id, s.Dropped id → id ∉ s.queue.brokenOff) →
        (warningsOf .full ws ≠ [] ↔ (s.queue.waiting.length : Int) = settings.maxQueueLength) ∧
          ∀ w ∈ warningsOf .full ws, w.occurredAt = (l.refusal.map FullEvent.occurredAt).getD now) := by
  obtain ⟨-, -, hlimited⟩ := h.runs.basics
  have hset : s.queue.settings = settings := h.runs.settings_eq
  have hcounted := h.runs.counted
  obtain ⟨ws, hws, hfull, -⟩ := warnings_eq (h.runs.history hdefault).2 s.queue.limits s.queue.waiting.length s.queue.fullEvent now
  have hmax : s.queue.limits.maxQueueLength = settings.maxQueueLength := congrArg Settings.maxQueueLength hset
  have hle : (s.queue.waiting.length : Int) ≤ settings.maxQueueLength := hset ▸ hlimited.length
  have htells : ∀ w ∈ warningsOf .full ws, w.message ∈ fullMessages settings.maxQueueLength ∧
      w.occurredAt = (s.queue.fullEvent.map FullEvent.occurredAt).getD now := fun w hw => by
    rw [hfull, Option.mem_toList] at hw
    rw [← hmax]
    exact fullWarning_message hw (hmax.symm ▸ hle) hcounted
  have hnone : warningsOf .full ws = [] ↔ s.queue.fullEvent = none ∧ (s.queue.waiting.length : Int) < settings.maxQueueLength := by
    rw [hfull, Option.toList_eq_nil_iff, fullWarning_none_iff, hmax]
  refine ⟨ws, hws, hfull ▸ fullWarning_length, fun w hw => (htells w hw).1, fun heq hno => ?_, fun hquiet hkept => ?_⟩
  · have hlt := (hnone.mp hno).2
    omega
  · have hclear : Clear s := by
      refine ⟨hquiet, fun id hl => ?_⟩
      rcases hl with ⟨hdropped, hbroken | ⟨e, -, hrefused⟩⟩
      · exact hkept id hdropped hbroken
      · obtain ⟨es, -, hstore⟩ := h.runs.moments.continues.handed
        rw [hstore] at hrefused
        exact Store.unrefused hdefault es e hrefused
    -- The store refuses nothing, so no end was mislaid but those that were excluded, and the log agrees with the queue.
    have hl := h.agrees hclear
    refine ⟨⟨fun hsome => ?_, fun heq hno => ?_⟩, fun w hw => ?_⟩
    · by_contra hne
      refine hsome (hnone.mpr ⟨Option.eq_none_iff_forall_ne_some.mpr fun e he => hne ?_, by omega⟩)
      rw [← hset]
      exact (hl.full e he).2
    · have hlt := (hnone.mp hno).2
      omega
    · rw [hl.refusal]
      exact (htells w hw).2

end Runs

/-- The third of three jobs is turned away after a while, and later the warning shows when that was. -/
theorem refused_job_warned_of :
    let job := fun name : String => Command.enqueue ⟨name, some [.gate "g"], .none, none, .null⟩
    let s₀ := start (.floored 1 1 180000 20) (.bounded ⟨20, [], by decide⟩) "/" 9
    let s := (s₀.giveAll none [job "a", job "b", .advance 5, job "c", .advance 2]).2
    ∃ l ws, Logs s₀ s l ∧ s.queue.warnings s.loop.now = .ok ws ∧ s.loop.now = 7 ∧ warningsOf .full ws ≠ [] ∧
      l.refusal.map FullEvent.occurredAt = some (.ofClock 5) ∧
      ∀ w ∈ warningsOf .full ws, w.message ∈ fullMessages 1 ∧ w.occurredAt = .ofClock 5 := by
  intro job s₀ s
  have hruns : Runs s₀ s := runs_drives.giveAll _ _ _
  obtain ⟨l, hl⟩ := Runs.logs hruns
  have hbroken : s.queue.brokenOff = [] := by decide +kernel
  have hquiet : s.queue.Quiet := Queue.quiet_of_none (by decide +kernel)
  have hwaits : (s.queue.waiting.length : Int) = 1 := by decide +kernel
  have hevent : s.queue.fullEvent.map FullEvent.occurredAt = some (.ofClock 5) := by decide +kernel
  obtain ⟨ws, hws, -, hmessage, -, hagrees⟩ := full_warning_agrees hl rfl (.ofClock s.loop.now)
  obtain ⟨hiff, hat⟩ := hagrees hquiet fun id _ hb => by rw [hbroken] at hb; cases hb
  have hrefusal : l.refusal = s.queue.fullEvent := (hl.agrees ⟨hquiet, fun id hlost => ?_⟩).refusal
  · rw [← hrefusal] at hevent
    refine ⟨l, ws, hl, hws, by decide +kernel, hiff.mpr hwaits, hevent, fun w hw => ⟨hmessage w hw, ?_⟩⟩
    rw [hat w hw, hevent]
    rfl
  · obtain ⟨-, hb | ⟨e, he, -⟩⟩ := hlost
    · rw [hbroken] at hb
      cases hb
    · have hrecorded : s.queue.recorded.length = 0 := by decide +kernel
      rw [mem_entriesOf, List.eq_nil_of_length_eq_zero hrecorded] at he
      cases he.1

/-- A queue in which no job waits is said to be full, as a listener broke off to be told that the last one was dropped. -/
theorem empty_queue_said_full :
    ∃ settings store directory budget s ws, Runs (start settings store directory budget) s ∧
      Store.chosen? none settings.historyLimit = some store ∧ s.queue.Quiet ∧ s.queue.waiting = [] ∧
      s.queue.warnings s.loop.now = .ok ws ∧ warningsOf .full ws ≠ [] := by
  let job := fun name : String => Command.enqueue ⟨name, some [.gate "g"], .none, none, .null⟩
  let listener : Listener := ⟨"l", false, some .finished, none, 1, [.fail .taskCancelled]⟩
  let store : Store := .bounded ⟨20, [], by decide⟩
  let s := ((start (.floored 1 1 180000 20) store "/" 9).giveAll none
    [.subscribe listener, job "a", job "b", job "c", .cancelAll]).2
  have hruns : Runs (start (.floored 1 1 180000 20) store "/" 9) s := runs_drives.giveAll _ _ _
  have hquiet : s.queue.Quiet := by
    unfold Queue.Quiet
    decide +kernel
  have hevent : s.queue.fullEvent.isSome = true := by decide +kernel
  obtain ⟨ws, hws, hfull, -⟩ := warnings_eq (hruns.history rfl).2 s.queue.limits s.queue.waiting.length s.queue.fullEvent
    (.ofClock s.loop.now)
  refine ⟨.floored 1 1 180000 20, store, "/", 9, s, ws, hruns, rfl, hquiet, by decide +kernel, hws, fun hno => ?_⟩
  rw [hfull, Option.toList_eq_nil_iff, fullWarning_none_iff] at hno
  rw [hno.1] at hevent
  cases hevent

end Scheduler
end MediaEngine
