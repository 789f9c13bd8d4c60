import MediaEngine.Proofs.Arming
import MediaEngine.Proofs.Dropping

/-! # A job that has waited too long

Between two steps exactly those who wait have a timer. When one fires, its job leaves those that wait and has one entry,
and all others stay as they are (`Lapsed`); a timer of a job that does not wait changes nothing. -/

namespace MediaEngine.Scheduler
open Job

variable {s t u : Scheduler} {id : JobId}

/-- The job was dropped as it had waited too long, and one entry was kept of it. All other jobs are as they were, whether they
    wait or are active, and none started. -/
structure Lapsed (s : Scheduler) (id : JobId) (t : Scheduler) : Prop where
  waiting : t.queue.waiting = s.queue.waiting.erase id
  active : t.queue.active = s.queue.active
  others : ∀ i, i ≠ id → t.queue.job? i = s.queue.job? i
  starts : t.starts = s.starts
  entry : ∃ e seconds, t.queue.recorded = s.queue.recorded ++ [e] ∧ t.queue.store = s.queue.store.keep e ∧ e.jobId = id.text ∧
    e.status = .canceled ∧ e.level = .warn ∧ e.startedAt = none ∧ e.message = some (expiryMessage seconds)

/-- A fault of what a timer does is lost. -/
theorem fire_expire (notify : Notify) (id : JobId) : (fire notify (.expire id)).on s = (.ok (), ((expire notify id).on s).2) := by
  rw [fire, Act.on_outcome_bind]
  rfl

/-- The timer of a job that waits fires. -/
theorem fire_lapses (ho : InOrder s) (hl : s.queue.Limited) (hid : id ∈ s.queue.waiting) (htimely : s.queue.settings.Timely)
    (htakes : ∀ e, s.queue.store.record? e ≠ none) {l : Loop TimerAction} (depth : Nat)
    (hquiet : ((fire (notifyUpTo depth) (.expire id)).on { s with loop := l }).2.queue.Quiet)
    (hfinished : ((fire (notifyUpTo depth) (.expire id)).on { s with loop := l }).2.queue.Spares .finished) :
    Lapsed s id ((fire (notifyUpTo depth) (.expire id)).on { s with loop := l }).2 := by
  obtain ⟨seconds, hseconds⟩ := htimely
  let r : Scheduler := { s with queue := s.queue.withdraw id, loop := l }
  rw [fire_expire, expire_drops hid hseconds] at hquiet hfinished ⊢
  -- Whoever is released in the end hears nothing, so what holds of the listeners then held of them before.
  have hlast : ((drop (notifyUpTo depth) id (expiryMessage seconds)).on r).2.queue.listeners <+:
      ((drop (notifyUpTo depth) id (expiryMessage seconds) >>= fun _ => releaseParked).on r).2.queue.listeners := by
    rw [Act.on_bind]
    rcases (drop (notifyUpTo depth) id (expiryMessage seconds)).on r with ⟨e | ⟨⟩, v⟩
    · exact List.prefix_rfl
    · dsimp only
      rw [releaseParked_unparking]
      exact (unparking_inert v).listeners
  obtain ⟨v, hv, hdeparts⟩ := drop_on ho.fit hl hid htakes depth (hquiet.before hlast) (hfinished.before hlast)
  rw [Act.on_bind_ok hv, releaseParked_unparking]
  obtain ⟨parked, hparked⟩ := unparking_queue v
  obtain ⟨j, hj, -, hrecorded, hstore⟩ := hdeparts.own
  constructor
  case waiting => rw [hparked]; exact hdeparts.waiting
  case active => rw [hparked]; exact hdeparts.active
  case others => rw [hparked]; exact hdeparts.others
  case starts => exact (unparking_inert v).starts.trans hdeparts.starts
  case entry =>
    refine ⟨j.lapse l.now (expiryMessage seconds), seconds, ?_, ?_, ?_, rfl, rfl, ?_, rfl⟩
    · rw [hparked]
      exact hrecorded
    · rw [hparked]
      exact hstore
    · exact congrArg JobId.text (show j.id = id from Queue.job?_id hj)
    · exact congrArg (Option.map Moment.ofClock) (ho.waits_unstarted hid hj)

/-- Nothing happens when a timer fires of a job that does not wait. -/
theorem fire_idle (notify : Notify) (hid : id ∉ s.queue.waiting) : (fire notify (.expire id)).on s = (.ok (), s) := by
  rw [fire_expire, expire_idle hid]

section Runs
variable {settings : Settings} {store : Store} {directory : String} {budget : Nat}

/-- Where jobs do not expire, no timer is set that drops one. -/
theorem Runs.unset (h : Runs (start settings store directory budget) s) (he : settings.expires = false) (id : JobId) :
    ¬ s.Expects id := by
  intro hid
  have hset : s.queue.settings = settings := h.settings_eq
  have hsynced : s.Synced := h.synced fun hno => by rw [hset, he] at hno; cases hno
  rw [Synced, hset, he] at hsynced
  rw [← mem_expiries, hsynced] at hid
  cases hid

/-- Where jobs do not expire, no timer drops one. -/
theorem lapses_none {ids : List JobId} (h : Lapses (start settings store directory budget) s ids) (he : settings.expires = false) :
    ids = [] := by
  induction h with
  | start => rfl
  | obey _ _ _ _ _ ih | turn _ _ _ ih | wake _ _ _ ih | moveTo _ _ ih => exact ih
  | expire depth h hfire =>
    obtain ⟨⟨timer, htimer, haction⟩, -⟩ := fire?_set hfire
    exact absurd ⟨timer, htimer, haction⟩ (h.runs.unset he _)

/-- In every state of a run a timer that fires for a job that does not wait changes nothing. If jobs do not expire, no timer of
    that kind is set, and none dropped a job before. If they do, the timeout can be told in seconds, and no listener calls back or
    breaks off to be told that a job waits, then exactly those who wait have a timer, one each and in the same order; and when
    one fires, it drops its job and leaves the others as they are, if no listener calls back or breaks off to be told. -/
theorem timers_drop_waiting_jobs (htakes : ∀ e, store.record? e ≠ none) (h : Runs (start settings store directory budget) s) :
    (∀ id notify, id ∉ s.queue.waiting → (fire notify (.expire id)).on s = (.ok (), s)) ∧
    (settings.queueTimeout ≤ 0 → (∀ id, ¬ s.Expects id) ∧ ∀ ids, Lapses (start settings store directory budget) s ids → ids = []) ∧
    (0 < settings.queueTimeout → (∃ x, settings.timeoutSeconds = .ok x) → s.queue.Quiet → s.queue.Spares .queued →
      (∀ id, s.Expects id ↔ id ∈ s.queue.waiting) ∧ s.expiries = s.queue.waiting ∧
      ∀ time id l depth, s.loop.fire? time = some (.expire id, l) →
        ((fire (notifyUpTo depth) (.expire id)).on { s with loop := l }).2.queue.Quiet →
        ((fire (notifyUpTo depth) (.expire id)).on { s with loop := l }).2.queue.Spares .finished →
        id ∈ s.queue.waiting ∧ Lapsed s id ((fire (notifyUpTo depth) (.expire id)).on { s with loop := l }).2) := by
  have hset : s.queue.settings = settings := h.settings_eq
  refine ⟨fun id notify => fire_idle notify, fun hzero => ?_, fun hpos hx hquiet hqueued => ?_⟩
  · have he : settings.expires = false := decide_eq_false (Int.not_lt.mpr hzero)
    exact ⟨h.unset he, fun ids hids => lapses_none hids he⟩
  · have he : settings.expires = true := decide_eq_true hpos
    have hsynced : s.Synced := h.synced fun _ => ⟨hquiet, hqueued, hset ▸ hx⟩
    -- Timers and waiting jobs are kept in step, so a timer that fires is of a job that waits.
    rw [Synced, hset, he, if_pos rfl] at hsynced
    have hiff : ∀ id, s.Expects id ↔ id ∈ s.queue.waiting := fun id => by rw [← mem_expiries, hsynced]
    refine ⟨hiff, hsynced, fun time id l depth hfire hq hf => ?_⟩
    obtain ⟨⟨timer, htimer, haction⟩, -⟩ := fire?_set hfire
    have hid : id ∈ s.queue.waiting := (hiff id).mp ⟨timer, htimer, haction⟩
    obtain ⟨-, -, hl⟩ := h.basics
    obtain ⟨es, -, hstore⟩ := h.moments.continues.handed
    have htimely : s.queue.settings.Timely := hset ▸ Settings.timely_of_covers ((Settings.timeoutSeconds_ok settings).mp hx)
    refine ⟨hid, fire_lapses h.inOrder hl hid htimely (fun e he => htakes e ?_) depth hq hf⟩
    rw [hstore] at he
    exact (Store.keep_all_refuses store es e).mp he

/-- Of two jobs that wait, the first one has waited too long, and the other one is left. -/
theorem overdue_job_dropped :
    let job := fun name : String => Command.enqueue ⟨name, some [.gate "g"], .none, none, .null⟩
    let listener : Listener := ⟨"l", false, some .finished, none, 1, [.fail (.raised .value [])]⟩
    let store : Store := .bounded ⟨20, [], by decide⟩
    let s := ((start (.floored 1 4 1000 20) store "/" 9).giveAll none [.subscribe listener, job "a", job "b", job "c"]).2
    s.expiries = [2, 3] ∧ ∃ l, s.loop.fire? 1000 = some (.expire 2, l) ∧
      Lapsed s 2 ((fire (notifyUpTo 9) (.expire 2)).on { s with loop := l }).2 ∧
      ((fire (notifyUpTo 9) (.expire 2)).on { s with loop := l }).2.queue.waiting = [3] := by
  intro job listener store s
  have htakes : ∀ e, store.record? e ≠ none := fun e he => by cases he
  have hruns : Runs (start (.floored 1 4 1000 20) store "/" 9) s := runs_drives.giveAll _ _ _
  have hseconds : ∃ x, (Settings.floored 1 4 1000 20).timeoutSeconds = .ok x := by
    refine (Settings.timeoutSeconds_ok _).mpr ?_
    unfold Binary64.Covers
    decide +kernel
  have gentle : ∀ q : Queue, (∀ l ∈ q.listeners, ∀ step ∈ l.steps, step.mayBreak = false) → q.Gentle := fun _ h => h
  have hg : s.queue.Gentle := gentle _ (by decide +kernel)
  obtain ⟨-, -, hwaits⟩ := timers_drop_waiting_jobs htakes hruns
  obtain ⟨-, hexpiries, hlapses⟩ := hwaits (by decide) hseconds hg.quiet (hg.spares _)
  have hfirst : (s.loop.fire? 1000).map Prod.fst = some (.expire 2) := by decide +kernel
  obtain ⟨⟨action, l⟩, hfire, haction⟩ := Option.map_eq_some_iff.mp hfirst
  cases haction
  have hl : l = ((s.loop.fire? 1000).map Prod.snd).getD s.loop := by rw [hfire]; rfl
  have hg' : ((fire (notifyUpTo 9) (.expire 2)).on { s with loop := l }).2.queue.Gentle := by
    rw [hl]
    exact gentle _ (by decide +kernel)
  obtain ⟨-, hlapsed⟩ := hlapses 1000 2 l 9 hfire hg'.quiet (hg'.spares _)
  exact ⟨hexpiries.trans (by decide +kernel), l, hfire, hlapsed, hlapsed.waiting.trans (by decide +kernel)⟩

/-- A job waits without a timer, as a listener broke off to be told that it waits. -/
theorem waiting_without_timer :
    ∃ settings store directory budget s, Runs (start settings store directory budget) s ∧
      Store.chosen? none settings.historyLimit = some store ∧ 0 < settings.queueTimeout ∧
      (∃ x, settings.timeoutSeconds = .ok x) ∧ s.queue.Quiet ∧ s.queue.waiting = [2] ∧ ∀ id, ¬ s.Expects id := by
  let job := fun name : String => Command.enqueue ⟨name, some [.gate "g"], .none, none, .null⟩
  let listener : Listener := ⟨"l", false, some .queued, none, 1, [.fail .taskCancelled]⟩
  let store : Store := .bounded ⟨20, [], by decide⟩
  let s := ((start (.floored 1 4 1000 20) store "/" 9).giveAll none [job "a", .subscribe listener, job "b"]).2
  have hexpiries : s.expiries = [] := by decide +kernel
  have hquiet : s.queue.Quiet := by
    unfold Queue.Quiet
    decide +kernel
  refine ⟨.floored 1 4 1000 20, store, "/", 9, s, runs_drives.giveAll _ _ _, rfl, by decide, (Settings.timeoutSeconds_ok _).mpr ?_,
    hquiet, by decide +kernel, fun id hid => ?_⟩
  · unfold Binary64.Covers
    decide +kernel
  · rw [← mem_expiries, hexpiries] at hid
    cases hid

end Runs

end MediaEngine.Scheduler
