import MediaEngine.Proofs.Retention

/-! # What dropping a job comes to

A job that waits leaves the others as they are when it is dropped, whoever waits behind it moves up, and one entry is
made of it (`Departs`). This takes listeners who do not call back and are not cut short to be told of the end, and a
store that refuses nothing. -/

namespace MediaEngine
open Job

namespace Job

/-- The job once it was dropped while it waited, with a message. -/
def dropped (j : Job) (now : Nat) (message : String) : Job := j.ended now .canceled none (some message)

/-- What the history keeps of a job that was dropped. -/
def lapse (j : Job) (now : Nat) (message : String) : Entry := (j.dropped now message).entry none

end Job

namespace Scheduler
variable {s t u : Scheduler} {id : JobId} {message : String} {l : Loop TimerAction}

/-- The one job left those that wait, and its entry is kept. The times are those of a loop. -/
structure Departs (s : Scheduler) (id : JobId) (message : String) (l : Loop TimerAction) (t : Scheduler) : Prop where
  settings : t.queue.settings = s.queue.settings
  waiting : t.queue.waiting = s.queue.waiting.erase id
  active : t.queue.active = s.queue.active
  others : ∀ i, i ≠ id → t.queue.job? i = s.queue.job? i
  parked : t.queue.parked = s.queue.parked
  fullEvent : t.queue.fullEvent = none
  clock : t.loop.now = l.now
  timers : t.loop.timers = l.timers
  starts : t.starts = s.starts
  own : ∃ j, s.queue.job? id = some j ∧ t.queue.job? id = some (j.dropped l.now message) ∧
    t.queue.recorded = s.queue.recorded ++ [j.lapse l.now message] ∧ t.queue.store = s.queue.store.keep (j.lapse l.now message)

/-- Once all were told, the store takes the entry of the job. -/
theorem Departs.closing {j : Job} {store : Store} {b : Bool} (hl : s.queue.Limited) (hid : id ∈ s.queue.waiting)
    (hj : s.queue.job? id = some j) (htold : Spread .finished id b (s.leaving id (some message) l) t)
    (htaken : t.queue.store.record? (j.lapse l.now message) = some store) : Departs s id message l (t.closing id) := by
  obtain ⟨subscriptions, subscribed, brokenOff, htq⟩ := htold.queue
  have hk : t.queue.job? id = some (j.dropped l.now message) := by
    rw [htq]
    exact Queue.job?_update_self (q := s.queue.withdraw id) (by intro; rfl) hj
  obtain ⟨hqueue, hloop, hnotes⟩ := closing_taken hk htaken
  change _ = (t.queue.hand (j.lapse l.now message) (some store)).recover at hqueue
  -- One job less waits than before, so there is room, and a refusal is remembered no longer.
  have hroom : (t.queue.hand (j.lapse l.now message) (some store)).isFull = false := by
    have hshorter := List.length_erase_of_mem hid
    have hpos := List.length_pos_of_mem hid
    have hmax := hl.length
    refine isFull_false.mpr ?_
    rw [htq]
    change ((s.queue.waiting.erase id).length : Int) < s.queue.settings.maxQueueLength
    omega
  have hfinal : (t.closing id).queue = { t.queue.hand (j.lapse l.now message) (some store) with fullEvent := none } := by
    rw [hqueue, Queue.recover, hroom]
    rfl
  have hjob : ∀ i, (t.closing id).queue.job? i = (s.leaving id (some message) l).queue.job? i := fun i => by
    rw [hfinal, htq]
    rfl
  constructor
  case settings | waiting | active | parked => rw [hfinal, htq]; rfl
  case fullEvent => rw [hfinal]
  case others => exact fun i hi => (hjob i).trans (Queue.job?_update_ne (q := s.queue.withdraw id) (by intro; rfl) hi)
  case clock => rw [hloop, (Unbooked.spread htold).clock]; rfl
  case timers => rw [hloop, htold.timers]; rfl
  case starts => exact (starts_append hnotes).trans ((List.append_nil _).trans htold.hushed.starts)
  case own =>
    refine ⟨j, hj, (hjob id).trans (Queue.job?_update_self (q := s.queue.withdraw id) (by intro; rfl) hj), ?_, ?_⟩
    · rw [hfinal, htq]
      rfl
    · have hstore : t.queue.store = s.queue.store := by rw [htq]; rfl
      rw [Store.keep, ← hstore, htaken, hfinal]
      rfl

theorem unparking_queue (s : Scheduler) : ∃ parked, s.unparking.queue = { s.queue with parked := parked } := by
  unfold unparking
  split <;> exact ⟨_, rfl⟩

/-- A job that waits is dropped: all are told, and its entry is kept. -/
theorem drop_on (hf : Fit s) (hl : s.queue.Limited) (hid : id ∈ s.queue.waiting) (htakes : ∀ e, s.queue.store.record? e ≠ none)
    (depth : Nat) (hq : ((drop (notifyUpTo depth) id message).on { s with queue := s.queue.withdraw id, loop := l }).2.queue.Quiet)
    (hs : ((drop (notifyUpTo depth) id message).on { s with queue := s.queue.withdraw id, loop := l }).2.queue.Spares .finished) :
    ∃ t, (drop (notifyUpTo depth) id message).on { s with queue := s.queue.withdraw id, loop := l } = (.ok (), t) ∧
      Departs s id message l t := by
  obtain ⟨j, hj, hopen⟩ := hf.waits id hid
  obtain ⟨r, t, u, hr, htold, hu, hrec⟩ := finish_told (notifyUpTo_softly depth) (hf.withdraw id l) (hf.not_mem_withdraw id) hj hopen
    .canceled none none (some message)
  have hcancel : (cancel (notifyUpTo depth) id (some message)).on { s with queue := s.queue.withdraw id, loop := l } = (r, u) := hr
  have hlast : u.queue.listeners <+:
      ((drop (notifyUpTo depth) id message).on { s with queue := s.queue.withdraw id, loop := l }).2.queue.listeners := by
    rw [drop, Act.on_bind, hcancel]
    cases r with
    | error e => exact List.prefix_rfl
    | ok => exact (Inert.recover (s := u)).listeners
  have hrow : Unfolds none t u := hu.unfolds
  have hbefore := hrow.listeners.trans hlast
  have hspread := htold.2 (hq.before hbefore)
  have hunbroken := hspread.whole (hs.before hbefore)
  have hstore : t.queue.store = s.queue.store := by
    obtain ⟨_, _, _, htq⟩ := hspread.queue
    rw [htq]
    rfl
  have hk : t.queue.job? id = some (j.dropped l.now message) := by
    obtain ⟨_, _, _, htq⟩ := hspread.queue
    rw [htq]
    exact Queue.job?_update_self (q := s.queue.withdraw id) (by intro; rfl) hj
  -- Nobody was cut short, so the entry is handed to the store, which is still the one that refuses nothing.
  rw [hunbroken] at hu
  obtain rfl : u = t.recording id none := hu
  rcases record_cases (s := t) id none with ⟨hno, -⟩ | ⟨k, hk', ⟨store, htaken, hon⟩ | ⟨hrefused, -⟩⟩
  · cases hno.symm.trans hk
  · cases hk'.symm.trans hk
    refine ⟨t.closing id, ?_, .closing hl hid hj hspread htaken⟩
    have hok : r = .ok () := (hrec hunbroken).trans (congrArg Prod.fst hon)
    rw [drop, Act.on_bind_ok (hok ▸ hcancel), recording, closing, hon]
    rfl
  · exact absurd (hstore ▸ hrefused) (htakes _)

end Scheduler
end MediaEngine
