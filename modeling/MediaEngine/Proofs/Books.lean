import MediaEngine.Proofs.Steps

/-! # What the log tells of those who wait

The log tells of every job that it is queued, that it starts and that it has ended, and of every job that was
turned away. So who reads it can tell which jobs wait, and which refusal is the latest since fewer jobs waited
than may (`Ledger`). A part of a run keeps the books if the ledger agrees with the queue afterwards, read on
from where it agreed before (`Booked`). -/

namespace MediaEngine
open Job

/-- A note that a job is queued, starts, has ended, or was turned away. -/
def Queue.Note.isBooked : Queue.Note → Bool
  | .logged (.queued ..) => true
  | .logged (.started ..) => true
  | .logged (.finished ..) => true
  | .logged (.refused ..) => true
  | _ => false

/-- What the log tells of the jobs that wait: which they are, and the latest refusal since fewer waited than may. -/
structure Ledger where
  waiting : List JobId
  refusal : Option FullEvent

namespace Ledger

/-- The ledger once other jobs wait: the latest refusal counts no longer if there are fewer than may wait. -/
def turn (limit : Int) (l : Ledger) (waiting : List JobId) : Ledger :=
  ⟨waiting, if (waiting.length : Int) < limit then none else l.refusal⟩

/-- Reads one more note of this time. -/
def read (limit : Int) (now : Nat) (l : Ledger) : Queue.Note → Ledger
  | .logged (.queued _ job _) => l.turn limit (l.waiting ++ [job])
  | .logged (.started _ job _) => l.turn limit (l.waiting.erase job)
  | .logged (.finished _ job _ _) => l.turn limit (l.waiting.erase job)
  | .logged (.refused ..) => ⟨l.waiting, some ⟨.ofClock now, l.waiting.length⟩⟩
  | _ => l

/-- Reads more notes of this time. -/
def readAll (limit : Int) (now : Nat) (l : Ledger) (notes : List Queue.Note) : Ledger := notes.foldl (read limit now) l

variable {limit : Int} {now : Nat} {l : Ledger}

theorem read_other {n : Queue.Note} (h : n.isBooked = false) : l.read limit now n = l := by
  cases n with
  | told | heard | answered => rfl
  | logged line =>
    cases line with
    | asked | ended | listenerFailed => rfl
    | _ => cases h

theorem readAll_others {ns : List Queue.Note} (h : ∀ n ∈ ns, n.isBooked = false) : l.readAll limit now ns = l := by
  induction ns with
  | nil => rfl
  | cons n rest ih =>
    rw [readAll, List.foldl_cons, read_other (h n List.mem_cons_self)]
    exact ih fun n hn => h n (List.mem_cons_of_mem _ hn)

theorem readAll_append (ns ms : List Queue.Note) :
    l.readAll limit now (ns ++ ms) = (l.readAll limit now ns).readAll limit now ms := List.foldl_append

/-- The ledger tells which jobs wait, and which refusal the queue still remembers. It remembers one only while as many jobs
    wait as may, and then as many waited when the job was turned away. -/
structure Agrees (l : Ledger) (q : Queue) : Prop where
  waiting : l.waiting = q.waiting
  refusal : l.refusal = q.fullEvent
  within : (q.waiting.length : Int) ≤ q.settings.maxQueueLength
  full : ∀ e, q.fullEvent = some e →
    e.queuedJobs = q.settings.maxQueueLength ∧ (q.waiting.length : Int) = q.settings.maxQueueLength

/-- Other jobs wait, and the queue has forgotten a refusal if there are fewer than may wait. -/
theorem Agrees.turn {q r : Queue} (h : l.Agrees q) (hs : r.settings = q.settings)
    (hw : (r.waiting.length : Int) ≤ q.settings.maxQueueLength)
    (he : r.fullEvent = if (r.waiting.length : Int) < q.settings.maxQueueLength then none else q.fullEvent) :
    (l.turn q.settings.maxQueueLength r.waiting).Agrees r where
  waiting := rfl
  refusal := by rw [he, ← h.refusal]; rfl
  within := hs.symm ▸ hw
  full e hr := by
    rw [he] at hr
    split at hr
    · cases hr
    · rw [hs]
      exact ⟨(h.full e hr).1, by omega⟩

end Ledger

namespace Scheduler
variable {s t u : Scheduler} {id : JobId} {j : Job} {b : Bool}

/-! ## What is not in the books -/

/-- Nothing happens that is in the books. -/
structure Unbooked (s t : Scheduler) : Prop where
  clock : t.loop.now = s.loop.now
  settings : t.queue.settings = s.queue.settings
  waiting : t.queue.waiting = s.queue.waiting
  fullEvent : t.queue.fullEvent = s.queue.fullEvent
  notes : ∃ ns, t.notes = s.notes ++ ns ∧ ∀ n ∈ ns, n.isBooked = false

namespace Unbooked

theorem of_queue {q : Queue} {l : Loop TimerAction} {ts : List Task} (hn : l.now = s.loop.now)
    (hs : q.settings = s.queue.settings) (hw : q.waiting = s.queue.waiting) (he : q.fullEvent = s.queue.fullEvent) :
    Unbooked s { s with queue := q, loop := l, tasks := ts } :=
  ⟨hn, hs, hw, he, [], (List.append_nil _).symm, fun _ h => absurd h List.not_mem_nil⟩

theorem refl (s : Scheduler) : Unbooked s s := of_queue rfl rfl rfl rfl

theorem noted {n : Queue.Note} (h : n.isBooked = false) : Unbooked s (s.noted n) :=
  ⟨rfl, rfl, rfl, rfl, [n], rfl, fun _ hm => List.mem_singleton.mp hm ▸ h⟩

theorem trans (h₁ : Unbooked s t) (h₂ : Unbooked t u) : Unbooked s u := by
  obtain ⟨ns, hns, hb⟩ := h₁.notes
  obtain ⟨ms, hms, hb'⟩ := h₂.notes
  refine ⟨h₂.clock.trans h₁.clock, h₂.settings.trans h₁.settings, h₂.waiting.trans h₁.waiting,
    h₂.fullEvent.trans h₁.fullEvent, ns ++ ms, by rw [hms, hns, List.append_assoc], fun n hn => ?_⟩
  exact (List.mem_append.mp hn).elim (hb n) (hb' n)

theorem touch (h : Touch s t) : Unbooked s t := by
  cases h with
  | @noted n h =>
    refine noted ?_
    cases n with
    | told | answered | heard => rfl
    | logged line =>
      cases line with
      | refused | queued | started | finished => cases h
      | asked | ended | listenerFailed => rfl
  | tune | openGate | subscribe | unsubscribe | countFiring | draw => exact of_queue rfl rfl rfl rfl

theorem touches (h : Touches s t) : Unbooked s t := by
  induction h with
  | refl => exact refl s
  | tail _ h ih => exact ih.trans (touch h)

theorem informed (event : Event) (index : Nat) : Unbooked s (s.informed event index) := by
  unfold Scheduler.informed
  split
  · exact refl s
  · split
    · exact refl s
    · exact noted rfl

theorem breakOff (event : Event) : Unbooked s (s.mapQueue (·.breakOff event)) := by
  obtain ⟨ids, hq, -⟩ := s.queue.breakOff_eq event
  rw [mapQueue, hq]
  exact of_queue rfl rfl rfl rfl

theorem spreads {event : Event} {indices : List Nat} (h : Spreads event indices b s t) : Unbooked s t := by
  induction h with
  | done => exact refl _
  | next ht _ ih => exact ((informed _ _).trans (touches ht.touches)).trans ih
  | cut ht => exact ((informed _ _).trans (touches ht.touches)).trans (breakOff _)

theorem spread {kind : EventKind} (h : Spread kind id b s t) : Unbooked s t := by
  cases hj : s.queue.job? id with
  | none => exact h.unknown hj ▸ refl s
  | some j => exact spreads (h.known j hj)

theorem signalling (s : Scheduler) (id : JobId) (reason : Option String) : Unbooked s (s.signalling id reason) := by
  unfold Scheduler.signalling
  rcases signalToken_eq (s := s) id reason with ⟨h, -⟩ | ⟨j, -, -, h⟩ <;> rw [h]
  · exact refl s
  · refine ⟨rfl, rfl, rfl, rfl, _, rfl, fun n hn => ?_⟩
    obtain ⟨c, -, rfl⟩ := List.mem_map.mp hn
    rfl

theorem halted (h : Halted id b s t) : Unbooked s t := by
  cases b <;> cases h
  · exact (signalling s id _).trans (noted rfl)
  · exact refl s

theorem spawned (h : Spawned id b s t) : Unbooked s t := by
  cases b <;> cases h
  · exact of_queue rfl rfl rfl rfl
  · exact refl s

theorem unparking (s : Scheduler) : Unbooked s s.unparking := by
  unfold Scheduler.unparking
  split
  · exact of_queue rfl rfl rfl rfl
  · exact refl s

theorem pausing (s : Scheduler) (task : TaskId) (pause : Pause) (phase : Phase) :
    Unbooked s (s.pausing task id pause phase) := by
  cases pause <;> exact of_queue rfl rfl rfl rfl

theorem idling (s : Scheduler) (task : TaskId) (name : String) (parked killed : Bool) :
    Unbooked s (s.idling task name parked killed) := by
  have hretire : Unbooked s (s.retire task) := of_queue rfl rfl rfl rfl
  rcases idling_cases s task name parked killed with ⟨-, h⟩ | ⟨-, -, h⟩ | ⟨-, -, -, h⟩ <;> rw [h]
  · exact hretire
  · exact hretire.trans (noted rfl)
  · exact of_queue rfl rfl rfl rfl

theorem kills {task : TaskId} (h : Kills task s t) : Unbooked s t := by
  have hdoomed : Unbooked s (s.doomed task) := of_queue rfl rfl rfl rfl
  cases h with
  | ready => exact hdoomed
  | @waiting x a =>
    have hwithdrawn : Unbooked (s.doomed task) ((s.doomed task).withdrawn task a) := by
      cases a <;> exact of_queue rfl rfl rfl rfl
    exact (hdoomed.trans hwithdrawn).trans (of_queue rfl rfl rfl rfl)

end Unbooked

/-! ## What is in the books -/

/-- The books are kept: the ledger agrees with the queue, if it did before and is read on. -/
structure Booked (s t : Scheduler) : Prop where
  clock : t.loop.now = s.loop.now
  settings : t.queue.settings = s.queue.settings
  notes : ∃ ns, t.notes = s.notes ++ ns ∧
    ∀ l : Ledger, l.Agrees s.queue → (l.readAll s.queue.settings.maxQueueLength s.loop.now ns).Agrees t.queue

namespace Booked

theorem of_unbooked (h : Unbooked s t) : Booked s t := by
  obtain ⟨ns, hns, hb⟩ := h.notes
  refine ⟨h.clock, h.settings, ns, hns, fun l hl => ?_⟩
  rw [Ledger.readAll_others hb]
  exact ⟨hl.waiting.trans h.waiting.symm, hl.refusal.trans h.fullEvent.symm, by rw [h.waiting, h.settings]; exact hl.within,
    by rw [h.waiting, h.settings, h.fullEvent]; exact hl.full⟩

theorem refl (s : Scheduler) : Booked s s := of_unbooked (.refl s)

theorem trans (h₁ : Booked s t) (h₂ : Booked t u) : Booked s u := by
  obtain ⟨ns, hns, hl⟩ := h₁.notes
  obtain ⟨ms, hms, hl'⟩ := h₂.notes
  refine ⟨h₂.clock.trans h₁.clock, h₂.settings.trans h₁.settings, ns ++ ms, by rw [hms, hns, List.append_assoc],
    fun l h => ?_⟩
  rw [h₁.settings, h₁.clock] at hl'
  rw [Ledger.readAll_append]
  exact hl' _ (hl l h)

/-- One note is added for what happens to the queue. -/
theorem one {q : Queue} {l : Loop TimerAction} {n : Queue.Note} (hn : l.now = s.loop.now) (hs : q.settings = s.queue.settings)
    (hl : ∀ l : Ledger, l.Agrees s.queue → (l.read s.queue.settings.maxQueueLength s.loop.now n).Agrees q) :
    Booked s (noted { s with queue := q, loop := l } n) :=
  ⟨hn, hs, [n], rfl, hl⟩

theorem refusing (submission : Submission) (hf : s.queue.isFull = true) : Booked s (s.refusing submission) := by
  have hge : s.queue.settings.maxQueueLength ≤ (s.queue.waiting.length : Int) := of_decide_eq_true hf
  refine one (q := s.queue.refuse s.loop.now) (l := s.loop) rfl rfl fun l hl => ?_
  have hlen := Int.le_antisymm hl.within hge
  refine ⟨hl.waiting, by rw [Ledger.read, hl.waiting]; rfl, hl.within, fun e he => ?_⟩
  cases he
  exact ⟨hlen, hlen⟩

theorem admitting (submission : Submission) (progress : Progress) (hf : s.queue.isFull = false) :
    Booked s (s.admitting submission progress) := by
  have hlt := isFull_false.mp hf
  refine one (q := s.queue.draw.enlist (.admitted s.queue.nextId submission progress)) (l := s.loop) rfl rfl fun l hl => ?_
  -- A further job may wait, and so no refusal is remembered.
  have hnone : s.queue.fullEvent = none := Option.eq_none_iff_forall_ne_some.mpr fun e he => by
    have := (hl.full e he).2
    omega
  rw [Ledger.read, hl.waiting]
  refine hl.turn (r := s.queue.draw.enlist (.admitted s.queue.nextId submission progress)) rfl ?_ ?_
  · change ((s.queue.waiting ++ [_]).length : Int) ≤ _
    rw [List.length_append, List.length_singleton]
    omega
  · change s.queue.fullEvent = _
    rw [hnone]
    split <;> rfl

theorem recover_fullEvent (q : Queue) :
    q.recover.fullEvent = if (q.waiting.length : Int) < q.settings.maxQueueLength then none else q.fullEvent := by
  unfold Queue.recover
  cases hf : q.isFull with
  | true =>
    have hge : q.settings.maxQueueLength ≤ (q.waiting.length : Int) := of_decide_eq_true hf
    rw [if_pos rfl, if_neg (Int.not_lt.mpr hge)]
  | false => rw [if_neg (by decide), if_pos (isFull_false.mp hf)]

theorem taking {q : Queue} (hq : s.queue.startNext? = some (id, q)) : Booked s (s.taking id q) := by
  obtain ⟨-, rest, hw, rfl⟩ := Queue.startNext?_eq hq
  obtain ⟨e, he⟩ := Queue.recover_eq { s.queue with waiting := rest }
  have hrecover := recover_fullEvent { s.queue with waiting := rest }
  rw [he] at hrecover
  unfold Scheduler.taking
  rw [he]
  refine one (l := s.loop.disarm (.expire id)) rfl rfl fun l hl => ?_
  rw [Ledger.read, hl.waiting, hw, List.erase_cons_head]
  refine hl.turn (r := Queue.activate { s.queue with waiting := rest, fullEvent := e } id s.loop.now) rfl ?_ hrecover
  have := hl.within
  rw [hw, List.length_cons] at this
  change (rest.length : Int) ≤ _
  omega

/-- The entry of a job that did not wait. -/
theorem recorded {path : Option String} (hid : id ∉ s.queue.waiting) (h : Recorded id path b s t) : Booked s t := by
  cases b <;> cases h
  · unfold Scheduler.recording
    rcases record_cases (s := s) id path with ⟨-, h⟩ | ⟨j, -, ⟨store, -, h⟩ | ⟨-, h⟩⟩ <;> rw [h]
    · exact refl s
    · refine one (q := s.queue.hand (j.entry path) (some store)) (l := s.loop) rfl rfl fun l hl => ?_
      rw [Ledger.read, hl.waiting, List.erase_of_not_mem hid]
      refine hl.turn (r := s.queue.hand (j.entry path) (some store)) rfl hl.within ?_
      change s.queue.fullEvent = _
      split
      · refine Option.eq_none_iff_forall_ne_some.mpr fun e he => ?_
        have := (hl.full e he).2
        rename_i hlt
        change (s.queue.waiting.length : Int) < _ at hlt
        omega
      · rfl
    · exact of_unbooked (.of_queue rfl rfl rfl rfl)
  · exact refl s

end Booked

end Scheduler

end MediaEngine
