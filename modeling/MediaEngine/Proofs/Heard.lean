import MediaEngine.Proofs.Steps

/-! # What a listener hears

What a listener was told is noted under its name. An event that spreads is heard once by everyone who is
subscribed, as long as nobody is cut short (`Spread.heard`); whatever else scripts, commands and tasks do lets nobody
hear anything (`Mute`). -/

namespace MediaEngine
open Job

/-- What is told of a job by an event, if it is an event of this job. -/
def Job.Event.of? (id : JobId) (event : Event) : Option (EventKind × Status) :=
  if event.snapshot.id = id then some (event.kind, event.snapshot.status) else none

namespace Queue

/-- The event that was heard under a name. -/
def Note.heardBy? (who : String) : Note → Option Event
  | .heard name event => if name = who then some event else none
  | _ => none

theorem Note.heardBy?_faint {n : Note} (h : n.isFaint = true) (who : String) : n.heardBy? who = none := by
  cases n with
  | heard => cases h
  | _ => rfl

/-- Everyone who is subscribed is so once, by one of the subscriptions there were. -/
structure Enrolled (q : Queue) : Prop where
  once : q.subscribed.Nodup
  known : ∀ i ∈ q.subscribed, i < q.listeners.length

/-- No listener is forgotten, and a subscription that has ended is not taken up again. -/
structure Rolls (q r : Queue) : Prop where
  listeners : q.listeners <+: r.listeners
  enrolled : q.Enrolled → r.Enrolled
  subscribed : ∀ i < q.listeners.length, i ∈ r.subscribed → i ∈ q.subscribed

/-- The listener of a subscription, if there is one, is the only one of its name, and what it hears is noted. -/
structure Audible (q : Queue) (who : String) (k : Nat) : Prop where
  named : ∀ i l, q.listeners[i]? = some l → (l.name = who ↔ i = k)
  loud : ∀ l, q.listeners[k]? = some l → l.quiet = false

variable {q r o : Queue} {who : String} {k : Nat}

theorem Audible.before (h : r.Audible who k) (hp : q.listeners <+: r.listeners) : q.Audible who k := by
  obtain ⟨ls, hls⟩ := hp
  have later : ∀ {i l}, q.listeners[i]? = some l → r.listeners[i]? = some l := fun hl =>
    hls ▸ (List.getElem?_append_left (List.getElem?_eq_some_iff.mp hl).1).trans hl
  exact ⟨fun i l hl => h.named i l (later hl), fun l hl => h.loud l (later hl)⟩

namespace Rolls

theorem of_eq (hs : r.subscriptions = q.subscriptions) (hi : r.subscribed = q.subscribed) : q.Rolls r := by
  have hl : r.listeners = q.listeners := congrArg (List.map Subscription.listener) hs
  refine ⟨hl ▸ List.prefix_rfl, fun h => ⟨hi ▸ h.once, fun i hm => ?_⟩, fun _ _ hm => hi ▸ hm⟩
  rw [hl]
  exact h.known i (hi ▸ hm)

theorem refl (q : Queue) : q.Rolls q := of_eq rfl rfl

theorem trans (h₁ : q.Rolls r) (h₂ : r.Rolls o) : q.Rolls o where
  listeners := h₁.listeners.trans h₂.listeners
  enrolled h := h₂.enrolled (h₁.enrolled h)
  subscribed i hi hm := h₁.subscribed i hi (h₂.subscribed i (Nat.lt_of_lt_of_le hi h₁.listeners.length_le) hm)

theorem subscribe (q : Queue) (listener : Listener) : q.Rolls (q.subscribe listener) := by
  have hl : (q.subscribe listener).listeners = q.listeners ++ [listener] := by simp [Queue.listeners, Queue.subscribe]
  have hlen : q.subscriptions.length = q.listeners.length := by simp [Queue.listeners]
  refine ⟨⟨[listener], hl.symm⟩, fun h => ⟨?_, fun i hi => ?_⟩, fun i hi hm => ?_⟩
  · refine List.nodup_append.mpr ⟨h.once, List.nodup_singleton _, fun i hi k hk => ?_⟩
    have := h.known i hi
    have := List.mem_singleton.mp hk
    omega
  · rw [hl, List.length_append, List.length_singleton]
    rcases List.mem_append.mp hi with hi | hi
    · exact Nat.lt_succ_of_lt (h.known i hi)
    · have := List.mem_singleton.mp hi
      omega
  · rcases List.mem_append.mp hm with hm | hm
    · exact hm
    · have := List.mem_singleton.mp hm
      omega

theorem unsubscribe (q : Queue) (index : Nat) : q.Rolls (q.unsubscribe index) :=
  ⟨List.prefix_rfl, fun h => ⟨h.once.erase index, fun i hi => h.known i (List.mem_of_mem_erase hi)⟩, fun _ _ => List.mem_of_mem_erase⟩

theorem countFiring (q : Queue) (index : Nat) : q.Rolls (q.countFiring index) := by
  have hl : (q.countFiring index).listeners = q.listeners := listeners_countFiring q index
  refine ⟨hl ▸ List.prefix_rfl, fun h => ⟨h.once, fun i hi => ?_⟩, fun _ _ h => h⟩
  rw [hl]
  exact h.known i hi

end Rolls

end Queue

namespace Scheduler
variable {s t u : Scheduler} {id : JobId} {b : Bool} {who : String} {k : Nat} {kind : EventKind} {event : Event}

/-- The events that were heard under a name, in order. -/
def hearings (s : Scheduler) (who : String) : List Event := s.notes.filterMap (Queue.Note.heardBy? who)

/-- What was heard under a name of a job, in order: what happened, and the status of the job. -/
def streamed (s : Scheduler) (who : String) (id : JobId) : List (EventKind × Status) := (s.hearings who).filterMap (Event.of? id)

/-- A listener is subscribed that is known by its name, and no listener that ever subscribed may be cut short. -/
structure Listens (s : Scheduler) (who : String) (k : Nat) : Prop where
  gentle : s.queue.Gentle
  audible : s.queue.Audible who k
  subscribed : k ∈ s.queue.subscribed

theorem Listens.before (h : t.Listens who k) (hr : s.queue.Rolls t.queue) (hk : k < s.queue.listeners.length) : s.Listens who k :=
  ⟨h.gentle.before hr.listeners, h.audible.before hr.listeners, hr.subscribed k hk h.subscribed⟩

theorem hearings_append {ns : List Queue.Note} (h : t.notes = s.notes ++ ns) (who : String) :
    t.hearings who = s.hearings who ++ ns.filterMap (Queue.Note.heardBy? who) := by
  rw [hearings, h, List.filterMap_append, hearings]

theorem streamed_congr (h : t.hearings who = s.hearings who) (id : JobId) : t.streamed who id = s.streamed who id := by
  rw [streamed, h, streamed]

/-! ## What lets nobody hear anything -/

/-- Nobody hears anything, and every job stays where it is. -/
structure Mute (s t : Scheduler) : Prop where
  jobs : List.Forall₂ Tuned s.queue.jobs t.queue.jobs
  rolls : s.queue.Rolls t.queue
  hearings : ∀ who, t.hearings who = s.hearings who

namespace Mute

theorem trans (h₁ : Mute s t) (h₂ : Mute t u) : Mute s u :=
  ⟨Queue.tuned_trans h₁.jobs h₂.jobs, h₁.rolls.trans h₂.rolls, fun who => (h₂.hearings who).trans (h₁.hearings who)⟩

theorem of_queue (hq : t.queue = s.queue) (hn : t.notes = s.notes) : Mute s t where
  jobs := hq ▸ Queue.tuned_refl _
  rolls := hq ▸ .refl _
  hearings who := by rw [Scheduler.hearings, hn, Scheduler.hearings]

theorem refl (s : Scheduler) : Mute s s := of_queue rfl rfl

theorem mapQueue {f : Queue → Queue} (hj : List.Forall₂ Tuned s.queue.jobs (f s.queue).jobs) (hr : s.queue.Rolls (f s.queue)) :
    Mute s (s.mapQueue f) := ⟨hj, hr, fun _ => rfl⟩

/-- A change of the queue that concerns neither its jobs nor its subscriptions. -/
theorem besides {f : Queue → Queue} (hj : (f s.queue).jobs = s.queue.jobs) (hs : (f s.queue).subscriptions = s.queue.subscriptions)
    (hi : (f s.queue).subscribed = s.queue.subscribed) : Mute s (s.mapQueue f) :=
  mapQueue (hj ▸ Queue.tuned_refl _) (.of_eq hs hi)

theorem update {f : Job → Job} (hf : ∀ j, Tuned j (f j)) : Mute s (s.mapQueue (·.update id f)) :=
  mapQueue (Queue.tuned_update fun j _ _ => hf j) (.of_eq rfl rfl)

theorem notes {ns : List Queue.Note} (h : ∀ n ∈ ns, ∀ who, n.heardBy? who = none) : Mute s { s with notes := s.notes ++ ns } where
  __ := refl s
  hearings who := by
    rw [hearings_append rfl, List.filterMap_eq_nil_iff.mpr fun n hn => h n hn who, List.append_nil]

theorem noted {n : Queue.Note} (h : ∀ who, n.heardBy? who = none) : Mute s (s.noted n) :=
  notes fun _ hm => List.mem_singleton.mp hm ▸ h

theorem touch (h : Touch s t) : Mute s t := by
  cases h with
  | noted h => exact noted (Queue.Note.heardBy?_faint h)
  | tune id h => exact update fun j => (h j).tuned
  | openGate => exact of_queue rfl rfl
  | subscribe listener => exact mapQueue (Queue.tuned_refl _) (.subscribe _ listener)
  | unsubscribe index => exact mapQueue (Queue.tuned_refl _) (.unsubscribe _ index)
  | countFiring index => exact mapQueue (Queue.tuned_refl _) (.countFiring _ index)
  | draw => exact besides rfl rfl rfl

theorem touches (h : Touches s t) : Mute s t := by
  induction h with
  | refl => exact refl s
  | tail _ h ih => exact ih.trans (touch h)

theorem signalling (hf : Fit s) (id : JobId) (reason : Option String) : Mute s (s.signalling id reason) := by
  have hjobs := (signalling_signals hf id reason).jobs
  unfold Scheduler.signalling at hjobs ⊢
  rcases signalToken_eq (s := s) id reason with ⟨h, -⟩ | ⟨j, -, -, h⟩ <;> rw [h] at hjobs ⊢
  · exact refl s
  · have hnotes : Mute s { s with notes := s.notes ++ called j.token.callbacks reason } :=
      notes fun n hn => Queue.Note.heardBy?_faint (called_faint _ _ n hn)
    exact ⟨hjobs, .of_eq rfl rfl, hnotes.hearings⟩

theorem halted (hf : Fit s) (h : Halted id b s t) : Mute s t := by
  cases b <;> cases h
  · exact (signalling hf id _).trans (noted fun _ => rfl)
  · exact refl s

theorem unparking (s : Scheduler) : Mute s s.unparking := by
  unfold Scheduler.unparking
  split
  · have hpark : Mute s (s.mapQueue fun q => { q with parked := [] }) := besides rfl rfl rfl
    exact hpark.trans (of_queue rfl rfl)
  · exact refl s

theorem recording (id : JobId) (path : Option String) : Mute s (s.recording id path) := by
  unfold Scheduler.recording
  rcases record_cases (s := s) id path with ⟨-, h⟩ | ⟨j, -, ⟨store, -, h⟩ | ⟨-, h⟩⟩ <;> rw [h]
  · exact refl s
  · have hhand : Mute s (s.mapQueue (·.hand (j.entry path) (some store))) := besides rfl rfl rfl
    exact hhand.trans (noted fun _ => rfl)
  · have hhand : Mute s (s.mapQueue (·.hand (j.entry path) none)) := besides rfl rfl rfl
    exact hhand

theorem recorded {path : Option String} (h : Recorded id path b s t) : Mute s t := by
  cases b <;> cases h
  · exact recording id path
  · exact refl s

theorem closes (h : Closes id b s t) : Mute s t := by
  cases b <;> cases h
  · have hrecord : Mute s (s.recording id none) := recording id none
    unfold Scheduler.recording at hrecord
    unfold Scheduler.closing
    rcases hr : (record id none).on s with ⟨e | ⟨⟩, t⟩ <;> rw [hr] at hrecord
    · exact hrecord
    · obtain ⟨e, he⟩ := t.queue.recover_eq
      exact hrecord.trans (besides (by rw [he]) (by rw [he]) (by rw [he]))
  · exact refl s

theorem spawned (h : Spawned id b s t) : Mute s t := by
  cases b <;> cases h
  · exact of_queue rfl rfl
  · exact refl s

theorem refusing (submission : Submission) : Mute s (s.refusing submission) := by
  have hrefuse : Mute s (s.mapQueue (·.refuse s.loop.now)) := besides rfl rfl rfl
  exact hrefuse.trans (noted fun _ => rfl)

/-- Taking the slot away from a job is heard by nobody. -/
theorem release (id : JobId) : Mute s (s.mapQueue (·.release id)) := besides rfl rfl rfl

theorem pausing (task : TaskId) (id : JobId) (pause : Pause) (phase : Phase) : Mute s (s.pausing task id pause phase) := by
  cases pause with
  | turn | sleep | gate => exact of_queue rfl rfl
  | token =>
    have hpark : Mute s (s.mapQueue (·.update id fun j => { j with token := j.token.park task })) := update fun j =>
      { Tuned.refl j with signalled := fun h => h, reason := fun _ => rfl }
    exact hpark.trans (of_queue rfl rfl)

theorem idling (task : TaskId) (name : String) (parked killed : Bool) : Mute s (s.idling task name parked killed) := by
  rcases idling_cases s task name parked killed with ⟨-, h⟩ | ⟨-, -, h⟩ | ⟨-, -, -, h⟩ <;> rw [h]
  · exact of_queue rfl rfl
  · exact (of_queue rfl rfl : Mute s (s.retire task)).trans (noted fun _ => rfl)
  · exact ⟨Queue.tuned_refl _, .of_eq rfl rfl, fun _ => rfl⟩

theorem withdrawn (task : TaskId) (a : Await) : Mute s (s.withdrawn task a) := by
  cases a with
  | gate | timer => exact of_queue rfl rfl
  | token id => exact update fun j => { Tuned.refl j with signalled := fun h => h, reason := fun _ => rfl }
  | idle =>
    have hpark : Mute s (s.mapQueue fun q => { q with parked := q.parked.erase task }) := besides rfl rfl rfl
    exact hpark

theorem kills {task : TaskId} (h : Kills task s t) : Mute s t := by
  cases h with
  | ready => exact of_queue rfl rfl
  | @waiting x a =>
    have hdoom : Mute s (s.doomed task) := of_queue rfl rfl
    exact (hdoom.trans (withdrawn task a)).trans (of_queue rfl rfl)

end Mute

/-! ## Telling listeners -/

/-- One of the listeners is told: whoever is known by the name hears it, and nobody else does. -/
theorem informed_hearings (h : s.queue.Audible who k) (hk : k < s.queue.listeners.length) (event : Event) (index : Nat) :
    (s.informed event index).hearings who = s.hearings who ++ List.replicate ([index].count k) event := by
  have hlistener : ∀ sub, s.queue.subscriptions[index]? = some sub → s.queue.listeners[index]? = some sub.listener := fun sub hsub => by
    rw [Queue.listeners, List.getElem?_map, hsub]
    rfl
  have apart : index ≠ k → s.hearings who = s.hearings who ++ List.replicate ([index].count k) event := fun hne => by
    rw [List.count_eq_zero.mpr fun h => hne (List.mem_singleton.mp h).symm, List.replicate_zero, List.append_nil]
  unfold informed
  split
  · rename_i hnone
    refine apart fun he => ?_
    rw [← he, Queue.listeners, List.length_map] at hk
    exact absurd hk (Nat.not_lt.mpr (List.getElem?_eq_none_iff.mp hnone))
  · rename_i sub hsub
    have hname := h.named index sub.listener (hlistener sub hsub)
    split
    · rename_i hquiet
      refine apart fun he => ?_
      rw [h.loud sub.listener (he ▸ hlistener sub hsub)] at hquiet
      cases hquiet
    · by_cases he : index = k
      · rw [he, List.count_singleton_self, hearings_append rfl]
        simp [Queue.Note.heardBy?, hname.mpr he]
      · have hother : sub.listener.name ≠ who := fun hw => he (hname.mp hw)
        refine .trans ?_ (apart he)
        rw [hearings_append rfl]
        simp [Queue.Note.heardBy?, hother]

/-- Telling one listener changes nothing but what was heard. -/
theorem informed_rolls (s : Scheduler) (event : Event) (index : Nat) : s.queue.Rolls (s.informed event index).queue := by
  rw [informed_queue]
  exact .refl _

end Scheduler

open Scheduler in
/-- An event that spreads to all who are to be told is heard by each as often as it is to be told. -/
theorem Spreads.heard {event : Event} {indices : List Nat} {b : Bool} {s t : Scheduler} (h : Spreads event indices b s t) (hb : b = false)
    {who : String} {k : Nat} (ha : t.queue.Audible who k) (hk : k < s.queue.listeners.length) :
    s.queue.Rolls t.queue ∧ t.hearings who = s.hearings who ++ List.replicate (indices.count k) event := by
  induction h with
  | done => exact ⟨.refl _, (List.append_nil _).symm⟩
  | @next index rest b s t u ht hrest ih =>
    have hmute := Mute.touches ht.touches
    have hrolls : s.queue.Rolls t.queue := (informed_rolls s event index).trans hmute.rolls
    obtain ⟨hrolls', hheard⟩ := ih hb ha (Nat.lt_of_lt_of_le hk hrolls.listeners.length_le)
    have hs := ha.before (hrolls.trans hrolls').listeners
    refine ⟨hrolls.trans hrolls', ?_⟩
    rw [hheard, hmute.hearings, informed_hearings hs hk, List.append_assoc, List.replicate_append_replicate, ← List.count_append]
    rfl
  | cut => cases hb

namespace Scheduler
variable {s t u : Scheduler} {id : JobId} {b : Bool} {who : String} {k : Nat} {kind : EventKind} {j : Job}

/-- One who listens hears an event that is told of a job, once. -/
theorem heard_of_spread (h : Spread kind id b s t) (he : s.queue.Enrolled) (hk : k < s.queue.listeners.length) (hl : t.Listens who k)
    (hj : s.queue.job? id = some j) : s.queue.Rolls t.queue ∧ t.hearings who = s.hearings who ++ [⟨kind, j.snapshot⟩] := by
  obtain ⟨hrolls, hheard⟩ := (h.known j hj).heard (h.whole (hl.gentle.spares _)) hl.audible hk
  rw [List.count_eq_one_of_mem he.once (hrolls.subscribed k hk hl.subscribed)] at hheard
  exact ⟨hrolls, hheard⟩

end Scheduler
end MediaEngine
