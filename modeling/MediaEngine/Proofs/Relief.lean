import MediaEngine.Proofs.Losses
import MediaEngine.Proofs.Steps

/-! # Relief

Between two steps of a run nobody waits for the queue to be idle while it is (`Relieved`), unless the end of a
job was mislaid. While jobs that wait are cancelled this does not hold: the queue may be idle before those go on
who wait for that. So it is shown of whole operations, and not of their parts. -/

namespace MediaEngine
open Job

namespace Scheduler
variable {s t u : Scheduler} {id : JobId} {b : Bool}

/-- Nobody waits for the queue to be idle while it is. -/
def Relieved (s : Scheduler) : Prop := s.queue.isIdle = true → s.queue.parked = []

/-- If nobody waits in vain before, nobody does afterwards, unless the end of a job is mislaid. -/
def Relieves (s t : Scheduler) : Prop := InOrder s → s.Relieved → t.Relieved ∨ ∃ id, t.Mislaid id

/-! ## Parts of operations -/

theorem Relieved.of_same (h : s.Relieved) (hw : t.queue.waiting = s.queue.waiting) (ha : t.queue.active = s.queue.active)
    (hp : t.queue.parked = s.queue.parked) : t.Relieved := by
  unfold Relieved Queue.isIdle at h ⊢
  rwa [hw, ha, hp]

theorem Relieved.of_active (h : id ∈ s.queue.active) : s.Relieved := fun hidle => by
  rw [Queue.isIdle, Bool.and_eq_true] at hidle
  rw [List.isEmpty_iff.mp hidle.1] at h
  cases h

theorem Relieved.of_waiting (h : id ∈ s.queue.waiting) : s.Relieved := fun hidle => by
  rw [Queue.isIdle, Bool.and_eq_true] at hidle
  rw [List.isEmpty_iff.mp hidle.2] at h
  cases h

/-- Whoever waits for the queue to be idle goes on if it is. -/
theorem Relieved.unparking (s : Scheduler) : s.unparking.Relieved := by
  unfold Relieved Scheduler.unparking
  split
  · exact fun _ => rfl
  · rename_i hbusy
    exact fun h => absurd h hbusy

namespace Relieves

theorem of_relieved (h : t.Relieved) : Relieves s t := fun _ _ => .inl h

theorem of_same (hw : t.queue.waiting = s.queue.waiting) (ha : t.queue.active = s.queue.active)
    (hp : t.queue.parked = s.queue.parked) : Relieves s t := fun _ h => .inl (h.of_same hw ha hp)

theorem of_queue (h : t.queue = s.queue) : Relieves s t := of_same (congrArg _ h) (congrArg _ h) (congrArg _ h)

theorem trans (h₁ : Relieves s t) (hst : Moments s t) (h₂ : Relieves t u) (htu : Moments t u) : Relieves s u := fun ho hr => by
  have ho' := ho.moments hst
  rcases h₁ ho hr with h | ⟨id, h⟩
  · exact h₂ ho' h
  · exact .inr ⟨id, ho'.mislaid htu h⟩

theorem touch (h : Touch s t) : Relieves s t := by
  refine of_same h.inert.waiting h.inert.active ?_
  cases h with
  | noted | tune | openGate | subscribe | unsubscribe | countFiring | draw => rfl

theorem signalling (hf : Fit s) (id : JobId) (reason : Option String) : Relieves s (s.signalling id reason) := by
  have hsignals := signalling_signals hf id reason
  refine of_same hsignals.waiting hsignals.active ?_
  unfold Scheduler.signalling
  rcases signalToken_eq (s := s) id reason with ⟨h, -⟩ | ⟨j, -, -, h⟩
  · rw [h]
  · rw [h]
    rfl

theorem halted (hf : Fit s) (h : Halted id b s t) : Relieves s t := by
  cases b <;> cases h
  · exact signalling hf id _
  · exact of_queue rfl

theorem informed (s : Scheduler) (event : Event) (index : Nat) : Relieves s (s.informed event index) :=
  of_queue (informed_queue s event index)

theorem breakOff (s : Scheduler) (event : Event) : Relieves s (s.mapQueue (·.breakOff event)) := by
  obtain ⟨ids, hq, -⟩ := s.queue.breakOff_eq event
  rw [mapQueue, hq]
  exact of_same rfl rfl rfl

end Relieves

/-! ## Operations -/

instance : Traces fun (_ : Bool) s t => Unfolds none s t ∧ Relieves s t where
  fit h := h.1.fit
  active h := h.1.active
  refl := ⟨.refl, .of_queue rfl⟩
  touch h := ⟨.inert h.inert, .touch h⟩
  signal hf hid := ⟨.one (.signal hid (signalling_signals hf _ _)), .signalling hf _ _⟩
  halt := ⟨.refl, .of_queue rfl⟩
  trans h₁ h₂ := ⟨h₁.1.trans h₂.1, h₁.2.trans h₁.1.moments h₂.2 h₂.1.moments⟩

instance : Asks (Along fun _ _ _ => Relieves) fun (_ : Bool) s t => Unfolds none s t ∧ Relieves s t where
  ask {b s t u id j} hf hid hj hst hst' h hu := by
    have hshow : Unfolds none s (s.showing id .cancelling) := showing_unfolds hid hj hst hst'
    have hrow : Unfolds none s t := hshow.trans h.1
    have hhalt : Unfolds none t u := hu.unfolds (hrow.fit hf) (hrow.active hid)
    have hshown : Relieves s (s.showing id .cancelling) := .of_same rfl rfl rfl
    exact ⟨hrow.trans hhalt, (hshown.trans hshow.moments h.2 h.1.moments).trans hrow.moments (.halted (hrow.fit hf) hu) hhalt.moments⟩

instance : Enlists (Along fun _ _ _ => Relieves) fun (_ : Bool) s t => Unfolds none s t ∧ Relieves s t where
  refuse submission _ := ⟨.inert ((Inert.refuse _).trans (.noted rfl rfl)), .of_same rfl rfl rfl⟩
  enter {b s t submission progress} _ hf h := by
    have hentered : Unfolds none s (s.admitting submission progress) := admitting_unfolds submission progress hf
    have hwaits : s.queue.nextId ∈ (s.admitting submission progress).queue.waiting :=
      List.mem_append_right _ (List.mem_singleton_self s.queue.nextId)
    exact ⟨hentered.trans h.1, Relieves.trans (.of_relieved (.of_waiting hwaits)) hentered.moments h.2 h.1.moments⟩
  arm hx := ⟨.one (.arm hx), .of_queue rfl⟩
  start {b s t u id q} _ hq h hu := by
    have htaken : Unfolds none s t := .head (.take hq) h.1
    have hactive : id ∈ t.queue.active := Unfolds.active h.1 (mem_taking hq)
    have hspawn : Unfolds none t u := hu.unfolds hactive
    exact ⟨htaken.trans hspawn, .of_relieved (.of_active (hspawn.active hactive))⟩

section Operations
variable {notify : Notify}

/-- All that wait are cancelled, and then those go on who wait for the queue to be idle; or the end of a job is mislaid. -/
theorem cancelAll_relieves (hr : Notifies (fun _ _ => Unfolds none) notify) (hn : Tells (Along fun _ _ _ => Relieves) notify) :
    Leads (fun _ s t => Unfolds none s t ∧ Relieves s t) s (cancelAll notify) := by
  intro hf
  refine ⟨cancelAll_told (R := fun _ => Unfolds none) (hr.tells none) hf, fun ho hs => ?_⟩
  have hask := askAll_told (R := fun _ s t => Unfolds none s t ∧ Relieves s t) hn s.queue.active (fun _ h => h) hf
  rw [cancelAll_asks, Act.on_bind]
  rcases hx : (askAll notify s.queue.active).on s with ⟨e | asked, t⟩ <;> rw [hx] at hask <;> dsimp only
  · exact hask.2 ho hs
  · have ho' : InOrder t := ho.moments hask.1.moments
    rw [afterAsking, Act.on_get_bind, Act.on_bind]
    rcases hx : (cancelUpTo notify (t.queue.waiting.length + t.budget)).on t with ⟨e | dropped, u⟩ <;> dsimp only
    · exact .inr (cancelUpTo_mislays hr ho' _ hx)
    · rw [Act.on_bind_ok releaseParked_unparking]
      exact .inl (.unparking u)

/-- A job that has waited too long is dropped, and then those go on who wait for the queue to be idle; or its end is mislaid. -/
theorem expire_relieves (hr : Notifies (fun _ _ => Unfolds none) notify) (ht : s.queue.settings.Timely) :
    Leads (fun _ s t => Unfolds none s t ∧ Relieves s t) s (expire notify id) := by
  obtain ⟨seconds, hseconds⟩ := ht
  intro hf
  refine ⟨expire_told (R := fun _ => Unfolds none) (hr.tells none) hseconds hf, fun ho hs => ?_⟩
  by_cases hid : id ∈ s.queue.waiting
  · rw [show (expire notify id).on s = _ from expire_drops hid hseconds s.loop, Act.on_bind]
    rcases hx : (drop notify id (expiryMessage seconds)).on { s with queue := s.queue.withdraw id, loop := s.loop } with ⟨e | ⟨⟩, u⟩
    · exact .inr ⟨id, drop_mislays hr ho hid hx⟩
    · dsimp only
      rw [releaseParked_unparking]
      exact .inl (.unparking u)
  · rw [expire_idle hid]
    exact .inl hs

theorem relieves_answers (n : Nat) (hn : Tells (Along fun _ _ _ => Relieves) (notifyUpTo n)) :
    Answers (fun _ s t => Unfolds none s t ∧ Relieves s t) (notifyUpTo n) where
  enqueue submission _ := enqueue_told hn submission
  cancelAll _ := cancelAll_relieves (notifyUpTo_notifies n) hn
  outside submission _ := enqueue_outside_told (Along fun _ _ _ => Relieves) submission
  expire _ _ := expire_relieves (notifyUpTo_notifies n)

end Operations

theorem Relieves.served : Served fun _ => Relieves where
  traces := inferInstance
  hear := .informed _
  breakOff {s t} event hrow h := by
    have hbreak : Unfolds none t (t.mapQueue (·.breakOff event)) := .one (.breakOff event)
    exact h.trans hrow.moments (.breakOff t event) hbreak.moments
  serves n hn := (relieves_answers n hn).toServes

/-! ## Steps -/

variable {N : Telling} {j : Job} {task : TaskId} {phase : Phase} {killed : Bool}

/-- Once the slot of a job is free, another job is active, or those go on who wait for the queue to be idle. -/
theorem Vacates.relieved (h : Vacates N id s t) : t.Relieved := by
  cases h with
  | fills h => exact .unparking _
  | cut h =>
    obtain ⟨i, hi⟩ := List.exists_mem_of_ne_nil _ h.cut_busy
    exact .of_active hi

/-- After the turn of a job it is active, or its slot was free. -/
theorem TurnOf.relieved (hu : s.Underway id j) (h : TurnOf N task id phase killed s t) : t.Relieved := by
  cases h with
  | @waits pause after t _ hw =>
    obtain ⟨g, -, hi⟩ := pausing_inert t task id pause after
    have hactive : id ∈ (t.pausing task id pause after).queue.active := hi.active ▸ hw.unfolds.active hu.active
    exact .of_active hactive
  | ends _ _ _ _ hv => exact hv.relieved
  | stops _ _ _ hv => exact hv.relieved

theorem Kills.relieved (h : Kills task s t) (hr : s.Relieved) : t.Relieved := by
  cases h with
  | ready => exact hr
  | @waiting x a _ _ =>
    cases a with
    | idle =>
      intro hidle
      change s.queue.parked.erase task = []
      rw [hr hidle, List.erase_nil]
    | gate | token | timer => exact hr

/-- After its turn a task that waits for the queue to be idle does not do so if it is. -/
theorem Relieved.idling (hr : s.Relieved) (task : TaskId) (name : String) (parked killed : Bool) :
    (s.idling task name parked killed).Relieved := by
  rcases idling_cases s task name parked killed with ⟨-, h⟩ | ⟨-, -, h⟩ | ⟨-, -, hbusy, h⟩ <;> rw [h]
  · exact hr
  · exact hr
  · exact fun hidle => by cases hbusy.symm.trans hidle

theorem Deed.relieves (h : Deed N (fun _ s t => Unfolds none s t ∧ Relieves s t) s t) : Relieves s t := by
  intro ho hr
  cases h with
  | does h => exact h.2 ho hr
  | kills h => exact .inl (h.relieved hr)
  | annotates | joins | rests | drops | wakes | moveTo => exact .inl hr
  | plays _ _ _ _ _ hu hturn => exact .inl (hturn.relieved hu)
  | @waits task l _ _ _ _ _ _ _ => exact .inl (Relieved.idling (s := heeding { s with loop := l } task) hr _ _ _ _)
  | expires _ h => exact h.2 (ho.of_queue rfl rfl) hr

/-- In every state of a run nobody waits for the queue to be idle while it is, unless the end of a job was mislaid. -/
theorem Runs.relieved {settings : Settings} {store : Store} {directory : String} {budget : Nat}
    (h : Runs (start settings store directory budget) s) (hkept : ∀ id, ¬ s.Mislaid id) : s.Relieved := by
  have hrun : s.Relieved ∨ ∃ id, s.Mislaid id := by
    clear hkept
    induction h with
    | refl => exact .inl fun _ => rfl
    | @tail s t hrow hstep ih =>
      obtain ⟨hs, ht, -⟩ := Runs.basics hrow
      have ho : InOrder s := Runs.inOrder hrow
      rcases ih with hr | ⟨id, hlost⟩
      · exact (hstep.comes notifyUpTo_softly (fun n => relieves_answers n (Relieves.served.tells n)) hs ht).relieves ho hr
      · obtain ⟨-, -, hm'⟩ := hstep.sound hs ht
        exact .inr ⟨id, ho.mislaid hm' hlost⟩
  exact hrun.resolve_right fun ⟨_, hlost⟩ => hkept _ hlost

end Scheduler
end MediaEngine
