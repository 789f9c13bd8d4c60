import MediaEngine.Proofs.Likeness

/-! # What lasts

A scheduler is its own likeness. So a property of schedulers is kept by all that scripts and commands do if it is kept where
the audience and what was heard stay as they are, and where listeners come, go and act (`Lasting`). What is left to be shown is
that it is kept as listeners are told (`Informs`), and then every run keeps it (`lasting_drives`). -/

namespace MediaEngine.Scheduler
open Job

/-- A property of schedulers of which all scripts meet terms, also those of the listeners. It is kept by whatever lets nobody
    hear of an event. -/
class Lasting (terms : outParam Terms) (P : Scheduler → Prop) : Prop where
  fair {s : Scheduler} : P s → s.Fair terms
  audience {s : Scheduler} : P s → ∀ x ∈ s.queue.subscriptions, x.listener.meets terms = true
  /-- Neither the audience is changed nor what was noted. -/
  beside {s t : Scheduler} : P s → t.queue.subscriptions = s.queue.subscriptions → t.queue.subscribed = s.queue.subscribed →
    t.notes = s.notes → t.Fair terms → P t
  noted {s : Scheduler} {n : Queue.Note} : P s → (∀ who, n.heardBy? who = none) → P (s.noted n)
  subscribe {s : Scheduler} {l : Listener} : P s → terms.seats l = true → l.meets terms = true → P (s.mapQueue (·.subscribe l))
  unsubscribe {s : Scheduler} (index : Nat) : P s → P (s.mapQueue (·.unsubscribe index))
  countFiring {s : Scheduler} (index : Nat) : P s → P (s.mapQueue (·.countFiring index))

/-- A scheduler that has a property, and once more the same. -/
structure Itself (P : Scheduler → Prop) (s t : Scheduler) : Prop where
  same : t = s
  kept : P s

variable {terms : Terms} {P : Scheduler → Prop} [lasting : Lasting terms P] {copies : Copying} {β : Type} {Q : β → Prop}

instance : Likeness terms (Itself P) where
  same h := by
    rw [h.same]
    rfl
  fair h := Lasting.fair h.kept
  change {s t} g h hg hfair := by
    have hs : g s = (g s).facing s.queue.subscriptions s.queue.subscribed s.notes := hg s _ _ _
    exact ⟨congrArg g h.same, Lasting.beside h.kept (congrArg (fun u : Scheduler => u.queue.subscriptions) hs :)
      (congrArg (fun u : Scheduler => u.queue.subscribed) hs :) (congrArg Scheduler.notes hs :) hfair⟩
  noted {s t n} h hn := ⟨congrArg (fun u : Scheduler => u.noted n) h.same, Lasting.noted h.kept hn⟩
  subscribe {s t l} h hseats hmeets :=
    ⟨congrArg (fun u : Scheduler => u.mapQueue (·.subscribe l)) h.same, Lasting.subscribe h.kept hseats hmeets⟩
  unsubscribe {s t name} h _ := by
    obtain ⟨rfl, hkept⟩ := h
    cases hi : t.queue.subscription? name with
    | none => exact .inl ⟨rfl, rfl⟩
    | some i => exact .inr ⟨i, i, rfl, rfl, rfl, Lasting.unsubscribe i hkept⟩

/-! ## Telling listeners -/

omit lasting in
/-- The audience may be read of the queue as well. -/
theorem Mirrors.look {f g : Queue → Act β} (h : ∀ s, P s → Mirrors (Itself P) Q (f s.queue) (g s.queue)) :
    Mirrors (Itself P) Q (queueNow >>= f) (queueNow >>= g) := fun s t hst => by
  obtain ⟨rfl, hkept⟩ := hst
  exact h t hkept ⟨rfl, hkept⟩

section Hearing
variable {event : Event} {index : Nat}

omit lasting in
theorem hear_mirrors (h : ∀ s, P s → P (s.informed event index)) : Reflects (Itself P) Any (hear event index) := fun s t hst => by
  obtain ⟨rfl, hkept⟩ := hst
  exact ⟨.ok (), t.informed event index, t.informed event index, hear_on event index t, hear_on event index t,
    ⟨rfl, h t hkept⟩, fun _ _ => trivial⟩

include lasting in
theorem countFiring_mirrors (index : Nat) : Reflects (Itself P) Any (onQueue (·.countFiring index)) := fun s t h =>
  ⟨.ok (), s.mapQueue (·.countFiring index), t.mapQueue (·.countFiring index), rfl, rfl,
    ⟨congrArg (fun u : Scheduler => u.mapQueue (·.countFiring index)) h.same, Lasting.countFiring index h.kept⟩,
    fun _ _ => trivial⟩

/-- Lets a listener act on an event that it has heard. -/
def actOn (notify : Notify) (event : Event) (index : Nat) : Act Unit := do
  match (← queueNow).subscriptions[index]? with
  | none => return
  | some x =>
    if x.actsOn event then
      onQueue (·.countFiring index)
      playAtOnce notify ⟨x.listener.name, none, none⟩ x.listener.steps

theorem actOn_mirrors {notify notify' : Notify} (hn : Informs terms (Itself P) notify notify') :
    Mirrors (Itself P) Any (actOn notify event index) (actOn notify' event index) := by
  refine .look fun s hs => ?_
  cases hx : s.queue.subscriptions[index]? with
  | none => exact .pure trivial
  | some x =>
    have hmeets := Lasting.audience hs x (List.mem_of_getElem? hx)
    rw [Listener.meets_eq] at hmeets
    dsimp only
    split
    · exact .bind (countFiring_mirrors index) fun _ _ => playAtOnce_mirrors _ hn hmeets
    · exact .pure trivial

theorem hearAndAct_mirrors {notify notify' : Notify} (hn : Informs terms (Itself P) notify notify')
    (hh : Reflects (Itself P) Any (hear event index)) :
    Mirrors (Itself P) Any (hearAndAct notify event index) (hearAndAct notify' event index) :=
  .bind hh fun _ _ => actOn_mirrors hn

end Hearing

/-! ## Runs -/

omit lasting in
theorem Mirrors.keeps {x : Act β} {s : Scheduler} (h : Reflects (Itself P) Q x) (hs : P s) : P (x.on s).2 := by
  obtain ⟨r, t, u, hon, -, ⟨-, hkept⟩, -⟩ := h ⟨rfl, hs⟩
  rw [hon]
  exact hkept

/-- Where nothing is asked of commands and telling listeners keeps a property, every run keeps it. -/
theorem lasting_drives (hn : ∀ depth, Informs terms (Itself P) (notifyWithin copies depth) (notifyWithin copies depth))
    (hmeets : ∀ c : Command, c.meets terms = true) : Drives copies fun s t => P s → P t where
  refl _ hs := hs
  trans h h' hs := h' (h hs)
  obey supplied depth c _ := (obey_mirrors (hn depth) supplied (hmeets c)).keeps
  turn {s task l} depth _ hs := by
    have hnext : P { s with loop := l } := (Mirrors.onLoop fun _ => l).keeps hs
    exact (runTask_mirrors (hn depth) task).keeps hnext
  fire {s action time l} depth _ hs := by
    have hnext : P { s with loop := l } := (Mirrors.onLoop fun _ => l).keeps hs
    exact (fire_mirrors (hn depth) action).keeps hnext
  moveTo time := (Mirrors.onLoop (·.moveTo time)).keeps

end MediaEngine.Scheduler
