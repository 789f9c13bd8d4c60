import MediaEngine.Scheduler

/-! # Acts on a scheduler

What an act yields and leaves behind, one lemma for each way to build an act. A proof about an act
reads its result off these lemmas and never opens the monad. -/

namespace MediaEngine
open Job

/-- What comes of an act: how it ended, and the scheduler it leaves. -/
def Act.on {α : Type} (x : Act α) (s : Scheduler) : Except Fault α × Scheduler := x.run s

/-- The act stopped because the task that carried it out was cancelled. -/
def Broken {α : Type} : Except Fault α → Bool
  | .ok _ => false
  | .error f => f.isTaskCancelled

theorem Job.Fault.eq_taskCancelled {f : Fault} (h : f.isTaskCancelled = true) : f = .taskCancelled := by
  cases f with
  | taskCancelled => rfl
  | _ => cases h

namespace Scheduler

/-- The scheduler with another queue. -/
def mapQueue (s : Scheduler) (f : Queue → Queue) : Scheduler := { s with queue := f s.queue }

/-- The scheduler with one more note. -/
def noted (s : Scheduler) (n : Queue.Note) : Scheduler := { s with notes := s.notes ++ [n] }

@[simp] theorem mapQueue_queue (s : Scheduler) (f : Queue → Queue) : (s.mapQueue f).queue = f s.queue := rfl

@[simp] theorem noted_queue (s : Scheduler) (n : Queue.Note) : (s.noted n).queue = s.queue := rfl

@[simp] theorem noted_notes (s : Scheduler) (n : Queue.Note) : (s.noted n).notes = s.notes ++ [n] := rfl

/-- The scheduler with one more task, which is ready. -/
def spawn (s : Scheduler) (work : Work) : Scheduler :=
  { s with tasks := s.tasks ++ [⟨work, .ready, false⟩], loop := s.loop.wake [s.tasks.length] }

end Scheduler

namespace Act
open Scheduler
variable {α β : Type} {s : Scheduler}

@[simp] theorem on_pure (a : α) : (pure a : Act α).on s = (.ok a, s) := rfl

@[simp] theorem on_throw (f : Fault) : (throw f : Act α).on s = (.error f, s) := rfl

theorem on_bind (x : Act α) (f : α → Act β) :
    (x >>= f).on s = match x.on s with
      | (.ok a, t) => (f a).on t
      | (.error e, t) => (.error e, t) := by
  change ExceptT.bindCont f (x.on s).1 (x.on s).2 = _
  rcases x.on s with ⟨_ | _, t⟩ <;> rfl

theorem on_bind_ok {x : Act α} {f : α → Act β} {a : α} {t : Scheduler} (h : x.on s = (.ok a, t)) :
    (x >>= f).on s = (f a).on t := by rw [on_bind, h]

theorem on_bind_error {x : Act α} {f : α → Act β} {e : Fault} {t : Scheduler} (h : x.on s = (.error e, t)) :
    (x >>= f).on s = (.error e, t) := by rw [on_bind, h]

/-- An act that is followed by another one either fails or hands over. -/
theorem on_bind_cases {x : Act α} {f : α → Act β} {r : Except Fault β} {t : Scheduler} (h : (x >>= f).on s = (r, t)) :
    (∃ e, x.on s = (.error e, t) ∧ r = .error e) ∨ ∃ a u, x.on s = (.ok a, u) ∧ (f a).on u = (r, t) := by
  rw [on_bind] at h
  rcases hx : x.on s with ⟨e | a, u⟩ <;> rw [hx] at h
  · cases h
    exact .inl ⟨e, rfl, rfl⟩
  · exact .inr ⟨a, u, rfl, h⟩

theorem on_map (x : Act α) (g : α → β) : (do return g (← x) : Act β).on s = ((x.on s).1.map g, (x.on s).2) := by
  rw [on_bind]
  rcases x.on s with ⟨_ | _, _⟩ <;> rfl

@[simp] theorem on_get_bind (f : Scheduler → Act β) : (get >>= f : Act β).on s = (f s).on s := rfl

@[simp] theorem on_queueNow_bind (f : Queue → Act β) : (queueNow >>= f).on s = (f s.queue).on s := rfl

@[simp] theorem on_timeNow_bind (f : Nat → Act β) : (timeNow >>= f).on s = (f s.loop.now).on s := rfl

@[simp] theorem on_onQueue (f : Queue → Queue) : (onQueue f).on s = (.ok (), s.mapQueue f) := rfl

@[simp] theorem on_onLoop (f : Loop TimerAction → Loop TimerAction) :
    (onLoop f).on s = (.ok (), { s with loop := f s.loop }) := rfl

@[simp] theorem on_onTask (task : TaskId) (f : Task → Task) :
    (onTask task f).on s = (.ok (), { s with tasks := s.tasks.modify task f }) := rfl

@[simp] theorem on_note (n : Queue.Note) : (note n).on s = (.ok (), s.noted n) := rfl

@[simp] theorem on_log (line : Queue.LogLine) : (log line).on s = (.ok (), s.noted (.logged line)) := rfl

@[simp] theorem on_createTask (work : Work) : (createTask work).on s = (.ok (), s.spawn work) := rfl

@[simp] theorem on_yieldOr (x : Except Fault α) : (yieldOr x).on s = (x, s) := by cases x <;> rfl

theorem on_outcome_bind (x : Act α) (f : Except Fault α → Act β) :
    (outcome x >>= f).on s = (f (x.on s).1).on (x.on s).2 := rfl

end Act

end MediaEngine
