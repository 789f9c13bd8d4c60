import Mathlib.Logic.Relation
import MediaEngine.Proofs.Evolution.Inert

/-! # Touches

The smallest changes that scripts make: they note something, open a gate, move the progress of a job, register
a callback, subscribe, or draw a number. A touch is inert, and besides it lets nobody hear anything, refuses
nobody, and makes no task ready but those that wait for a gate that is opened. -/

namespace MediaEngine
open Job

/-- The progress, the bridge and the callbacks of a job may differ. -/
structure Job.Retouched (j k : Job) : Prop where
  id : k.id = j.id
  submission : k.submission = j.submission
  metadata : k.metadata = j.metadata
  status : k.status = j.status
  startedAt : k.startedAt = j.startedAt
  finishedAt : k.finishedAt = j.finishedAt
  errorMessage : k.errorMessage = j.errorMessage
  message : k.message = j.message
  finalized : k.finalized = j.finalized
  cancelled : k.token.cancelled = j.token.cancelled
  reason : k.token.reason = j.token.reason
  waiters : k.token.waiters = j.token.waiters

theorem Job.Retouched.tuned {j k : Job} (h : Retouched j k) : Tuned j k :=
  ⟨⟨h.id, h.submission, h.startedAt, h.finishedAt, h.errorMessage, h.message, h.finalized, fun hc => h.cancelled.trans hc,
    fun _ => h.reason⟩, h.status⟩

/-- A note that tells nothing of how jobs stand. -/
def Queue.Note.isFaint : Queue.Note → Bool
  | .told .. => true
  | .answered .. => true
  | .logged (.ended ..) => true
  | .logged (.listenerFailed ..) => true
  | _ => false

theorem Queue.Note.plain_of_faint {n : Queue.Note} (h : n.isFaint = true) : n.isPlain = true ∧ n.started? = none := by
  cases n with
  | told | answered => exact ⟨rfl, rfl⟩
  | heard => cases h
  | logged line =>
    cases line with
    | ended | listenerFailed => exact ⟨rfl, rfl⟩
    | _ => cases h

theorem Task.woken_woken (t : Task) : t.woken.woken = t.woken := by
  by_cases h : t.turn = .over <;> simp [Task.woken, h]

namespace Scheduler
variable {s t u : Scheduler}

/-- The scheduler once tasks that waited are ready. -/
def rousing (s : Scheduler) (tasks : List TaskId) : Scheduler :=
  { s with
    tasks := tasks.foldl (fun ts t => ts.modify t Task.woken) s.tasks
    loop := s.loop.wake tasks }

theorem rousing_tasks (ts : List Task) (tasks : List TaskId) (i : TaskId) :
    (tasks.foldl (fun ts t => ts.modify t Task.woken) ts)[i]? = if i ∈ tasks then ts[i]?.map Task.woken else ts[i]? := by
  induction tasks generalizing ts with
  | nil => rw [if_neg List.not_mem_nil]; rfl
  | cons k rest ih =>
    rw [List.foldl_cons, ih, List.getElem?_modify]
    by_cases hk : k = i
    · subst hk
      -- A task that is named again is woken again, which changes nothing.
      cases ts[k]? <;> simp [Task.woken_woken]
    · have : i ≠ k := Ne.symm hk
      by_cases hi : i ∈ rest <;> simp [hk, hi, this]

theorem rousing_task (s : Scheduler) (tasks : List TaskId) (i : TaskId) :
    (s.rousing tasks).tasks[i]? = if i ∈ tasks then s.tasks[i]?.map Task.woken else s.tasks[i]? :=
  rousing_tasks s.tasks tasks i

/-- The scheduler once a gate is open. -/
def opening (s : Scheduler) (gate : String) : Scheduler :=
  rousing { s with loop := s.loop.openGate gate } (s.loop.awaiting gate)

/-- A small change. -/
inductive Touch (s : Scheduler) : Scheduler → Prop
  | noted {n : Queue.Note} : n.isFaint = true → Touch s (s.noted n)
  | tune (id : JobId) {f : Job → Job} : (∀ j, Retouched j (f j)) → Touch s (s.mapQueue (·.update id f))
  | openGate (gate : String) : Touch s (s.opening gate)
  | subscribe (listener : Listener) : Touch s (s.mapQueue (·.subscribe listener))
  | unsubscribe (index : Nat) : Touch s (s.mapQueue (·.unsubscribe index))
  | countFiring (index : Nat) : Touch s (s.mapQueue (·.countFiring index))
  | draw : Touch s (s.mapQueue Queue.draw)

/-- Small changes in a row. -/
abbrev Touches : Scheduler → Scheduler → Prop := Relation.ReflTransGen Touch

theorem Touch.inert (h : Touch s t) : Inert s t := by
  cases h with
  | noted h => exact .noted (Queue.Note.plain_of_faint h).1 (Queue.Note.plain_of_faint h).2
  | tune id h => exact .update (fun j => (h j).tuned) fun j => (h j).cancelled
  | openGate gate =>
    have hopen : Inert s { s with loop := s.loop.openGate gate } := .loop fun _ hm _ _ => hm
    exact hopen.trans (.wake (s.loop.awaiting gate))
  | subscribe listener => exact .subscribe listener
  | unsubscribe index => exact .unsubscribe index
  | countFiring index => exact .countFiring index
  | draw => exact .draw

theorem Touches.inert (h : Touches s t) : Inert s t := by
  induction h with
  | refl => exact .refl _
  | tail _ h ih => exact ih.trans h.inert

end Scheduler

/-- Changes that are inert, among them all small ones. -/
class Modest (C : Scheduler → Scheduler → Prop) : Prop where
  refl (s) : C s s
  trans {s t u} : C s t → C t u → C s u
  inert {s t} : C s t → Scheduler.Inert s t
  touch {s t} : Scheduler.Touch s t → C s t

open Scheduler in
instance : Modest Inert where
  refl := .refl
  trans := .trans
  inert h := h
  touch h := h.inert

open Scheduler in
instance : Modest Touches where
  refl _ := .refl
  trans := .trans
  inert := Touches.inert
  touch := .single

end MediaEngine
