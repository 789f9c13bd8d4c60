import MediaEngine.Scheduler.Play

/-!
# Telling listeners

Whoever is subscribed when an event happens is told of it, in order of subscription. A listener may act
on what it hears; if it stops with a fault, that is logged and the next one is told. Only the fault of a
cancelled task goes through. What listeners do may cause further events, and those may again be acted on:
the scripts at hand bound how deep this goes.

What they are told of is a copy of the job. It is made once for all of them, outside of what keeps the fault of a
listener away from the queue, so metadata of which there is no copy end whatever told the event.
-/

namespace MediaEngine.Scheduler
open Job

/-- What is done about an event for the subscription at a position. -/
abbrev Hearing := Event → Nat → Act Unit

/-- Lets a listener hear an event, and nothing more. -/
def hear : Hearing := fun event index => do
  match (← queueNow).subscriptions[index]? with
  | none => return
  | some s => if s.listener.quiet then return else note (.heard s.listener.name event)

/-- Lets a listener hear an event and act on it. -/
def hearAndAct (notify : Notify) : Hearing := fun event index => do
  hear event index
  match (← queueNow).subscriptions[index]? with
  | none => return
  | some s =>
    if s.actsOn event then
      onQueue (·.countFiring index)
      playAtOnce notify ⟨s.listener.name, none, none⟩ s.listener.steps

/-- Lets listeners hear an event one after the other; a fault of one does not keep the next from
    hearing. -/
def hearAll (hearing : Hearing) (event : Event) : List Nat → Act Unit
  | [] => return
  | index :: rest => do
    match ← outcome (hearing event index) with
    | .ok () => hearAll hearing event rest
    | .error fault =>
      if fault.isTaskCancelled then
        -- Those who subscribed later are not told.
        onQueue (·.breakOff event)
        throw fault
      else
        log (.listenerFailed event.kind event.snapshot.id)
        hearAll hearing event rest

/-- Tells all who are subscribed of an event of a job, as the job is now. Its metadata are copied before anyone
    is told; if there is no copy of them, nobody is. Where nobody is subscribed nothing is copied. -/
def announce (copies : Copying) (hearing : Hearing) : Notify where
  copies := copies
  tell kind id := do
    let q ← queueNow
    match q.job? id with
    | none => return
    | some job =>
      if q.subscribed.isEmpty || job.isCopied copies then hearAll hearing ⟨kind, job.snapshot⟩ q.subscribed
      else
        -- This is no fault of a listener, and nothing absorbs it here.
        onQueue (·.breakOff ⟨kind, job.snapshot⟩)
        throw .uncopyable

/-- Tells all who are subscribed, where some metadata may have no copy; they act up to a depth, and beyond it they
    only hear. -/
def notifyWithin (copies : Copying) : Nat → Notify
  | 0 => announce copies hear
  | n + 1 => announce copies (hearAndAct (notifyWithin copies n))

/-- Tells all who are subscribed, where all metadata can be copied. -/
abbrev notifyUpTo (n : Nat) : Notify := notifyWithin .total n

end MediaEngine.Scheduler
