import MediaEngine.Job.Fault

/-!
# Scripts

What a job does while it runs, what its preview does, and what a listener does when it is told of an
event, each written as a list of steps. A step may hand in another job or subscribe another listener, and
so scripts are trees; every script is finite, and its weight bounds how much can follow from it.
-/

namespace MediaEngine.Job

/-- What listeners are told of. -/
inductive EventKind where
  | queued
  | started
  | status
  | finished
  deriving DecidableEq

/-- The name of an event. -/
def EventKind.text : EventKind → String
  | queued => "job:queued"
  | started => "job:started"
  | status => "job:status"
  | finished => "job:finished"

/-- All events by name. -/
def EventKind.choices : List (String × EventKind) :=
  [.queued, .started, .status, .finished].map fun k => (EventKind.text k, k)

mutual

/-- One step of a script. -/
inductive Step where
  /-- Notes a value. -/
  | log (value : Value)
  /-- Lets all others that are ready go first. -/
  | pause
  /-- Waits a number of milliseconds. -/
  | sleep (milliseconds : Int)
  /-- Waits until a gate is open. -/
  | gate (name : String)
  /-- Opens a gate. -/
  | openGate (name : String)
  /-- Waits until the token is signalled. -/
  | awaitToken
  /-- Notes whether the token is signalled, and why. -/
  | seeToken
  /-- Stops with a fault if the token is signalled. -/
  | check
  /-- Registers a callback that notes the reason under a label. -/
  | onCancel (label : Value)
  /-- Signals its own token. -/
  | cancelToken (reason : Option String)
  /-- Sets the time that is done. -/
  | output (value : Value)
  /-- Sets the total. -/
  | total (value : Value)
  /-- Sets the estimate. -/
  | estimate (value : Value)
  /-- Makes a bridge on the progress. -/
  | bridge (fps tolerance frames : Value)
  /-- Tells the bridge that a frame was shown. -/
  | frame (index : Value)
  /-- Compiles a chain and notes its stages. -/
  | compile (chain : Value)
  /-- Cancels all jobs and notes which. -/
  | cancelAll
  /-- Notes how the queue stands. -/
  | seeQueue
  /-- Hands a job in and notes the answer; the fault of a cancelled task is none and stops the script. -/
  | enqueue (submission : Submission)
  /-- Hands a job in and notes its name; a refusal stops the script. -/
  | enqueueOrStop (submission : Submission)
  /-- Stops with a fault. -/
  | fail (fault : Fault)
  /-- Ends the script with a value. -/
  | finish (value : Value)
  /-- Notes the result of the body. -/
  | seeResult
  /-- Subscribes a listener. -/
  | subscribe (listener : Listener)
  /-- Removes the latest subscription of a name. -/
  | unsubscribe (name : String)

/-- The preview of a job. -/
inductive PreviewScript where
  | none
  /-- Something that cannot be run. -/
  | notRunnable
  /-- Runs on its own and may wait. -/
  | waiting (steps : List Step)
  /-- Runs at once; the steps that wait are left out. -/
  | immediate (steps : List Step)

/-- What is handed in: a job with its body, which is absent where it cannot be run. -/
structure Submission where
  name : String
  body : Option (List Step)
  preview : PreviewScript
  metadata : Option (List (String × Value))
  estimate : Value

/-- Who is told of events, and what they do, a limited number of times, about those that match. -/
structure Listener where
  name : String
  quiet : Bool
  /-- The events to act on; a listener without a kind only hears. -/
  kind : Option EventKind
  job : Option String
  times : Nat
  steps : List Step

end

instance : Inhabited Step := ⟨.pause⟩

instance : Inhabited PreviewScript := ⟨.none⟩

instance : Inhabited Submission := ⟨⟨"", some [], .none, none, .null⟩⟩

instance : Inhabited Listener := ⟨⟨"", false, none, none, 0, []⟩⟩

namespace Step

/-- Whether the step is one that waits. -/
def waits : Step → Bool
  | pause => true
  | sleep _ => true
  | gate _ => true
  | awaitToken => true
  | _ => false

end Step

/-- The part of a submission that cannot be run. -/
def Submission.defect (s : Submission) : Option Runnable :=
  match s.body, s.preview with
  | none, _ => some .body
  | some _, .notRunnable => some .preview
  | some _, _ => none

/-! ### Weight -/

mutual

/-- How many steps can follow from a step, itself included. -/
def Step.weight : Step → Nat
  | .enqueue s => 1 + s.weight
  | .enqueueOrStop s => 1 + s.weight
  | .subscribe l => 1 + l.weight
  | _ => 1

/-- How many steps can follow from a script. -/
def scriptWeight : List Step → Nat
  | [] => 0
  | s :: rest => s.weight + scriptWeight rest

/-- How many steps can follow from a body. -/
def bodyWeight : Option (List Step) → Nat
  | none => 0
  | some steps => scriptWeight steps

/-- How many steps can follow from a preview. -/
def PreviewScript.weight : PreviewScript → Nat
  | .none => 0
  | .notRunnable => 0
  | .waiting steps => scriptWeight steps
  | .immediate steps => scriptWeight steps

/-- How many steps can follow from a submission; its start and its expiry count too. -/
def Submission.weight : Submission → Nat
  | ⟨_, body, preview, _, _⟩ => 3 + bodyWeight body + preview.weight

/-- How many steps can follow from a listener, which acts a limited number of times. -/
def Listener.weight : Listener → Nat
  | ⟨_, _, _, _, times, steps⟩ => 1 + times * (1 + scriptWeight steps)

end

end MediaEngine.Job
