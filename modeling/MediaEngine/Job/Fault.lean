import MediaEngine.Compile.Error
import MediaEngine.Job.Bridge
import MediaEngine.Job.Result
import MediaEngine.Value.Height

/-!
# Faults

A fault ends what a job, a preview or a listener is doing, or is the answer of a queue that refuses.
Every fault has a name and a wording. Two of them mean that a job was asked to stop: the job noticed its
token, or its task was cancelled. Only the second one passes through everything that absorbs faults.
-/

namespace MediaEngine.Job

/-- The kinds of faults that a script raises by name. -/
inductive FaultKind where
  | runtime
  | value
  | key
  | job
  deriving DecidableEq

/-- A part of a submission that has to be something that can be run. -/
inductive Runnable where
  | body
  | preview
  deriving DecidableEq

/-- Why something does not go on. -/
inductive Fault where
  /-- As many jobs wait as may wait. -/
  | full (limit : Int)
  /-- Nothing runs that could run a job. -/
  | noLoop
  /-- A submission whose body or preview cannot be run. -/
  | notRunnable (part : Runnable)
  | arithmetic (error : ArithmeticError)
  | compile (error : CompileError)
  | bridge (error : BridgeError)
  | result (error : ResultError)
  /-- The store of the history does not take the entry of a job of this name. -/
  | refusedByStore (name : String)
  /-- Nothing is known by a name. -/
  | unknownName (name : String)
  /-- The submitter has no metadata that could be changed. -/
  | noMetadata
  /-- Moments of which only one is tied to universal time. -/
  | incomparable
  /-- Metadata that are too high to be shown. -/
  | height (error : HeightError)
  /-- Metadata that are so deep that no copy of them can be made. -/
  | uncopyable
  /-- The token was signalled and this was noticed. -/
  | cancelled (message : String)
  /-- The task was cancelled. -/
  | taskCancelled
  /-- Raised by a script. -/
  | raised (kind : FaultKind) (args : List Value)

/-- The name of a kind. -/
def FaultKind.name : FaultKind → String
  | runtime => "RuntimeError"
  | value => "ValueError"
  | key => "KeyError"
  | job => "JobError"

/-- The member of a submission that holds the part. -/
def Runnable.name : Runnable → String
  | body => "execute"
  | preview => "generate_preview"

/-- What a fault says that was raised with some arguments. -/
def raisedMessage (kind : FaultKind) : List Value → String
  | [] => ""
  | [v] => if kind = .key then v.shown else v.plain
  | vs => "(" ++ Value.shownItems vs ++ ")"

namespace Fault

/-- The name of a fault. -/
def name : Fault → String
  | full _ => "QueueFullError"
  | noLoop => "RuntimeError"
  | notRunnable _ => "TypeError"
  | arithmetic .divisionByZero => "ZeroDivisionError"
  | arithmetic _ => "OverflowError"
  | compile (.arithmetic .divisionByZero) => "ZeroDivisionError"
  | compile (.arithmetic _) => "OverflowError"
  | compile (.tag _) => "TypeError"
  | compile (.notOptions _) => "AttributeError"
  | compile _ => "PlanValidationError"
  | bridge (.arithmetic .divisionByZero) => "ZeroDivisionError"
  | bridge (.arithmetic _) => "OverflowError"
  | bridge (.notOrdered ..) => "TypeError"
  | bridge _ => "ValueError"
  | result (.invalid _) => "ValidationError"
  | result (.notResult _) => "TypeError"
  | refusedByStore _ => "RuntimeError"
  | unknownName _ => "KeyError"
  | noMetadata => "TypeError"
  | incomparable => "TypeError"
  | height _ => "ValueError"
  | uncopyable => "RecursionError"
  | cancelled _ => "JobCancelledError"
  | taskCancelled => "CancelledError"
  | raised kind _ => kind.name

/-- What a fault says, be it nothing. These faults always have a text: an exception that fails when it is asked for its text is
    none of them. -/
def message : Fault → String
  | full limit => "Job queue is full (max " ++ Number.intText limit ++ " queued jobs)"
  | noLoop => "no running event loop"
  | notRunnable part => "JobSpec." ++ part.name ++ " must be callable"
  | arithmetic error => error.message
  | compile error => error.message
  | bridge error => error.message
  | result error => error.message
  | refusedByStore name => "store rejected " ++ name
  | unknownName name => Text.quoted name
  | noMetadata => "'NoneType' object does not support item assignment"
  | incomparable => "can't compare offset-naive and offset-aware datetimes"
  | height error => error.message
  | uncopyable => "maximum recursion depth exceeded"
  | cancelled message => message
  | taskCancelled => ""
  | raised kind args => raisedMessage kind args

/-- What is told of a job that failed: what the fault says, or its name where it says nothing. -/
def description (f : Fault) : String := if f.message.isEmpty then f.name else f.message

/-- Whether the fault passes through all that absorbs faults. -/
def isTaskCancelled : Fault → Bool
  | taskCancelled => true
  | _ => false

/-- Whether a job that ends with the fault counts as canceled whatever its token says. -/
def meansCancelled : Fault → Bool
  | cancelled _ => true
  | taskCancelled => true
  | _ => false

end Fault

end MediaEngine.Job
