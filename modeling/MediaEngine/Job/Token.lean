import MediaEngine.Text.Quoted

/-!
# Cancellation tokens

A token is signalled at most once, with a reason. Callbacks that are registered before are called in order
of registration when it is signalled, and those who wait for it go on. A callback registered twice is
called twice; removing it takes its first registration away.
-/

namespace MediaEngine.Job

/-- A token with its callbacks and with those who wait for it. -/
structure Token (κ ω : Type) where
  cancelled : Bool
  reason : Option String
  callbacks : List κ
  waiters : List ω

/-- What a signal sets off: the callbacks to call and the waiters to wake, in order. -/
structure Signal (κ ω : Type) where
  token : Token κ ω
  callbacks : List κ
  waiters : List ω

namespace Token
variable {κ ω : Type}

/-- A token that was not signalled. -/
def fresh : Token κ ω := ⟨false, none, [], []⟩

/-- Signals the token; nothing happens where it was signalled before. -/
def signal (t : Token κ ω) (reason : Option String) : Option (Signal κ ω) :=
  if t.cancelled then none
  else some ⟨⟨true, reason, [], []⟩, t.callbacks, t.waiters⟩

/-- Registers a callback on a token that was not signalled. -/
def register (t : Token κ ω) (callback : κ) : Token κ ω :=
  { t with callbacks := t.callbacks ++ [callback] }

/-- Takes the first registration of a callback away. -/
def unregister [BEq κ] (t : Token κ ω) (callback : κ) : Token κ ω :=
  { t with callbacks := t.callbacks.erase callback }

/-- Lets someone wait for the signal. -/
def park (t : Token κ ω) (waiter : ω) : Token κ ω := { t with waiters := t.waiters ++ [waiter] }

/-- Lets someone wait no longer. -/
def unpark [BEq ω] (t : Token κ ω) (waiter : ω) : Token κ ω :=
  { t with waiters := t.waiters.erase waiter }

/-- What is told to whoever checks a signalled token: its reason, if it has one that is not empty. -/
def checkMessage (t : Token κ ω) : String :=
  match t.reason with
  | some r => if r.isEmpty then "Job cancelled" else r
  | none => "Job cancelled"

/-- A reason in one line. -/
def shownReason : Option String → String
  | none => "None"
  | some r => Text.quoted r

/-- The token in one line. -/
def shown (t : Token κ ω) : String :=
  "CancellationToken(cancelled=" ++ (if t.cancelled then "True" else "False") ++ ", reason=" ++
    shownReason t.reason ++ ")"

end Token

end MediaEngine.Job
