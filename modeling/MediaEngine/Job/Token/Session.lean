import MediaEngine.Job.Token
import MediaEngine.Value

/-!
# Sessions with a token

A session signals a token, registers and removes callbacks by name, and lets tasks wait for the signal. A
callback notes that it was called, and may then fail, signal the token, add other callbacks, which do as
they please in turn, or remove some. While the callbacks of a signal are called, the failure of one does not
keep the next from being called.
-/

namespace MediaEngine.Job

/-- What a callback does after it has noted the call. -/
inductive Reaction where
  | nothing
  | fail
  | cancel (reason : Option String)
  | add (name : String) (reaction : Reaction)
  | remove (name : String)
  /-- Goes on where the reaction fails. -/
  | attempt (reaction : Reaction)
  | andThen (first second : Reaction)
  deriving DecidableEq

/-- Adds a callback that only notes the call. -/
def Reaction.register (name : String) : Reaction := .add name .nothing

/-- A callback known by its name. -/
structure NamedCallback where
  name : String
  reaction : Reaction
  deriving DecidableEq

/-- Why a step of a session fails. -/
inductive SessionError where
  /-- A callback failed. -/
  | callbackFailed
  /-- No callback of the name was registered. -/
  | unknownName
  /-- The token was signalled. -/
  | cancelled (message : String)
  deriving DecidableEq

/-- A session: the token, the callbacks known by name, the names that can be removed, the tasks that are
    ready to go on, and what was noted. -/
structure Session where
  token : Token NamedCallback String
  known : List NamedCallback
  removable : List String
  ready : List String
  notes : List Value

/-- A step of a session. -/
inductive SessionStep where
  | cancel (reason : Option String)
  | add (callback : NamedCallback)
  | remove (name : String)
  | check
  | wait (name : String)
  | settle
  | describe
  deriving DecidableEq

namespace Session

/-- A session with a token that was not signalled. -/
def start : Session := ⟨.fresh, [], [], [], []⟩

/-- Adds a note. -/
def note (s : Session) (vs : List Value) : Session := { s with notes := s.notes ++ [.list vs] }

/-- Makes a name removable. -/
def allowRemoval (s : Session) (name : String) : Session := { s with removable := name :: s.removable }

/-- Takes the first registration of a name away. -/
def removeFirst (s : Session) (name : String) : Except SessionError Session :=
  if s.removable.contains name then
    match s.token.callbacks.find? (·.name == name) with
    | some callback => .ok { s with token := s.token.unregister callback }
    | none => .ok s
  else .error .unknownName

/-- What the callback of a name does once the token was signalled: to signal it again does nothing and is
    answered so, and a callback that is added is called at once. What was noted stays also where it fails. -/
def react : Reaction → String → Session → Session × Except SessionError Unit
  | .nothing, _, s => (s, .ok ())
  | .fail, _, s => (s, .error .callbackFailed)
  | .cancel reason, name, s => (s.note [.text name, .text "cancel", .bool (s.token.signal reason).isSome], .ok ())
  | .add new reaction, _, s =>
    match react reaction new (s.note [.text new, .textOr s.token.reason]) with
    | (s, .ok ()) => (s.allowRemoval new, .ok ())
    | (s, .error e) => (s, .error e)
  | .remove name, _, s =>
    match s.removeFirst name with
    | .ok s => (s, .ok ())
    | .error e => (s, .error e)
  | .attempt reaction, name, s => ((react reaction name s).1, .ok ())
  | .andThen first second, name, s =>
    match react first name s with
    | (s, .ok ()) => react second name s
    | (s, .error e) => (s, .error e)

/-- Calls a callback of a token that was signalled. -/
def call (s : Session) (callback : NamedCallback) : Session × Except SessionError Unit :=
  react callback.reaction callback.name (s.note [.text callback.name, .textOr s.token.reason])

/-- Calls callbacks in order, whether or not some of them fail. -/
def callAll (s : Session) (callbacks : List NamedCallback) : Session :=
  callbacks.foldl (fun s callback => (s.call callback).1) s

/-- Signals the token; tells whether it was not signalled before. -/
def cancel (s : Session) (reason : Option String) : Session × Bool :=
  match s.token.signal reason with
  | none => (s, false)
  | some signal =>
    let s := { s with token := signal.token, ready := s.ready ++ signal.waiters }
    (s.callAll signal.callbacks, true)

/-- The callback of a name: the one that is known, or else a new one. -/
def knownOr (s : Session) (callback : NamedCallback) : NamedCallback :=
  (s.known.find? (·.name == callback.name)).getD callback

/-- Registers a callback; on a signalled token it is called at once instead. -/
def add (s : Session) (new : NamedCallback) : Session × Except SessionError Unit :=
  let callback := s.knownOr new
  let s := { s with known := s.known ++ [callback] }
  if s.token.cancelled then react (.add callback.name callback.reaction) callback.name s
  else ({ s with token := s.token.register callback }.allowRemoval callback.name, .ok ())

/-- Lets a task go on: it notes the reason, or waits for the signal. -/
def resume (s : Session) (name : String) : Session :=
  if s.token.cancelled then s.note [.text name, .text "waited", .textOr s.token.reason]
  else { s with token := s.token.park name }

/-- Lets all tasks that are ready go on, the first one first. -/
def settle (s : Session) : Session := s.ready.foldl resume { s with ready := [] }

/-- Takes a step. -/
def step (s : Session) : SessionStep → Session × Except SessionError Value
  | .cancel reason =>
    let (s, first) := s.cancel reason
    (s, .ok (.bool first))
  | .add callback =>
    let (s, result) := s.add callback
    (s, result.map fun _ => .null)
  | .remove name =>
    match s.removeFirst name with
    | .ok s => (s, .ok .null)
    | .error e => (s, .error e)
  | .check => (s, if s.token.cancelled then .error (.cancelled s.token.checkMessage) else .ok .null)
  | .wait name => ({ s with ready := s.ready ++ [name] }, .ok .null)
  | .settle => (s.settle, .ok .null)
  | .describe => (s, .ok (.text s.token.shown))

end Session

end MediaEngine.Job
