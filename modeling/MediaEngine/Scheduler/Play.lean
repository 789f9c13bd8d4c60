import MediaEngine.Compile
import MediaEngine.Scheduler.Operations

/-!
# Playing scripts

A script is played step by step until it waits, ends or stops with a fault. Jobs and previews that may
wait are played on when what they wait for has happened; listeners and immediate previews are played at
once, without the steps that wait.
-/

namespace MediaEngine.Scheduler
open Job

/-- Who plays a script: the name under which things are told, the job whose script it is, and the result
    of its body if there is one yet. -/
structure Player where
  who : String
  job : Option JobId
  result : Option RunResult

/-- What a script waits for. -/
inductive Pause where
  /-- That all others that are ready have had their turn. -/
  | turn
  | sleep (milliseconds : Nat)
  | gate (name : String)
  | token
  deriving DecidableEq

/-- Whether the step that waits is looked at again afterwards. -/
def Pause.isRetried : Pause → Bool
  | turn => false
  | sleep _ => false
  | gate _ => true
  | token => true

/-- How far a script was played. -/
inductive Played where
  | returned (value : Value)
  | waiting (pause : Pause) (rest : List Step)

/-- Tells a value. -/
def tell (p : Player) (what : String) (value : Value) : Act Unit := note (.told p.who what value)

/-- The job of a player. -/
def ownJob? (p : Player) : Act (Option Job) := do
  let q ← queueNow
  return p.job.bind q.job?

/-- Carries out an act on the job of a player; without a job nothing is done. -/
def withJob (p : Player) (f : Job → Act Unit) : Act Unit := do
  match ← ownJob? p with
  | none => return
  | some job => f job

/-- Replaces the progress of a job. -/
def setProgress (id : JobId) (progress : Progress) : Act Unit :=
  onQueue (·.update id fun j => { j with progress := progress })

/-- Replaces the bridge of a job. -/
def setBridge (id : JobId) (bridge : Bridge) : Act Unit :=
  onQueue (·.update id fun j => { j with bridge := some bridge })

/-- Changes the progress of the player's job and tells it. -/
def moveProgress (p : Player) (what : String) (f : Progress → Except ArithmeticError Progress) :
    Act Unit :=
  withJob p fun job => do
    let progress ← yieldOr ((f job.progress).mapError Fault.arithmetic)
    setProgress job.id progress
    tell p what progress.toValue

/-- Makes a bridge on the progress of the player's job. -/
def makeBridge (p : Player) (fps tolerance frames : Value) : Act Unit :=
  withJob p fun job => do
    let (bridge, progress) ← yieldOr
      ((Bridge.build fps tolerance frames job.progress).mapError Fault.bridge)
    setProgress job.id progress
    setBridge job.id bridge

/-- Records a frame on the bridge of the player's job and tells the progress. -/
def showFrame (p : Player) (index : Value) : Act Unit :=
  withJob p fun job =>
    match job.bridge with
    | none => return
    | some bridge => do
      let (bridge, moved) := bridge.recordFrame job.progress index
      setBridge job.id bridge
      let progress ← yieldOr (moved.mapError Fault.bridge)
      setProgress job.id progress
      tell p "frame" progress.toValue

/-- Registers a callback on the token of the player's job; on a signalled token it is called at once. -/
def registerCancel (p : Player) (label : Value) : Act Unit :=
  withJob p fun job =>
    if job.token.cancelled then tell p "on_cancel" (.list [label, .textOr job.token.reason])
    else onQueue (·.update job.id fun j => { j with token := j.token.register ⟨p.who, label⟩ })

/-- Compiles a chain and tells the types of its stages. -/
def compileChain (p : Player) (chain : Value) : Act Unit := do
  let plan ← yieldOr
    ((compile (← get).directory (.value chain) (.value .null)).mapError Fault.compile)
  tell p "compile" (.list (plan.stages.map fun s => .text s.type))

/-- The parts of a result, as a preview tells them. -/
def resultValue (r : RunResult) : Value :=
  .list [.textOr r.outputPath, .doubleOr r.totalTime, .doubleOr r.outputTime, r.payload,
    .object r.extra]

/-- Removes the latest subscription of a name. -/
def unsubscribe (name : String) : Act Unit := do
  match (← queueNow).subscription? name with
  | none => throw (.unknownName name)
  | some index => onQueue (·.unsubscribe index)

/-- Hands a job in and notes the answer. The fault of a cancelled task goes through. -/
def handIn (notify : Notify) (p : Player) (submission : Submission) : Act Unit := do
  match ← outcome (enqueue notify true submission) with
  | .ok job => note (.answered p.who (.ok job))
  | .error fault => if fault.isTaskCancelled then throw fault else note (.answered p.who (.error fault))

/-- Takes a step that does not wait, or no longer. Yields a value where the script ends. -/
def perform (notify : Notify) (p : Player) : Step → Act (Option Value)
  | .log value => do
    tell p "log" value
    return none
  | .pause => return none
  | .sleep _ => return none
  | .gate _ => return none
  | .openGate name => do
    openGate name
    return none
  | .awaitToken => do
    withJob p fun job => tell p "token_wait" (.textOr job.token.reason)
    return none
  | .seeToken => do
    withJob p fun job =>
      tell p "cancelled" (.list [.bool job.token.cancelled, .textOr job.token.reason])
    return none
  | .check => do
    withJob p fun job =>
      if job.token.cancelled then throw (.cancelled job.token.checkMessage) else return
    return none
  | .onCancel label => do
    registerCancel p label
    return none
  | .cancelToken reason => do
    withJob p fun job => do
      let first ← signalToken job.id reason
      tell p "cancel_token" (.bool first)
    return none
  | .output value => do
    moveProgress p "output" (·.setOutput value)
    return none
  | .total value => do
    moveProgress p "total" (·.setTotal value)
    return none
  | .estimate value => do
    moveProgress p "estimate" (·.setEstimate value)
    return none
  | .bridge fps tolerance frames => do
    makeBridge p fps tolerance frames
    return none
  | .frame index => do
    showFrame p index
    return none
  | .compile chain => do
    compileChain p chain
    return none
  | .cancelAll => do
    let c ← cancelAll notify
    tell p "cancel_all" c.toValue
    return none
  | .seeQueue => do
    tell p "state" (.object (← queueNow).overview)
    return none
  | .enqueue submission => do
    handIn notify p submission
    return none
  | .enqueueOrStop submission => do
    let id ← enqueue notify true submission
    tell p "enqueue" (.text id.text)
    return none
  | .fail fault => throw fault
  | .finish value => return some value
  | .seeResult => do
    match p.result with
    | none => return none
    | some r =>
      tell p "result" (resultValue r)
      return none
  | .subscribe listener => do
    onQueue (·.subscribe listener)
    return none
  | .unsubscribe name => do
    unsubscribe name
    return none

/-- What a step waits for, if it waits: a gate that is open and a token that is signalled are not waited
    for. -/
def pause? (p : Player) : Step → Act (Option Pause)
  | .pause => return some .turn
  | .sleep milliseconds => return some (if 0 < milliseconds then .sleep milliseconds.toNat else .turn)
  | .gate name => return if (← get).loop.isOpen name then none else some (.gate name)
  | .awaitToken => do
    match ← ownJob? p with
    | none => return none
    | some job => return if job.token.cancelled then none else some .token
  | _ => return none

/-- Plays a script until it waits or ends. -/
def play (notify : Notify) (p : Player) : List Step → Act Played
  | [] => return .returned .null
  | step :: rest => do
    match ← pause? p step with
    | some pause => return .waiting pause (if pause.isRetried then step :: rest else rest)
    | none =>
      match ← perform notify p step with
      | some value => return .returned value
      | none => play notify p rest

/-- Plays a script at once, without the steps that wait. -/
def playAtOnce (notify : Notify) (p : Player) : List Step → Act Unit
  | [] => return
  | step :: rest => do
    if step.waits then playAtOnce notify p rest
    else
      match ← perform notify p step with
      | some _ => return
      | none => playAtOnce notify p rest

end MediaEngine.Scheduler
