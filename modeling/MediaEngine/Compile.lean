import MediaEngine.Compile.Error
import MediaEngine.Compile.Parts
import MediaEngine.Compile.Stages

/-!
# Compiling a chain

A chain compiles to one input stage, a trim stage for a strict cut, a crop, a resize, the overlays, the
texts, a change of speed and of the frame rate, the stage that makes pixels square, and one output stage.
The result depends on the chain, the options and the working directory alone.
-/

namespace MediaEngine
open Chain

/-- What a chain is given as. -/
inductive ChainInput where
  /-- A value: an object with a list of nodes, or the list itself. -/
  | value (v : Value)
  /-- A list in which nodes may be ready. -/
  | items (items : List Item)
  /-- A chain that was read before. -/
  | chain (c : MediaChain)

/-- What the options are given as. -/
inductive OptionsInput where
  | value (v : Value)
  | options (o : PlanOptions)

/-- The options that a compilation goes by. -/
inductive OptionsSource where
  | options (o : PlanOptions)
  /-- Neither nothing nor an object, but something of this kind. It is noticed once the options are
      needed. -/
  | unusable (kindName : String)

/-- The arithmetic of a compilation. -/
def arithmetic {α : Type} : Except ArithmeticError α → Except CompileError α
  | .ok a => .ok a
  | .error e => .error (.arithmetic e)

/-- The nodes of a list. -/
def nodesOfItems (items : List Item) : Except CompileError (List Node) :=
  match readNodes items with
  | .error e => .error (.tag e)
  | .ok (.bad issues) => .error (.malformed issues)
  | .ok (.ok nodes) => .ok nodes

/-- The nodes of a chain, in whichever form it is given. -/
def ChainInput.nodes : ChainInput → Except CompileError (List Node)
  | .chain c => .ok c.nodes
  | .items list => nodesOfItems list
  | .value (.list values) => nodesOfItems (values.map .raw)
  | .value (.object m) =>
    match Members.find? m Keys.nodes.name with
    | some (.list values) => nodesOfItems (values.map .raw)
    | _ => .error .noChain
  | .value .null => .error .noChain
  | .value v => .error (.notChain v.kindName)

/-- The options, in whichever form they are given; nothing means none. -/
def OptionsInput.read : OptionsInput → Except CompileError OptionsSource
  | .options o => .ok (.options o)
  | .value .null => .ok (.options .none)
  | .value (.object m) =>
    match PlanOptions.read (.object m) with
    | .ok o => .ok (.options o)
    | .bad issues => .error (.badOptions issues)
  | .value v => .ok (.unusable v.kindName)

/-- The overrides of the preview. -/
def OptionsSource.overrides : OptionsSource → Except CompileError PreviewOverrides
  | .options o => .ok o.overrides
  | .unusable kindName => .error (.notOptions kindName)

/-- A plan, with what is told about its making. -/
structure Compilation where
  plan : Plan
  nodeCount : Nat
  speed : Binary64

/-- The stages of a source and a target with what stands between them in a chain. -/
def stagesOf (cwd : String) (parts : Parts) (load : Load) (target : Export) (window : TrimWindow)
    (speed : Binary64) : Except ArithmeticError (List Stage) := do
  let inputArgs ← window.inputArgs
  let trims ← trimStage window parts.trims
  let crops ← cropStage parts.crops parts.trims
  let overlays ← overlayStages cwd 0 parts.overlays
  let outputArgs ← window.outputArgs speed
  let source : Stage := .input {
    kind := load.kind
    version := load.version
    args := inputArgs
    path := Path.absolute cwd load.path }
  return source :: trims ++ crops ++ (parts.resizes.getLast?.map resizeStage).toList ++ overlays ++
    parts.captions.map captionStage ++ speedStage speed ++
    (parts.frameRates.getLast?.map frameRateStage).toList ++
    [squarePixelsStage, outputStage target outputArgs]

/-- The plan of a list of nodes: the stages come first, then the preview, then what is known of the
    result. -/
def compileNodes (cwd : String) (options : OptionsSource) (nodes : List Node) :
    Except CompileError Compilation :=
  let parts := Parts.ofNodes nodes
  match parts.loads, parts.exports.getLast? with
  | [], _ => .error .noSource
  | _ :: _ :: _, _ => .error (.manySources parts.loads.length)
  | [_], none => .error .noExport
  | [load], some target => do
    let rate := parts.frameRates.getLast?
    let window ← arithmetic (TrimWindow.ofTrims parts.trims)
    let speed ← arithmetic (compoundSpeed parts.speeds)
    let stages ← arithmetic (stagesOf cwd parts load target window speed)
    -- Options of an unusable kind are noticed here, after the stages.
    let preview := previewOf (← options.overrides) load parts.resizes.getLast? rate
    let duration ← arithmetic (estimatedDuration load.duration window speed)
    let metadata : PlanMetadata := {
      estimatedDuration := duration
      strictCut := window.strict
      vsync := (rate.bind (·.vsync)).getD .constantRate
      sarNormalized := true }
    return { plan := { stages, preview, metadata }, nodeCount := nodes.length, speed }

/-- Compiles a chain and tells about it; the chain is looked at before the options. -/
def compilation (cwd : String) (chain : ChainInput) (options : OptionsInput) :
    Except CompileError Compilation := do
  let nodes ← chain.nodes
  let options ← options.read
  compileNodes cwd options nodes

/-- Compiles a chain to a plan. -/
def compile (cwd : String) (chain : ChainInput) (options : OptionsInput) : Except CompileError Plan :=
  return (← compilation cwd chain options).plan

/-- The note that a compilation leaves for whoever debugs it. -/
def Compilation.note (c : Compilation) : String :=
  "[FFmpegPlan] " ++ Number.intText c.plan.stages.length ++ " stages from " ++
    Number.intText c.nodeCount ++ " nodes (strict_cut=" ++
    (Value.bool c.plan.metadata.strictCut).shown ++ ", speed=" ++ c.speed.text ++ ")"

end MediaEngine
