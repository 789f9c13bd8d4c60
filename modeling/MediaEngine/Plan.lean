import MediaEngine.Chain.Node

/-!
# Plans

A plan is what a chain is compiled to: an ordered list of stages, one input stage, filter stages and one
output stage, together with what a live preview needs and what is known of the result.
-/

namespace MediaEngine
open Chain

/-- The source, with the options in front of it. -/
structure InputStage where
  kind : LoadKind
  version : String
  args : List String
  path : String
  deriving DecidableEq

/-- A filter and its parameters, in the order in which they are written. -/
structure FilterStage where
  type : String
  version : String
  params : Members

/-- The result, with the options in front of it. -/
structure OutputStage where
  version : String
  args : List String
  pixelFormat : String
  container : Option String
  videoCodec : Option String
  audioCodec : Option String
  deriving DecidableEq

/-- A stage of a plan. -/
inductive Stage where
  | input (stage : InputStage)
  | filter (stage : FilterStage)
  | output (stage : OutputStage)

/-- What a filter of the preview does. -/
inductive PreviewFilterKind where
  | colorspace
  | scale
  | setsar
  deriving DecidableEq

/-- A filter of the preview. -/
structure PreviewFilter where
  kind : PreviewFilterKind
  params : Members

/-- How the preview is decoded. -/
structure Preview where
  width : Int
  height : Int
  maxFps : Binary64
  filters : List PreviewFilter

/-- What is known of the result. -/
structure PlanMetadata where
  estimatedDuration : Option Binary64
  strictCut : Bool
  vsync : Vsync
  sarNormalized : Bool
  deriving DecidableEq

/-- A compiled chain. -/
structure Plan where
  stages : List Stage
  preview : Preview
  metadata : PlanMetadata

/-- What a plan that was put together by hand may lack. -/
inductive PlanError where
  | noInputStage
  | noOutputStage
  deriving DecidableEq

/-- The wording of what a plan lacks. -/
def PlanError.message : PlanError → String
  | .noInputStage => "FFmpegPlan must start with an input stage"
  | .noOutputStage => "FFmpegPlan must end with an output stage"

/-- The text that names what a preview filter does. -/
def PreviewFilterKind.text : PreviewFilterKind → String
  | .colorspace => "colorspace"
  | .scale => "scale"
  | .setsar => "setsar"

/-- The texts that name what preview filters do. -/
def PreviewFilterKind.choices : List (String × PreviewFilterKind) :=
  [("colorspace", .colorspace), ("scale", .scale), ("setsar", .setsar)]

namespace Stage

/-- The type of a stage: of an input the kind of source, of a filter its name. -/
def type : Stage → String
  | .input s => s.kind.text
  | .filter s => s.type
  | .output _ => NodeKind.export.tag

/-- The filter that a stage is. -/
def filter? : Stage → Option FilterStage
  | .filter s => some s
  | _ => none

end Stage

namespace Plan

/-- The first stage, which has to be an input. -/
def inputStage (p : Plan) : Except PlanError InputStage :=
  match p.stages.head? with
  | some (.input s) => .ok s
  | _ => .error .noInputStage

/-- The last stage, which has to be an output. -/
def outputStage (p : Plan) : Except PlanError OutputStage :=
  match p.stages.getLast? with
  | some (.output s) => .ok s
  | _ => .error .noOutputStage

/-- The filter stages, in order. -/
def filterStages (p : Plan) : List FilterStage := p.stages.filterMap Stage.filter?

/-- The filter stages of a type, in order. -/
def findStages (p : Plan) (type : String) : List FilterStage :=
  p.filterStages.filter (·.type == type)

/-- The first filter stage of a type. -/
def findStage (p : Plan) (type : String) : Option FilterStage := (p.findStages type).head?

/-- The stage at a position; a negative position counts from the end. -/
def stageAt? (p : Plan) (position : Int) : Option Stage :=
  let count : Int := p.stages.length
  let i := if position < 0 then position + count else position
  if 0 ≤ i then p.stages[i.toNat]? else none

/-- The plan with only the stages at some positions, in the order given; `none` if one is out of range. -/
def keep (p : Plan) (positions : List Int) : Option Plan :=
  (positions.mapM p.stageAt?).map fun stages => { p with stages }

end Plan

end MediaEngine
