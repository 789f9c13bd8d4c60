import MediaEngine.Plan
import MediaEngine.Value.Height

/-!
# Plans as values

A plan is written as an object, its members in a fixed order. In the parameters of filters numbers that
are not finite become nothing, and too high a value keeps the plan from being written; elsewhere such
numbers stay.
-/

namespace MediaEngine
open Chain

/-- Texts as a list. -/
def textList (ts : List String) : Value := .list (ts.map .text)

def InputStage.members (s : InputStage) : Members :=
  [("type_id", .text s.kind.text), ("node_version", .text s.version), ("stage", .text "input"),
   ("args", textList s.args), ("path", .text s.path)]

def FilterStage.members (s : FilterStage) : Members :=
  [("type_id", .text s.type), ("node_version", .text s.version), ("stage", .text "filter"),
   ("params", .object (Value.finiteMembers s.params))]

/-- How the picture of the result is scaled. -/
def interpolation : String := "bicubic"

def OutputStage.members (s : OutputStage) : Members :=
  [("type_id", .text NodeKind.export.tag), ("node_version", .text s.version),
   ("stage", .text "output"), ("args", textList s.args), ("pixel_format", .text s.pixelFormat),
   ("interpolation", .text interpolation), ("container", .textOr s.container),
   ("video_codec", .textOr s.videoCodec), ("audio_codec", .textOr s.audioCodec)]

def Stage.toValue : Stage → Value
  | .input s => .object s.members
  | .filter s => .object s.members
  | .output s => .object s.members

def PreviewFilter.toValue (f : PreviewFilter) : Value :=
  .object [("type", .text f.kind.text), ("params", .object (Value.finiteMembers f.params))]

def Preview.toValue (p : Preview) : Value :=
  .object [("width", .int p.width), ("height", .int p.height), ("max_fps", .double p.maxFps),
    ("filters", .list (p.filters.map PreviewFilter.toValue))]

def PlanMetadata.toValue (m : PlanMetadata) : Value :=
  .object [("estimated_duration_ms", .doubleOr m.estimatedDuration), ("strict_cut", .bool m.strictCut),
    ("vsync", .text m.vsync.text), ("sar_normalized", .bool m.sarNormalized)]

/-- A plan as a value. -/
def Plan.toValue (p : Plan) : Value :=
  .object [("stages", .list (p.stages.map Stage.toValue)), ("preview", p.preview.toValue),
    ("metadata", p.metadata.toValue)]

/-! ### What is written -/

/-- Whether a stage may be written. -/
def Stage.isWritable (s : Stage) : Bool := s.filter?.all (·.params.areWritable)

/-- A stage as it is written by itself. -/
def Stage.write (s : Stage) : Except HeightError Value := writtenIf s.isWritable s.toValue

/-- Whether a preview may be written. -/
def Preview.isWritable (p : Preview) : Bool := p.filters.all (·.params.areWritable)

/-- A plan as it is written, the stages first. -/
def Plan.write (p : Plan) : Except HeightError Value :=
  if p.stages.all Stage.isWritable then writtenIf p.preview.isWritable p.toValue
  else .error .metAgain

end MediaEngine
