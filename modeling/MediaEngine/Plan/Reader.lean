import MediaEngine.Plan.Printer
import MediaEngine.Schema.Record

/-!
# Reading plans

A plan is read from an object. The member `stage` tells which kind a stage is. No other members than the
known ones may be there, and every issue is reported.
-/

namespace MediaEngine
open Chain Schema

namespace PlanKeys

def type : Key := .only "type_id"
def version : Key := .only "node_version"
def stage : Key := .only "stage"
def args : Key := .only "args"
def path : Key := .only "path"
def params : Key := .only "params"
def pixelFormat : Key := .only "pixel_format"
def interpolation : Key := .only "interpolation"
def container : Key := .only "container"
def videoCodec : Key := .only "video_codec"
def audioCodec : Key := .only "audio_codec"
def width : Key := .only "width"
def height : Key := .only "height"
def maxFps : Key := .only "max_fps"
def filters : Key := .only "filters"
def filterType : Key := .only "type"
def estimatedDuration : Key := .only "estimated_duration_ms"
def strictCut : Key := .only "strict_cut"
def vsync : Key := .only "vsync"
def sarNormalized : Key := .only "sar_normalized"
def stages : Key := .only "stages"
def preview : Key := .only "preview"
def metadata : Key := .only "metadata"

end PlanKeys

/-- A member that can only hold one text, which is also what it holds when it is missing. -/
def readFixed (k : Key) (word : String) (m : Members) : Checked Unit :=
  withDefault k (readChoice [(word, ())]) () m

def InputStage.read (m : Members) : Checked InputStage :=
  InputStage.mk <$> required PlanKeys.type (readChoice LoadKind.choices) m
    <*> required PlanKeys.version readText m <* readFixed PlanKeys.stage "input" m
    <*> withDefault PlanKeys.args (readList readText) [] m <*> required PlanKeys.path readText m
    <* closed [PlanKeys.type, PlanKeys.version, PlanKeys.stage, PlanKeys.args, PlanKeys.path] m

def FilterStage.read (m : Members) : Checked FilterStage :=
  FilterStage.mk <$> required PlanKeys.type readText m <*> required PlanKeys.version readText m
    <* readFixed PlanKeys.stage "filter" m <*> withDefault PlanKeys.params readObject [] m
    <* closed [PlanKeys.type, PlanKeys.version, PlanKeys.stage, PlanKeys.params] m

def OutputStage.read (m : Members) : Checked OutputStage :=
  OutputStage.mk <$> (readFixed PlanKeys.type NodeKind.export.tag m *>
      required PlanKeys.version readText m) <* readFixed PlanKeys.stage "output" m
    <*> withDefault PlanKeys.args (readList readText) [] m
    <*> required PlanKeys.pixelFormat readText m
    <* readFixed PlanKeys.interpolation interpolation m
    <*> nullable PlanKeys.container readText m <*> nullable PlanKeys.videoCodec readText m
    <*> nullable PlanKeys.audioCodec readText m
    <* closed [PlanKeys.type, PlanKeys.version, PlanKeys.stage, PlanKeys.args,
      PlanKeys.pixelFormat, PlanKeys.interpolation, PlanKeys.container, PlanKeys.videoCodec,
      PlanKeys.audioCodec] m

/-- The kinds of stage that a plan may hold. -/
def stageTags : List String := ["input", "filter", "output"]

/-- How messages name the member that tells the kind of a stage. -/
def stageRule : String := "'stage'"

/-- A stage of the kind that its tag names; issues of the members come under the tag. -/
def Stage.ofTagged (tag : String) (m : Members) : Checked Stage :=
  match tag with
  | "input" => ((InputStage.read m).map Stage.input).under (.key tag)
  | "filter" => ((FilterStage.read m).map Stage.filter).under (.key tag)
  | "output" => ((OutputStage.read m).map Stage.output).under (.key tag)
  | _ => .problem (.unknownTag tag stageRule stageTags)

/-- A stage of any kind. -/
def Stage.read : Value → Checked Stage
  | .object m =>
    match Members.find? m PlanKeys.stage.name with
    | some tag => Stage.ofTagged tag.plain m
    | none => .problem (.noTag stageRule)
  | _ => .problem .notTagged

def PreviewFilter.read (m : Members) : Checked PreviewFilter :=
  PreviewFilter.mk <$> required PlanKeys.filterType (readChoice PreviewFilterKind.choices) m
    <*> withDefault PlanKeys.params readObject [] m <* closed [PlanKeys.filterType, PlanKeys.params] m

def Preview.read (m : Members) : Checked Preview :=
  Preview.mk <$> required PlanKeys.width readInteger m <*> required PlanKeys.height readInteger m
    <*> required PlanKeys.maxFps readDouble m
    <*> withDefault PlanKeys.filters (readList (record "PreviewFilter" PreviewFilter.read)) [] m
    <* closed [PlanKeys.width, PlanKeys.height, PlanKeys.maxFps, PlanKeys.filters] m

def PlanMetadata.read (m : Members) : Checked PlanMetadata :=
  PlanMetadata.mk <$> nullable PlanKeys.estimatedDuration readDouble m
    <*> withDefault PlanKeys.strictCut readTruth false m
    <*> withDefault PlanKeys.vsync (readChoice Vsync.choices) .constantRate m
    <*> withDefault PlanKeys.sarNormalized readTruth true m
    <* closed [PlanKeys.estimatedDuration, PlanKeys.strictCut, PlanKeys.vsync,
      PlanKeys.sarNormalized] m

/-- The title of a plan in reports. -/
def Plan.title : String := "FFmpegPlan"

def Plan.readMembers (m : Members) : Checked Plan :=
  Plan.mk <$> required PlanKeys.stages (readList Stage.read) m
    <*> required PlanKeys.preview (record "PreviewParams" Preview.read) m
    <*> required PlanKeys.metadata (record "PlanMetadata" PlanMetadata.read) m
    <* closed [PlanKeys.stages, PlanKeys.preview, PlanKeys.metadata] m

/-- A plan read from a value. -/
def Plan.read : Value → Checked Plan := record Plan.title Plan.readMembers

end MediaEngine
