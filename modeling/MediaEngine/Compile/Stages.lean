import MediaEngine.Compile.Window
import MediaEngine.FilterText
import MediaEngine.Path
import MediaEngine.Plan
import MediaEngine.Plan.Options
import MediaEngine.Text.Case

/-!
# The stages of a chain

How each kind of node becomes a stage. Of trim, crop, resize, frame rate and export nodes the last one
counts; overlays and texts are all kept; speed ratios multiply.
-/

namespace MediaEngine
open Chain

/-- A stage of a fixed type. -/
def filterStage (type version : String) (params : Members) : Stage :=
  .filter ⟨type, version, params⟩

/-- A stage if there are parameters for it. -/
def filterStageOf (type version : String) (params : Option Members) : List Stage :=
  (params.map (filterStage type version)).toList

/-- The stage of a strict cut, with the version of the last trim node. -/
def trimStage (w : TrimWindow) (trims : List Trim) : Except ArithmeticError (List Stage) :=
  return filterStageOf NodeKind.trim.tag ((trims.getLast?.map (·.version)).getD defaultVersion)
    (← w.strictParams)

/-- A dimension, or zero. -/
def dimensionOrZero (d : Option Dimension) : Value := (d.map Dimension.toValue).getD (.int 0)

/-- A size or offset of a region: values up to one are fractions of an axis, larger ones are pixels. -/
def regionValue (n : Option Number) (axis : String) (missing : Value) : Except ArithmeticError Value :=
  match n with
  | none => .ok missing
  | some n => do
    if ← n.isNaN then return missing
    else if Number.lt (.int 1) n then return .number n
    else return .text (axis ++ "*" ++ n.text)

/-- The parameters of the crop that a region asks for. -/
def regionParams (r : Region) : Except ArithmeticError Members := do
  let width ← regionValue r.width "iw" (.text "iw")
  let height ← regionValue r.height "ih" (.text "ih")
  let x ← regionValue r.x "iw" (.int 0)
  let y ← regionValue r.y "ih" (.int 0)
  return [("width", width), ("height", height), ("x", x), ("y", y)]

/-- The stage of the last crop node, or else of the region of the last trim node. -/
def cropStage (crops : List Crop) (trims : List Trim) : Except ArithmeticError (List Stage) :=
  match crops.getLast?, trims.getLast? with
  | some crop, _ =>
    .ok [filterStage NodeKind.crop.tag crop.version
      [("width", crop.width.toValue), ("height", crop.height.toValue),
       ("x", dimensionOrZero crop.x), ("y", dimensionOrZero crop.y)]]
  | none, some trim =>
    match trim.region with
    | none => .ok []
    | some region => do
      return [filterStage NodeKind.crop.tag trim.version (← regionParams region)]
  | none, none => .ok []

/-- The stage of a resize node. -/
def resizeStage (node : Resize) : Stage :=
  filterStage NodeKind.resize.tag node.version
    [("width", .int node.width), ("height", .int node.height),
     ("mode", .text (node.mode.getD .contain).text), ("interpolation", .text "bicubic")]

/-- The opacity that a value means: a number brought into the range from zero to one, and one for
    anything else. -/
def opacity : Value → Except ArithmeticError Binary64
  | .number n => do
    if ← n.isNaN then return Binary64.ofNat 1
    else (Number.min (.float (Binary64.ofNat 1)) (Number.zero.max n)).toDouble
  | _ => .ok (Binary64.ofNat 1)

/-- The stage of an overlay node, labelled by its position among the overlays. -/
def overlayStage (cwd : String) (index : Nat) (node : Overlay) : Except ArithmeticError Stage := do
  let source := Path.absolute cwd node.source
  return filterStage NodeKind.overlay.tag node.version
    [("source_path", .text source), ("escaped_source", .text (FilterText.escape source)),
     ("label", .text ("ovl" ++ Number.intText index)), ("x", dimensionOrZero node.x),
     ("y", dimensionOrZero node.y), ("opacity", .double (← opacity node.opacity))]

/-- The stages of the overlays from a position on. -/
def overlayStages (cwd : String) : Nat → List Overlay → Except ArithmeticError (List Stage)
  | _, [] => .ok []
  | i, node :: rest => do
    let stage ← overlayStage cwd i node
    return stage :: (← overlayStages cwd (i + 1) rest)

/-- A text that is not empty, or else a default. -/
def textOrDefault (s : Option String) (default : String) : String :=
  match s with
  | some s => if s.isEmpty then default else s
  | none => default

/-- The stage of a text node. -/
def captionStage (node : Caption) : Stage :=
  filterStage NodeKind.caption.tag node.version
    [("text", .text node.text), ("escaped_text", .text (FilterText.escape node.text)),
     ("font_size", .int (node.fontSize.getD 48)), ("color", .text (textOrDefault node.color "#ffffff")),
     ("x", .text (textOrDefault node.x "(w-text_w)/2")),
     ("y", .text (textOrDefault node.y "(h-text_h)/2"))]

/-- The factor that a ratio stands for: itself if it is a positive finite number. -/
def speedFactor : Value → Except ArithmeticError (Option Number)
  | .number n => do
    if Number.lt (.int 0) n then return if ← n.isFinite then some n else none
    else return none
  | _ => .ok none

/-- A ratio multiplied by one more. -/
def multiplySpeed (ratio : Binary64) (value : Value) : Except ArithmeticError Binary64 := do
  match ← speedFactor value with
  | none => return ratio
  | some n => return ratio.mul (← n.toDouble)

/-- The product of all ratios, starting from one. -/
def compoundSpeed (speeds : List Speed) : Except ArithmeticError Binary64 :=
  speeds.foldlM (fun ratio node => multiplySpeed ratio node.ratio) (Binary64.ofNat 1)

/-- The stage of a change of speed; none for a ratio of one. -/
def speedStage (ratio : Binary64) : List Stage :=
  if ratio = Binary64.ofNat 1 then []
  else [filterStage NodeKind.speed.tag defaultVersion
    [("ratio", .double ratio), ("setpts", .text ("PTS/" ++ ratio.text))]]

/-- The stage of a frame rate node. -/
def frameRateStage (node : FrameRate) : Stage :=
  filterStage NodeKind.frameRate.tag node.version
    [("fps", .double node.fps), ("vsync", .text (node.vsync.getD .constantRate).text)]

/-- The stage that makes the pixels square. -/
def squarePixelsStage : Stage := filterStage "setsar" defaultVersion [("value", .int 1)]

/-- The containers that hold still pictures. -/
def imageContainers : List String := ["png", "jpg", "jpeg", "webp", "gif"]

/-- The pixel format of a container whose export node names none. -/
def defaultPixelFormat (container : String) : String :=
  if imageContainers.contains (String.ofList (Text.lower container)) then "rgb24" else "yuv420p"

/-- The output stage of an export node. -/
def outputStage (node : Export) (args : List String) : Stage :=
  .output {
    version := node.version
    args
    pixelFormat := textOrDefault node.pixelFormat (defaultPixelFormat (node.container.getD ""))
    container := node.container
    videoCodec := node.videoCodec
    audioCodec := node.audioCodec }

/-- The preview: overrides win over nodes, and nodes over the defaults. -/
def previewOf (o : PreviewOverrides) (load : Load) (resize : Option Resize) (rate : Option FrameRate) :
    Preview :=
  let width := o.width.getD ((resize.map (·.width)).getD 1280)
  let height := o.height.getD ((resize.map (·.height)).getD 720)
  let maxFps := o.maxFps.getD ((rate.map (·.fps)).getD (load.fps.getD (Binary64.ofNat 30)))
  { width, height, maxFps
    filters := [
      ⟨.colorspace, [("profile", .text "srgb"), ("format", .text "rgba")]⟩,
      ⟨.scale, [("width", .int width), ("height", .int height), ("interpolation", .text "bilinear")]⟩,
      ⟨.setsar, [("value", .int 1)]⟩] }

/-- The expected length of the result: the length of the source less the start, cut to the window, at
    the compound speed. Unknown where the length of the source is. -/
def estimatedDuration (duration : Option Binary64) (w : TrimWindow) (speed : Binary64) :
    Except ArithmeticError (Option Binary64) :=
  match duration with
  | none => .ok none
  | some d =>
    if d.isFinite then do
      let left ← match w.start with
        | some start =>
          if Number.lt (.int 0) start then (Number.float d).sub start else pure (Number.float d)
        | none => pure (Number.float d)
      let kept := match ← w.length with
        | some length => left.min length
        | none => left
      return some (← (Number.zero.max kept).div (.float speed))
    else .ok none

end MediaEngine
