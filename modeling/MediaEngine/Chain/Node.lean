import MediaEngine.Value

/-!
# Nodes of an editing chain

A chain is a list of nodes: the source that is loaded, how it is trimmed, cropped and resized, what is laid
over it, how fast it plays, and what it is exported to. Bounds, ratios and opacities may be any value; what
they mean is decided when the chain is compiled.
-/

namespace MediaEngine.Chain

/-- What a load node loads. -/
inductive LoadKind where
  | media
  | image
  | video
  deriving DecidableEq

/-- How a resized picture fills its frame. -/
inductive ResizeMode where
  | contain
  | cover
  | stretch
  deriving DecidableEq

/-- Whether frames come at a constant or a variable rate. -/
inductive Vsync where
  | constantRate
  | variableRate
  deriving DecidableEq

/-- A size or an offset: a number of pixels, or an expression. -/
inductive Dimension where
  | pixels (n : Number)
  | expression (s : String)
  deriving DecidableEq

/-- What every node carries. -/
structure Header where
  id : Option String
  version : String
  deriving DecidableEq

/-- The version of a node that does not name one. -/
def defaultVersion : String := "1.0.0"

/-- The source of a chain. -/
structure Load extends Header where
  kind : LoadKind
  path : String
  duration : Option Binary64
  fps : Option Binary64
  deriving DecidableEq

/-- A part of the picture; values up to one are fractions of the frame. -/
structure Region where
  x : Option Number
  y : Option Number
  width : Option Number
  height : Option Number
  deriving DecidableEq

/-- A time window in milliseconds, and a part of the picture. -/
structure Trim extends Header where
  start : Value
  stop : Value
  strict : Bool
  region : Option Region

/-- A new size of the picture. -/
structure Resize extends Header where
  width : Int
  height : Int
  mode : Option ResizeMode
  deriving DecidableEq

/-- A part of the picture to keep. -/
structure Crop extends Header where
  width : Dimension
  height : Dimension
  x : Option Dimension
  y : Option Dimension
  deriving DecidableEq

/-- A picture laid over the video. -/
structure Overlay extends Header where
  source : String
  x : Option Dimension
  y : Option Dimension
  opacity : Value

/-- A text laid over the video. -/
structure Caption extends Header where
  text : String
  fontSize : Option Int
  color : Option String
  x : Option String
  y : Option String
  deriving DecidableEq

/-- A change of the playing speed. -/
structure Speed extends Header where
  ratio : Value

/-- A change of the frame rate. -/
structure FrameRate extends Header where
  fps : Binary64
  vsync : Option Vsync
  deriving DecidableEq

/-- What the result is written as. -/
structure Export extends Header where
  container : Option String
  videoCodec : Option String
  audioCodec : Option String
  pixelFormat : Option String
  deriving DecidableEq

/-- A node of any kind. -/
inductive Node where
  | load (node : Load)
  | trim (node : Trim)
  | resize (node : Resize)
  | crop (node : Crop)
  | overlay (node : Overlay)
  | caption (node : Caption)
  | speed (node : Speed)
  | frameRate (node : FrameRate)
  | export (node : Export)

/-- The kinds of nodes. -/
inductive NodeKind where
  | load
  | trim
  | resize
  | crop
  | overlay
  | caption
  | speed
  | frameRate
  | export
  deriving DecidableEq

/-- A chain in which every node is ready. -/
structure MediaChain where
  nodes : List Node

namespace NodeKind

/-- The tag that selects a kind of node in a list. -/
def tag : NodeKind → String
  | load => "load"
  | trim => "trim"
  | resize => "resize"
  | crop => "crop"
  | overlay => "overlay"
  | caption => "text"
  | speed => "speed"
  | frameRate => "changeFps"
  | «export» => "export"

/-- The title of a kind of node in reports. -/
def title : NodeKind → String
  | load => "LoadMediaNode"
  | trim => "TrimNode"
  | resize => "ResizeNode"
  | crop => "CropNode"
  | overlay => "OverlayNode"
  | caption => "TextNode"
  | speed => "SpeedNode"
  | frameRate => "ChangeFpsNode"
  | «export» => "ExportNode"

/-- All kinds, in the order in which messages list them. -/
def all : List NodeKind :=
  [load, trim, resize, crop, overlay, caption, speed, frameRate, «export»]

end NodeKind

/-- The texts of the three kinds of load node. -/
def LoadKind.choices : List (String × LoadKind) :=
  [("loadMedia", .media), ("loadImage", .image), ("loadVideo", .video)]

/-- The text of a kind of load node. -/
def LoadKind.text : LoadKind → String
  | .media => "loadMedia"
  | .image => "loadImage"
  | .video => "loadVideo"

/-- The texts of the resize modes. -/
def ResizeMode.choices : List (String × ResizeMode) :=
  [("contain", .contain), ("cover", .cover), ("stretch", .stretch)]

/-- The text of a resize mode. -/
def ResizeMode.text : ResizeMode → String
  | .contain => "contain"
  | .cover => "cover"
  | .stretch => "stretch"

/-- The texts of the frame timings. -/
def Vsync.choices : List (String × Vsync) := [("cfr", .constantRate), ("vfr", .variableRate)]

/-- The text of a frame timing. -/
def Vsync.text : Vsync → String
  | .constantRate => "cfr"
  | .variableRate => "vfr"

/-- A dimension as a value. -/
def Dimension.toValue : Dimension → Value
  | .pixels n => .number n
  | .expression s => .text s

end MediaEngine.Chain
