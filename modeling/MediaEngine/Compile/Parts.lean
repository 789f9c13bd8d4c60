import MediaEngine.Chain.Node

/-!
# The parts of a chain

The nodes of a chain by kind, each kind in chain order.
-/

namespace MediaEngine.Chain

namespace Node

/-- The load node that a node is. -/
def load? : Node → Option Load
  | .load n => some n
  | _ => none

/-- The trim node that a node is. -/
def trim? : Node → Option Trim
  | .trim n => some n
  | _ => none

/-- The resize node that a node is. -/
def resize? : Node → Option Resize
  | .resize n => some n
  | _ => none

/-- The crop node that a node is. -/
def crop? : Node → Option Crop
  | .crop n => some n
  | _ => none

/-- The overlay node that a node is. -/
def overlay? : Node → Option Overlay
  | .overlay n => some n
  | _ => none

/-- The text node that a node is. -/
def caption? : Node → Option Caption
  | .caption n => some n
  | _ => none

/-- The speed node that a node is. -/
def speed? : Node → Option Speed
  | .speed n => some n
  | _ => none

/-- The frame rate node that a node is. -/
def frameRate? : Node → Option FrameRate
  | .frameRate n => some n
  | _ => none

/-- The export node that a node is. -/
def export? : Node → Option Export
  | .export n => some n
  | _ => none

end Node

/-- The nodes of a chain by kind. -/
structure Parts where
  loads : List Load
  trims : List Trim
  resizes : List Resize
  crops : List Crop
  overlays : List Overlay
  captions : List Caption
  speeds : List Speed
  frameRates : List FrameRate
  exports : List Export

/-- The parts of a chain. -/
def Parts.ofNodes (nodes : List Node) : Parts where
  loads := nodes.filterMap Node.load?
  trims := nodes.filterMap Node.trim?
  resizes := nodes.filterMap Node.resize?
  crops := nodes.filterMap Node.crop?
  overlays := nodes.filterMap Node.overlay?
  captions := nodes.filterMap Node.caption?
  speeds := nodes.filterMap Node.speed?
  frameRates := nodes.filterMap Node.frameRate?
  exports := nodes.filterMap Node.export?

end MediaEngine.Chain
