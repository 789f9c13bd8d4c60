import MediaEngine.Chain.Node
import MediaEngine.Chain.Node.Keys
import MediaEngine.Value.Height

/-!
# Nodes as values

A node is written as an object with all its members, those that are not set as nothing, under either
spelling of the keys. In the members that take any value, numbers that are not finite become nothing, and
too high a value keeps the node from being written.
-/

namespace MediaEngine.Chain

/-- The members of a node that every kind has, and the text that names the kind. -/
def Header.members (preferred : Bool) (h : Header) (kind : String) : Members :=
  [(Keys.id.spelled preferred, .textOr h.id),
   (Keys.version.spelled preferred, .text h.version),
   (Keys.kind.spelled preferred, .text kind)]

/-- A number, or nothing. -/
def numberOr (n : Option Number) : Value := (n.map Value.number).getD .null

/-- A dimension, or nothing. -/
def dimensionOr (d : Option Dimension) : Value := (d.map Dimension.toValue).getD .null

def Region.members (r : Region) : Members :=
  [(Keys.x.name, numberOr r.x), (Keys.y.name, numberOr r.y),
   (Keys.width.name, numberOr r.width), (Keys.height.name, numberOr r.height)]

/-- A node as an object. -/
def Node.members (preferred : Bool) : Node → Members
  | .load n => n.toHeader.members preferred n.kind.text ++
    [(Keys.path.spelled preferred, .text n.path),
     (Keys.duration.spelled preferred, .doubleOr n.duration),
     (Keys.fps.spelled preferred, .doubleOr n.fps)]
  | .trim n => n.toHeader.members preferred NodeKind.trim.tag ++
    [(Keys.start.spelled preferred, n.start.finiteOnly),
     (Keys.stop.spelled preferred, n.stop.finiteOnly),
     (Keys.strict.spelled preferred, .bool n.strict),
     (Keys.region.spelled preferred, .objectOr (n.region.map Region.members))]
  | .resize n => n.toHeader.members preferred NodeKind.resize.tag ++
    [(Keys.width.spelled preferred, .int n.width),
     (Keys.height.spelled preferred, .int n.height),
     (Keys.mode.spelled preferred, .textOr (n.mode.map ResizeMode.text))]
  | .crop n => n.toHeader.members preferred NodeKind.crop.tag ++
    [(Keys.width.spelled preferred, n.width.toValue),
     (Keys.height.spelled preferred, n.height.toValue),
     (Keys.x.spelled preferred, dimensionOr n.x),
     (Keys.y.spelled preferred, dimensionOr n.y)]
  | .overlay n => n.toHeader.members preferred NodeKind.overlay.tag ++
    [(Keys.source.spelled preferred, .text n.source),
     (Keys.x.spelled preferred, dimensionOr n.x),
     (Keys.y.spelled preferred, dimensionOr n.y),
     (Keys.opacity.spelled preferred, n.opacity.finiteOnly)]
  | .caption n => n.toHeader.members preferred NodeKind.caption.tag ++
    [(Keys.text.spelled preferred, .text n.text),
     (Keys.fontSize.spelled preferred, .intOr n.fontSize),
     (Keys.color.spelled preferred, .textOr n.color),
     (Keys.x.spelled preferred, .textOr n.x),
     (Keys.y.spelled preferred, .textOr n.y)]
  | .speed n => n.toHeader.members preferred NodeKind.speed.tag ++
    [(Keys.ratio.spelled preferred, n.ratio.finiteOnly)]
  | .frameRate n => n.toHeader.members preferred NodeKind.frameRate.tag ++
    [(Keys.fps.spelled preferred, .double n.fps),
     (Keys.vsync.spelled preferred, .textOr (n.vsync.map Vsync.text))]
  | .export n => n.toHeader.members preferred NodeKind.export.tag ++
    [(Keys.container.spelled preferred, .textOr n.container),
     (Keys.videoCodec.spelled preferred, .textOr n.videoCodec),
     (Keys.audioCodec.spelled preferred, .textOr n.audioCodec),
     (Keys.pixelFormat.spelled preferred, .textOr n.pixelFormat)]

/-- A node as a value. -/
def Node.toValue (preferred : Bool) (n : Node) : Value := .object (n.members preferred)

/-- The members of a node that take any value. -/
def Node.freeValues : Node → List Value
  | .trim n => [n.start, n.stop]
  | .overlay n => [n.opacity]
  | .speed n => [n.ratio]
  | _ => []

/-- Whether a node may be written. -/
def Node.isWritable (n : Node) : Bool := n.freeValues.all Value.isWritable

/-- A node as it is written by itself. -/
def Node.write (preferred : Bool) (n : Node) : Except HeightError Value :=
  writtenIf n.isWritable (n.toValue preferred)

/-- A chain as a value. -/
def MediaChain.toValue (preferred : Bool) (c : MediaChain) : Value :=
  .object [(Keys.nodes.name, .list (c.nodes.map (Node.toValue preferred)))]

/-- A chain as it is written. -/
def MediaChain.write (preferred : Bool) (c : MediaChain) : Except HeightError Value :=
  if c.nodes.all Node.isWritable then .ok (c.toValue preferred) else .error .metAgain

end MediaEngine.Chain
