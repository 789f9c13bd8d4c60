import MediaEngine.Chain.Node
import MediaEngine.Chain.Node.Keys

/-!
# Reading nodes

A node is read from an object: a tag selects the kind, and each kind reads its own members in a fixed
order, so that the issues of several members come in that order. Members that no kind knows are passed
over. A chain is a list of objects; a node that is ready already may stand in it too.
-/

namespace MediaEngine.Chain
open Schema

/-- A size or an offset: numbers and texts as they are, a truth value counted as one or zero. -/
def Dimension.read (v : Value) : Checked Dimension :=
  match v with
  | .number n => .ok (.pixels n)
  | .text s => .ok (.expression s)
  | v =>
    (((readInteger v).map fun n => Dimension.pixels (.int n)).under (.key "int")).orElse
      ((((readDouble v).map fun x => Dimension.pixels (.float x)).under (.key "float")).orElse
        (((readText v).map .expression).under (.key "str")))

/-- A number as it is; a text is read as a whole number if it can be, and else as a double. -/
def readNumber (v : Value) : Checked Number :=
  match v with
  | .number n => .ok n
  | v =>
    (((readInteger v).map Number.int).under (.key "int")).orElse
      (((readDouble v).map Number.float).under (.key "float"))

/-- The part that every kind of node shares. -/
def Header.read (m : Members) : Checked Header :=
  Header.mk <$> nullable Keys.id readText m <*> withDefault Keys.version readText defaultVersion m

/-- The tag of a node of a single kind. -/
def readTag (kind : NodeKind) (m : Members) : Checked Unit :=
  withDefault Keys.kind (readChoice [(kind.tag, ())]) () m

def Load.read (m : Members) : Checked Load :=
  Load.mk <$> Header.read m <*> withDefault Keys.kind (readChoice LoadKind.choices) .media m
    <*> required Keys.path readText m <*> nullable Keys.duration readDouble m <*> nullable Keys.fps readDouble m

def Region.read (m : Members) : Checked Region :=
  Region.mk <$> nullable Keys.x readNumber m <*> nullable Keys.y readNumber m
    <*> nullable Keys.width readNumber m <*> nullable Keys.height readNumber m

/-- The title of a region in reports. -/
def Region.title : String := "TrimRegion"

def Trim.read (m : Members) : Checked Trim :=
  Trim.mk <$> Header.read m <* readTag .trim m <*> withDefault Keys.start readAny .null m
    <*> withDefault Keys.stop readAny .null m <*> withDefault Keys.strict readTruth false m
    <*> nullable Keys.region (record Region.title Region.read) m

def Resize.read (m : Members) : Checked Resize :=
  Resize.mk <$> Header.read m <* readTag .resize m <*> required Keys.width readInteger m
    <*> required Keys.height readInteger m <*> nullable Keys.mode (readChoice ResizeMode.choices) m

def Crop.read (m : Members) : Checked Crop :=
  Crop.mk <$> Header.read m <* readTag .crop m <*> required Keys.width Dimension.read m
    <*> required Keys.height Dimension.read m <*> nullable Keys.x Dimension.read m
    <*> nullable Keys.y Dimension.read m

def Overlay.read (m : Members) : Checked Overlay :=
  Overlay.mk <$> Header.read m <* readTag .overlay m <*> required Keys.source readText m
    <*> nullable Keys.x Dimension.read m <*> nullable Keys.y Dimension.read m
    <*> withDefault Keys.opacity readAny .null m

def Caption.read (m : Members) : Checked Caption :=
  Caption.mk <$> Header.read m <* readTag .caption m <*> required Keys.text readText m
    <*> nullable Keys.fontSize readInteger m <*> nullable Keys.color readText m
    <*> nullable Keys.x readText m <*> nullable Keys.y readText m

def Speed.read (m : Members) : Checked Speed :=
  Speed.mk <$> Header.read m <* readTag .speed m <*> withDefault Keys.ratio readAny .null m

def FrameRate.read (m : Members) : Checked FrameRate :=
  FrameRate.mk <$> Header.read m <* readTag .frameRate m <*> required Keys.fps readDouble m
    <*> nullable Keys.vsync (readChoice Vsync.choices) m

def Export.read (m : Members) : Checked Export :=
  Export.mk <$> Header.read m <* readTag .export m <*> nullable Keys.container readText m
    <*> nullable Keys.videoCodec readText m <*> nullable Keys.audioCodec readText m
    <*> nullable Keys.pixelFormat readText m

/-- A node of a known kind. -/
def Node.ofMembers : NodeKind → Members → Checked Node
  | .load, m => (Load.read m).map .load
  | .trim, m => (Trim.read m).map .trim
  | .resize, m => (Resize.read m).map .resize
  | .crop, m => (Crop.read m).map .crop
  | .overlay, m => (Overlay.read m).map .overlay
  | .caption, m => (Caption.read m).map .caption
  | .speed, m => (Speed.read m).map .speed
  | .frameRate, m => (FrameRate.read m).map .frameRate
  | .export, m => (Export.read m).map .export

/-- How messages name the rule that finds a node's tag. -/
def tagRule : String := "_node_tag()"

/-- An item of a chain: a value still to be read, or a node. -/
inductive Item where
  | raw (value : Value)
  | ready (node : Node)

/-- What a chain says in the place of a node's tag. -/
inductive Tag where
  | known (kind : NodeKind)
  | unknown (tag : String)
  | absent

/-- A list or an object stands where a tag is looked up, which cannot be. -/
structure UnusableTag where
  kindName : String
  deriving DecidableEq

/-- The wording for a tag that cannot be looked up. -/
def UnusableTag.message (e : UnusableTag) : String := "unhashable type: '" ++ e.kindName ++ "'"

/-- The tag that a text is: the three load kinds share one. -/
def Tag.ofText (s : String) : Tag :=
  if (LoadKind.choices.lookup s).isSome then .known .load
  else
    match NodeKind.all.find? (·.tag == s) with
    | some kind => .known kind
    | none => .unknown s

/-- The tag found in a value. -/
def Tag.ofValue : Value → Except UnusableTag Tag
  | .object m =>
    match Key.find? Keys.kind m with
    | some (_, .text s) => .ok (.ofText s)
    | some (_, .list items) => .error ⟨(Value.list items).kindName⟩
    | some (_, .object members) => .error ⟨(Value.object members).kindName⟩
    | _ => .ok .absent
  | _ => .ok .absent

/-- Reads a value by the tag found in it; issues of the members come under the tag. -/
def Node.ofTagged (tag : Tag) (v : Value) : Checked Node :=
  match tag, v with
  | .known kind, .object m => (Node.ofMembers kind m).under (.key kind.tag)
  | .known kind, _ => (Checked.problem (.notRecord kind.title)).under (.key kind.tag)
  | .unknown tag, _ => .problem (.unknownTag tag tagRule (NodeKind.all.map NodeKind.tag))
  | .absent, _ => .problem (.noTag tagRule)

/-- One item of a chain. -/
def Item.read : Item → Except UnusableTag (Checked Node)
  | .ready node => .ok (.ok node)
  | .raw v => do return Node.ofTagged (← Tag.ofValue v) v

/-- The items of a chain from a position on. -/
def readNodesFrom : Nat → List Item → Except UnusableTag (Checked (List Node))
  | _, [] => .ok (.ok [])
  | i, item :: rest => do
    let node ← item.read
    let nodes ← readNodesFrom (i + 1) rest
    return List.cons <$> node.under (.index i) <*> nodes

/-- The nodes of a chain. A tag that cannot be looked up ends the reading, whatever else is wrong. -/
def readNodes (items : List Item) : Except UnusableTag (Checked (List Node)) := readNodesFrom 0 items

/-- The title of a list of nodes in reports. -/
def nodesTitle : String :=
  "list[tagged-union[" ++ ",".intercalate (NodeKind.all.map NodeKind.title) ++ "]]"

/-- The title of a chain in reports. -/
def chainTitle : String := "MediaChain"

/-- A chain read from the items of its list of nodes. -/
def MediaChain.ofItems (items : List Item) : Except UnusableTag (Checked MediaChain) := do
  return ((← readNodes items).under (.key Keys.nodes.name)).map MediaChain.mk

/-- A chain read from an object. -/
def MediaChain.read : Value → Except UnusableTag (Checked MediaChain)
  | .object m =>
    match Members.find? m Keys.nodes.name with
    | some (.list values) => MediaChain.ofItems (values.map .raw)
    | some _ => .ok ((Checked.problem .notList).under (.key Keys.nodes.name))
    | none => .ok ((Checked.problem .missing).under (.key Keys.nodes.name))
  | _ => .ok (.problem (.notRecord chainTitle))

end MediaEngine.Chain
