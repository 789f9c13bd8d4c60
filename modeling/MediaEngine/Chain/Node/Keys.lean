import MediaEngine.Schema.Record

/-!
# The keys of nodes

Every member of a node has a spelling with underscores and one with inner capitals; the second is the one
an editor writes.
-/

namespace MediaEngine.Chain.Keys
open Schema

def id : Key := .only "id"
def version : Key := ⟨"node_version", "nodeVersion"⟩
def kind : Key := ⟨"type_id", "typeId"⟩
def path : Key := .only "path"
def duration : Key := ⟨"duration_ms", "durationMs"⟩
def fps : Key := .only "fps"
def start : Key := ⟨"start_ms", "startMs"⟩
def stop : Key := ⟨"end_ms", "endMs"⟩
def strict : Key := ⟨"strict_cut", "strictCut"⟩
def region : Key := .only "region"
def x : Key := .only "x"
def y : Key := .only "y"
def width : Key := .only "width"
def height : Key := .only "height"
def mode : Key := .only "mode"
def source : Key := ⟨"source_path", "sourcePath"⟩
def opacity : Key := .only "opacity"
def text : Key := .only "text"
def fontSize : Key := ⟨"font_size", "fontSize"⟩
def color : Key := .only "color"
def ratio : Key := .only "ratio"
def vsync : Key := .only "vsync"
def container : Key := .only "container"
def videoCodec : Key := ⟨"video_codec", "videoCodec"⟩
def audioCodec : Key := ⟨"audio_codec", "audioCodec"⟩
def pixelFormat : Key := ⟨"pixel_format", "pixelFormat"⟩

/-- The member of a chain that holds its nodes. -/
def nodes : Key := .only "nodes"

end MediaEngine.Chain.Keys
