import MediaEngine.Schema.Record

/-!
# Options of a compilation

The caller may override the size and the frame rate of the preview.
-/

namespace MediaEngine
open Schema

/-- What the caller overrides in the preview. -/
structure PreviewOverrides where
  width : Option Int
  height : Option Int
  maxFps : Option Binary64
  deriving DecidableEq

/-- No overrides. -/
def PreviewOverrides.none : PreviewOverrides := ⟨Option.none, Option.none, Option.none⟩

/-- The options of a compilation. -/
structure PlanOptions where
  preview : Option PreviewOverrides
  deriving DecidableEq

namespace PlanOptions

/-- No options. -/
def none : PlanOptions := ⟨Option.none⟩

/-- The overrides, if any are given. -/
def overrides (o : PlanOptions) : PreviewOverrides := o.preview.getD .none

/-- The title of options in reports. -/
def title : String := "BuildPlanOptions"

def widthKey : Key := .only "width"
def heightKey : Key := .only "height"
def maxFpsKey : Key := .only "max_fps"
def previewKey : Key := .only "preview"

/-- The overrides of an object. -/
def readOverrides (m : Members) : Checked PreviewOverrides :=
  PreviewOverrides.mk <$> nullable widthKey readInteger m <*> nullable heightKey readInteger m
    <*> nullable maxFpsKey readDouble m <* closed [widthKey, heightKey, maxFpsKey] m

/-- The options of an object. -/
def readMembers (m : Members) : Checked PlanOptions :=
  PlanOptions.mk <$> nullable previewKey (record "PreviewOverrides" readOverrides) m
    <* closed [previewKey] m

/-- Options read from a value. -/
def read : Value → Checked PlanOptions := record title readMembers

end PlanOptions

end MediaEngine
