import MediaEngine.Chain.Node.Reader

/-!
# Why a chain does not compile

A chain is refused with a reason when it is missing, malformed or incomplete. Three further errors come
from the arithmetic of bounds and ratios, from tags that cannot be looked up, and from options that are
none.
-/

namespace MediaEngine
open Chain

/-- Why a chain does not compile. -/
inductive CompileError where
  /-- There is no chain, or an object without a list of nodes. -/
  | noChain
  /-- Neither a list nor an object, but something of this kind. -/
  | notChain (kindName : String)
  | malformed (issues : List Schema.Issue)
  | badOptions (issues : List Schema.Issue)
  | noSource
  | manySources (count : Nat)
  | noExport
  | arithmetic (error : ArithmeticError)
  | tag (error : UnusableTag)
  /-- The options are something of this kind, which has no members. -/
  | notOptions (kindName : String)
  deriving DecidableEq

namespace CompileError

/-- The words in front of a malformed chain's report. -/
def malformedHead : String := "Malformed media chain"

/-- The words in front of the report of options. -/
def optionsHead : String := "Invalid plan options"

/-- The title of options in reports. -/
def optionsTitle : String := "BuildPlanOptions"

/-- The wording. -/
def message : CompileError → String
  | noChain => "A media chain with nodes is required"
  | notChain kindName => "A media chain with nodes is required, got " ++ kindName
  | malformed issues => malformedHead ++ ": " ++ Schema.Report.text ⟨nodesTitle, issues⟩
  | badOptions issues => optionsHead ++ ": " ++ Schema.Report.text ⟨optionsTitle, issues⟩
  | noSource => "A loadMedia, loadImage or loadVideo node is required to build an FFmpeg plan"
  | manySources count => "Exactly one load node is allowed, found " ++ Number.intText count
  | noExport => "An export node is required to finish the FFmpeg plan"
  | arithmetic error => error.message
  | tag error => error.message
  | notOptions kindName => "'" ++ kindName ++ "' object has no attribute 'preview'"

/-- Whether the chain or its options are refused for what they say. -/
def isRefusal : CompileError → Bool
  | arithmetic _ => false
  | tag _ => false
  | notOptions _ => false
  | _ => true

end CompileError

end MediaEngine
