import MediaEngine.Proofs.Compile.Arithmetic

/-! # The frame of a plan

The stages of a chain begin with its source and end with its result. What stands between them comes in blocks, each of a
type of its own, so that the stages of a type are those of its block (`stagesOf_framed`). -/

namespace MediaEngine
open Chain

/-- The filter stages of a type among some stages. -/
def stagesOfType (type : String) (stages : List Stage) : List FilterStage :=
  (stages.filterMap Stage.filter?).filter (·.type == type)

section Types
variable {type : String} {stages : List Stage}

theorem stagesOfType_append (a b : List Stage) :
    stagesOfType type (a ++ b) = stagesOfType type a ++ stagesOfType type b := by
  rw [stagesOfType, List.filterMap_append, List.filter_append]
  rfl

theorem stagesOfType_input (s : InputStage) (stages : List Stage) :
    stagesOfType type (.input s :: stages) = stagesOfType type stages := rfl

/-- No filter, or one of this type. -/
def Stage.Typed (type : String) (stage : Stage) : Prop := ∀ f, stage.filter? = some f → f.type = type

theorem filterStage_typed (type version : String) (params : Members) : (filterStage type version params).Typed type := by
  intro f hf
  cases hf
  rfl

/-- Where all stages are of one type, all of them are of that type, and none of another. -/
theorem stagesOfType_typed {name : String} (h : ∀ stage ∈ stages, stage.Typed name) :
    stagesOfType type stages = if name = type then stages.filterMap Stage.filter? else [] := by
  have hname : ∀ f ∈ stages.filterMap Stage.filter?, f.type = name := by
    intro f hf
    obtain ⟨stage, hs, hf⟩ := List.mem_filterMap.mp hf
    exact h stage hs f hf
  unfold stagesOfType
  split
  · rename_i heq
    exact List.filter_eq_self.mpr fun f hf => beq_iff_eq.mpr ((hname f hf).trans heq)
  · rename_i hne
    exact List.filter_eq_nil_iff.mpr fun f hf h => hne ((hname f hf).symm.trans (beq_iff_eq.mp h))

/-- In blocks of one type each, the stages of a type are those of its blocks. -/
theorem stagesOfType_blocks {blocks : List (String × List Stage)} (h : ∀ b ∈ blocks, ∀ stage ∈ b.2, stage.Typed b.1)
    (source : InputStage) : stagesOfType type (.input source :: blocks.flatMap (·.2)) =
      (blocks.filter (·.1 == type)).flatMap fun b => b.2.filterMap Stage.filter? := by
  rw [stagesOfType_input]
  induction blocks with
  | nil => rfl
  | cons b rest ih =>
    obtain ⟨hb, hrest⟩ := List.forall_mem_cons.mp h
    rw [List.flatMap_cons, stagesOfType_append, stagesOfType_typed hb, ih hrest, List.filter_cons]
    by_cases hname : b.1 = type
    · simp [hname]
    · simp [hname]

end Types

/-! ## Blocks -/

section Blocks
variable {stages : List Stage}

theorem option_typed {α : Type} {type : String} (node : Option α) {make : α → Stage} (h : ∀ a, (make a).Typed type) :
    ∀ stage ∈ (node.map make).toList, stage.Typed type := by
  intro stage hs
  obtain ⟨a, -, rfl⟩ := Option.map_eq_some_iff.mp (Option.mem_toList.mp hs)
  exact h a

theorem filterStageOf_typed (type version : String) (params : Option Members) :
    ∀ stage ∈ filterStageOf type version params, stage.Typed type :=
  option_typed params fun _ => filterStage_typed _ _ _

theorem cropStage_typed {crops : List Crop} {trims : List Trim} (h : cropStage crops trims = .ok stages) :
    ∀ stage ∈ stages, stage.Typed NodeKind.crop.tag := by
  unfold cropStage at h
  split at h
  · cases h
    exact List.forall_mem_singleton.mpr (filterStage_typed _ _ _)
  · split at h
    · cases h
      exact List.forall_mem_nil _
    · obtain ⟨params, -, h⟩ := bind_eq_ok.mp h
      cases h
      exact List.forall_mem_singleton.mpr (filterStage_typed _ _ _)
  · cases h
    exact List.forall_mem_nil _

theorem overlayStages_typed {cwd : String} {i : Nat} {overlays : List Overlay} (h : overlayStages cwd i overlays = .ok stages) :
    ∀ stage ∈ stages, stage.Typed NodeKind.overlay.tag := by
  induction overlays generalizing i stages with
  | nil =>
    cases h
    exact List.forall_mem_nil _
  | cons o rest ih =>
    obtain ⟨first, hfirst, h⟩ := bind_eq_ok.mp h
    obtain ⟨others, hothers, h⟩ := bind_eq_ok.mp h
    obtain ⟨opacity, -, hfirst⟩ := bind_eq_ok.mp hfirst
    cases h
    cases hfirst
    exact List.forall_mem_cons.mpr ⟨filterStage_typed _ _ _, ih hothers⟩

theorem captionStages_typed (captions : List Caption) : ∀ stage ∈ captions.map captionStage, stage.Typed NodeKind.caption.tag :=
  List.forall_mem_map.mpr fun _ _ => filterStage_typed _ _ _

theorem speedStage_typed (speed : Binary64) : ∀ stage ∈ speedStage speed, stage.Typed NodeKind.speed.tag := by
  unfold speedStage
  split
  · exact List.forall_mem_nil _
  · exact List.forall_mem_singleton.mpr (filterStage_typed _ _ _)

end Blocks

/-- The ends of the stages of a chain, and its stages of the types that show a cut, overlays and texts. -/
structure Framed (cwd : String) (parts : Parts) (load : Load) (target : Export) (w : TrimWindow) (speed : Binary64)
    (stages : List Stage) : Prop where
  first : ∃ input, w.inputArgs = .ok input ∧
    stages.head? = some (.input ⟨load.kind, load.version, input, Path.absolute cwd load.path⟩)
  last : ∃ output, w.outputArgs speed = .ok output ∧ stages.getLast? = some (outputStage target output)
  trims : ∃ params, w.strictParams = .ok params ∧
    (stagesOfType NodeKind.trim.tag stages).map (·.params) = params.toList
  overlays : ∃ overlays, overlayStages cwd 0 parts.overlays = .ok overlays ∧
    stagesOfType NodeKind.overlay.tag stages = overlays.filterMap Stage.filter?
  captions : stagesOfType NodeKind.caption.tag stages = (parts.captions.map captionStage).filterMap Stage.filter?

theorem stagesOf_framed {cwd : String} {parts : Parts} {load : Load} {target : Export} {w : TrimWindow}
    {speed : Binary64} {stages : List Stage} (h : stagesOf cwd parts load target w speed = .ok stages) :
    Framed cwd parts load target w speed stages := by
  obtain ⟨input, hinput, h⟩ := bind_eq_ok.mp h
  obtain ⟨trims, htrims, h⟩ := bind_eq_ok.mp h
  obtain ⟨crops, hcrops, h⟩ := bind_eq_ok.mp h
  obtain ⟨overlays, hoverlays, h⟩ := bind_eq_ok.mp h
  obtain ⟨output, houtput, h⟩ := bind_eq_ok.mp h
  obtain ⟨params, hparams, htrims⟩ := bind_eq_ok.mp htrims
  cases htrims
  let source : InputStage := ⟨load.kind, load.version, input, Path.absolute cwd load.path⟩
  -- There is one block for each kind of node, in a fixed order, and a block has stages of its own type only.
  let blocks := [
    (NodeKind.trim.tag, filterStageOf NodeKind.trim.tag ((parts.trims.getLast?.map (·.version)).getD defaultVersion) params),
    (NodeKind.crop.tag, crops),
    (NodeKind.resize.tag, (parts.resizes.getLast?.map resizeStage).toList),
    (NodeKind.overlay.tag, overlays),
    (NodeKind.caption.tag, parts.captions.map captionStage),
    (NodeKind.speed.tag, speedStage speed),
    (NodeKind.frameRate.tag, (parts.frameRates.getLast?.map frameRateStage).toList),
    ("setsar", [squarePixelsStage, outputStage target output])]
  have htyped : ∀ b ∈ blocks, ∀ stage ∈ b.2, stage.Typed b.1 := by
    simp only [blocks, List.forall_mem_cons]
    exact ⟨filterStageOf_typed _ _ _, cropStage_typed hcrops, option_typed _ fun _ => filterStage_typed _ _ _,
      overlayStages_typed hoverlays, captionStages_typed _, speedStage_typed _, option_typed _ fun _ => filterStage_typed _ _ _,
      ⟨filterStage_typed _ _ _, nofun, List.forall_mem_nil _⟩, List.forall_mem_nil _⟩
  have hstages : stages = .input source :: blocks.flatMap (·.2) := by
    rw [← Except.ok.inj h]
    simp [blocks, source]
  constructor
  case first => exact ⟨input, hinput, by rw [hstages]; rfl⟩
  case last => exact ⟨output, houtput, by rw [← Except.ok.inj h]; exact List.getLast?_append_cons _ _ _⟩
  case trims =>
    refine ⟨params, hparams, ?_⟩
    rw [hstages, stagesOfType_blocks htyped]
    cases params <;> simp [blocks, NodeKind.tag, filterStageOf, filterStage, Stage.filter?]
  case overlays =>
    refine ⟨overlays, hoverlays, ?_⟩
    rw [hstages, stagesOfType_blocks htyped]
    simp [blocks, NodeKind.tag]
  case captions =>
    rw [hstages, stagesOfType_blocks htyped]
    simp [blocks, NodeKind.tag]

end MediaEngine
