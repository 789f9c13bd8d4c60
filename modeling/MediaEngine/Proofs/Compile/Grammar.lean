import MediaEngine.Proofs.Compile.Cuts

/-! # The order of stages

A plan is one input stage, filter stages in blocks, and one output stage. Each block belongs to one kind of
stage: nodes of which only the last counts give one stage or none, overlays and texts give one stage each, and
every stage has the version of the node that it comes from (`compile_laid`). -/

namespace MediaEngine
open Chain

/-! ## Blocks -/

/-- A filter stage of a type and a version that shows these parameters among others. -/
def Stage.Bears (stage : Stage) (type version : String) (shown : Members) : Prop :=
  ∃ params, stage = filterStage type version params ∧ shown ⊆ params

/-- One stage of a sort if a condition holds, and none if it does not. -/
def OneIf (p : Prop) (sort : Stage → Prop) (block : List Stage) : Prop :=
  (p ∧ ∃ stage, block = [stage] ∧ sort stage) ∨ (¬ p ∧ block = [])

/-- Some trim node makes the cut strict, and the last one has a bound that counts. -/
def CutsStrictly (nodes : List Node) : Prop :=
  (∃ trim ∈ nodes.filterMap Node.trim?, trim.strict = true) ∧
    ∃ last n, (nodes.filterMap Node.trim?).getLast? = some last ∧ (last.start.Sets n ∨ last.stop.Sets n)

/-- There is a crop node, or the last trim node has a region. -/
def Crops (nodes : List Node) : Prop :=
  nodes.filterMap Node.crop? ≠ [] ∨
    ∃ last, (nodes.filterMap Node.trim?).getLast? = some last ∧ last.region ≠ none

/-- A crop comes from the last crop node, and where there is none from the region of the last trim node. -/
def CropOf (nodes : List Node) (stage : Stage) : Prop :=
  (∃ crop, (nodes.filterMap Node.crop?).getLast? = some crop ∧
    stage.Bears "crop" crop.version [("width", crop.width.toValue), ("height", crop.height.toValue)]) ∨
  (nodes.filterMap Node.crop? = [] ∧ ∃ last region params, (nodes.filterMap Node.trim?).getLast? = some last ∧
    last.region = some region ∧ regionParams region = .ok params ∧ stage.Bears "crop" last.version params)

/-- The filter stages of a plan, by kind. -/
structure Blocks where
  trim : List Stage
  crop : List Stage
  resize : List Stage
  overlays : List Stage
  captions : List Stage
  speed : List Stage
  rate : List Stage
  square : Stage

/-- The filter stages one block after the other. -/
def Blocks.stages (b : Blocks) : List Stage :=
  b.trim ++ b.crop ++ b.resize ++ b.overlays ++ b.captions ++ b.speed ++ b.rate ++ [b.square]

/-- Each block holds what the nodes of its kind ask for. -/
structure Blocks.Answer (b : Blocks) (cwd : String) (nodes : List Node) (speed : Binary64) : Prop where
  trim : OneIf (CutsStrictly nodes) (fun stage => ∃ last, (nodes.filterMap Node.trim?).getLast? = some last ∧
    stage.Bears "trim" last.version []) b.trim
  crop : OneIf (Crops nodes) (CropOf nodes) b.crop
  resize : OneIf (nodes.filterMap Node.resize? ≠ []) (fun stage => ∃ last,
    (nodes.filterMap Node.resize?).getLast? = some last ∧
      stage.Bears "resize" last.version [("width", .int last.width), ("height", .int last.height)]) b.resize
  overlays : List.Forall₂ (fun (node : Overlay) (stage : Stage) =>
    stage.Bears "overlay" node.version [("source_path", .text (Path.absolute cwd node.source))])
      (nodes.filterMap Node.overlay?) b.overlays
  captions : List.Forall₂ (fun (node : Caption) (stage : Stage) =>
    stage.Bears "text" node.version [("text", .text node.text)]) (nodes.filterMap Node.caption?) b.captions
  speed : OneIf (speed ≠ Binary64.ofNat 1) (fun stage => stage.Bears "speed" "1.0.0" [("ratio", .double speed)]) b.speed
  rate : OneIf (nodes.filterMap Node.frameRate? ≠ []) (fun stage => ∃ last,
    (nodes.filterMap Node.frameRate?).getLast? = some last ∧
      stage.Bears "changeFps" last.version [("fps", .double last.fps)]) b.rate
  square : b.square.Bears "setsar" "1.0.0" [("value", .int 1)]

section Blocks
variable {nodes : List Node} {w : TrimWindow} {block : List Stage}

theorem filterStage_bears {type version : String} {shown params : Members} (h : shown ⊆ params) :
    (filterStage type version params).Bears type version shown := ⟨params, rfl, h⟩

theorem oneIf_last {α : Type} {of : List α} {make : α → Stage} {sort : α → Stage → Prop} (h : ∀ a, sort a (make a)) :
    OneIf (of ≠ []) (fun stage => ∃ a, of.getLast? = some a ∧ sort a stage) (of.getLast?.map make).toList := by
  cases hl : of.getLast? with
  | none => exact .inr ⟨by simpa using hl, rfl⟩
  | some a =>
    refine .inl ⟨?_, make a, rfl, a, rfl, h a⟩
    rintro rfl
    simp at hl

theorem cutsStrictly_iff (h : Governs (nodes.filterMap Node.trim?) w) :
    CutsStrictly nodes ↔ w.strict = true ∧ ¬ w.Empty := by
  unfold CutsStrictly TrimWindow.Empty
  rw [← h.strict, and_congr_right_iff]
  intro _
  constructor
  · rintro ⟨last, n, hlast, hs | hs⟩ ⟨hstart, hstop⟩
    · rw [(h.start n).mpr ⟨last, hlast, hs⟩] at hstart
      cases hstart
    · rw [(h.stop n).mpr ⟨last, hlast, hs⟩] at hstop
      cases hstop
  · intro hw
    cases hstart : w.start with
    | some n =>
      obtain ⟨last, hlast, hs⟩ := (h.start n).mp hstart
      exact ⟨last, n, hlast, .inl hs⟩
    | none =>
      cases hstop : w.stop with
      | some n =>
        obtain ⟨last, hlast, hs⟩ := (h.stop n).mp hstop
        exact ⟨last, n, hlast, .inr hs⟩
      | none => exact absurd ⟨hstart, hstop⟩ hw

theorem trim_answers (hw : TrimWindow.ofTrims (nodes.filterMap Node.trim?) = .ok w)
    (h : trimStage w (nodes.filterMap Node.trim?) = .ok block) :
    OneIf (CutsStrictly nodes) (fun stage => ∃ last, (nodes.filterMap Node.trim?).getLast? = some last ∧
      stage.Bears "trim" last.version []) block := by
  have hiff := cutsStrictly_iff (ofTrims_governs hw)
  obtain ⟨params, hparams, h⟩ := bind_eq_ok.mp h
  cases h
  by_cases hcut : w.strict = true ∧ ¬ w.Empty
  · obtain ⟨m, rfl, -⟩ := w.strictParams_carries hcut.1 hcut.2 hparams
    obtain ⟨-, last, -, hlast, -⟩ := hiff.mpr hcut
    refine .inl ⟨hiff.mpr hcut, _, rfl, last, hlast, ?_⟩
    rw [hlast]
    exact filterStage_bears (List.nil_subset m)
  · have hnone : w.strict = false ∨ w.Empty := by
      cases hs : w.strict
      · exact .inl rfl
      · exact .inr (not_not.mp fun he => hcut ⟨hs, he⟩)
    rw [w.strictParams_none hnone] at hparams
    cases hparams
    exact .inr ⟨fun h => hcut (hiff.mp h), rfl⟩

theorem crop_answers (h : cropStage (nodes.filterMap Node.crop?) (nodes.filterMap Node.trim?) = .ok block) :
    OneIf (Crops nodes) (CropOf nodes) block := by
  unfold cropStage at h
  split at h
  · rename_i crop hcrop
    cases h
    refine .inl ⟨.inl fun hnil => ?_, _, rfl, .inl ⟨crop, hcrop, filterStage_bears (by simp)⟩⟩
    rw [hnil] at hcrop
    cases hcrop
  · rename_i last hcrops hlast
    rw [List.getLast?_eq_none_iff] at hcrops
    split at h
    · rename_i hregion
      cases h
      refine .inr ⟨?_, rfl⟩
      rintro (hno | ⟨last', hlast', hsome⟩)
      · exact hno hcrops
      · cases hlast.symm.trans hlast'
        exact hsome hregion
    · rename_i region hregion
      obtain ⟨params, hparams, h⟩ := bind_eq_ok.mp h
      cases h
      refine .inl ⟨.inr ⟨last, hlast, by simp [hregion]⟩, _, rfl, .inr ⟨hcrops, ?_⟩⟩
      exact ⟨last, region, params, hlast, hregion, hparams, filterStage_bears (List.Subset.refl _)⟩
  · rename_i hcrops hlast
    cases h
    refine .inr ⟨?_, rfl⟩
    rintro (hno | ⟨last, hlast', -⟩)
    · exact hno (List.getLast?_eq_none_iff.mp hcrops)
    · cases hlast.symm.trans hlast'

theorem overlays_answer {cwd : String} {i : Nat} {overlays : List Overlay} (h : overlayStages cwd i overlays = .ok block) :
    List.Forall₂ (fun (node : Overlay) (stage : Stage) =>
      stage.Bears "overlay" node.version [("source_path", .text (Path.absolute cwd node.source))]) overlays block := by
  induction overlays generalizing i block with
  | nil =>
    cases h
    exact .nil
  | cons node rest ih =>
    obtain ⟨first, hfirst, h⟩ := bind_eq_ok.mp h
    obtain ⟨others, hothers, h⟩ := bind_eq_ok.mp h
    obtain ⟨opacity, -, hfirst⟩ := bind_eq_ok.mp hfirst
    cases h
    cases hfirst
    exact .cons (filterStage_bears (by simp)) (ih hothers)

theorem speed_answers (speed : Binary64) : OneIf (speed ≠ Binary64.ofNat 1)
    (fun stage => stage.Bears "speed" "1.0.0" [("ratio", .double speed)]) (speedStage speed) := by
  unfold speedStage
  split
  · rename_i h
    exact .inr ⟨fun hne => hne h, rfl⟩
  · rename_i h
    exact .inl ⟨h, _, rfl, filterStage_bears (by simp)⟩

end Blocks

/-! ## Plans -/

/-- How a plan is laid out: its source, its filters and its result. -/
structure Laid (cwd : String) (nodes : List Node) (plan : Plan) (load : Load) (target : Export) (speed : Binary64)
    (source : InputStage) (b : Blocks) (result : OutputStage) : Prop where
  loads : nodes.filterMap Node.load? = [load]
  exports : (nodes.filterMap Node.export?).getLast? = some target
  ratio : compoundSpeed (nodes.filterMap Node.speed?) = .ok speed
  stages : plan.stages = .input source :: (b.stages ++ [.output result])
  answer : b.Answer cwd nodes speed
  kind : source.kind = load.kind
  sourceVersion : source.version = load.version
  resultVersion : result.version = target.version
  first : plan.inputStage = .ok source
  last : plan.outputStage = .ok result
  between : plan.filterStages.map .filter = b.stages

/-- The stage is a filter. -/
def Stage.IsFilter (stage : Stage) : Prop := ∃ f, stage = .filter f

theorem Stage.Bears.isFilter {stage : Stage} {type version : String} {shown : Members}
    (h : stage.Bears type version shown) : stage.IsFilter := by
  obtain ⟨params, rfl, -⟩ := h
  exact ⟨_, rfl⟩

theorem OneIf.isFilter {p : Prop} {sort : Stage → Prop} {block : List Stage} (h : OneIf p sort block)
    (hsort : ∀ stage, sort stage → stage.IsFilter) : ∀ stage ∈ block, stage.IsFilter := by
  intro stage hs
  rcases h with ⟨-, only, rfl, ho⟩ | ⟨-, rfl⟩
  · rw [List.mem_singleton.mp hs]
    exact hsort only ho
  · cases hs

theorem forall₂_isFilter {α : Type} {sort : α → Stage → Prop} {of : List α} {block : List Stage}
    (h : List.Forall₂ sort of block) (hsort : ∀ a stage, sort a stage → stage.IsFilter) :
    ∀ stage ∈ block, stage.IsFilter := by
  induction h with
  | nil => simp
  | cons hs _ ih => exact List.forall_mem_cons.mpr ⟨hsort _ _ hs, ih⟩

theorem Blocks.Answer.isFilter {b : Blocks} {cwd : String} {nodes : List Node} {speed : Binary64}
    (h : b.Answer cwd nodes speed) : ∀ stage ∈ b.stages, stage.IsFilter := by
  have htrim := h.trim.isFilter fun _ ⟨_, _, hb⟩ => hb.isFilter
  have hcrop := h.crop.isFilter fun _ hc => by
    rcases hc with ⟨_, _, hb⟩ | ⟨_, _, _, _, _, _, _, hb⟩ <;> exact hb.isFilter
  have hresize := h.resize.isFilter fun _ ⟨_, _, hb⟩ => hb.isFilter
  have hoverlays := forall₂_isFilter h.overlays fun _ _ hb => hb.isFilter
  have hcaptions := forall₂_isFilter h.captions fun _ _ hb => hb.isFilter
  have hspeed := h.speed.isFilter fun _ hb => hb.isFilter
  have hrate := h.rate.isFilter fun _ ⟨_, _, hb⟩ => hb.isFilter
  intro stage hs
  simp only [Blocks.stages, List.mem_append, List.mem_singleton] at hs
  rcases hs with ((((((hs | hs) | hs) | hs) | hs) | hs) | hs) | rfl
  · exact htrim stage hs
  · exact hcrop stage hs
  · exact hresize stage hs
  · exact hoverlays stage hs
  · exact hcaptions stage hs
  · exact hspeed stage hs
  · exact hrate stage hs
  · exact h.square.isFilter

theorem filterMap_filter? {stages : List Stage} (h : ∀ stage ∈ stages, stage.IsFilter) :
    (stages.filterMap Stage.filter?).map .filter = stages := by
  induction stages with
  | nil => rfl
  | cons stage rest ih =>
    obtain ⟨⟨f, rfl⟩, hrest⟩ := List.forall_mem_cons.mp h
    simp [Stage.filter?, ih hrest]

theorem Assembled.laid {cwd : String} {options : OptionsInput} {nodes : List Node} {plan : Plan} {load : Load}
    {w : TrimWindow} {speed : Binary64} (h : Assembled cwd options nodes plan load w speed) :
    ∃ target source b result, Laid cwd nodes plan load target speed source b result := by
  obtain ⟨target, htarget, hstages⟩ := h.stages
  obtain ⟨input, -, hstages⟩ := bind_eq_ok.mp hstages
  obtain ⟨trims, htrims, hstages⟩ := bind_eq_ok.mp hstages
  obtain ⟨crops, hcrops, hstages⟩ := bind_eq_ok.mp hstages
  obtain ⟨overlays, hoverlays, hstages⟩ := bind_eq_ok.mp hstages
  obtain ⟨output, -, hstages⟩ := bind_eq_ok.mp hstages
  -- The stages between the first and the last are the blocks, each of which answers to its nodes.
  let b : Blocks := {
    trim := trims
    crop := crops
    resize := ((nodes.filterMap Node.resize?).getLast?.map resizeStage).toList
    overlays := overlays
    captions := (nodes.filterMap Node.caption?).map captionStage
    speed := speedStage speed
    rate := ((nodes.filterMap Node.frameRate?).getLast?.map frameRateStage).toList
    square := squarePixelsStage }
  have hanswer : b.Answer cwd nodes speed := {
    trim := trim_answers h.window htrims
    crop := crop_answers hcrops
    resize := oneIf_last fun node => filterStage_bears (by simp)
    overlays := overlays_answer hoverlays
    captions := List.forall₂_map_right_iff.mpr (List.forall₂_same.mpr fun node _ => filterStage_bears (by simp))
    speed := speed_answers speed
    rate := oneIf_last fun node => filterStage_bears (by simp)
    square := filterStage_bears (List.Subset.refl _) }
  obtain ⟨source, hsource, hkind, hversion⟩ : ∃ source : InputStage, Stage.input source =
      .input ⟨load.kind, load.version, input, Path.absolute cwd load.path⟩ ∧ source.kind = load.kind ∧
        source.version = load.version := ⟨_, rfl, rfl, rfl⟩
  obtain ⟨result, hresult, hresultVersion⟩ : ∃ result : OutputStage, Stage.output result = outputStage target output ∧
      result.version = target.version := ⟨_, rfl, rfl⟩
  have hall : plan.stages = .input source :: (b.stages ++ [.output result]) := by
    rw [hsource, hresult, ← Except.ok.inj hstages]
    simp [Blocks.stages, b, Parts.ofNodes]
  refine ⟨target, source, b, result, ?_⟩
  constructor
  case loads => exact h.source
  case exports => exact htarget
  case ratio => exact h.ratio
  case stages => exact hall
  case answer => exact hanswer
  case kind => exact hkind
  case sourceVersion => exact hversion
  case resultVersion => exact hresultVersion
  case first => simp [Plan.inputStage, hall]
  case last => simp [Plan.outputStage, hall, List.getLast?_cons]
  case between =>
    rw [Plan.filterStages, hall, List.filterMap_cons_none rfl, List.filterMap_append, List.filterMap_cons_none rfl,
      List.filterMap_nil, List.append_nil]
    exact filterMap_filter? hanswer.isFilter

/-- Every plan is laid out by the nodes of its chain, whatever their order: one input stage, a trim stage for a
    strict cut with a bound, a crop stage for a crop node or a region, a resize stage for a resize node, a stage
    for every overlay and then for every text, a speed stage for a ratio other than one, a stage for a frame
    rate, the stage that makes pixels square, and one output stage. -/
theorem compile_laid {cwd : String} {chain : ChainInput} {options : OptionsInput} {plan : Plan}
    (h : compile cwd chain options = .ok plan) :
    ∃ nodes load target speed source b result, chain.nodes = .ok nodes ∧
      Laid cwd nodes plan load target speed source b result := by
  obtain ⟨nodes, load, w, speed, hnodes, ha⟩ := compile_assembled h
  obtain ⟨target, source, b, result, hlaid⟩ := ha.laid
  exact ⟨nodes, load, target, speed, source, b, result, hnodes, hlaid⟩

/-- A chain in which every kind of node occurs, the export first and the source in the middle. -/
def mixedChain : MediaChain where
  nodes := [
    .export ⟨⟨none, defaultVersion⟩, some "mp4", none, none, none⟩,
    .frameRate ⟨⟨none, "1.1.0"⟩, Binary64.ofNat 25, none⟩,
    .caption ⟨⟨none, "1.2.0"⟩, "Hello", none, none, none, none⟩,
    .trim ⟨⟨none, "1.3.0"⟩, .null, .null, true, none⟩,
    .overlay ⟨⟨none, "1.4.0"⟩, "b.png", none, none, .null⟩,
    .load ⟨⟨none, "1.5.0"⟩, .video, "in.mp4", none, none⟩,
    .speed ⟨⟨none, "1.6.0"⟩, .int 2⟩,
    .overlay ⟨⟨none, "1.7.0"⟩, "a.png", none, none, .null⟩,
    .resize ⟨⟨none, "1.8.0"⟩, 640, 360, none⟩,
    .trim ⟨⟨none, "1.9.0"⟩, .int 500, .null, false, some ⟨none, none, some (.int 1), none⟩⟩]

/-- The types and versions of the stages of a chain, if it compiles. -/
def stagesOfChain (chain : MediaChain) : Option (List (String × Option String)) :=
  (compile "/work" (.chain chain) (.value .null)).toOption.map fun plan =>
    plan.stages.map fun stage => (stage.type, stage.filter?.map (·.version))

/-- The stages stand in their fixed order, and the crop has the version of the last trim node. -/
theorem mixedChain_laid : ∃ plan nodes load target speed source b result,
    compile "/work" (.chain mixedChain) (.value .null) = .ok plan ∧
      Laid "/work" nodes plan load target speed source b result ∧
      plan.stages.map (fun stage => (stage.type, stage.filter?.map (·.version))) =
        [("loadVideo", none), ("trim", some "1.9.0"), ("crop", some "1.9.0"), ("resize", some "1.8.0"),
          ("overlay", some "1.4.0"), ("overlay", some "1.7.0"), ("text", some "1.2.0"), ("speed", some "1.0.0"),
          ("changeFps", some "1.1.0"), ("setsar", some "1.0.0"), ("export", none)] := by
  have hstages : stagesOfChain mixedChain = some [("loadVideo", none), ("trim", some "1.9.0"), ("crop", some "1.9.0"),
      ("resize", some "1.8.0"), ("overlay", some "1.4.0"), ("overlay", some "1.7.0"), ("text", some "1.2.0"),
      ("speed", some "1.0.0"), ("changeFps", some "1.1.0"), ("setsar", some "1.0.0"), ("export", none)] := by
    decide +kernel
  obtain ⟨plan, hcompile, hstages⟩ := ok_of_toOption_map hstages
  obtain ⟨nodes, load, target, speed, source, b, result, -, hlaid⟩ := compile_laid hcompile
  exact ⟨plan, nodes, load, target, speed, source, b, result, hcompile, hlaid, hstages⟩

end MediaEngine
