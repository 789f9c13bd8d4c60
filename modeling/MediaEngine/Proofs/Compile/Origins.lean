import MediaEngine.Proofs.Compile.Assembly

/-! # Where stages come from

Every stage of a plan is the input or the output, is made of one node of the chain, or is made of the window, of the
compound speed or of nothing (`stagesOf_origins`). What is to hold of all stages is shown one origin at a time. -/

namespace MediaEngine
open Chain

/-- Where a stage of a plan comes from. -/
inductive Stage.Origin (cwd : String) (parts : Parts) (w : TrimWindow) (speed : Binary64) : Stage → Prop
  | input (s : InputStage) : Origin cwd parts w speed (.input s)
  | trim {version params} : w.strictParams = .ok (some params) →
      Origin cwd parts w speed (filterStage NodeKind.trim.tag version params)
  | crop {crop} : crop ∈ parts.crops → Origin cwd parts w speed (filterStage NodeKind.crop.tag crop.version
      [("width", crop.width.toValue), ("height", crop.height.toValue), ("x", dimensionOrZero crop.x),
       ("y", dimensionOrZero crop.y)])
  | region {version region params} : regionParams region = .ok params →
      Origin cwd parts w speed (filterStage NodeKind.crop.tag version params)
  | resize {node} : node ∈ parts.resizes → Origin cwd parts w speed (resizeStage node)
  | overlay {i node stage} : node ∈ parts.overlays → overlayStage cwd i node = .ok stage → Origin cwd parts w speed stage
  | caption {node} : node ∈ parts.captions → Origin cwd parts w speed (captionStage node)
  | speed {stage} : stage ∈ speedStage speed → Origin cwd parts w speed stage
  | frameRate {node} : node ∈ parts.frameRates → Origin cwd parts w speed (frameRateStage node)
  | square : Origin cwd parts w speed squarePixelsStage
  | output (s : OutputStage) : Origin cwd parts w speed (.output s)

section Origins
variable {cwd : String} {parts : Parts} {w : TrimWindow} {speed : Binary64} {stages : List Stage}

theorem trimStage_origins {trims : List Trim} (h : trimStage w trims = .ok stages) :
    ∀ stage ∈ stages, stage.Origin cwd parts w speed := by
  obtain ⟨params, hparams, h⟩ := bind_eq_ok.mp h
  cases h
  intro stage hs
  obtain ⟨m, rfl, rfl⟩ := Option.map_eq_some_iff.mp (Option.mem_toList.mp hs)
  exact .trim hparams

theorem cropStage_origins (h : cropStage parts.crops parts.trims = .ok stages) :
    ∀ stage ∈ stages, stage.Origin cwd parts w speed := by
  unfold cropStage at h
  intro stage hs
  split at h
  · rename_i hcrop
    cases h
    rw [List.mem_singleton.mp hs]
    exact .crop (List.mem_of_getLast? hcrop)
  · split at h
    · cases h
      cases hs
    · obtain ⟨params, hparams, h⟩ := bind_eq_ok.mp h
      cases h
      rw [List.mem_singleton.mp hs]
      exact .region hparams
  · cases h
    cases hs

theorem overlayStages_origins {i : Nat} {overlays : List Overlay} (h : overlayStages cwd i overlays = .ok stages)
    (hparts : overlays ⊆ parts.overlays) : ∀ stage ∈ stages, stage.Origin cwd parts w speed := by
  induction overlays generalizing i stages with
  | nil =>
    cases h
    intro stage hs
    cases hs
  | cons o rest ih =>
    obtain ⟨first, hfirst, h⟩ := bind_eq_ok.mp h
    obtain ⟨others, hothers, h⟩ := bind_eq_ok.mp h
    cases h
    obtain ⟨ho, hrest⟩ := List.cons_subset.mp hparts
    exact List.forall_mem_cons.mpr ⟨.overlay ho hfirst, ih hothers hrest⟩

/-- Every stage has an origin. -/
theorem stagesOf_origins {load : Load} {target : Export} (h : stagesOf cwd parts load target w speed = .ok stages) :
    ∀ stage ∈ stages, stage.Origin cwd parts w speed := by
  obtain ⟨input, -, h⟩ := bind_eq_ok.mp h
  obtain ⟨trims, htrims, h⟩ := bind_eq_ok.mp h
  obtain ⟨crops, hcrops, h⟩ := bind_eq_ok.mp h
  obtain ⟨overlays, hoverlays, h⟩ := bind_eq_ok.mp h
  obtain ⟨output, -, h⟩ := bind_eq_ok.mp h
  cases h
  simp only [List.cons_append, List.append_assoc, List.forall_mem_cons, List.forall_mem_append]
  refine ⟨.input _, trimStage_origins htrims, cropStage_origins hcrops, fun stage hs => ?_,
    overlayStages_origins hoverlays (List.Subset.refl _), fun stage hs => ?_, fun stage hs => .speed hs,
    fun stage hs => ?_, .square, .output _, nofun⟩
  · obtain ⟨node, hnode, rfl⟩ := Option.map_eq_some_iff.mp (Option.mem_toList.mp hs)
    exact .resize (List.mem_of_getLast? hnode)
  · obtain ⟨node, hnode, rfl⟩ := List.mem_map.mp hs
    exact .caption hnode
  · obtain ⟨node, hnode, rfl⟩ := Option.map_eq_some_iff.mp (Option.mem_toList.mp hs)
    exact .frameRate (List.mem_of_getLast? hnode)

end Origins

end MediaEngine
