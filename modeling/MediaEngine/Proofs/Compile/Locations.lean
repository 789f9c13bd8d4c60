import MediaEngine.Proofs.Compile.Counterparts
import MediaEngine.Proofs.Paths

/-! # The paths in a plan

A plan names the path of its source and those of its overlays as they are seen from the working directory, in normal
form. A path that is absolute in the chain is the same from everywhere, and a chain with the paths of its plan compiles
to that plan again, wherever that is done (`compile_locates`). -/

namespace MediaEngine
open Chain MediaEngine.Path

/-- The paths that a plan names are that of its source and those of its overlays, in order. -/
structure Plan.Locates (plan : Plan) (source : String) (overlays : List String) : Prop where
  source : ∃ stage, plan.inputStage = .ok stage ∧ stage.path = source
  overlays : (plan.findStages NodeKind.overlay.tag).map (·.params.find? "source_path") =
    overlays.map fun path => some (.text path)

section Chain
variable {cwd source : String} {nodes : List Node}

namespace Chain

/-- The nodes with the source at a path, and the overlays at one path after the other. -/
def relocate (source : String) : List String → List Node → List Node
  | _, [] => []
  | paths, .load n :: rest => .load { n with path := source } :: relocate source paths rest
  | path :: paths, .overlay n :: rest => .overlay { n with source := path } :: relocate source paths rest
  | paths, n :: rest => n :: relocate source paths rest

/-- A load node with its path as it is seen from a directory. -/
def Load.resolve (cwd : String) (n : Load) : Load := { n with path := absolute cwd n.path }

/-- An overlay node with its path as it is seen from a directory. -/
def Overlay.resolve (cwd : String) (n : Overlay) : Overlay := { n with source := absolute cwd n.source }

/-- A node with its path, if it has one, as it is seen from a directory. -/
def Node.resolve (cwd : String) : Node → Node
  | .load n => .load (n.resolve cwd)
  | .overlay n => .overlay (n.resolve cwd)
  | n => n

end Chain

/-! ## Chains that are resolved -/

theorem relocate_eq_map (hsource : ∀ load ∈ nodes.filterMap Node.load?, absolute cwd load.path = source) :
    relocate source ((nodes.filterMap Node.overlay?).map fun n => absolute cwd n.source) nodes =
      nodes.map (Node.resolve cwd) := by
  induction nodes with
  | nil => rfl
  | cons node rest ih =>
    cases node with
    | load n =>
      obtain ⟨rfl, hrest⟩ := List.forall_mem_cons.mp hsource
      exact congrArg _ (ih hrest)
    | overlay n => exact congrArg _ (ih hsource)
    | _ => exact congrArg _ (ih hsource)

theorem filterMap_resolve {α : Type} {pick : Node → Option α} {resolve : α → α}
    (h : ∀ n : Node, pick (n.resolve cwd) = (pick n).map resolve) :
    (nodes.map (Node.resolve cwd)).filterMap pick = (nodes.filterMap pick).map resolve := by
  simp only [List.filterMap_map, List.map_filterMap, Function.comp_def, h]

theorem filterMap_unresolved {α : Type} {pick : Node → Option α} (h : ∀ n : Node, pick (n.resolve cwd) = pick n) :
    (nodes.map (Node.resolve cwd)).filterMap pick = nodes.filterMap pick := by
  simp only [List.filterMap_map, Function.comp_def, h]

theorem ofNodes_resolve (cwd : String) (nodes : List Node) : Parts.ofNodes (nodes.map (Node.resolve cwd)) =
    { Parts.ofNodes nodes with
      loads := (Parts.ofNodes nodes).loads.map (Load.resolve cwd)
      overlays := (Parts.ofNodes nodes).overlays.map (Overlay.resolve cwd) } := by
  simp only [Parts.ofNodes, Parts.mk.injEq]
  refine ⟨filterMap_resolve ?_, filterMap_unresolved ?_, filterMap_unresolved ?_, filterMap_unresolved ?_, filterMap_resolve ?_,
    filterMap_unresolved ?_, filterMap_unresolved ?_, filterMap_unresolved ?_, filterMap_unresolved ?_⟩ <;>
    rintro (_ | _) <;> rfl

end Chain

/-! ## What is made of them -/

section Stages
variable {cwd : String}

theorem absolute_again (h : Absolute cwd.toList) (again path : String) : absolute again (absolute cwd path) = absolute cwd path :=
  absolute_of_resolved (absolute_resolved h path) again

theorem overlayStages_resolve (h : Absolute cwd.toList) (again : String) (i : Nat) (overlays : List Overlay) :
    overlayStages again i (overlays.map (Overlay.resolve cwd)) = overlayStages cwd i overlays := by
  induction overlays generalizing i with
  | nil => rfl
  | cons node rest ih =>
    have hstage : overlayStage again i (node.resolve cwd) = overlayStage cwd i node := by
      simp only [overlayStage, Overlay.resolve, absolute_again h]
    simp only [List.map_cons, overlayStages, hstage, ih]

theorem stagesOf_resolve (h : Absolute cwd.toList) (again : String) (parts : Parts) (load : Load) (target : Export) (w : TrimWindow)
    (speed : Binary64) :
    stagesOf again { parts with loads := parts.loads.map (Load.resolve cwd), overlays := parts.overlays.map (Overlay.resolve cwd) }
      (load.resolve cwd) target w speed = stagesOf cwd parts load target w speed := by
  simp only [stagesOf, overlayStages_resolve h, Load.resolve, absolute_again h]

end Stages

section Assembled
variable {cwd : String} {options : OptionsInput} {nodes : List Node} {plan : Plan} {load : Load} {w : TrimWindow} {speed : Binary64}

/-- A chain that was resolved from an absolute directory compiles to its plan from everywhere. -/
theorem Assembled.resolve (h : Assembled cwd options nodes plan load w speed) (hcwd : Absolute cwd.toList) (again : String) :
    Assembled again options (nodes.map (Node.resolve cwd)) plan (load.resolve cwd) w speed := by
  obtain ⟨target, htarget, hstages⟩ := h.stages
  have hparts := ofNodes_resolve cwd nodes
  constructor
  case source => rw [hparts, h.source, List.map_singleton]
  case window => exact hparts ▸ h.window
  case ratio => exact hparts ▸ h.ratio
  case stages => exact ⟨target, hparts ▸ htarget, hparts ▸ (stagesOf_resolve hcwd again _ _ _ _ _).trans hstages⟩
  case preview => exact hparts ▸ h.preview
  case estimate => exact h.estimate
  case strict => exact h.strict
  case vsync => exact hparts ▸ h.vsync
  case square => exact h.square

/-- What is assembled in one directory is assembled, with other paths, in every other. -/
theorem Assembled.elsewhere (h : Assembled cwd options nodes plan load w speed) (other : String) :
    ∃ plan', Assembled other options nodes plan' load w speed := by
  obtain ⟨target, htarget, hstages⟩ := h.stages
  have hsound := TrimWindow.ofTrims_sound h.window
  have hcomputed := (succeeds_stagesOf cwd hsound _ _ _ _).mp ⟨_, hstages⟩
  obtain ⟨stages, hstages'⟩ := (succeeds_stagesOf other hsound _ _ _ _).mpr hcomputed
  exact ⟨{ plan with stages }, { h with stages := ⟨target, htarget, hstages'⟩ }⟩

theorem Assembled.locates (h : Assembled cwd options nodes plan load w speed) :
    plan.Locates (absolute cwd load.path) ((nodes.filterMap Node.overlay?).map fun n => absolute cwd n.source) := by
  obtain ⟨target, -, hstages⟩ := h.stages
  have hframed := stagesOf_framed hstages
  obtain ⟨input, -, hhead⟩ := hframed.first
  obtain ⟨overlays, hoverlays, htyped⟩ := hframed.overlays
  refine ⟨⟨_, by rw [Plan.inputStage, hhead], rfl⟩, ?_⟩
  change (stagesOfType NodeKind.overlay.tag plan.stages).map _ = _
  rw [htyped, paths_of_overlays (overlayStages_show hoverlays), List.map_map]
  rfl

end Assembled

/-! ## Plans -/

/-- How the paths of a plan stand to the nodes that they come from. -/
structure Located (chain : ChainInput) (options : OptionsInput) (nodes : List Node) (load : Load) (plan : Plan) (source : String)
    (overlays : List String) : Prop where
  loads : nodes.filterMap Node.load? = [load]
  locates : plan.Locates source overlays
  count : overlays.length = (nodes.filterMap Node.overlay?).length
  resolved : ∀ path ∈ source :: overlays, Resolved path.toList
  kept : (Resolved load.path.toList → source = load.path) ∧
    ∀ (k : Nat) (node : Overlay), (nodes.filterMap Node.overlay?)[k]? = some node → Resolved node.source.toList → overlays[k]? = some node.source
  steady : ∀ other, ∃ plan' source' overlays', compile other chain options = .ok plan' ∧ plan'.Locates source' overlays' ∧
    (Absolute load.path.toList → source' = source) ∧
    ∀ (k : Nat) (node : Overlay), (nodes.filterMap Node.overlay?)[k]? = some node → Absolute node.source.toList → overlays'[k]? = overlays[k]?
  again : ∀ other chain', chain'.nodes = .ok (relocate source overlays nodes) → compile other chain' options = .ok plan

/-- Every path in a plan that was compiled in an absolute directory is in normal form. It is the same in every directory
if it is absolute in the chain, and the chain with these paths compiles to the plan again in every directory. -/
theorem compile_locates {cwd : String} {chain : ChainInput} {options : OptionsInput} {plan : Plan} (hcwd : Absolute cwd.toList)
    (h : compile cwd chain options = .ok plan) :
    ∃ nodes load source overlays, chain.nodes = .ok nodes ∧ Located chain options nodes load plan source overlays := by
  obtain ⟨nodes, load, w, speed, hnodes, ha⟩ := compile_assembled h
  have hload : nodes.filterMap Node.load? = [load] := ha.source
  have hoverlay : ∀ other (k : Nat) (node : Overlay), (nodes.filterMap Node.overlay?)[k]? = some node →
      ((nodes.filterMap Node.overlay?).map fun n => absolute other n.source)[k]? = some (absolute other node.source) :=
    fun other k node hnode => by rw [List.getElem?_map, hnode, Option.map_some]
  -- The paths are those of the load node and of the overlays, each resolved in the directory.
  refine ⟨nodes, load, absolute cwd load.path, (nodes.filterMap Node.overlay?).map fun n => absolute cwd n.source, hnodes, ?_⟩
  constructor
  case loads => exact hload
  case locates => exact ha.locates
  case count => rw [List.length_map]
  case resolved =>
    refine List.forall_mem_cons.mpr ⟨absolute_resolved hcwd _, List.forall_mem_map.mpr fun n _ => ?_⟩
    exact absolute_resolved hcwd n.source
  case kept =>
    refine ⟨fun hpath => absolute_of_resolved hpath cwd, fun k node hnode hpath => ?_⟩
    rw [hoverlay cwd k node hnode, absolute_of_resolved hpath]
  case steady =>
    intro other
    obtain ⟨plan', ha'⟩ := ha.elsewhere other
    refine ⟨plan', _, _, ha'.compile hnodes, ha'.locates, fun hpath => absolute_congr hpath other cwd, fun k node hnode hpath => ?_⟩
    rw [hoverlay other k node hnode, hoverlay cwd k node hnode, absolute_congr hpath other cwd]
  case again =>
    intro other chain' hchain'
    have hsource : ∀ n ∈ nodes.filterMap Node.load?, absolute cwd n.path = absolute cwd load.path := fun n hn => by
      rw [hload, List.mem_singleton] at hn
      rw [hn]
    exact (ha.resolve hcwd other).compile (hchain'.trans (congrArg _ (relocate_eq_map hsource)))

/-- A chain with a source above the working directory, and overlays here and at the root. -/
def scattered : MediaChain where
  nodes := [
    .overlay ⟨⟨none, defaultVersion⟩, "//logo/./x.png", none, none, .null⟩,
    .load ⟨⟨none, defaultVersion⟩, .video, "../in//a.mp4", none, none⟩,
    .export ⟨⟨none, defaultVersion⟩, none, none, none, none⟩,
    .overlay ⟨⟨none, defaultVersion⟩, "/../../b/..", none, none, .null⟩]

/-- The paths in a plan. -/
def Plan.paths (plan : Plan) : Option String × List (Option String) :=
  (plan.inputStage.toOption.map (·.path),
    (plan.findStages NodeKind.overlay.tag).map fun stage => heldText (stage.params.find? "source_path"))

theorem Plan.Locates.paths {plan : Plan} {source : String} {overlays : List String} (h : plan.Locates source overlays) :
    plan.paths = (some source, overlays.map some) := by
  obtain ⟨⟨stage, hstage, rfl⟩, hoverlays⟩ := h
  have hheld := congrArg (List.map heldText) hoverlays
  rw [List.map_map, List.map_map] at hheld
  rw [Plan.paths, hstage]
  exact congrArg (Prod.mk _) hheld

/-- Two slashes in front of an overlay are kept, and `..` at the root is dropped. -/
theorem scattered_located : ∃ plan nodes load, Absolute "/home/me".toList ∧
    compile "/home/me" (.chain scattered) (.value .null) = .ok plan ∧
      Located (.chain scattered) (.value .null) nodes load plan "/home/in/a.mp4" ["//logo/x.png", "/"] := by
  have hcwd : Absolute "/home/me".toList := by decide
  have hpaths : (compile "/home/me" (.chain scattered) (.value .null)).toOption.map Plan.paths =
      some (some "/home/in/a.mp4", [some "//logo/x.png", some "/"]) := by decide +kernel
  obtain ⟨plan, hplan, hpaths⟩ := ok_of_toOption_map hpaths
  obtain ⟨nodes, load, source, overlays, -, hlocated⟩ := compile_locates hcwd hplan
  rw [hlocated.locates.paths] at hpaths
  obtain ⟨hsource, hoverlays⟩ := Prod.mk.inj hpaths
  cases hsource
  obtain rfl : overlays = ["//logo/x.png", "/"] := List.map_injective_iff.mpr (Option.some_injective _) hoverlays
  exact ⟨plan, nodes, load, hcwd, hplan, hlocated⟩

end MediaEngine
