import MediaEngine.Proofs.Compile.Arithmetic

/-! # What a plan is put together from

A chain compiles to a plan exactly if its nodes are read, the options are some, and each part of the plan can
be computed (`compile_assembled_iff`). Whatever is said about plans is read off this, and two chains with the
same nodes compile to the same plan or both to none (`same_nodes_same_plan`). -/

namespace MediaEngine
open Chain

theorem arithmetic_eq_ok {α : Type} {x : Except ArithmeticError α} {a : α} : arithmetic x = .ok a ↔ x = .ok a := by
  cases x with
  | ok b => exact ⟨fun h => by cases h; rfl, fun h => by cases h; rfl⟩
  | error e => exact iff_of_false (fun h => by cases h) fun h => by cases h

theorem ok_of_toOption_map {ε α β : Type} {x : Except ε α} {f : α → β} {b : β} (h : x.toOption.map f = some b) :
    ∃ a, x = .ok a ∧ f a = b := by
  cases x with
  | error e => cases h
  | ok a => exact ⟨a, rfl, Option.some.inj h⟩

/-- What the plan of a list of nodes is put together from. -/
structure Assembled (cwd : String) (options : OptionsInput) (nodes : List Node) (plan : Plan) (load : Load)
    (w : TrimWindow) (speed : Binary64) : Prop where
  source : (Parts.ofNodes nodes).loads = [load]
  window : TrimWindow.ofTrims (Parts.ofNodes nodes).trims = .ok w
  ratio : compoundSpeed (Parts.ofNodes nodes).speeds = .ok speed
  stages : ∃ target, (Parts.ofNodes nodes).exports.getLast? = some target ∧
    stagesOf cwd (Parts.ofNodes nodes) load target w speed = .ok plan.stages
  preview : ∃ o, options.read = .ok (.options o) ∧ plan.preview =
    previewOf o.overrides load (Parts.ofNodes nodes).resizes.getLast? (Parts.ofNodes nodes).frameRates.getLast?
  estimate : estimatedDuration load.duration w speed = .ok plan.metadata.estimatedDuration
  strict : plan.metadata.strictCut = w.strict
  vsync : plan.metadata.vsync = ((Parts.ofNodes nodes).frameRates.getLast?.bind (·.vsync)).getD .constantRate
  square : plan.metadata.sarNormalized = true

section Compile
variable {cwd : String} {chain : ChainInput} {options : OptionsInput} {plan : Plan}

theorem overrides_eq_ok {source : OptionsSource} {overrides : PreviewOverrides} :
    source.overrides = .ok overrides ↔ ∃ o, source = .options o ∧ o.overrides = overrides := by
  cases source with
  | options o => exact ⟨fun h => ⟨o, rfl, Except.ok.inj h⟩, fun ⟨_, h, ho⟩ => by cases h; exact congrArg _ ho⟩
  | unusable kindName => exact iff_of_false (fun h => by cases h) fun ⟨_, h, _⟩ => by cases h

theorem compile_assembled (h : compile cwd chain options = .ok plan) :
    ∃ nodes load w speed, chain.nodes = .ok nodes ∧ Assembled cwd options nodes plan load w speed := by
  obtain ⟨c, hc, h⟩ := bind_eq_ok.mp h
  obtain ⟨nodes, hnodes, hc⟩ := bind_eq_ok.mp hc
  obtain ⟨source, hsource, hc⟩ := bind_eq_ok.mp hc
  cases h
  unfold compileNodes at hc
  dsimp only at hc
  split at hc
  · cases hc
  · cases hc
  · cases hc
  · rename_i load target hloads htarget
    obtain ⟨w, hw, hc⟩ := bind_eq_ok.mp hc
    obtain ⟨speed, hspeed, hc⟩ := bind_eq_ok.mp hc
    obtain ⟨stages, hstages, hc⟩ := bind_eq_ok.mp hc
    obtain ⟨overrides, hoverrides, hc⟩ := bind_eq_ok.mp hc
    obtain ⟨duration, hduration, hc⟩ := bind_eq_ok.mp hc
    obtain ⟨o, rfl, rfl⟩ := overrides_eq_ok.mp hoverrides
    cases hc
    exact ⟨nodes, load, w, speed, hnodes, {
      source := hloads
      window := arithmetic_eq_ok.mp hw
      ratio := arithmetic_eq_ok.mp hspeed
      stages := ⟨target, htarget, arithmetic_eq_ok.mp hstages⟩
      preview := ⟨o, hsource, rfl⟩
      estimate := arithmetic_eq_ok.mp hduration
      strict := rfl
      vsync := rfl
      square := rfl }⟩

/-- What is assembled is what its nodes compile to. -/
theorem Assembled.compile {nodes : List Node} {load : Load} {w : TrimWindow} {speed : Binary64}
    (h : Assembled cwd options nodes plan load w speed) (hnodes : chain.nodes = .ok nodes) :
    compile cwd chain options = .ok plan := by
  obtain ⟨target, htarget, hstages⟩ := h.stages
  obtain ⟨o, hoptions, hpreview⟩ := h.preview
  have hmetadata : plan.metadata = ⟨plan.metadata.estimatedDuration, w.strict,
      ((Parts.ofNodes nodes).frameRates.getLast?.bind (·.vsync)).getD .constantRate, true⟩ := by
    rw [← h.strict, ← h.vsync, ← h.square]
  have hcompiled : compileNodes cwd (.options o) nodes = .ok ⟨plan, nodes.length, speed⟩ := by
    unfold compileNodes
    simp only [h.source, htarget]
    refine bind_eq_ok.mpr ⟨w, arithmetic_eq_ok.mpr h.window, bind_eq_ok.mpr ⟨speed, arithmetic_eq_ok.mpr h.ratio,
      bind_eq_ok.mpr ⟨plan.stages, arithmetic_eq_ok.mpr hstages, bind_eq_ok.mpr ⟨o.overrides, rfl,
        bind_eq_ok.mpr ⟨plan.metadata.estimatedDuration, arithmetic_eq_ok.mpr h.estimate, ?_⟩⟩⟩⟩⟩
    rw [← hpreview, ← hmetadata]
    rfl
  exact bind_eq_ok.mpr ⟨_, bind_eq_ok.mpr ⟨nodes, hnodes, bind_eq_ok.mpr ⟨_, hoptions, hcompiled⟩⟩, rfl⟩

/-- A chain compiles to the plans that are assembled from its nodes. -/
theorem compile_assembled_iff : compile cwd chain options = .ok plan ↔
    ∃ nodes load w speed, chain.nodes = .ok nodes ∧ Assembled cwd options nodes plan load w speed :=
  ⟨compile_assembled, fun ⟨_, _, _, _, hnodes, h⟩ => h.compile hnodes⟩

end Compile

/-! ## Plans in common -/

/-- Both compilations end with the same plan, or neither ends with one. -/
def SamePlan (x y : Except CompileError Plan) : Prop := ∀ plan, x = .ok plan ↔ y = .ok plan

theorem same_nodes_same_plan {a b : ChainInput} (h : ∀ nodes, a.nodes = .ok nodes ↔ b.nodes = .ok nodes) (cwd : String)
    (options : OptionsInput) : SamePlan (compile cwd a options) (compile cwd b options) := by
  intro plan
  simp only [compile_assembled_iff, h]

end MediaEngine
