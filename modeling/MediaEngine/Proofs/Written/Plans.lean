import MediaEngine.Plan.Reader
import MediaEngine.Proofs.Compile.Grammar
import MediaEngine.Proofs.Compile.Origins
import MediaEngine.Proofs.Written.Values

/-! # Plans as they are written

A plan is read back from what is written for it, up to the numbers in parameters that are not finite, and what
is read back is written the same. A plan is written as long as no value in its parameters is too high, which is
never so in a plan that a chain compiles to (`read_plans_reread`). -/

namespace MediaEngine
open Chain Schema

/-! ## Parts of a plan -/

/-- The stage without numbers in its parameters that are not finite. -/
def Stage.finiteOnly : Stage → Stage
  | .filter s => .filter { s with params := Value.finiteMembers s.params }
  | s => s

/-- The filter without numbers in its parameters that are not finite. -/
def PreviewFilter.finiteOnly (f : PreviewFilter) : PreviewFilter := { f with params := Value.finiteMembers f.params }

/-- The plan without numbers in its parameters that are not finite. -/
def Plan.finiteOnly (p : Plan) : Plan where
  stages := p.stages.map Stage.finiteOnly
  preview := { p.preview with filters := p.preview.filters.map PreviewFilter.finiteOnly }
  metadata := p.metadata

section Parts

theorem readChoice_previewFilterKind (kind : PreviewFilterKind) :
    readChoice PreviewFilterKind.choices (.text kind.text) = .ok kind := by
  cases kind <;> rfl

theorem readList_textList (ts : List String) : readList readText (textList ts) = .ok ts := by
  have hread : readList readText (.list (ts.map Value.text)) = .ok (ts.map id) := readList_map readText_text ts
  rwa [List.map_id] at hread

theorem InputStage.read_members (s : InputStage) : InputStage.read s.members = .ok s := by
  rw [← Checked.toOption_eq_some]
  simp [InputStage.read, InputStage.members, PlanKeys.type, PlanKeys.version, PlanKeys.stage, PlanKeys.args,
    PlanKeys.path, readFixed, closed, readChoice_loadKind, readList_textList]
  rfl

theorem OutputStage.read_members (s : OutputStage) : OutputStage.read s.members = .ok s := by
  rw [← Checked.toOption_eq_some]
  simp [OutputStage.read, OutputStage.members, PlanKeys.type, PlanKeys.version, PlanKeys.stage, PlanKeys.args,
    PlanKeys.pixelFormat, PlanKeys.interpolation, PlanKeys.container, PlanKeys.videoCodec, PlanKeys.audioCodec,
    readFixed, nullable, closed, readList_textList]
  rfl

theorem Stage.read_toValue (s : Stage) : Stage.read s.toValue = .ok s.finiteOnly := by
  cases s with
  | input s =>
    change ((InputStage.read s.members).map Stage.input).under (.key "input") = _
    rw [s.read_members]
    rfl
  | filter s => rfl
  | output s =>
    change ((OutputStage.read s.members).map Stage.output).under (.key "output") = _
    rw [s.read_members]
    rfl

theorem PreviewFilter.read_toValue (f : PreviewFilter) :
    record "PreviewFilter" PreviewFilter.read f.toValue = .ok f.finiteOnly := by
  rw [← Checked.toOption_eq_some]
  simp [PreviewFilter.toValue, record, PreviewFilter.read, PlanKeys.filterType, PlanKeys.params, closed,
    readChoice_previewFilterKind]
  rfl

theorem Preview.read_toValue (p : Preview) : record "PreviewParams" Preview.read p.toValue =
    .ok { p with filters := p.filters.map PreviewFilter.finiteOnly } := by
  rw [← Checked.toOption_eq_some]
  simp [Preview.toValue, record, Preview.read, PlanKeys.width, PlanKeys.height, PlanKeys.maxFps, PlanKeys.filters, closed,
    readList_map PreviewFilter.read_toValue]
  rfl

theorem PlanMetadata.read_toValue (m : PlanMetadata) : record "PlanMetadata" PlanMetadata.read m.toValue = .ok m := by
  rw [← Checked.toOption_eq_some]
  simp [PlanMetadata.toValue, record, PlanMetadata.read, PlanKeys.estimatedDuration, PlanKeys.strictCut, PlanKeys.vsync,
    PlanKeys.sarNormalized, nullable, closed, readChoice_vsync]
  rfl

end Parts

/-! ## Whole plans -/

/-- Whether every number in the parameters of a stage is finite. -/
def Stage.paramsFinite (s : Stage) : Bool := s.filter?.all fun f => Value.membersFinite f.params

/-- Whether every number in the parameters of a plan is finite. -/
def Plan.paramsFinite (p : Plan) : Bool :=
  p.stages.all Stage.paramsFinite && p.preview.filters.all fun f => Value.membersFinite f.params

/-- Whether no value in the parameters of a plan is too high to be written. -/
def Plan.isWritable (p : Plan) : Bool := p.stages.all Stage.isWritable && p.preview.isWritable

/-- A plan is written, what is written is read as a plan again, and this one is written the same. Numbers in
    parameters that are not finite are all that is lost. -/
structure Plan.Rereads (p : Plan) (written : Value) (again : Plan) : Prop where
  write : p.write = .ok written
  read : Plan.read written = .ok again
  rewrite : again.write = .ok written
  same : again = p ↔ p.paramsFinite = true

section Whole
variable {p : Plan}

theorem Stage.finiteOnly_eq_iff (s : Stage) : s.finiteOnly = s ↔ s.paramsFinite = true := by
  cases s with
  | filter f =>
    refine Iff.trans ⟨fun h => ?_, fun h => ?_⟩ Value.finiteMembers_eq_iff
    · exact congrArg FilterStage.params (Stage.filter.inj h)
    · exact congrArg (fun params => Stage.filter { f with params }) h
  | _ => exact iff_of_true rfl rfl

theorem PreviewFilter.finiteOnly_eq_iff (f : PreviewFilter) : f.finiteOnly = f ↔ Value.membersFinite f.params = true :=
  Iff.trans ⟨fun h => congrArg PreviewFilter.params h, fun h => congrArg (fun params => { f with params }) h⟩
    Value.finiteMembers_eq_iff

theorem map_eq_self_iff {α : Type} {f : α → α} {as : List α} : as.map f = as ↔ ∀ a ∈ as, f a = a := by
  conv_lhs => rhs; rw [← List.map_id as]
  exact List.map_inj_left

theorem Plan.finiteOnly_eq_iff (p : Plan) : p.finiteOnly = p ↔ p.paramsFinite = true := by
  obtain ⟨stages, ⟨width, height, maxFps, filters⟩, metadata⟩ := p
  simp only [Plan.finiteOnly, Plan.paramsFinite, Plan.mk.injEq, Preview.mk.injEq, map_eq_self_iff, Stage.finiteOnly_eq_iff,
    PreviewFilter.finiteOnly_eq_iff, Bool.and_eq_true, List.all_eq_true, true_and, and_true]

theorem Stage.toValue_finiteOnly (s : Stage) : s.finiteOnly.toValue = s.toValue := by
  cases s with
  | filter f =>
    change Value.object [_, _, _, ("params", .object (Value.finiteMembers (Value.finiteMembers f.params)))] = _
    rw [Value.finiteMembers_written]
    rfl
  | _ => rfl

theorem PreviewFilter.toValue_finiteOnly (f : PreviewFilter) : f.finiteOnly.toValue = f.toValue := by
  change Value.object [_, ("params", .object (Value.finiteMembers (Value.finiteMembers f.params)))] = _
  rw [Value.finiteMembers_written]
  rfl

theorem Plan.toValue_finiteOnly (p : Plan) : p.finiteOnly.toValue = p.toValue := by
  simp only [Plan.toValue, Plan.finiteOnly, Preview.toValue, List.map_map, Function.comp_def, Stage.toValue_finiteOnly,
    PreviewFilter.toValue_finiteOnly]

theorem Stage.isWritable_finiteOnly (s : Stage) : s.finiteOnly.isWritable = s.isWritable := by
  cases s with
  | filter f => exact areWritable_finiteMembers f.params
  | _ => rfl

theorem Plan.isWritable_finiteOnly (p : Plan) : p.finiteOnly.isWritable = p.isWritable := by
  simp only [Plan.isWritable, Plan.finiteOnly, Preview.isWritable, List.all_map, Function.comp_def,
    Stage.isWritable_finiteOnly, PreviewFilter.finiteOnly, areWritable_finiteMembers]

theorem Plan.write_iff {written : Value} : p.write = .ok written ↔ p.isWritable = true ∧ p.toValue = written := by
  rw [Plan.write, Plan.isWritable, Bool.and_eq_true, writtenIf]
  split
  · rename_i hstages
    split
    · rename_i hpreview
      simp [hstages, hpreview]
    · rename_i hpreview
      simp [hpreview]
  · rename_i hstages
    simp [hstages]

/-- What is written for a plan is read, less the numbers in parameters that are not finite. -/
theorem Plan.read_toValue (p : Plan) : Plan.read p.toValue = .ok p.finiteOnly := by
  rw [← Checked.toOption_eq_some]
  simp [Plan.toValue, Plan.read, record_object, Plan.readMembers, PlanKeys.stages, PlanKeys.preview, PlanKeys.metadata,
    closed, readList_map Stage.read_toValue, Preview.read_toValue, PlanMetadata.read_toValue]
  rfl

/-- A plan that is written is read back, exactly if it may be written. -/
theorem Plan.rereads_iff : (∃ written again, p.Rereads written again) ↔ p.isWritable = true := by
  constructor
  · rintro ⟨_, _, h⟩
    exact (Plan.write_iff.mp h.write).1
  · intro h
    refine ⟨p.toValue, p.finiteOnly, {
      write := Plan.write_iff.mpr ⟨h, rfl⟩
      read := p.read_toValue
      rewrite := Plan.write_iff.mpr ⟨p.isWritable_finiteOnly.trans h, p.toValue_finiteOnly⟩
      same := p.finiteOnly_eq_iff }⟩

end Whole

/-! ## Compiled plans -/

/-- No parameter of the stage is a list or an object. -/
def Stage.Flat (s : Stage) : Prop := ∀ f, s.filter? = some f → f.params.Flat

section Flat

theorem filterStage_flat {type version : String} {params : Members} (h : params.Flat) :
    (filterStage type version params).Flat := by
  intro f hf
  cases hf
  exact h

theorem Stage.Flat.isWritable {s : Stage} (h : s.Flat) : s.isWritable = true := by
  cases s with
  | filter f => exact (h f rfl).areWritable
  | _ => rfl

@[simp] theorem height_dimension (d : Dimension) : d.toValue.height = 1 := by
  cases d <;> rfl

@[simp] theorem height_dimensionOrZero (d : Option Dimension) : (dimensionOrZero d).height = 1 := by
  cases d with
  | none => rfl
  | some d => exact height_dimension d

theorem regionValue_height {n : Option Number} {axis : String} {missing v : Value} (hmissing : missing.height = 1)
    (h : regionValue n axis missing = .ok v) : v.height = 1 := by
  cases n with
  | none =>
    cases h
    exact hmissing
  | some n =>
    obtain ⟨nan, -, h⟩ := bind_eq_ok.mp h
    split at h
    · cases h
      exact hmissing
    · split at h <;> cases h <;> rfl

theorem regionParams_flat {r : Region} {params : Members} (h : regionParams r = .ok params) : params.Flat := by
  obtain ⟨width, hwidth, h⟩ := bind_eq_ok.mp h
  obtain ⟨height, hheight, h⟩ := bind_eq_ok.mp h
  obtain ⟨x, hx, h⟩ := bind_eq_ok.mp h
  obtain ⟨y, hy, h⟩ := bind_eq_ok.mp h
  cases h
  simp [Members.Flat, regionValue_height rfl hwidth, regionValue_height rfl hheight, regionValue_height rfl hx,
    regionValue_height rfl hy]

theorem strictParams_flat {w : TrimWindow} {params : Members} (h : w.strictParams = .ok (some params)) : params.Flat := by
  unfold TrimWindow.strictParams at h
  split at h
  · cases h
  · cases h
  · obtain ⟨start, -, h⟩ := bind_eq_ok.mp h
    cases h
    simp [Members.Flat, Value.height]
  · obtain ⟨start, -, h⟩ := bind_eq_ok.mp h
    obtain ⟨stop, -, h⟩ := bind_eq_ok.mp h
    cases h
    simp [Members.Flat, Value.height]

/-- Wherever a stage comes from, its parameters are flat. -/
theorem Stage.Origin.flat {cwd : String} {parts : Parts} {w : TrimWindow} {speed : Binary64} {s : Stage}
    (h : s.Origin cwd parts w speed) : s.Flat := by
  cases h with
  | input s => exact nofun
  | trim hparams => exact filterStage_flat (strictParams_flat hparams)
  | crop _ => exact filterStage_flat (by simp [Members.Flat])
  | region hparams => exact filterStage_flat (regionParams_flat hparams)
  | resize _ => exact filterStage_flat (by simp [Members.Flat, Value.height, Value.int])
  | overlay _ hstage =>
    obtain ⟨opacity, -, hstage⟩ := bind_eq_ok.mp hstage
    cases hstage
    exact filterStage_flat (by simp [Members.Flat, Value.height, Value.double])
  | caption _ => exact filterStage_flat (by simp [Members.Flat, Value.height, Value.int])
  | speed hs =>
    unfold speedStage at hs
    split at hs
    · cases hs
    · rw [List.mem_singleton.mp hs]
      exact filterStage_flat (by simp [Members.Flat, Value.height, Value.double])
  | frameRate _ => exact filterStage_flat (by simp [Members.Flat, Value.height, Value.double])
  | square => exact filterStage_flat (by simp [Members.Flat, Value.height, Value.int])
  | output s => exact nofun

theorem previewOf_isWritable (o : PreviewOverrides) (load : Load) (resize : Option Resize) (rate : Option FrameRate) :
    (previewOf o load resize rate).isWritable = true := rfl

/-- A plan that a chain compiles to may be written. -/
theorem Assembled.isWritable {cwd : String} {options : OptionsInput} {nodes : List Node} {plan : Plan} {load : Load}
    {w : TrimWindow} {speed : Binary64} (h : Assembled cwd options nodes plan load w speed) : plan.isWritable = true := by
  obtain ⟨target, -, hstages⟩ := h.stages
  obtain ⟨o, -, hpreview⟩ := h.preview
  rw [Plan.isWritable, hpreview, previewOf_isWritable, Bool.and_true, List.all_eq_true]
  exact fun stage hs => (stagesOf_origins hstages stage hs).flat.isWritable

end Flat

/-- A plan that is read is written, read back and written again exactly as long as none of its parameters is too high;
    a plan that a chain compiles to always is. -/
theorem read_plans_reread :
    (∀ v p, Plan.read v = .ok p → ((∃ written again, p.Rereads written again) ↔ p.isWritable = true)) ∧
      ∀ cwd chain options p, compile cwd chain options = .ok p → ∃ written again, p.Rereads written again := by
  refine ⟨fun _ p _ => p.rereads_iff, fun cwd chain options p h => ?_⟩
  obtain ⟨_, _, _, _, _, ha⟩ := compile_assembled h
  exact p.rereads_iff.mpr ha.isWritable

/-- A plan that was put together by hand, with one filter and this parameter for it. -/
def filterPlan (param : Value) : Value :=
  .object [
    ("stages", .list [.object [("stage", .text "filter"), ("type_id", .text "blur"), ("node_version", .text "1.0.0"),
      ("params", .object [("radius", param)])]]),
    ("preview", .object [("width", .text "640"), ("height", .int 360), ("max_fps", .bool true)]),
    ("metadata", .object [])]

/-- A parameter inside a list that is no number is lost once, and all is kept from then on. A chain in which every
    kind of node occurs compiles to a plan that is read back. -/
theorem filterPlan_rereads : ∃ p written again compiled,
    Plan.read (filterPlan (.list [.double .nan, .int 3])) = .ok p ∧ p.isWritable = true ∧ p.Rereads written again ∧
      again ≠ p ∧
      compile "/work" (.chain mixedChain) (.value .null) = .ok compiled ∧
      ∃ written again, compiled.Rereads written again := by
  have hcompiles : ((compile "/work" (.chain mixedChain) (.value .null)).toOption.map (·.stages.length)) = some 11 := by
    decide +kernel
  obtain ⟨compiled, hcompiled, -⟩ := ok_of_toOption_map hcompiles
  obtain ⟨hread, hcompile⟩ := read_plans_reread
  obtain ⟨p, hp⟩ : ∃ p, Plan.read (filterPlan (.list [.double .nan, .int 3])) = .ok p := ⟨_, rfl⟩
  have hwritable : p.isWritable = true := by
    cases hp
    rfl
  have hlost : p.paramsFinite ≠ true := by
    cases hp
    decide
  obtain ⟨written, again, h⟩ := (hread _ p hp).mpr hwritable
  exact ⟨p, written, again, compiled, hp, hwritable, h, fun hsame => hlost (h.same.mp hsame), hcompiled,
    hcompile _ _ _ _ hcompiled⟩

/-- A parameter behind two hundred and fifty-five lists is read, but not written. -/
theorem high_plan_unwritten : ∃ p, Plan.read (filterPlan (nested 255 .null)) = .ok p ∧ ∀ written, p.write ≠ .ok written := by
  refine ⟨_, rfl, fun written h => ?_⟩
  have hwritable := (Plan.write_iff.mp h).1
  exact absurd hwritable (by decide +kernel)

end MediaEngine
