import MediaEngine.Proofs.Written.Plans
import MediaEngine.Proofs.Written.Readable

/-! # Plans as JSON texts

A plan that is compiled from JSON texts is written as a text with every indentation that there is, and is read back from
it. The text is JSON exactly if the two numbers of the plan that are no parameters, the rate of its preview and its
length, are finite (`compiled_plans_as_json`). -/

namespace MediaEngine
open Chain

/-- Whether the numbers of a plan that are no parameters are finite. -/
def Plan.isFinite (p : Plan) : Bool := p.preview.maxFps.isFinite && p.metadata.estimatedDuration.all Binary64.isFinite

/-- The text of a plan, if the plan may be written and there is the indentation that is asked for. -/
def Plan.json? (p : Plan) (indent : Option Int) : Option String :=
  match p.write, Json.Layout.ofIndent? indent with
  | .ok written, some l => some (Json.render l written)
  | _, _ => none

/-- There is no indentation beyond the limit. -/
def Json.IndentFits (indent : Option Int) : Prop := ∀ n, indent = some n → -indentLimit ≤ n ∧ n < indentLimit

/-! ## Numbers that are not finite -/

section Finite

theorem itemsFinite_iff {vs : List Value} : Value.itemsFinite vs = true ↔ ∀ v ∈ vs, v.allFinite = true := by
  induction vs with
  | nil => exact iff_of_true rfl fun _ hv => by cases hv
  | cons v rest ih => rw [Value.itemsFinite, Bool.and_eq_true, ih, List.forall_mem_cons]

@[simp] theorem allFinite_textOr (s : Option String) : (Value.textOr s).allFinite = true := by
  cases s <;> rfl

@[simp] theorem allFinite_textList (ts : List String) : (textList ts).allFinite = true := by
  refine itemsFinite_iff.mpr fun v hv => ?_
  obtain ⟨t, -, rfl⟩ := List.mem_map.mp hv
  rfl

/-- A stage has no numbers but those in its parameters, which are written if they are finite. -/
theorem Stage.toValue_allFinite (s : Stage) : s.toValue.allFinite = true := by
  cases s <;>
    simp [Stage.toValue, InputStage.members, FilterStage.members, OutputStage.members, Value.allFinite,
      Value.membersFinite, Value.membersFinite_finiteMembers]

theorem PreviewFilter.toValue_allFinite (f : PreviewFilter) : f.toValue.allFinite = true := by
  simp [PreviewFilter.toValue, Value.allFinite, Value.membersFinite, Value.membersFinite_finiteMembers]

theorem allFinite_doubleOr (x : Option Binary64) : (Value.doubleOr x).allFinite = x.all Binary64.isFinite := by
  cases x <;> rfl

theorem Plan.toValue_allFinite (p : Plan) : p.toValue.allFinite = p.isFinite := by
  have hstages : Value.itemsFinite (p.stages.map Stage.toValue) = true :=
    itemsFinite_iff.mpr fun v hv => by
      obtain ⟨s, -, rfl⟩ := List.mem_map.mp hv
      exact s.toValue_allFinite
  have hfilters : Value.itemsFinite (p.preview.filters.map PreviewFilter.toValue) = true :=
    itemsFinite_iff.mpr fun v hv => by
      obtain ⟨f, -, rfl⟩ := List.mem_map.mp hv
      exact f.toValue_allFinite
  simp [Plan.toValue, Preview.toValue, PlanMetadata.toValue, Value.allFinite, Value.membersFinite, hstages, hfilters,
    allFinite_doubleOr, Plan.isFinite, Value.int, Value.double]

end Finite

/-! ## Parameters that are readable -/

/-- The parameters of a stage are readable. -/
def Stage.Readable (s : Stage) : Prop := ∀ f, s.filter? = some f → (Value.object f.params).readable = true

section Readable
variable {nodes : List Node}

/-- A whole number that fits into a word is readable. -/
theorem readable_word {n : Int} (h : n.natAbs < 2 ^ 63) : (Value.int n).readable = true := readable_of_lt h (by decide)

theorem filterStage_readable {type version : String} {params : Members} (hkeys : (params.map Prod.fst).Nodup)
    (h : ∀ member ∈ params, member.2.readable = true) : (filterStage type version params).Readable := by
  intro f hf
  cases hf
  exact Value.readable_object.mpr ⟨hkeys, Value.membersReadable_iff.mpr h⟩

theorem dimensionOrZero_readable {d : Option Dimension} (h : (dimensionOr d).readable = true) :
    (dimensionOrZero d).readable = true := by
  cases d with
  | none => exact readable_word (by decide)
  | some d => exact h

theorem getD_readable {n : Option Int} {k : Int} (h : (Value.intOr n).readable = true) (hk : (Value.int k).readable = true) :
    (Value.int (n.getD k)).readable = true := by
  cases n with
  | none => exact hk
  | some n => exact h

theorem regionValue_readable {n : Option Number} {axis : String} {missing v : Value} (hmissing : missing.readable = true)
    (h : regionValue n axis missing = .ok v) : v.readable = true := by
  cases n with
  | none =>
    cases h
    exact hmissing
  | some n =>
    obtain ⟨nan, hnan, h⟩ := bind_eq_ok.mp h
    have hcovered : n.Covered := (Number.succeeds_isNaN n).mp ⟨nan, hnan⟩
    split at h
    · cases h
      exact hmissing
    · split at h <;> cases h
      · exact readable_of_covered hcovered
      · rfl

theorem regionStage_readable {type version : String} {r : Region} {params : Members} (h : regionParams r = .ok params) :
    (filterStage type version params).Readable := by
  obtain ⟨width, hwidth, h⟩ := bind_eq_ok.mp h
  obtain ⟨height, hheight, h⟩ := bind_eq_ok.mp h
  obtain ⟨x, hx, h⟩ := bind_eq_ok.mp h
  obtain ⟨y, hy, h⟩ := bind_eq_ok.mp h
  cases h
  have hzero : (Value.int 0).readable = true := readable_word (by decide)
  refine filterStage_readable (by simp) ?_
  simp [regionValue_readable rfl hwidth, regionValue_readable rfl hheight, regionValue_readable hzero hx,
    regionValue_readable hzero hy]

/-- The bounds of a window can be converted, and what can be converted is readable. -/
theorem strictStage_readable {type version : String} {w : TrimWindow} (hw : w.Sound) {params : Members}
    (h : w.strictParams = .ok (some params)) : (filterStage type version params).Readable := by
  have hstart := readable_of_covered hw.startOrZero.covered
  unfold TrimWindow.strictParams at h
  split at h
  · cases h
  · cases h
  · obtain ⟨start, -, h⟩ := bind_eq_ok.mp h
    cases h
    exact filterStage_readable (by simp) (by simp [hstart])
  · rename_i stop _ hstop
    obtain ⟨start, -, h⟩ := bind_eq_ok.mp h
    obtain ⟨end', -, h⟩ := bind_eq_ok.mp h
    cases h
    exact filterStage_readable (by simp) (by simp [hstart, readable_of_covered (hw.stop stop hstop).covered])

theorem mem_of_part {α : Type} {part : Node → Option α} (make : α → Node) (hpart : ∀ n a, part n = some a → n = make a)
    {a : α} (h : a ∈ nodes.filterMap part) : make a ∈ nodes := by
  obtain ⟨n, hn, ha⟩ := List.mem_filterMap.mp h
  exact hpart n a ha ▸ hn

/-- Wherever a stage of readable nodes comes from, its parameters are readable. -/
theorem Stage.Origin.readable {cwd : String} {w : TrimWindow} {speed : Binary64} {s : Stage} (hw : w.Sound)
    (hnodes : ∀ n ∈ nodes, Value.membersReadable (n.members true) = true) (h : s.Origin cwd (Parts.ofNodes nodes) w speed) :
    s.Readable := by
  have hmembers : ∀ n ∈ nodes, ∀ member ∈ n.members true, member.2.readable = true :=
    fun n hn => Value.membersReadable_iff.mp (hnodes n hn)
  cases h with
  | input s => exact fun f hf => by cases hf
  | trim hparams => exact strictStage_readable hw hparams
  | @crop crop hcrop =>
    have hread := hmembers _ (mem_of_part .crop (fun n c h => by cases n <;> cases h; rfl) hcrop)
    simp only [Node.members, List.forall_mem_append, List.forall_mem_cons] at hread
    obtain ⟨-, hwidth, hheight, hx, hy, -⟩ := hread
    exact filterStage_readable (by simp)
      (by simp [hwidth, hheight, dimensionOrZero_readable hx, dimensionOrZero_readable hy])
  | region hparams => exact regionStage_readable hparams
  | @resize node hnode =>
    have hread := hmembers _ (mem_of_part .resize (fun n r h => by cases n <;> cases h; rfl) hnode)
    simp only [Node.members, List.forall_mem_append, List.forall_mem_cons] at hread
    obtain ⟨-, hwidth, hheight, -⟩ := hread
    exact filterStage_readable (by simp) (by simp [hwidth, hheight])
  | @overlay i node _ hnode hstage =>
    have hread := hmembers _ (mem_of_part .overlay (fun n o h => by cases n <;> cases h; rfl) hnode)
    simp only [Node.members, List.forall_mem_append, List.forall_mem_cons] at hread
    obtain ⟨-, -, hx, hy, -⟩ := hread
    obtain ⟨opacity, -, hstage⟩ := bind_eq_ok.mp hstage
    cases hstage
    exact filterStage_readable (by simp) (by simp [dimensionOrZero_readable hx, dimensionOrZero_readable hy])
  | @caption node hnode =>
    have hread := hmembers _ (mem_of_part .caption (fun n c h => by cases n <;> cases h; rfl) hnode)
    simp only [Node.members, List.forall_mem_append, List.forall_mem_cons] at hread
    obtain ⟨-, -, hsize, -⟩ := hread
    exact filterStage_readable (by simp) (by simp [getD_readable hsize (readable_word (n := 48) (by decide))])
  | speed hs =>
    unfold speedStage at hs
    split at hs
    · cases hs
    · rw [List.mem_singleton.mp hs]
      exact filterStage_readable (by simp) (by simp)
  | frameRate _ => exact filterStage_readable (by simp) (by simp)
  | square => exact filterStage_readable (by simp) (by simp [readable_word (n := 1) (by decide)])
  | output s => exact fun f hf => by cases hf

end Readable

/-! ## Plans that are readable -/

section Plans
variable {p : Plan}

theorem readable_textList (ts : List String) : (textList ts).readable = true := by
  refine Value.itemsReadable_iff.mpr fun v hv => ?_
  obtain ⟨t, -, rfl⟩ := List.mem_map.mp hv
  rfl

theorem readable_params {params : Members} (h : (Value.object params).readable = true) :
    (Value.object (Value.finiteMembers params)).readable = true := by
  have hwritten := Value.readable_finiteOnly _ h
  rwa [Value.finiteOnly] at hwritten

theorem Stage.Readable.toValue {s : Stage} (h : s.Readable) : s.toValue.readable = true := by
  cases s with
  | input s =>
    refine Value.readable_object.mpr ⟨by simp [InputStage.members], ?_⟩
    simp [InputStage.members, Value.membersReadable_iff, readable_textList]
  | filter s =>
    refine Value.readable_object.mpr ⟨by simp [FilterStage.members], ?_⟩
    simp [FilterStage.members, Value.membersReadable_iff, readable_params (h s rfl)]
  | output s =>
    refine Value.readable_object.mpr ⟨by simp [OutputStage.members], ?_⟩
    simp [OutputStage.members, Value.membersReadable_iff, readable_textList]

theorem PreviewFilter.toValue_readable {f : PreviewFilter} (h : (Value.object f.params).readable = true) :
    f.toValue.readable = true :=
  Value.readable_object.mpr ⟨by simp, by simp [Value.membersReadable_iff, readable_params h]⟩

theorem resized_readable {resize : Option Resize} {size : Resize → Int} {k : Int}
    (h : ∀ node, resize = some node → (Value.int (size node)).readable = true) (hk : (Value.int k).readable = true) :
    (Value.int ((resize.map size).getD k)).readable = true := by
  cases resize with
  | none => exact hk
  | some node => exact h node rfl

/-- The preview of readable nodes and options is readable. -/
theorem previewOf_readable {o : PreviewOverrides} {load : Load} {resize : Option Resize} {rate : Option FrameRate}
    (ho : o.toValue.readable = true)
    (hresize : ∀ node, resize = some node → Value.membersReadable ((Node.resize node).members true) = true) :
    (previewOf o load resize rate).toValue.readable = true := by
  have hsizes : ∀ node, resize = some node → (Value.int node.width).readable = true ∧ (Value.int node.height).readable = true := by
    intro node hnode
    have hread := Value.membersReadable_iff.mp (hresize node hnode)
    simp only [Node.members, List.forall_mem_append, List.forall_mem_cons] at hread
    obtain ⟨-, hwidth, hheight, -⟩ := hread
    exact ⟨hwidth, hheight⟩
  have hoverrides := Value.membersReadable_iff.mp (Value.readable_object.mp ho).2
  simp only [List.forall_mem_cons] at hoverrides
  obtain ⟨howidth, hoheight, -⟩ := hoverrides
  have hwidth := getD_readable howidth
    (resized_readable (fun node hnode => (hsizes node hnode).1) (readable_word (n := 1280) (by decide)))
  have hheight := getD_readable hoheight
    (resized_readable (fun node hnode => (hsizes node hnode).2) (readable_word (n := 720) (by decide)))
  have hfilters : ∀ f ∈ (previewOf o load resize rate).filters, (Value.object f.params).readable = true := by
    simp only [previewOf, List.forall_mem_cons]
    refine ⟨Value.readable_object.mpr ⟨by simp, by simp [Value.membersReadable_iff]⟩,
      Value.readable_object.mpr ⟨by simp, ?_⟩, Value.readable_object.mpr ⟨by simp, ?_⟩, List.forall_mem_nil _⟩
    · simp [Value.membersReadable_iff, hwidth, hheight]
    · simp [Value.membersReadable_iff, readable_word (n := 1) (by decide)]
  have hlist : (Value.list ((previewOf o load resize rate).filters.map PreviewFilter.toValue)).readable = true :=
    Value.itemsReadable_iff.mpr fun v hv => by
      obtain ⟨f, hf, rfl⟩ := List.mem_map.mp hv
      exact PreviewFilter.toValue_readable (hfilters f hf)
  exact Value.readable_object.mpr ⟨by simp, by simp [Value.membersReadable_iff, hlist]; exact ⟨hwidth, hheight⟩⟩

/-- A plan is readable if its stages and its preview are. -/
theorem Plan.toValue_readable (hstages : ∀ s ∈ p.stages, s.Readable) (hpreview : p.preview.toValue.readable = true) :
    p.toValue.readable = true := by
  have hlist : (Value.list (p.stages.map Stage.toValue)).readable = true :=
    Value.itemsReadable_iff.mpr fun v hv => by
      obtain ⟨s, hs, rfl⟩ := List.mem_map.mp hv
      exact (hstages s hs).toValue
  have hmetadata : p.metadata.toValue.readable = true :=
    Value.readable_object.mpr ⟨by simp, by simp [Value.membersReadable_iff]⟩
  exact Value.readable_object.mpr ⟨by simp, by simp [Value.membersReadable_iff, hlist, hpreview, hmetadata]⟩

/-- A plan of a readable chain and readable options is readable. -/
theorem compiled_readable {cwd : String} {chain options : Value} (hchain : chain.readable = true)
    (hoptions : options.readable = true) (h : compile cwd (.value chain) (.value options) = .ok p) :
    p.toValue.readable = true := by
  obtain ⟨nodes, load, w, speed, hnodes, ha⟩ := compile_assembled h
  obtain ⟨target, -, hstages⟩ := ha.stages
  obtain ⟨o, ho, hpreview⟩ := ha.preview
  have hread := nodes_readable true hchain hnodes
  refine Plan.toValue_readable (fun s hs => ?_) ?_
  · exact (stagesOf_origins hstages s hs).readable (TrimWindow.ofTrims_sound ha.window) hread
  · rw [hpreview]
    refine previewOf_readable (overrides_readable hoptions ho) fun node hnode => hread _ ?_
    exact mem_of_part .resize (fun n r h => by cases n <;> cases h; rfl) (List.mem_of_getLast? hnode)

/-- A plan that may be written has a text with every indentation that there is. -/
theorem Plan.json?_eq_some {indent : Option Int} {text : String} (h : p.isWritable = true) :
    p.json? indent = some text ↔ ∃ l, Json.Layout.ofIndent? indent = some l ∧ Json.render l p.toValue = text := by
  have hwrite : p.write = .ok p.toValue := Plan.write_iff.mpr ⟨h, rfl⟩
  unfold Plan.json?
  rw [hwrite]
  cases Json.Layout.ofIndent? indent <;> simp

theorem Json.ofIndent?_isSome (indent : Option Int) : (∃ l, Layout.ofIndent? indent = some l) ↔ IndentFits indent := by
  unfold IndentFits
  cases indent with
  | none => exact iff_of_true ⟨.line, rfl⟩ nofun
  | some n =>
    unfold Layout.ofIndent?
    simp

/-- What is written for a plan is JSON exactly if the numbers of the plan that are no parameters are finite. -/
theorem Plan.json?_wellFormed {indent : Option Int} {text : String} (h : p.isWritable = true)
    (htext : p.json? indent = some text) : Json.WellFormed text ↔ p.isFinite = true := by
  obtain ⟨l, -, rfl⟩ := (Plan.json?_eq_some h).mp htext
  rw [Json.render_wellFormed_iff, p.toValue_allFinite]

end Plans

/-- A plan that is compiled from a chain and options that were read from JSON texts is written as a text with every
    indentation that there is, and read back from each. The text is JSON exactly if the numbers of the plan that are no
    parameters are finite. -/
theorem compiled_plans_as_json {cwd chainText optionsText : String} {chain options : Value} {plan : Plan}
    (hchain : Json.parse chainText = .ok chain) (hoptions : Json.parse optionsText = .ok options)
    (h : compile cwd (.value chain) (.value options) = .ok plan) (indent : Option Int) :
    ((∃ text, plan.json? indent = some text) ↔ Json.IndentFits indent) ∧
      ∀ text, plan.json? indent = some text →
        Json.parse text = .ok plan.toValue ∧ (Json.WellFormed text ↔ plan.isFinite = true) := by
  obtain ⟨_, _, _, _, _, ha⟩ := compile_assembled h
  have hreadable := compiled_readable (Json.parse_readable hchain) (Json.parse_readable hoptions) h
  refine ⟨?_, fun text htext => ⟨?_, Plan.json?_wellFormed ha.isWritable htext⟩⟩
  · simp only [Plan.json?_eq_some ha.isWritable]
    rw [← Json.ofIndent?_isSome]
    exact ⟨fun ⟨_, l, hl, _⟩ => ⟨l, hl⟩, fun ⟨l, hl⟩ => ⟨_, l, hl, rfl⟩⟩
  · obtain ⟨l, -, rfl⟩ := (Plan.json?_eq_some ha.isWritable).mp htext
    exact Json.parse_render l hreadable

/-- Whether the numbers of the plan of a chain that are no parameters are finite, if both texts can be read and there is
    a plan. -/
def finitePlan (chainText optionsText : String) : Option Bool :=
  match Json.parse chainText, Json.parse optionsText with
  | .ok chain, .ok options => (compile "/work" (.value chain) (.value options)).toOption.map Plan.isFinite
  | _, _ => none

theorem plan_of_finitePlan {chainText optionsText : String} {finite : Bool}
    (h : finitePlan chainText optionsText = some finite) : ∃ chain options plan, Json.parse chainText = .ok chain ∧
      Json.parse optionsText = .ok options ∧ compile "/work" (.value chain) (.value options) = .ok plan ∧
      plan.isFinite = finite := by
  unfold finitePlan at h
  split at h
  · rename_i chain options hchain hoptions
    obtain ⟨plan, hplan, hfinite⟩ := ok_of_toOption_map h
    exact ⟨chain, options, plan, hchain, hoptions, hplan, hfinite⟩
  · cases h

/-- The text of a chain that loads a source at this rate and exports it. -/
def ratedChain (rate : String) : String :=
  "[\x7b\"typeId\": \"loadVideo\", \"path\": \"in.mp4\", \"fps\": " ++ rate ++ "\x7d, \x7b\"typeId\": \"export\"\x7d]"

/-- A rate that is written as a text is a number in the plan, and another rate may be asked for in the preview. -/
theorem quoted_rate_as_json : ∃ chain options plan text,
    Json.parse (ratedChain "\"29.97\"") = .ok chain ∧
    Json.parse "\x7b\"preview\": \x7b\"max_fps\": 24\x7d\x7d" = .ok options ∧
    compile "/work" (.value chain) (.value options) = .ok plan ∧
    plan.json? (some 2) = some text ∧ Json.parse text = .ok plan.toValue ∧ Json.WellFormed text := by
  obtain ⟨chain, options, plan, hchain, hoptions, hplan, hfinite⟩ := plan_of_finitePlan
    (show finitePlan (ratedChain "\"29.97\"") "\x7b\"preview\": \x7b\"max_fps\": 24\x7d\x7d" = some true by decide +kernel)
  obtain ⟨hwritten, htexts⟩ := compiled_plans_as_json hchain hoptions hplan (some 2)
  obtain ⟨text, htext⟩ := hwritten.mpr fun n hn => by
    cases hn
    decide
  obtain ⟨hparse, hformed⟩ := htexts text htext
  exact ⟨chain, options, plan, text, hchain, hoptions, hplan, htext, hparse, hformed.mpr hfinite⟩

/-- A rate may be a text that stands for no finite number: the chain is JSON, and the text of its plan is not. -/
theorem endless_rate_as_json : Json.WellFormed (ratedChain "\"inf\"") ∧ Json.WellFormed "null" ∧
    ∃ chain plan text, Json.parse (ratedChain "\"inf\"") = .ok chain ∧ Json.parse "null" = .ok .null ∧
      compile "/work" (.value chain) (.value .null) = .ok plan ∧ plan.json? none = some text ∧ ¬ Json.WellFormed text := by
  have hrender : ratedChain "\"inf\"" = Json.render .line (.list [
      .object [("typeId", .text "loadVideo"), ("path", .text "in.mp4"), ("fps", .text "inf")],
      .object [("typeId", .text "export")]]) := by decide +kernel
  obtain ⟨chain, options, plan, hchain, hoptions, hplan, hendless⟩ := plan_of_finitePlan
    (show finitePlan (ratedChain "\"inf\"") "null" = some false by decide +kernel)
  cases hoptions
  obtain ⟨_, _, _, _, _, ha⟩ := compile_assembled hplan
  obtain ⟨text, htext⟩ : ∃ text, plan.json? none = some text :=
    ⟨_, (Plan.json?_eq_some ha.isWritable).mpr ⟨.line, rfl, rfl⟩⟩
  refine ⟨?_, (Json.render_wellFormed_iff .line .null).mpr rfl, chain, plan, text, hchain, rfl, hplan, htext, fun h => ?_⟩
  · rw [hrender, Json.render_wellFormed_iff]
    rfl
  · cases ((Plan.json?_wellFormed ha.isWritable htext).mp h).symm.trans hendless

end MediaEngine
