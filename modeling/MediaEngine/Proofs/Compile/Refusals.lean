import MediaEngine.Proofs.Compile.Stages

/-! # Refusals

A chain is compiled exactly if it is what the documentation asks for, and refused otherwise, as long as no
tag is a list or an object and the arithmetic of the chain succeeds; and not otherwise
(`compile_documented_iff`). -/

namespace MediaEngine
open Chain Schema

/-! ## Reading a chain -/

namespace Chain

/-- A list or an object stands where the tag of a node is looked up. -/
def Untaggable (v : Value) : Prop :=
  ∃ m key tag, v = .object m ∧ Keys.kind.find? m = some (key, tag) ∧
    ((∃ items, tag = .list items) ∨ ∃ members, tag = .object members)

/-- The value is an object that the kind of node its tag selects reads as this node. -/
def Validates (v : Value) (node : Node) : Prop :=
  ∃ m kind, v = .object m ∧ Tag.ofValue v = .ok (.known kind) ∧ Node.ofMembers kind m = .ok node

theorem untaggable_iff {m : Members} {key : String} {tag : Value} (h : Keys.kind.find? m = some (key, tag)) :
    Untaggable (.object m) ↔ (∃ items, tag = .list items) ∨ ∃ members, tag = .object members := by
  refine ⟨fun ⟨m', key', tag', hm, htag, ht⟩ => ?_, fun ht => ⟨m, key, tag, rfl, h, ht⟩⟩
  cases hm
  cases h.symm.trans htag
  exact ht

theorem succeeds_tag (v : Value) : Succeeds (Tag.ofValue v) ↔ ¬ Untaggable v := by
  cases v with
  | object m =>
    unfold Tag.ofValue
    rcases hfind : Keys.kind.find? m with _ | ⟨key, tag⟩
    · refine iff_of_true (by simp [hfind]) fun ⟨m', key, tag, hm, htag, _⟩ => ?_
      cases hm
      cases hfind.symm.trans htag
    · rw [untaggable_iff hfind]
      cases tag <;> simp [hfind]
  | _ => exact iff_of_true (succeeds_ok _) fun ⟨_, _, _, h, _⟩ => by cases h

theorem under_ok {α : Type} {x : Checked α} {step : Place} {a : α} : x.under step = .ok a ↔ x = .ok a := by
  cases x with
  | ok b => exact Iff.rfl
  | bad issues => exact iff_of_false (fun h => by cases h) fun h => by cases h

/-- A value is read as a node exactly if it validates as this node. -/
theorem ofTagged_ok {tag : Tag} {v : Value} {node : Node} (ht : Tag.ofValue v = .ok tag) :
    Node.ofTagged tag v = .ok node ↔ Validates v node := by
  unfold Node.ofTagged
  split
  · rename_i kind m
    rw [under_ok]
    refine ⟨fun h => ⟨m, kind, rfl, ht, h⟩, fun ⟨m', kind', hm, ht', h⟩ => ?_⟩
    cases hm
    cases ht.symm.trans ht'
    exact h
  · rename_i kind hno
    refine iff_of_false (fun h => by cases h) fun ⟨m, _, hm, _⟩ => hno m hm
  · refine iff_of_false (fun h => by cases h) fun ⟨_, _, _, ht', _⟩ => ?_
    cases ht.symm.trans ht'
  · refine iff_of_false (fun h => by cases h) fun ⟨_, _, _, ht', _⟩ => ?_
    cases ht.symm.trans ht'

theorem succeeds_readNodesFrom (i : Nat) (values : List Value) :
    Succeeds (readNodesFrom i (values.map .raw)) ↔ ∀ v ∈ values, ¬ Untaggable v := by
  induction values generalizing i with
  | nil => exact iff_of_true (succeeds_ok _) fun _ h => by cases h
  | cons v rest ih =>
    have hitem : Succeeds (Item.raw v).read ↔ ¬ Untaggable v := by
      rw [← succeeds_tag]
      exact succeeds_bind_of fun _ _ => succeeds_pure _
    have hall : Succeeds (readNodesFrom i ((v :: rest).map .raw)) ↔ _ ∧ _ :=
      succeeds_bind_iff fun _ _ => succeeds_bind_of fun _ _ => succeeds_pure _
    rw [hall, hitem, ih, List.forall_mem_cons]

theorem cons_ok {node : Checked Node} {nodes : Checked (List Node)} {all : List Node} :
    (List.cons <$> node <*> nodes : Checked (List Node)) = .ok all ↔
      ∃ n ns, node = .ok n ∧ nodes = .ok ns ∧ all = n :: ns := by
  cases node with
  | bad issues => cases nodes <;> exact iff_of_false (fun h => by cases h) fun ⟨_, _, h, _⟩ => by cases h
  | ok n =>
    cases nodes with
    | bad issues => exact iff_of_false (fun h => by cases h) fun ⟨_, _, _, h, _⟩ => by cases h
    | ok ns =>
      refine ⟨fun h => ⟨n, ns, rfl, rfl, ?_⟩, fun ⟨_, _, hn, hns, h⟩ => ?_⟩
      · cases h
        rfl
      · cases hn
        cases hns
        rw [h]
        rfl

theorem read_raw_ok {v : Value} {node : Node} : (Item.raw v).read = .ok (.ok node) ↔ Validates v node := by
  constructor
  · intro h
    obtain ⟨tag, htag, h⟩ := bind_eq_ok.mp h
    exact (ofTagged_ok htag).mp (Except.ok.inj h)
  · intro hv
    have ⟨_, kind, _, htag, _⟩ := hv
    exact bind_eq_ok.mpr ⟨_, htag, congrArg _ ((ofTagged_ok htag).mpr hv)⟩

theorem readItems_ok (i : Nat) (items : List Item) (nodes : List Node) : readNodesFrom i items = .ok (.ok nodes) ↔
    List.Forall₂ (fun item node => item.read = .ok (.ok node)) items nodes := by
  induction items generalizing i nodes with
  | nil =>
    refine ⟨fun h => ?_, fun h => ?_⟩
    · cases h
      exact .nil
    · cases h
      rfl
  | cons item rest ih =>
    constructor
    · intro h
      obtain ⟨node, hnode, h⟩ := bind_eq_ok.mp h
      obtain ⟨ns, hns, h⟩ := bind_eq_ok.mp h
      obtain ⟨n, ns', hn, rfl, rfl⟩ := cons_ok.mp (Except.ok.inj h)
      rw [under_ok.mp hn] at hnode
      exact .cons hnode ((ih _ _).mp hns)
    · intro h
      cases h with
      | cons hitem hrest =>
        refine bind_eq_ok.mpr ⟨_, hitem, bind_eq_ok.mpr ⟨_, (ih _ _).mpr hrest, ?_⟩⟩
        rfl

theorem readNodesFrom_ok (i : Nat) (values : List Value) (nodes : List Node) :
    readNodesFrom i (values.map .raw) = .ok (.ok nodes) ↔ List.Forall₂ Validates values nodes := by
  simp only [readItems_ok, List.forall₂_map_left_iff, read_raw_ok]

/-- The items of a chain: the list itself, or the list of nodes in an object. -/
def chainItems : Value → Option (List Value)
  | .list values => some values
  | .object m =>
    match Members.find? m Keys.nodes.name with
    | some (.list values) => some values
    | _ => none
  | _ => none

theorem nodes_of_items {v : Value} {values : List Value} (h : chainItems v = some values) :
    ChainInput.nodes (.value v) = nodesOfItems (values.map .raw) := by
  unfold chainItems at h
  split at h
  · cases h
    rfl
  · rename_i m
    split at h
    · rename_i hfind
      cases h
      simp only [ChainInput.nodes, hfind]
    · cases h
  · cases h

theorem nodes_without_items {v : Value} (h : chainItems v = none) :
    ∃ e, ChainInput.nodes (.value v) = .error e ∧ e.isRefusal = true := by
  cases v with
  | list values => cases h
  | object m =>
    refine ⟨.noChain, ?_, rfl⟩
    cases hfind : Members.find? m Keys.nodes.name with
    | none => simp [ChainInput.nodes, hfind]
    | some nodes =>
      cases nodes with
      | list values => simp [chainItems, hfind] at h
      | _ => simp [ChainInput.nodes, hfind]
  | null => exact ⟨.noChain, rfl, rfl⟩
  | _ => exact ⟨.notChain _, rfl, rfl⟩

/-- There is one load node, and something to export. -/
def Parts.Ready (parts : Parts) : Prop := parts.loads.length = 1 ∧ parts.exports ≠ []

/-- The arithmetic of a chain succeeds: what is converted has a double, and no length is divided by a
    speed of zero. -/
structure Parts.Computable (parts : Parts) : Prop where
  bounds : ∀ last, parts.trims.getLast? = some last → last.start.Covered ∧ last.stop.Covered
  region : parts.crops = [] → ∀ last region, parts.trims.getLast? = some last → last.region = some region → region.Covered
  opacities : ∀ o ∈ parts.overlays, o.opacity.Covered
  speeds : ∀ s ∈ parts.speeds, s.Covered
  divided : ∀ w speed, TrimWindow.ofTrims parts.trims = .ok w → compoundSpeed parts.speeds = .ok speed →
    (w.Guarded ∨ ∃ load ∈ parts.loads, load.Measured) → speed.isZero = false

end Chain

/-! ## Compiling nodes -/

section Nodes
variable (cwd : String) {options : PlanOptions} {nodes : List Node}

theorem succeeds_stagesOf {w : TrimWindow} (hw : w.Sound) (parts : Parts) (load : Load) (target : Export)
    (speed : Binary64) : Succeeds (stagesOf cwd parts load target w speed) ↔
      (parts.crops = [] → ∀ last region, parts.trims.getLast? = some last → last.region = some region → region.Covered) ∧
        (∀ o ∈ parts.overlays, o.opacity.Covered) ∧ (w.Guarded → speed.isZero = false) := by
  have hall : Succeeds (stagesOf cwd parts load target w speed) ↔ _ ∧ _ ∧ _ ∧ _ ∧ _ :=
    succeeds_bind_iff fun _ _ => succeeds_bind_iff fun _ _ => succeeds_bind_iff fun _ _ =>
      succeeds_bind_iff fun _ _ => succeeds_bind_of fun _ _ => succeeds_pure _
  rw [hall, and_iff_right hw.inputArgs, and_iff_right (hw.trimStage _), succeeds_cropStage, succeeds_overlayStages,
    hw.outputArgs]

theorem compileNodes_refused (hr : ¬ (Parts.ofNodes nodes).Ready) (source : OptionsSource) :
    ∃ e, compileNodes cwd source nodes = .error e ∧ e.isRefusal = true := by
  unfold compileNodes
  dsimp only
  split
  · exact ⟨_, rfl, rfl⟩
  · exact ⟨_, rfl, rfl⟩
  · exact ⟨_, rfl, rfl⟩
  · rename_i load target hloads hexports
    refine absurd ⟨by rw [hloads]; rfl, fun h => ?_⟩ hr
    rw [h] at hexports
    cases hexports

theorem arithmetic_bind {α β : Type} (x : Except ArithmeticError α) (f : α → Except ArithmeticError β) :
    arithmetic (x >>= f) = arithmetic x >>= fun a => arithmetic (f a) := by
  cases x <;> rfl

/-- The arithmetic that is left once the bounds and the speed are known. -/
theorem succeeds_rest {parts : Parts} {load : Load} {target : Export} {w : TrimWindow} {speed : Binary64}
    {f : List Stage → Option Binary64 → Compilation} (hl : parts.loads = [load])
    (hw : TrimWindow.ofTrims parts.trims = .ok w) (hs : compoundSpeed parts.speeds = .ok speed) :
    Succeeds (do
      let stages ← stagesOf cwd parts load target w speed
      let duration ← estimatedDuration load.duration w speed
      return f stages duration) ↔ parts.Computable := by
  have hsound := TrimWindow.ofTrims_sound hw
  have hrest : Succeeds (do
      let stages ← stagesOf cwd parts load target w speed
      let duration ← estimatedDuration load.duration w speed
      return f stages duration) ↔ _ ∧ _ :=
    succeeds_bind_iff fun _ _ => succeeds_bind_of fun _ _ => succeeds_pure _
  -- What can fail is to write the stages and to estimate how long the result takes.
  rw [hrest, succeeds_stagesOf cwd hsound, succeeds_estimatedDuration hsound]
  constructor
  · rintro ⟨⟨hregion, hopacities, hguarded⟩, hmeasured⟩
    refine ⟨(TrimWindow.succeeds_ofTrims _).mp ⟨w, hw⟩, hregion, hopacities, (succeeds_compoundSpeed _).mp ⟨speed, hs⟩,
      fun w' speed' hw' hs' hdivided => ?_⟩
    cases hw.symm.trans hw'
    cases hs.symm.trans hs'
    rcases hdivided with hg | ⟨load', hload, hm⟩
    · exact hguarded hg
    · rw [hl] at hload
      cases List.mem_singleton.mp hload
      exact hmeasured hm
  · intro h
    exact ⟨⟨h.region, h.opacities, fun hg => h.divided w speed hw hs (.inl hg)⟩,
      fun hm => h.divided w speed hw hs (.inr ⟨load, by rw [hl]; exact List.mem_singleton_self load, hm⟩)⟩

/-- Where there is one load node and something to export, all that is left is arithmetic. -/
theorem compileNodes_ready (options : PlanOptions) (hr : (Parts.ofNodes nodes).Ready) :
    ∃ x : Except ArithmeticError Compilation, compileNodes cwd (.options options) nodes = arithmetic x ∧
      (Succeeds x ↔ (Parts.ofNodes nodes).Computable) := by
  obtain ⟨load, hl⟩ := List.length_eq_one_iff.mp hr.1
  obtain ⟨target, ht⟩ : ∃ target, (Parts.ofNodes nodes).exports.getLast? = some target :=
    Option.ne_none_iff_exists'.mp fun h => hr.2 (List.getLast?_eq_none_iff.mp h)
  let f := fun (w : TrimWindow) (speed : Binary64) (stages : List Stage) (duration : Option Binary64) =>
    ({ plan := {
        stages
        preview := previewOf options.overrides load (Parts.ofNodes nodes).resizes.getLast?
          (Parts.ofNodes nodes).frameRates.getLast?
        metadata := {
          estimatedDuration := duration
          strictCut := w.strict
          vsync := ((Parts.ofNodes nodes).frameRates.getLast?.bind (·.vsync)).getD .constantRate
          sarNormalized := true } }
       nodeCount := nodes.length
       speed } : Compilation)
  -- What is left is a row of computations of which each one can fail only by arithmetic.
  refine ⟨do
    let w ← TrimWindow.ofTrims (Parts.ofNodes nodes).trims
    let speed ← compoundSpeed (Parts.ofNodes nodes).speeds
    let stages ← stagesOf cwd (Parts.ofNodes nodes) load target w speed
    let duration ← estimatedDuration load.duration w speed
    return f w speed stages duration, ?_, ?_⟩
  · unfold compileNodes
    simp only [hl, ht, arithmetic_bind]
    rfl
  · rcases hw : TrimWindow.ofTrims (Parts.ofNodes nodes).trims with e | w
    · refine iff_of_false (not_succeeds_error e) fun h => ?_
      obtain ⟨w, hw'⟩ := (TrimWindow.succeeds_ofTrims _).mpr h.bounds
      cases hw.symm.trans hw'
    rcases hs : compoundSpeed (Parts.ofNodes nodes).speeds with e | speed
    · refine iff_of_false (not_succeeds_error e) fun h => ?_
      obtain ⟨speed, hs'⟩ := (succeeds_compoundSpeed _).mpr h.speeds
      cases hs.symm.trans hs'
    · exact succeeds_rest cwd (f := f w speed) hl hw hs

end Nodes

/-! ## Compiling a chain -/

/-- Nothing, an object, or options that were read before. -/
def OptionsInput.Offered : OptionsInput → Prop
  | .options _ => True
  | .value .null => True
  | .value (.object _) => True
  | .value _ => False

/-- The options are those of their object, if they are one. -/
def OptionsInput.Validates : OptionsInput → Prop
  | .value (.object m) => ∃ o, PlanOptions.read (.object m) = .ok o
  | _ => True

/-- What the documentation asks for: a list of these nodes, one of which loads and some of which export, and
    options. -/
structure Compilable (v : Value) (options : OptionsInput) (nodes : List Node) : Prop where
  items : ∃ values, chainItems v = some values ∧ List.Forall₂ Validates values nodes
  ready : (Parts.ofNodes nodes).Ready
  options : options.Validates

/-- What is asked for compiles, all else is refused, and nothing else happens. -/
def Documented (cwd : String) (v : Value) (options : OptionsInput) : Prop :=
  ((∃ plan, compile cwd (.value v) options = .ok plan) ↔ ∃ nodes, Compilable v options nodes) ∧
    ∀ e, compile cwd (.value v) options = .error e → e.isRefusal = true

/-- No list and no object stands for a tag in the chain. -/
def Taggable (v : Value) : Prop := ∀ values, chainItems v = some values → ∀ x ∈ values, ¬ Untaggable x

section Chains
variable (cwd : String) {v : Value} {options : OptionsInput} {nodes : List Node} {e : CompileError}

theorem read_offered (ho : options.Offered) : (options.Validates ∧ ∃ o, options.read = .ok (.options o)) ∨
    (¬ options.Validates ∧ ∃ e, options.read = .error e ∧ e.isRefusal = true) := by
  cases options with
  | options o => exact .inl ⟨trivial, o, rfl⟩
  | value v =>
    cases v with
    | null => exact .inl ⟨trivial, _, rfl⟩
    | object m =>
      cases hm : PlanOptions.read (.object m) with
      | ok o => exact .inl ⟨⟨o, hm⟩, o, by simp [OptionsInput.read, hm]⟩
      | bad issues =>
        refine .inr ⟨fun ⟨o, h⟩ => ?_, .badOptions issues, by simp [OptionsInput.read, hm], rfl⟩
        cases hm.symm.trans h
    | _ => cases ho

theorem compile_of_error (h : compilation cwd (.value v) options = .error e) :
    compile cwd (.value v) options = .error e := by
  rw [compile, h]
  rfl

/-- The nodes of a list are looked at before anything else. -/
theorem compilation_of_nodes {x : Except CompileError (List Node)} (h : ChainInput.nodes (.value v) = x) :
    compilation cwd (.value v) options =
      x >>= fun nodes => options.read >>= fun source => compileNodes cwd source nodes := by
  rw [compilation, h]

theorem compile_untaggable (options : OptionsInput) {values : List Value} (hv : chainItems v = some values) {x : Value} (hx : x ∈ values)
    (hu : Untaggable x) : ∃ e, compile cwd (.value v) options = .error (.tag e) := by
  have hfails : ¬ Succeeds (readNodesFrom 0 (values.map .raw)) := fun h =>
    (succeeds_readNodesFrom 0 values).mp h x hx hu
  rcases hr : readNodesFrom 0 (values.map .raw) with e | nodes
  · refine ⟨e, compile_of_error cwd ?_⟩
    have hnodes : ChainInput.nodes (.value v) = .error (.tag e) := by
      rw [nodes_of_items hv, nodesOfItems, readNodes, hr]
    rw [compilation_of_nodes cwd hnodes]
    rfl
  · exact absurd ⟨nodes, hr⟩ hfails

/-- What is not asked for is refused. -/
theorem compile_refused (ho : options.Offered) (ht : Taggable v) (hno : ¬ ∃ nodes, Compilable v options nodes) :
    ∃ e, compile cwd (.value v) options = .error e ∧ e.isRefusal = true := by
  suffices h : ∃ e, compilation cwd (.value v) options = .error e ∧ e.isRefusal = true by
    obtain ⟨e, he, hrefusal⟩ := h
    exact ⟨e, compile_of_error cwd he, hrefusal⟩
  -- The chain has no nodes, or some that cannot be read, or its nodes or the options are refused.
  cases hv : chainItems v with
  | none =>
    obtain ⟨e, he, hrefusal⟩ := nodes_without_items hv
    refine ⟨e, ?_, hrefusal⟩
    rw [compilation_of_nodes cwd he]
    rfl
  | some values =>
    obtain ⟨nodes, hr⟩ := (succeeds_readNodesFrom 0 values).mpr (ht values hv)
    have hnodes := nodes_of_items hv
    rw [nodesOfItems, readNodes, hr] at hnodes
    cases nodes with
    | bad issues =>
      refine ⟨.malformed issues, ?_, rfl⟩
      rw [compilation_of_nodes cwd hnodes]
      rfl
    | ok nodes =>
      have hall := (readNodesFrom_ok 0 values nodes).mp hr
      rcases read_offered ho with ⟨hvalid, o, hread⟩ | ⟨-, e, hread, hrefusal⟩
      · obtain ⟨e, he, hrefusal⟩ := compileNodes_refused cwd
          (fun hready => hno ⟨nodes, ⟨values, hv, hall⟩, hready, hvalid⟩) (.options o)
        refine ⟨e, ?_, hrefusal⟩
        rw [compilation_of_nodes cwd hnodes, hread]
        exact he
      · refine ⟨e, ?_, hrefusal⟩
        rw [compilation_of_nodes cwd hnodes, hread]
        rfl

/-- What is asked for is a matter of arithmetic. -/
theorem compilation_compilable (ho : options.Offered) (hc : Compilable v options nodes) :
    ∃ x : Except ArithmeticError Compilation, compilation cwd (.value v) options = arithmetic x ∧
      (Succeeds x ↔ (Parts.ofNodes nodes).Computable) := by
  obtain ⟨⟨values, hv, hall⟩, hready, hvalid⟩ := hc
  obtain ⟨o, hread⟩ : ∃ o, options.read = .ok (.options o) := by
    rcases read_offered ho with ⟨-, hread⟩ | ⟨hno, -⟩
    · exact hread
    · exact absurd hvalid hno
  have hnodes : ChainInput.nodes (.value v) = .ok nodes := by
    rw [nodes_of_items hv, nodesOfItems, readNodes, (readNodesFrom_ok 0 values nodes).mpr hall]
  obtain ⟨x, hx, hsucceeds⟩ := compileNodes_ready cwd o hready
  refine ⟨x, ?_, hsucceeds⟩
  rw [compilation_of_nodes cwd hnodes, hread]
  exact hx

theorem compile_compilable (ho : options.Offered) (hc : Compilable v options nodes) :
    (∃ plan, compile cwd (.value v) options = .ok plan) ↔ (Parts.ofNodes nodes).Computable := by
  obtain ⟨x, hcompile, hsucceeds⟩ := compilation_compilable cwd ho hc
  rw [← hsucceeds, compile, hcompile]
  cases x with
  | error e => exact iff_of_false (fun ⟨_, h⟩ => by cases h) (not_succeeds_error e)
  | ok c => exact iff_of_true ⟨_, rfl⟩ (succeeds_ok c)

/-- Where the arithmetic of what is asked for fails, nothing else is told. -/
theorem compile_overflows (ho : options.Offered) (hc : Compilable v options nodes) (hno : ¬ (Parts.ofNodes nodes).Computable) :
    ∃ e, compile cwd (.value v) options = .error (.arithmetic e) := by
  obtain ⟨x, hcompile, hsucceeds⟩ := compilation_compilable cwd ho hc
  cases x with
  | error e => exact ⟨e, compile_of_error cwd hcompile⟩
  | ok c => exact absurd (hsucceeds.mp (succeeds_ok c)) hno

/-- What is asked for compiles and all else is refused exactly if no list and no object stands for a tag, and
    the arithmetic of what is asked for succeeds. -/
theorem compile_documented_iff (ho : options.Offered) :
    Documented cwd v options ↔
      Taggable v ∧ ∀ nodes, Compilable v options nodes → (Parts.ofNodes nodes).Computable := by
  constructor
  · intro ⟨hcompiles, hrefuses⟩
    refine ⟨fun values hv x hx hu => ?_, fun nodes hc => ?_⟩
    · obtain ⟨e, he⟩ := compile_untaggable cwd options hv hx hu
      cases hrefuses _ he
    · exact (compile_compilable cwd ho hc).mp (hcompiles.mpr ⟨nodes, hc⟩)
  · intro ⟨ht, harith⟩
    by_cases hc : ∃ nodes, Compilable v options nodes
    · obtain ⟨nodes, hn⟩ := hc
      obtain ⟨plan, hplan⟩ := (compile_compilable cwd ho hn).mpr (harith nodes hn)
      refine ⟨iff_of_true ⟨plan, hplan⟩ ⟨nodes, hn⟩, fun e he => ?_⟩
      cases hplan.symm.trans he
    · obtain ⟨e, he, hrefusal⟩ := compile_refused cwd ho ht hc
      refine ⟨iff_of_false (fun ⟨plan, hplan⟩ => ?_) hc, fun e' he' => ?_⟩
      · cases he.symm.trans hplan
      · cases he.symm.trans he'
        exact hrefusal

/-- A chain that loads and exports is asked for, and compiles. -/
theorem plain_chain_documented :
    let v : Value := .list [.object [("typeId", .text "loadVideo"), ("path", .text "in.mp4")],
      .object [("typeId", .text "export")]]
    Documented "/" v (.value .null) ∧ ∃ plan, compile "/" (.value v) (.value .null) = .ok plan := by
  intro v
  let values : List Value := [.object [("typeId", .text "loadVideo"), ("path", .text "in.mp4")],
    .object [("typeId", .text "export")]]
  let load : Load := ⟨⟨none, defaultVersion⟩, .video, "in.mp4", none, none⟩
  let target : Export := ⟨⟨none, defaultVersion⟩, none, none, none, none⟩
  have hread : readNodesFrom 0 (values.map .raw) = .ok (.ok [.load load, .export target]) := by rfl
  have hasked : Compilable v (.value .null) [.load load, .export target] :=
    ⟨⟨values, rfl, (readNodesFrom_ok 0 values _).mp hread⟩, ⟨rfl, fun h => by cases h⟩, trivial⟩
  have hdocumented : Documented "/" v (.value .null) := by
    have ho : (OptionsInput.value .null).Offered := trivial
    refine (compile_documented_iff "/" ho).mpr ⟨fun values' hv => ?_, fun nodes hc => ?_⟩
    · cases hv
      exact (succeeds_readNodesFrom 0 values).mp ⟨_, hread⟩
    · obtain ⟨⟨values', hv, hall⟩, -, -⟩ := hc
      cases hv
      cases hread.symm.trans ((readNodesFrom_ok 0 values nodes).mpr hall)
      -- None of the nodes has an argument with which one could calculate.
      constructor
      case bounds => intro _ h; cases h
      case region => intro _ _ _ h; cases h
      case opacities => intro _ h; cases h
      case speeds => intro _ h; cases h
      case divided =>
        rintro w speed hw - (hguarded | ⟨l, hl, d, hd, -⟩)
        · cases hw
          cases hguarded.2.1
        · cases List.mem_singleton.mp hl
          cases hd
  exact ⟨hdocumented, hdocumented.1.mpr ⟨_, hasked⟩⟩

/-- The error of a compilation is a refusal, if there is one. -/
def refuses : Except CompileError Plan → Bool
  | .ok _ => true
  | .error e => e.isRefusal

theorem Documented.refuses (h : Documented cwd v options) : refuses (compile cwd (.value v) options) = true := by
  cases hc : compile cwd (.value v) options with
  | ok plan => rfl
  | error e => exact h.2 e hc

/-- A chain with a list for a tag is not refused, and one with an opacity beyond all doubles is neither compiled
    nor refused. -/
theorem undocumented_chains :
    ¬ Documented "/work" (.list [.object [("typeId", .list [.text "trim"])]]) (.value .null) ∧
      ¬ Documented "/work" (.list [.object [("typeId", .text "loadVideo"), ("path", .text "in.mp4")],
        .object [("typeId", .text "overlay"), ("sourcePath", .text "logo.png"), ("opacity", .number (.int (10 ^ 400)))],
        .object [("typeId", .text "export")]]) (.value .null) := by
  constructor
  · refine fun h => Bool.false_ne_true ?_
    rw [← h.refuses]
    decide +kernel
  · refine fun h => Bool.false_ne_true ?_
    rw [← h.refuses]
    decide +kernel

end Chains

end MediaEngine
