import Mathlib.Logic.Relation
import MediaEngine.Proofs.Compile.Cuts
import MediaEngine.Proofs.Compile.Reading

/-! # What a plan depends on

Of the nodes of a chain a plan sees the load nodes, the last trim, crop, resize, frame rate and export node,
whether a trim node is strict, the overlays, the texts and the ratios that count; ids are not seen at all.
Chains of which the same is seen compile to the same plan, and the options reach nothing but the preview
(`plan_depends`). -/

namespace MediaEngine
open Chain Schema

/-! ## What is seen of a chain -/

/-- The number is neither an infinity nor the value that is not a number. -/
def Number.finite : Number → Bool
  | .int _ => true
  | .float x => x.isFinite

/-- The ratio that a value is: a positive finite number. -/
def Value.ratio? : Value → Option Number
  | .number n => if Number.lt (.int 0) n && n.finite then some n else none
  | _ => none

/-- The parts of a chain without the ids of its nodes. -/
def Chain.Parts.unnamed (parts : Parts) : Parts where
  loads := parts.loads.map ({ · with id := none })
  trims := parts.trims.map ({ · with id := none })
  resizes := parts.resizes.map ({ · with id := none })
  crops := parts.crops.map ({ · with id := none })
  overlays := parts.overlays.map ({ · with id := none })
  captions := parts.captions.map ({ · with id := none })
  speeds := parts.speeds.map ({ · with id := none })
  frameRates := parts.frameRates.map ({ · with id := none })
  exports := parts.exports.map ({ · with id := none })

/-- What a plan sees of the parts of a chain. Of the last trim node it sees all but whether that node itself is
    strict. -/
structure Seen where
  loads : List Load
  cut : Option Trim
  strict : Bool
  crop : Option Crop
  resize : Option Resize
  overlays : List Overlay
  captions : List Caption
  ratios : List Number
  rate : Option FrameRate
  target : Option Export

def Seen.ofParts (parts : Parts) : Seen where
  loads := parts.loads
  cut := parts.trims.getLast?.map ({ · with strict := false })
  strict := parts.trims.any (·.strict)
  crop := parts.crops.getLast?
  resize := parts.resizes.getLast?
  overlays := parts.overlays
  captions := parts.captions
  ratios := parts.speeds.filterMap (·.ratio.ratio?)
  rate := parts.frameRates.getLast?
  target := parts.exports.getLast?

def Seen.ofNodes (nodes : List Node) : Seen := .ofParts (Parts.ofNodes nodes).unnamed

/-! ## Speeds -/

theorem isFinite_eq (n : Number) : n.isFinite = do let _ ← n.toDouble; return n.finite := by
  cases hd : n.toDouble with
  | error e => rw [Number.isFinite, hd]; rfl
  | ok d =>
    have hf : n.isFinite = .ok d.isFinite := by rw [Number.isFinite, hd]; rfl
    have hfinite : d.isFinite = n.finite := by
      rw [Bool.eq_iff_iff, Number.isFinite_iff hf]
      cases n <;> simp [Number.finite]
    rw [hf, hfinite]
    rfl

theorem speedFactor_eq (v : Value) : speedFactor v = v.ratio?.elim (.ok none) fun n => do
    let _ ← n.toDouble
    return some n := by
  cases v with
  | number n =>
    rw [speedFactor_number, isFinite_eq, Value.ratio?]
    cases Number.lt (.int 0) n with
    | false => rfl
    | true =>
      cases hfinite : n.finite with
      | true =>
        obtain ⟨x, hx⟩ : ∃ x, n.toDouble = x := ⟨_, rfl⟩
        simp only [Bool.and_self, if_true, Option.elim_some, hx]
        cases x <;> rfl
      | false =>
        cases n with
        | float x => rfl
        | int n => cases hfinite
  | _ => rfl

/-- A ratio that does not count is passed over, and one that does is multiplied. -/
theorem multiplySpeed_eq (speed : Binary64) (v : Value) :
    multiplySpeed speed v = v.ratio?.elim (.ok speed) fun n => do return speed.mul (← n.toDouble) := by
  rw [multiplySpeed, speedFactor_eq]
  cases v.ratio? with
  | none => rfl
  | some n => cases hd : n.toDouble <;> simp [hd, bind, pure, Except.bind, Except.pure]

theorem compoundSpeed_eq (speeds : List Speed) : compoundSpeed speeds =
    (speeds.filterMap (·.ratio.ratio?)).foldlM (fun speed n => do return speed.mul (← n.toDouble)) (Binary64.ofNat 1) := by
  suffices hfold : ∀ speed, speeds.foldlM (fun speed node => multiplySpeed speed node.ratio) speed =
      (speeds.filterMap (·.ratio.ratio?)).foldlM (fun speed n => do return speed.mul (← n.toDouble)) speed from hfold _
  induction speeds with
  | nil => exact fun _ => rfl
  | cons node rest ih =>
    intro speed
    rw [List.foldlM_cons, multiplySpeed_eq]
    cases hr : node.ratio.ratio? with
    | none =>
      simp only [List.filterMap_cons, hr]
      exact ih speed
    | some n =>
      simp only [List.filterMap_cons, hr, List.foldlM_cons]
      exact bind_congr ih

/-! ## Parts of a plan -/

section Parts
variable {cwd : String} {a b : Parts}

theorem last_same {α β γ : Type} {xs ys : List α} {look : α → β} (h : xs.getLast?.map look = ys.getLast?.map look)
    {f : α → γ} (g : β → γ) (hf : ∀ x, g (look x) = f x) : xs.getLast?.map f = ys.getLast?.map f := by
  have hmap : ∀ zs : List α, zs.getLast?.map f = (zs.getLast?.map look).map g := by
    simp [Function.comp_def, hf]
  rw [hmap, hmap, h]

theorem overlayStages_unnamed (i : Nat) (overlays : List Overlay) :
    overlayStages cwd i (overlays.map ({ · with id := none })) = overlayStages cwd i overlays := by
  induction overlays generalizing i with
  | nil => rfl
  | cons node rest ih =>
    simp only [List.map_cons, overlayStages, ih]
    rfl

/-- The same is seen of both chains, field by field. -/
structure Agree (a b : Parts) : Prop where
  loads : a.loads.map ({ · with id := none }) = b.loads.map ({ · with id := none })
  cut : a.trims.getLast?.map ({ · with id := none, strict := false }) =
    b.trims.getLast?.map ({ · with id := none, strict := false })
  strict : a.trims.any (·.strict) = b.trims.any (·.strict)
  crop : a.crops.getLast?.map ({ · with id := none }) = b.crops.getLast?.map ({ · with id := none })
  resize : a.resizes.getLast?.map ({ · with id := none }) = b.resizes.getLast?.map ({ · with id := none })
  overlays : a.overlays.map ({ · with id := none }) = b.overlays.map ({ · with id := none })
  captions : a.captions.map ({ · with id := none }) = b.captions.map ({ · with id := none })
  ratios : a.speeds.filterMap (·.ratio.ratio?) = b.speeds.filterMap (·.ratio.ratio?)
  rate : a.frameRates.getLast?.map ({ · with id := none }) = b.frameRates.getLast?.map ({ · with id := none })
  target : a.exports.getLast?.map ({ · with id := none }) = b.exports.getLast?.map ({ · with id := none })

theorem agree_iff : Agree a b ↔ Seen.ofParts a.unnamed = Seen.ofParts b.unnamed := by
  simp only [Seen.ofParts, Parts.unnamed, Seen.mk.injEq, List.getLast?_map, Option.map_map, List.any_map,
    List.filterMap_map, Function.comp_def]
  constructor
  · intro h
    exact ⟨h.loads, h.cut, h.strict, h.crop, h.resize, h.overlays, h.captions, h.ratios, h.rate, h.target⟩
  · rintro ⟨hloads, hcut, hstrict, hcrop, hresize, hoverlays, hcaptions, hratios, hrate, htarget⟩
    exact ⟨hloads, hcut, hstrict, hcrop, hresize, hoverlays, hcaptions, hratios, hrate, htarget⟩

namespace Agree

theorem ofTrims (h : Agree a b) : TrimWindow.ofTrims a.trims = TrimWindow.ofTrims b.trims := by
  have hcut := h.cut
  unfold TrimWindow.ofTrims
  rw [h.strict]
  cases ha : a.trims.getLast? <;> cases hb : b.trims.getLast? <;> simp [ha, hb] at hcut
  · rfl
  · obtain ⟨-, hstart, hstop, -⟩ := hcut
    simp only [hstart, hstop]

theorem trimStage (h : Agree a b) (w : TrimWindow) : trimStage w a.trims = trimStage w b.trims := by
  unfold MediaEngine.trimStage
  rw [last_same h.cut (·.version) fun _ => rfl]

theorem cropStage (h : Agree a b) : cropStage a.crops a.trims = cropStage b.crops b.trims := by
  have hcrop := h.crop
  have hcut := h.cut
  unfold MediaEngine.cropStage
  cases ha : a.crops.getLast? <;> cases hb : b.crops.getLast? <;> simp [ha, hb] at hcrop
  · cases ha : a.trims.getLast? <;> cases hb : b.trims.getLast? <;> simp [ha, hb] at hcut
    · rfl
    · obtain ⟨hversion, -, -, hregion⟩ := hcut
      simp only [hversion, hregion]
  · obtain ⟨hversion, hwidth, hheight, hx, hy⟩ := hcrop
    simp only [hversion, hwidth, hheight, hx, hy]

theorem overlayStages (h : Agree a b) (i : Nat) : overlayStages cwd i a.overlays = overlayStages cwd i b.overlays := by
  rw [← overlayStages_unnamed, h.overlays, overlayStages_unnamed]

theorem captionStages (h : Agree a b) : a.captions.map captionStage = b.captions.map captionStage := by
  have hstages : ∀ captions : List Caption, captions.map captionStage =
      (captions.map ({ · with id := none })).map captionStage := by
    simp [Function.comp_def, captionStage]
  rw [hstages, h.captions, ← hstages]

theorem compoundSpeed (h : Agree a b) : compoundSpeed a.speeds = compoundSpeed b.speeds := by
  rw [compoundSpeed_eq, compoundSpeed_eq, h.ratios]

/-- Loads and exports count without their ids. -/
theorem stagesOf (h : Agree a b) {load load' : Load} {target target' : Export} (w : TrimWindow) (speed : Binary64)
    (hload : { load with id := none } = { load' with id := none })
    (htarget : { target with id := none } = { target' with id := none }) :
    stagesOf cwd a load target w speed = stagesOf cwd b load' target' w speed := by
  obtain ⟨⟨_, _⟩, _, _, _, _⟩ := load
  obtain ⟨⟨_, _⟩, _, _, _, _⟩ := load'
  obtain ⟨⟨_, _⟩, _, _, _, _⟩ := target
  obtain ⟨⟨_, _⟩, _, _, _, _⟩ := target'
  cases hload
  cases htarget
  have hresize := last_same (f := resizeStage) h.resize resizeStage fun _ => rfl
  have hrate := last_same (f := frameRateStage) h.rate frameRateStage fun _ => rfl
  unfold MediaEngine.stagesOf
  rw [h.trimStage, h.cropStage, h.overlayStages, h.captionStages, hresize, hrate]
  rfl

theorem preview (h : Agree a b) {load load' : Load} (hload : { load with id := none } = { load' with id := none })
    (o : PreviewOverrides) : previewOf o load a.resizes.getLast? a.frameRates.getLast? =
      previewOf o load' b.resizes.getLast? b.frameRates.getLast? := by
  have hload : load.fps = load'.fps := (congrArg Load.fps hload :)
  have hwidth := last_same (f := Resize.width) h.resize Resize.width fun _ => rfl
  have hheight := last_same (f := Resize.height) h.resize Resize.height fun _ => rfl
  have hfps := last_same (f := FrameRate.fps) h.rate FrameRate.fps fun _ => rfl
  unfold previewOf
  rw [hwidth, hheight, hfps, hload]

end Agree

end Parts

theorem Assembled.agree {cwd : String} {options : OptionsInput} {a b : List Node} {plan : Plan} {load : Load}
    {w : TrimWindow} {speed : Binary64} (h : Assembled cwd options a plan load w speed)
    (hs : Agree (Parts.ofNodes a) (Parts.ofNodes b)) : ∃ load', Assembled cwd options b plan load' w speed := by
  -- Nodes that agree may differ in their names, which no stage shows.
  obtain ⟨load', hsource, hload⟩ : ∃ load', (Parts.ofNodes b).loads = [load'] ∧
      { load with id := none } = { load' with id := none } := by
    have hloads := hs.loads
    rw [h.source, List.map_singleton, eq_comm, List.map_eq_singleton_iff] at hloads
    obtain ⟨load', hsource, hload⟩ := hloads
    exact ⟨load', hsource, hload.symm⟩
  obtain ⟨target, htarget, hstages⟩ := h.stages
  obtain ⟨target', htarget', hsame⟩ : ∃ target', (Parts.ofNodes b).exports.getLast? = some target' ∧
      { target with id := none } = { target' with id := none } := by
    have htargets := hs.target
    rw [htarget, Option.map_some, eq_comm, Option.map_eq_some_iff] at htargets
    obtain ⟨target', htarget', hsame⟩ := htargets
    exact ⟨target', htarget', hsame.symm⟩
  obtain ⟨o, hoptions, hpreview⟩ := h.preview
  refine ⟨load', ?_⟩
  constructor
  case source => exact hsource
  case window => rw [← hs.ofTrims, h.window]
  case ratio => rw [← hs.compoundSpeed, h.ratio]
  case stages => exact ⟨target', htarget', by rw [← hs.stagesOf w speed hload hsame, hstages]⟩
  case preview => exact ⟨o, hoptions, by rw [hpreview, hs.preview hload]⟩
  case estimate => rw [← congrArg Load.duration hload, h.estimate]
  case strict => exact h.strict
  case vsync =>
    have hvsync := last_same (f := FrameRate.vsync) hs.rate FrameRate.vsync fun _ => rfl
    have hbind : ∀ rate : Option FrameRate, rate.bind (·.vsync) = (rate.map FrameRate.vsync).join := fun rate => by
      cases rate <;> rfl
    rw [h.vsync, hbind, hvsync, ← hbind]
  case square => exact h.square

theorem seen_same_plan {a b : ChainInput} {nodes nodes' : List Node} (ha : a.nodes = .ok nodes) (hb : b.nodes = .ok nodes')
    (hs : Seen.ofNodes nodes = Seen.ofNodes nodes') (cwd : String) (options : OptionsInput) :
    SamePlan (compile cwd a options) (compile cwd b options) := by
  intro plan
  rw [compile_assembled_iff, compile_assembled_iff]
  constructor
  · rintro ⟨_, load, w, speed, hnodes, h⟩
    cases ha.symm.trans hnodes
    obtain ⟨load', h'⟩ := h.agree (agree_iff.mpr hs)
    exact ⟨nodes', load', w, speed, hb, h'⟩
  · rintro ⟨_, load, w, speed, hnodes, h⟩
    cases hb.symm.trans hnodes
    obtain ⟨load', h'⟩ := h.agree (agree_iff.mpr hs.symm)
    exact ⟨nodes, load', w, speed, ha, h'⟩

/-! ## Edits of a chain -/

namespace Chain

/-- The node with another id. -/
def Node.rename (id : Option String) : Node → Node
  | .load n => .load { n with id }
  | .trim n => .trim { n with id }
  | .resize n => .resize { n with id }
  | .crop n => .crop { n with id }
  | .overlay n => .overlay { n with id }
  | .caption n => .caption { n with id }
  | .speed n => .speed { n with id }
  | .frameRate n => .frameRate { n with id }
  | .export n => .export { n with id }

/-- The kinds of nodes of which the last one is all that counts. -/
def NodeKind.superseded : List NodeKind := [.crop, .resize, .frameRate, .export]

end Chain

/-- An edit that no plan shows: neighbours of different kinds change places, a node comes in that a later one of
    its kind supersedes, or a speed node without a ratio that counts, or a node gets another id. -/
inductive Edit : List Node → List Node → Prop
  | swap (before after : List Node) (x y : Node) (h : x.kind ≠ y.kind) :
      Edit (before ++ x :: y :: after) (before ++ y :: x :: after)
  | supersede (before between after : List Node) (x y : Node) (h : x.kind = y.kind) (hx : x.kind ∈ NodeKind.superseded) :
      Edit (before ++ (between ++ y :: after)) (before ++ x :: (between ++ y :: after))
  | unusable (before after : List Node) (node : Speed) (h : node.ratio.ratio? = none) :
      Edit (before ++ after) (before ++ .speed node :: after)
  | rename (before after : List Node) (x : Node) (id : Option String) :
      Edit (before ++ x :: after) (before ++ x.rename id :: after)

section Edit
variable {α : Type} {kind : NodeKind} {pick : Node → Option α} {x y : Node}

/-- Nodes of a kind are picked, and no others. -/
def Picks (kind : NodeKind) (pick : Node → Option α) : Prop := ∀ x : Node, (pick x).isSome = true ↔ x.kind = kind

namespace Picks

theorem none (hp : Picks kind pick) (h : x.kind ≠ kind) : pick x = none := by
  rw [← Option.not_isSome_iff_eq_none, hp x]
  exact h

theorem drop (hp : Picks kind pick) (h : x.kind ≠ kind) (before after : List Node) :
    (before ++ x :: after).filterMap pick = (before ++ after).filterMap pick := by
  simp [hp.none h]

theorem swap (hp : Picks kind pick) (h : x.kind ≠ y.kind) (before after : List Node) :
    (before ++ x :: y :: after).filterMap pick = (before ++ y :: x :: after).filterMap pick := by
  by_cases hx : x.kind = kind
  · simp [List.filterMap_cons, hp.none (hx ▸ h.symm)]
  · simp [List.filterMap_cons, hp.none hx]

/-- The last node of a kind is not one that another follows. -/
theorem last (hp : Picks kind pick) (h : x.kind = y.kind) (before between after : List Node) :
    ((before ++ x :: (between ++ y :: after)).filterMap pick).getLast? =
      ((before ++ (between ++ y :: after)).filterMap pick).getLast? := by
  by_cases hx : x.kind = kind
  · obtain ⟨a, ha⟩ := Option.isSome_iff_exists.mp ((hp x).mpr hx)
    obtain ⟨b, hb⟩ := Option.isSome_iff_exists.mp ((hp y).mpr (h ▸ hx))
    simp [ha, hb, List.getLast?_cons]
  · rw [hp.drop hx]

end Picks

theorem picks : Picks .load Node.load? ∧ Picks .trim Node.trim? ∧ Picks .resize Node.resize? ∧ Picks .crop Node.crop? ∧
    Picks .overlay Node.overlay? ∧ Picks .caption Node.caption? ∧ Picks .speed Node.speed? ∧
    Picks .frameRate Node.frameRate? ∧ Picks .export Node.export? := by
  refine ⟨?_, ?_, ?_, ?_, ?_, ?_, ?_, ?_, ?_⟩ <;> intro x <;> cases x <;>
    first | exact iff_of_true rfl rfl | exact iff_of_false (fun h => by cases h) fun h => by cases h

theorem swap_parts (h : x.kind ≠ y.kind) (before after : List Node) :
    Parts.ofNodes (before ++ x :: y :: after) = Parts.ofNodes (before ++ y :: x :: after) := by
  obtain ⟨hload, htrim, hresize, hcrop, hoverlay, hcaption, hspeed, hrate, hexport⟩ := picks
  simp only [Parts.ofNodes, hload.swap h, htrim.swap h, hresize.swap h, hcrop.swap h, hoverlay.swap h, hcaption.swap h,
    hspeed.swap h, hrate.swap h, hexport.swap h]

theorem supersede_agree (h : x.kind = y.kind) (hx : x.kind ∈ NodeKind.superseded) (before between after : List Node) :
    Agree (Parts.ofNodes (before ++ (between ++ y :: after))) (Parts.ofNodes (before ++ x :: (between ++ y :: after))) := by
  obtain ⟨hload, htrim, hresize, hcrop, hoverlay, hcaption, hspeed, hrate, hexport⟩ := picks
  have hne : ∀ {kind}, kind ∉ NodeKind.superseded → x.kind ≠ kind := fun hno he => hno (he ▸ hx)
  constructor
  case loads => simp only [Parts.ofNodes, hload.drop (hne (by decide))]
  case cut => simp only [Parts.ofNodes, htrim.drop (hne (by decide))]
  case strict => simp only [Parts.ofNodes, htrim.drop (hne (by decide))]
  case crop => simp only [Parts.ofNodes, hcrop.last h]
  case resize => simp only [Parts.ofNodes, hresize.last h]
  case overlays => simp only [Parts.ofNodes, hoverlay.drop (hne (by decide))]
  case captions => simp only [Parts.ofNodes, hcaption.drop (hne (by decide))]
  case ratios => simp only [Parts.ofNodes, hspeed.drop (hne (by decide))]
  case rate => simp only [Parts.ofNodes, hrate.last h]
  case target => simp only [Parts.ofNodes, hexport.last h]

theorem unusable_agree {node : Speed} (h : node.ratio.ratio? = none) (before after : List Node) :
    Agree (Parts.ofNodes (before ++ after)) (Parts.ofNodes (before ++ .speed node :: after)) := by
  obtain ⟨hload, htrim, hresize, hcrop, hoverlay, hcaption, hspeed, hrate, hexport⟩ := picks
  have hne : ∀ {kind}, kind ≠ .speed → (Node.speed node).kind ≠ kind := fun hno he => hno he.symm
  constructor
  case loads => simp only [Parts.ofNodes, hload.drop (hne (by decide))]
  case cut => simp only [Parts.ofNodes, htrim.drop (hne (by decide))]
  case strict => simp only [Parts.ofNodes, htrim.drop (hne (by decide))]
  case crop => simp only [Parts.ofNodes, hcrop.drop (hne (by decide))]
  case resize => simp only [Parts.ofNodes, hresize.drop (hne (by decide))]
  case overlays => simp only [Parts.ofNodes, hoverlay.drop (hne (by decide))]
  case captions => simp only [Parts.ofNodes, hcaption.drop (hne (by decide))]
  case ratios => simp [Parts.ofNodes, List.filterMap_cons, Node.speed?, h]
  case rate => simp only [Parts.ofNodes, hrate.drop (hne (by decide))]
  case target => simp only [Parts.ofNodes, hexport.drop (hne (by decide))]

theorem filterMap_rename {erase : α → α} (h : ∀ x, pick (x.rename none) = (pick x).map erase) (nodes : List Node) :
    (nodes.filterMap pick).map erase = (nodes.map (Node.rename none)).filterMap pick := by
  simp [List.filterMap_map, List.map_filterMap, h]

/-- The parts without ids are those of the nodes without ids. -/
theorem unnamed_parts (nodes : List Node) : (Parts.ofNodes nodes).unnamed = Parts.ofNodes (nodes.map (Node.rename none)) := by
  simp only [Parts.unnamed, Parts.ofNodes, Parts.mk.injEq]
  refine ⟨?_, ?_, ?_, ?_, ?_, ?_, ?_, ?_, ?_⟩ <;> exact filterMap_rename (fun x => by cases x <;> rfl) nodes

theorem Edit.seen {a b : List Node} (h : Edit a b) : Seen.ofNodes a = Seen.ofNodes b := by
  cases h with
  | swap before after x y h => rw [Seen.ofNodes, swap_parts h, Seen.ofNodes]
  | supersede before between after x y h hx => exact agree_iff.mp (supersede_agree h hx before between after)
  | unusable before after node h => exact agree_iff.mp (unusable_agree h before after)
  | rename before after x id =>
    have hname : (x.rename id).rename none = x.rename none := by cases x <;> rfl
    simp only [Seen.ofNodes, unnamed_parts, List.map_append, List.map_cons, hname]

/-- Any number of edits, made or taken back. -/
theorem edits_seen {a b : List Node} (h : Relation.EqvGen Edit a b) : Seen.ofNodes a = Seen.ofNodes b := by
  induction h with
  | rel _ _ h => exact h.seen
  | refl _ => rfl
  | symm _ _ _ ih => exact ih.symm
  | trans _ _ _ _ _ ih ih' => exact ih.trans ih'

end Edit

/-! ## Unknown keys -/

/-- The keys that are read of a value: its tag, and where that selects a kind all keys of this kind. -/
def Value.keysRead (v : Value) : List Key :=
  match Tag.ofValue v with
  | .ok (.known kind) => kind.keys
  | _ => [Keys.kind]

/-- The second object has one member more, of a node or of its region, under a key that is not read. -/
inductive Padded : Value → Value → Prop
  | node (before after : Members) (key : String) (value : Value)
      (h : ∀ k ∈ Value.keysRead (.object (before ++ after)), k.name ≠ key ∧ k.spelling ≠ key) :
      Padded (.object (before ++ after)) (.object (before ++ (key, value) :: after))
  | region (before after left right : Members) (key : String) (value : Value)
      (h : ∀ k ∈ Region.keys, k.name ≠ key ∧ k.spelling ≠ key) :
      Padded (.object (before ++ ("region", .object (left ++ right)) :: after))
        (.object (before ++ ("region", .object (left ++ (key, value) :: right)) :: after))

section Padded
variable {before after : Members} {key : String} {k : Key}

theorem kind_mem_keysRead (v : Value) : Keys.kind ∈ v.keysRead := by
  unfold Value.keysRead
  split
  · exact kind_mem_keys _
  · exact List.mem_singleton_self _

theorem find?_inserted {key' : String} (h : key' ≠ key) (value : Value) :
    Members.find? (before ++ (key, value) :: after) key' = Members.find? (before ++ after) key' := by
  simp [Members.find?, List.lookup_append, List.lookup_cons, beq_false_of_ne h]

theorem value?_inserted (h : k.name ≠ key ∧ k.spelling ≠ key) (value : Value) :
    k.value? (before ++ (key, value) :: after) = k.value? (before ++ after) := by
  simp only [Key.value?, Key.find?, find?_inserted h.1, find?_inserted h.2]

theorem keys_besides_region (kind : NodeKind) : ∀ k ∈ kind.keys, k ≠ Keys.region → k.name ≠ "region" ∧ k.spelling ≠ "region" := by
  cases kind <;> decide

/-- Regions with the same values under their keys make the same region of the nodes that they stand in. -/
theorem region_alike {r r' : Members} (h : ∀ k ∈ Region.keys, k.value? r = k.value? r') {kind : NodeKind} (hk : k ∈ kind.keys) :
    k.Alike (before ++ ("region", .object r) :: after) (before ++ ("region", .object r') :: after) := by
  by_cases hregion : k = Keys.region
  · subst hregion
    have hvalue : ∀ r : Members, Keys.region.value? (before ++ ("region", .object r) :: after) =
        (before.find? "region").or (some (.object r)) := by
      intro r
      rw [Keys.region, value?_only]
      simp [Members.find?, List.lookup_append]
    cases hfind : before.find? "region" with
    | some v => exact .inl (by simp [hvalue, hfind])
    | none => exact .inr ⟨rfl, r, r', by simp [hvalue, hfind], by simp [hvalue, hfind], h⟩
  · have hne := keys_besides_region kind k hk hregion
    exact .inl ((value?_inserted hne _).trans (value?_inserted hne _).symm)

theorem Padded.validates {v v' : Value} (h : Padded v v') (node : Node) : Validates v node ↔ Validates v' node := by
  cases h with
  | node before after key value h =>
    refine validates_reads (value?_inserted (h _ (kind_mem_keysRead _)) value).symm (fun kind htag k hk => .inl ?_) node
    refine (value?_inserted (h k ?_) value).symm
    rw [Value.keysRead, htag]
    exact hk
  | region before after left right key value h =>
    have hregion : ∀ k ∈ Region.keys, k.value? (left ++ right) = k.value? (left ++ (key, value) :: right) :=
      fun k hk => (value?_inserted (h k hk) value).symm
    refine validates_reads ?_ (fun kind _ k hk => region_alike hregion hk) node
    exact (alike_iff (by decide)).mp (region_alike hregion (kind_mem_keys .trim))

theorem padded_validates {v v' : Value} (h : Relation.EqvGen Padded v v') (node : Node) :
    Validates v node ↔ Validates v' node := by
  induction h with
  | rel _ _ h => exact h.validates node
  | refl _ => rfl
  | symm _ _ _ ih => exact ih.symm
  | trans _ _ _ _ _ ih ih' => exact ih.trans ih'

end Padded

/-! ## Options -/

/-- The preview of a size and a frame rate. -/
def Preview.sized (width height : Int) (maxFps : Binary64) : Preview where
  width
  height
  maxFps
  filters := [
    ⟨.colorspace, [("profile", .text "srgb"), ("format", .text "rgba")]⟩,
    ⟨.scale, [("width", .int width), ("height", .int height), ("interpolation", .text "bilinear")]⟩,
    ⟨.setsar, [("value", .int 1)]⟩]

/-- The options override the preview field by field, and nothing else. -/
theorem Assembled.overridden {cwd : String} {options : OptionsInput} {nodes : List Node} {plan : Plan} {load : Load}
    {w : TrimWindow} {speed : Binary64} (h : Assembled cwd options nodes plan load w speed) :
    ∃ width height maxFps, ∀ (options : OptionsInput) (o : PlanOptions), options.read = .ok (.options o) →
      Assembled cwd options nodes { plan with
        preview := .sized (o.overrides.width.getD width) (o.overrides.height.getD height)
          (o.overrides.maxFps.getD maxFps) } load w speed := by
  let resize := (Parts.ofNodes nodes).resizes.getLast?
  let rate := (Parts.ofNodes nodes).frameRates.getLast?
  refine ⟨(resize.map (·.width)).getD 1280, (resize.map (·.height)).getD 720,
    (rate.map (·.fps)).getD (load.fps.getD (Binary64.ofNat 30)), fun options o ho => ?_⟩
  constructor
  case source => exact h.source
  case window => exact h.window
  case ratio => exact h.ratio
  case stages => exact h.stages
  case preview => exact ⟨o, ho, rfl⟩
  case estimate => exact h.estimate
  case strict => exact h.strict
  case vsync => exact h.vsync
  case square => exact h.square

/-- A plan depends on what is seen of the nodes and on nothing else of the chain: not on how nodes of different kinds
    are interleaved, on superseded nodes, on ratios that do not count, on ids, or on unknown keys. The options
    override the size and the frame rate of the preview, and reach nothing else. -/
theorem plan_depends (cwd : String) :
    (∀ (a b : ChainInput) (options : OptionsInput) (nodes nodes' : List Node), a.nodes = .ok nodes → b.nodes = .ok nodes' →
      Seen.ofNodes nodes = Seen.ofNodes nodes' → SamePlan (compile cwd a options) (compile cwd b options)) ∧
    (∀ (a b : ChainInput) (options : OptionsInput) (nodes nodes' : List Node), a.nodes = .ok nodes → b.nodes = .ok nodes' →
      Relation.EqvGen Edit nodes nodes' → SamePlan (compile cwd a options) (compile cwd b options)) ∧
    (∀ (values values' : List Value) (options : OptionsInput), List.Forall₂ (Relation.EqvGen Padded) values values' →
      SamePlan (compile cwd (.value (.list values)) options) (compile cwd (.value (.list values')) options)) ∧
    ∀ (chain : ChainInput) (options : OptionsInput) (plan : Plan), compile cwd chain options = .ok plan →
      ∃ width height maxFps, ∀ (options : OptionsInput) (o : PlanOptions), options.read = .ok (.options o) →
        compile cwd chain options = .ok { plan with
          preview := .sized (o.overrides.width.getD width) (o.overrides.height.getD height)
            (o.overrides.maxFps.getD maxFps) } := by
  refine ⟨fun a b options nodes nodes' ha hb hs => ?seen, fun a b options nodes nodes' ha hb he => ?edits,
    fun values values' options hv => ?keys, fun chain options plan h => ?options⟩
  case seen => exact seen_same_plan ha hb hs cwd options
  case edits => exact seen_same_plan ha hb (edits_seen he) cwd options
  case keys => exact same_values_same_plan (hv.imp fun _ _ => padded_validates) cwd options
  case options =>
    obtain ⟨nodes, load, w, speed, hnodes, h⟩ := compile_assembled h
    obtain ⟨width, height, maxFps, hall⟩ := h.overridden
    exact ⟨width, height, maxFps, fun options o ho => (hall options o ho).compile hnodes⟩

/-- A source behind its export and then in front of it, under another id, with a crop that a later one supersedes, a
    ratio that is not positive and a member that no node has: the plan is the same, and an override of its width shows
    in the preview alone. -/
theorem plan_of_either_order :
    let load : Load := ⟨⟨none, defaultVersion⟩, .video, "in.mp4", none, none⟩
    let first : Crop := ⟨⟨some "c", defaultVersion⟩, .pixels (.int 64), .pixels (.int 64), none, none⟩
    let last : Crop := ⟨⟨none, defaultVersion⟩, .pixels (.int 32), .pixels (.int 32), none, none⟩
    let speed : Speed := ⟨⟨none, defaultVersion⟩, .int (-2)⟩
    let target : Export := ⟨⟨none, defaultVersion⟩, none, none, none, none⟩
    let source : Members := [("typeId", .text "loadVideo"), ("path", .text "in.mp4")]
    let result : Value := .object [("typeId", .text "export")]
    ∃ plan sized bare,
      compile "/work" (.chain ⟨[.crop first, .speed speed, .crop last, .export target, .load load]⟩) (.value .null) = .ok plan ∧
      compile "/work" (.chain ⟨[.load { load with id := some "l" }, .crop last, .export target]⟩) (.value .null) = .ok plan ∧
      compile "/work" (.chain ⟨[.crop last, .load load, .export target]⟩) (.value .null) = .ok plan ∧
      compile "/work" (.chain ⟨[.crop last, .load load, .export target]⟩) (.options ⟨some ⟨some 64, none, none⟩⟩) = .ok sized ∧
      sized.stages = plan.stages ∧ sized.preview.width = 64 ∧
      compile "/work" (.value (.list [.object source, result])) (.value .null) = .ok bare ∧
      compile "/work" (.value (.list [.object (source ++ [("note", .null)]), result])) (.value .null) = .ok bare := by
  intro load first last speed target source result
  obtain ⟨hseen, hedits, hkeys, hoptions⟩ := plan_depends "/work"
  let given : List Node := [.crop first, .speed speed, .crop last, .export target, .load load]
  let plain : List Node := [.crop last, .load load, .export target]
  have hcompiles : (compile "/work" (.chain ⟨given⟩) (.value .null)).toOption.map (·.stages.length) = some 4 := by
    decide +kernel
  have hlisted : (compile "/work" (.value (.list [.object source, result])) (.value .null)).toOption.map
      (·.stages.length) = some 3 := by
    decide +kernel
  obtain ⟨plan, hplan, -⟩ := ok_of_toOption_map hcompiles
  obtain ⟨bare, hbare, -⟩ := ok_of_toOption_map hlisted
  -- The speed is of no use, the first crop is superseded by the last one, and loading may come later.
  have hedited : Relation.EqvGen Edit given plain :=
    .trans _ _ _ (.symm _ _ (.rel _ _ (.unusable [.crop first] _ speed (by decide +kernel))))
      (.trans _ _ _ (.symm _ _ (.rel _ _ (.supersede [] [] _ _ (.crop last) rfl (by decide))))
        (.rel _ _ (.swap [.crop last] [] _ _ (by decide))))
  have hpadded : Relation.EqvGen Padded (.object source) (.object (source ++ [("note", .null)])) :=
    .rel _ _ (.node source [] "note" .null (by decide))
  have hplain := (hedits (.chain ⟨given⟩) (.chain ⟨plain⟩) (.value .null) _ _ rfl rfl hedited plan).mp hplan
  obtain ⟨width, height, maxFps, hsized⟩ := hoptions _ _ plan hplain
  refine ⟨plan, _, bare, hplan, ?_, hplain, hsized (.options ⟨some ⟨some 64, none, none⟩⟩) _ rfl, rfl, rfl, hbare, ?_⟩
  · exact (hseen (.chain ⟨plain⟩) (.chain _) (.value .null) _ _ rfl rfl rfl plan).mp hplain
  · exact (hkeys _ _ (.value .null) (.cons hpadded (.cons (.refl _) .nil)) bare).mp hbare

end MediaEngine
