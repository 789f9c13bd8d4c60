import MediaEngine.Proofs.Compile.Cuts
import MediaEngine.Proofs.FilterArguments
import MediaEngine.Proofs.Magnitudes

/-! # Stages and the nodes that they show

Overlays and texts are shown one to one: the stages of either type stand in the order of their nodes, each shows its own
node, and overlays are numbered by it (`compile_shows_each`). Whatever an overlay node holds for its opacity, what its
stage shows is a double from zero to one (`opacity_tempers`). -/

namespace MediaEngine
open Chain

namespace Number
variable {n : Number}

/-- Whole numbers are numbers. -/
theorem isNaN_ok {nan : Bool} (h : n.isNaN = .ok nan) : nan = true ↔ n = .float .nan := by
  obtain ⟨d, hd, h⟩ := bind_eq_ok.mp h
  cases h
  cases n with
  | float x =>
    cases hd
    cases d <;> simp [Binary64.isNaN]
  | int k =>
    obtain ⟨s, u, fits, rfl, -⟩ := toDouble_shape (n := .int k) rfl hd
    exact iff_of_false Bool.false_ne_true fun h => by cases h

end Number

/-! ## Opacities -/

/-- A double from zero to one for whatever a node holds: the number in that range that is nearest, and one for what is
no number. -/
structure Tempers (v : Value) (x : Binary64) : Prop where
  nonneg : Binary64.zero.le x = true
  le_one : x.le (Binary64.ofNat 1) = true
  kept : ∀ n, v = .number n → Number.zero.le n = true → n.le (.float (Binary64.ofNat 1)) = true → x.extent = n.extent
  raised : ∀ n, v = .number n → n.lt .zero = true → x = .zero
  lowered : ∀ n, v = .number n → Number.lt (.float (Binary64.ofNat 1)) n = true → x = Binary64.ofNat 1
  otherwise : (∀ n, v = .number n → n = .float .nan) → x = Binary64.ofNat 1

section Opacity
variable {v : Value} {x : Binary64} {n : Number}

theorem one_above_zero : Number.zero.lt (.float (Binary64.ofNat 1)) = true := by decide +kernel

theorem one_at_most_one : (Binary64.ofNat 1).le (Binary64.ofNat 1) = true := by decide +kernel

theorem tempers_none (h : ∀ n, v = .number n → n = .float .nan) : Tempers v (Binary64.ofNat 1) where
  nonneg := Number.le_of_lt one_above_zero
  le_one := one_at_most_one
  kept n hn h0 := by
    cases h n hn
    cases h0
  raised n hn h0 := by
    cases h n hn
    cases h0
  lowered _ _ _ := rfl
  otherwise _ := rfl

theorem tempers_low (hn : n ≠ .float .nan) (h : Number.zero.lt n = false) : Tempers (.number n) .zero where
  nonneg := by decide +kernel
  le_one := Number.le_of_lt one_above_zero
  kept m hm h0 _ := by
    cases hm
    exact Number.extent_eq_of_not_lt rfl (Number.extent_isSome hn) h (Number.not_lt_of_le h0)
  raised _ _ _ := rfl
  lowered m hm h1 := by
    cases hm
    cases h.symm.trans (Number.lt_trans one_above_zero h1)
  otherwise h := absurd (h n rfl) hn

theorem tempers_high (hn : n ≠ .float .nan) (hpos : Number.zero.lt n = true) (h : n.lt (.float (Binary64.ofNat 1)) = false) :
    Tempers (.number n) (Binary64.ofNat 1) where
  nonneg := Number.le_of_lt one_above_zero
  le_one := one_at_most_one
  kept m hm _ h1 := by
    cases hm
    have hone : (Number.float (Binary64.ofNat 1)).extent.isSome = true := by decide +kernel
    exact Number.extent_eq_of_not_lt hone (Number.extent_isSome hn) (Number.not_lt_of_le h1) h
  raised m hm h0 := by
    cases hm
    cases (Number.lt_asymm hpos).symm.trans h0
  lowered _ _ _ := rfl
  otherwise h := absurd (h n rfl) hn

theorem tempers_between (hpos : Number.zero.lt (.float x) = true) (h : (Number.float x).lt (.float (Binary64.ofNat 1)) = true) :
    Tempers (.double x) x where
  nonneg := Number.le_of_lt hpos
  le_one := Number.le_of_lt h
  kept n hn _ _ := by
    cases hn
    rfl
  raised n hn h0 := by
    cases hn
    cases (Number.lt_asymm hpos).symm.trans h0
  lowered n hn h1 := by
    cases hn
    cases (Number.lt_asymm h).symm.trans h1
  otherwise hnan := by
    cases hnan _ rfl
    cases hpos

/-- There is no whole number between zero and one. -/
theorem not_int_between {k : Int} (hpos : Number.zero.lt (.int k) = true) : Number.lt (.int k) (.float (Binary64.ofNat 1)) = false := by
  have hk := Number.zero_lt_int hpos
  have hone : (Number.float (Binary64.ofNat 1)).extent = (Number.int 1).extent := by decide +kernel
  have hsame : Number.lt (.int k) (.float (Binary64.ofNat 1)) = Number.lt (.int k) (.int 1) := by
    rw [Number.lt, Number.lt, hone]
  rw [hsame, ← Bool.not_eq_true, Number.int_lt]
  omega

theorem opacity_number (hn : n ≠ .float .nan) (h : opacity (.number n) = .ok x) :
    (Number.min (.float (Binary64.ofNat 1)) (Number.zero.max n)).toDouble = .ok x := by
  obtain ⟨nan, hnan, h⟩ := bind_eq_ok.mp h
  rwa [if_neg (mt (Number.isNaN_ok hnan).mp hn)] at h

/-- A number that is not above zero is brought up to it, one that is not below one is brought down to it, and what is
between them, which no whole number is, stays as it is. -/
theorem opacity_tempers (h : opacity v = .ok x) : Tempers v x := by
  by_cases hv : ∃ n, v = .number n ∧ n ≠ .float .nan
  · obtain ⟨n, rfl, hn⟩ := hv
    have h := opacity_number hn h
    -- What is above zero and below one is no whole number, so it is a double already.
    cases hpos : Number.zero.lt n with
    | false =>
      rw [Number.max, hpos, if_neg Bool.false_ne_true, Number.min, if_pos one_above_zero] at h
      cases h
      exact tempers_low hn hpos
    | true =>
      rw [Number.max, hpos, if_pos rfl] at h
      cases htop : n.lt (.float (Binary64.ofNat 1)) with
      | false =>
        rw [Number.min, htop, if_neg Bool.false_ne_true] at h
        cases h
        exact tempers_high hn hpos htop
      | true =>
        rw [Number.min, htop, if_pos rfl] at h
        cases n with
        | int k => cases (not_int_between hpos).symm.trans htop
        | float y =>
          cases h
          exact tempers_between hpos htop
  · have hnan : ∀ n, v = .number n → n = .float .nan := fun n hn => not_not.mp fun hne => hv ⟨n, hn, hne⟩
    have hone : opacity v = .ok (Binary64.ofNat 1) := by
      cases v with
      | number n => rw [hnan n rfl]; rfl
      | _ => rfl
    cases hone.symm.trans h
    exact tempers_none hnan

end Opacity

/-! ## Stages -/

/-- What a stage shows of an overlay node that stands at this position among the overlays. -/
structure ShowsOverlay (cwd : String) (index : Nat) (node : Overlay) (stage : FilterStage) : Prop where
  version : stage.version = node.version
  label : stage.params.find? "label" = some (.text ("ovl" ++ toString index))
  source : ∃ path, stage.params.find? "source_path" = some (.text path) ∧ path = Path.absolute cwd node.source ∧
    stage.params.find? "escaped_source" = some (.text (FilterText.escape path)) ∧ FilterText.Escapes path (FilterText.escape path)
  x : stage.params.find? "x" = some (dimensionOrZero node.x)
  y : stage.params.find? "y" = some (dimensionOrZero node.y)
  opacity : ∃ x, stage.params.find? "opacity" = some (.double x) ∧ Tempers node.opacity x

/-- What a stage shows of a text node. -/
structure ShowsCaption (node : Caption) (stage : FilterStage) : Prop where
  version : stage.version = node.version
  text : stage.params.find? "text" = some (.text node.text)
  escaped : stage.params.find? "escaped_text" = some (.text (FilterText.escape node.text)) ∧
    FilterText.Escapes node.text (FilterText.escape node.text)

section Stages
variable {cwd : String}

theorem overlayStages_show {i : Nat} {overlays : List Overlay} {stages : List Stage} (h : overlayStages cwd i overlays = .ok stages) :
    List.Forall₂ (fun (node : Overlay × Nat) stage => ShowsOverlay cwd node.2 node.1 stage) (overlays.zipIdx i)
      (stages.filterMap Stage.filter?) := by
  induction overlays generalizing i stages with
  | nil =>
    cases h
    exact .nil
  | cons node rest ih =>
    obtain ⟨first, hfirst, h⟩ := bind_eq_ok.mp h
    obtain ⟨others, hothers, h⟩ := bind_eq_ok.mp h
    obtain ⟨x, hx, hfirst⟩ := bind_eq_ok.mp hfirst
    cases h
    cases hfirst
    have hindex : Number.intText i = toString i := rfl
    refine .cons ?_ (ih hothers)
    exact {
      version := rfl
      label := by rw [← hindex]; rfl
      source := ⟨_, rfl, rfl, rfl, FilterText.escapes_escape _⟩
      x := rfl
      y := rfl
      opacity := ⟨x, rfl, opacity_tempers hx⟩ }

theorem captionStages_show (captions : List Caption) :
    List.Forall₂ ShowsCaption captions ((captions.map captionStage).filterMap Stage.filter?) := by
  induction captions with
  | nil => exact .nil
  | cons node rest ih => exact .cons ⟨rfl, rfl, rfl, FilterText.escapes_escape _⟩ ih

/-- What every stage shows under a key of the overlay that it stands for. -/
theorem params_of_overlays {i : Nat} {overlays : List Overlay} {stages : List FilterStage} {key : String} {value : Overlay × Nat → Value}
    (h : List.Forall₂ (fun (node : Overlay × Nat) stage => ShowsOverlay cwd node.2 node.1 stage) (overlays.zipIdx i) stages)
    (hkey : ∀ node stage, ShowsOverlay cwd node.2 node.1 stage → stage.params.find? key = some (value node)) :
    stages.map (·.params.find? key) = (overlays.zipIdx i).map fun node => some (value node) := by
  have hsame : List.Forall₂ (· = ·) (stages.map (·.params.find? key)) ((overlays.zipIdx i).map fun node => some (value node)) :=
    List.forall₂_map_left_iff.mpr (List.forall₂_map_right_iff.mpr (h.flip.imp fun stage node hs => hkey node stage hs))
  rwa [List.forall₂_eq_eq_eq] at hsame

theorem labels_of_overlays {overlays : List Overlay} {stages : List FilterStage}
    (h : List.Forall₂ (fun (node : Overlay × Nat) stage => ShowsOverlay cwd node.2 node.1 stage) overlays.zipIdx stages) :
    stages.map (·.params.find? "label") = (List.range overlays.length).map fun k => some (.text ("ovl" ++ toString k)) := by
  rw [params_of_overlays h fun node stage hs => hs.label, List.range_eq_range', ← List.zipIdx_map_snd, List.map_map]
  rfl

theorem paths_of_overlays {overlays : List Overlay} {stages : List FilterStage}
    (h : List.Forall₂ (fun (node : Overlay × Nat) stage => ShowsOverlay cwd node.2 node.1 stage) overlays.zipIdx stages) :
    stages.map (·.params.find? "source_path") = overlays.map fun node => some (.text (Path.absolute cwd node.source)) := by
  have hpath : ∀ (node : Overlay × Nat) (stage : FilterStage), ShowsOverlay cwd node.2 node.1 stage →
      stage.params.find? "source_path" = some (.text (Path.absolute cwd node.1.source)) := by
    intro node stage hs
    obtain ⟨path, hpath, rfl, -⟩ := hs.source
    exact hpath
  rw [params_of_overlays h hpath]
  conv_rhs => rw [← List.zipIdx_map_fst 0 overlays, List.map_map]
  rfl

theorem labels_nodup (n : Nat) : ((List.range n).map fun k => some (Value.text ("ovl" ++ toString k))).Nodup := by
  refine List.Nodup.map (fun i j hij => ?_) List.nodup_range
  have htext : toString i = toString j := (String.append_right_inj _).mp (Value.text.inj (Option.some.inj hij))
  have hdigits : Nat.toDigits 10 i = Nat.toDigits 10 j := String.ofList_injective htext
  rw [← Nat.ofDigitChars_ten_toDigits (n := i), hdigits, Nat.ofDigitChars_ten_toDigits]

end Stages

/-- The stages of overlays and texts show the nodes of their kind one to one and in order, whatever else is in the chain,
and no two overlays have the same label. -/
theorem compile_shows_each {cwd : String} {chain : ChainInput} {options : OptionsInput} {plan : Plan}
    (h : compile cwd chain options = .ok plan) :
    ∃ nodes, chain.nodes = .ok nodes ∧
      List.Forall₂ (fun (node : Overlay × Nat) stage => ShowsOverlay cwd node.2 node.1 stage)
        (nodes.filterMap Node.overlay?).zipIdx (plan.findStages NodeKind.overlay.tag) ∧
      ((plan.findStages NodeKind.overlay.tag).map (·.params.find? "label")).Nodup ∧
      List.Forall₂ ShowsCaption (nodes.filterMap Node.caption?) (plan.findStages NodeKind.caption.tag) := by
  obtain ⟨nodes, load, w, speed, hnodes, ha⟩ := compile_assembled h
  obtain ⟨target, -, hstages⟩ := ha.stages
  have hframed := stagesOf_framed hstages
  obtain ⟨overlays, hoverlays, htyped⟩ := hframed.overlays
  have hshown := overlayStages_show hoverlays
  rw [← htyped] at hshown
  refine ⟨nodes, hnodes, hshown, ?_, ?_⟩
  · have hlabels : (plan.findStages NodeKind.overlay.tag).map (·.params.find? "label") = _ := labels_of_overlays hshown
    rw [hlabels]
    exact labels_nodup _
  · have hcaptions : plan.findStages NodeKind.caption.tag = ((nodes.filterMap Node.caption?).map captionStage).filterMap Stage.filter? :=
      hframed.captions
    rw [hcaptions]
    exact captionStages_show (nodes.filterMap Node.caption?)

/-- Overlays and texts with other nodes between them. -/
def interleaved : MediaChain where
  nodes := [
    .caption ⟨⟨none, defaultVersion⟩, "12:30", none, none, none, none⟩,
    .overlay ⟨⟨none, defaultVersion⟩, "a.png", none, none, .bool false⟩,
    .load ⟨⟨none, defaultVersion⟩, .video, "/in.mp4", none, none⟩,
    .overlay ⟨⟨none, defaultVersion⟩, "/b:c.png", none, none, .double (.ofDecimal false 25 (-2))⟩,
    .speed ⟨⟨none, defaultVersion⟩, .int 2⟩,
    .overlay ⟨⟨none, defaultVersion⟩, "a.png", none, none, .int (-1)⟩,
    .caption ⟨⟨none, defaultVersion⟩, "the end", none, none, none, none⟩,
    .export ⟨⟨none, defaultVersion⟩, none, none, none, none⟩]

/-- The double that a member holds. -/
def heldDouble : Option Value → Option Binary64
  | some (.number (.float x)) => some x
  | _ => none

/-- The text that a member holds. -/
def heldText : Option Value → Option String
  | some (.text s) => some s
  | _ => none

/-- What an overlay node that holds `false` shows is as good as one, and what one below zero shows is zero; a colon in a path
or a text is shown with a backslash in front. -/
theorem interleaved_shows_each : ∃ plan, compile "/home" (.chain interleaved) (.value .null) = .ok plan ∧
    (plan.findStages NodeKind.overlay.tag).map (fun stage => heldDouble (stage.params.find? "opacity")) =
      [some (Binary64.ofNat 1), some (.ofDecimal false 25 (-2)), some .zero] ∧
    (plan.findStages NodeKind.overlay.tag).map (fun stage => heldText (stage.params.find? "escaped_source")) =
      [some "/home/a.png", some "/b\\:c.png", some "/home/a.png"] ∧
    (plan.findStages NodeKind.caption.tag).map (fun stage => heldText (stage.params.find? "escaped_text")) =
      [some "12\\:30", some "the end"] ∧
    List.Forall₂ (fun (node : Overlay × Nat) stage => ShowsOverlay "/home" node.2 node.1 stage)
      (interleaved.nodes.filterMap Node.overlay?).zipIdx (plan.findStages NodeKind.overlay.tag) ∧
    List.Forall₂ ShowsCaption (interleaved.nodes.filterMap Node.caption?) (plan.findStages NodeKind.caption.tag) := by
  have hheld : (compile "/home" (.chain interleaved) (.value .null)).toOption.map (fun plan =>
      ((plan.findStages NodeKind.overlay.tag).map (fun stage => heldDouble (stage.params.find? "opacity")),
        (plan.findStages NodeKind.overlay.tag).map (fun stage => heldText (stage.params.find? "escaped_source")),
        (plan.findStages NodeKind.caption.tag).map fun stage => heldText (stage.params.find? "escaped_text"))) =
      some ([some (Binary64.ofNat 1), some (.ofDecimal false 25 (-2)), some .zero],
        [some "/home/a.png", some "/b\\:c.png", some "/home/a.png"], [some "12\\:30", some "the end"]) := by decide +kernel
  obtain ⟨plan, hplan, hheld⟩ := ok_of_toOption_map hheld
  obtain ⟨nodes, hnodes, hoverlays, -, hcaptions⟩ := compile_shows_each hplan
  cases hnodes
  exact ⟨plan, hplan, congrArg Prod.fst hheld, congrArg (·.2.1) hheld, congrArg (·.2.2) hheld, hoverlays, hcaptions⟩

end MediaEngine
