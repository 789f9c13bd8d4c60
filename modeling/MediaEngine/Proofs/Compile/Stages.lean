import MediaEngine.Proofs.Compile.Arithmetic

/-! # Where the stages of a chain can be computed

For each part of a compilation that computes, exactly when it succeeds. Bounds, offsets of a region,
opacities and ratios have to be converted; the speed is divided by only where a length is known. -/

namespace MediaEngine
open Chain Binary64

/-- The value is not a whole number beyond the doubles. -/
def Value.Covered : Value → Prop
  | .number n => n.Covered
  | _ => True

/-! ## Bounds -/

theorem succeeds_usableBound (v : Value) : Succeeds (usableBound v) ↔ v.Covered := by
  cases v with
  | number n =>
    refine (succeeds_bind_of fun finite _ => ?_).trans (Number.succeeds_isFinite n)
    cases finite <;> exact succeeds_pure _
  | _ => exact iff_of_true (succeeds_ok _) trivial

theorem usableBound_sound {v : Value} {n : Number} (h : usableBound v = .ok (some n)) : n.Sound := by
  cases v with
  | number m =>
    obtain ⟨finite, hf, h⟩ := bind_eq_ok.mp h
    cases finite with
    | false => cases h
    | true =>
      have hm : m.Covered := (Number.succeeds_isFinite m).mp ⟨true, hf⟩
      cases hlt : m.lt (.int 0) with
      | true =>
        rw [if_pos rfl, hlt] at h
        cases h
      | false =>
        rw [if_pos rfl, hlt] at h
        cases h
        exact ⟨hm, hlt⟩
  | _ => cases h

namespace TrimWindow
variable {w : TrimWindow}

/-- The bounds of a window are sound. -/
structure Sound (w : TrimWindow) : Prop where
  start : ∀ n, w.start = some n → n.Sound
  stop : ∀ n, w.stop = some n → n.Sound

theorem succeeds_ofTrims (trims : List Trim) :
    Succeeds (ofTrims trims) ↔ ∀ last, trims.getLast? = some last → last.start.Covered ∧ last.stop.Covered := by
  unfold ofTrims
  cases trims.getLast? with
  | none => exact iff_of_true (succeeds_ok _) fun _ h => by cases h
  | some last =>
    have hboth : Succeeds (do
        let start ← usableBound last.start
        let stop ← usableBound last.stop
        return (⟨start, stop, trims.any (·.strict)⟩ : TrimWindow)) ↔ last.start.Covered ∧ last.stop.Covered := by
      rw [← succeeds_usableBound, ← succeeds_usableBound]
      exact succeeds_bind_iff fun start _ => succeeds_bind_of fun stop _ => succeeds_pure _
    refine hboth.trans ⟨fun h l hl => ?_, fun h => h last rfl⟩
    cases hl
    exact h

theorem ofTrims_sound {trims : List Trim} (h : ofTrims trims = .ok w) : w.Sound := by
  unfold ofTrims at h
  cases hl : trims.getLast? with
  | none =>
    rw [hl] at h
    cases h
    constructor <;> intro n hn <;> cases hn
  | some last =>
    rw [hl] at h
    obtain ⟨start, hstart, h⟩ := bind_eq_ok.mp h
    obtain ⟨stop, hstop, h⟩ := bind_eq_ok.mp h
    cases h
    exact ⟨fun n hn => usableBound_sound (hstart.trans (congrArg _ hn)),
      fun n hn => usableBound_sound (hstop.trans (congrArg _ hn))⟩

theorem Sound.startOrZero (h : w.Sound) : w.startOrZero.Sound := by
  unfold TrimWindow.startOrZero
  split
  · split
    · exact Number.sound_zero
    · exact h.start _ ‹_›
  · exact Number.sound_zero

/-- The length of a sound window is computed where it has an end, and can be converted. -/
theorem Sound.length (h : w.Sound) :
    ∃ l, w.length = .ok l ∧ l.isSome = w.stop.isSome ∧ ∀ n, l = some n → n.Covered := by
  unfold TrimWindow.length
  split
  · rename_i hstop
    exact ⟨none, rfl, by rw [hstop], fun _ h => by cases h⟩
  · rename_i stop hstop
    obtain ⟨z, hz, hcovered⟩ := Number.sub_covered (h.stop stop hstop) h.startOrZero
    refine ⟨some (Number.zero.max z), by rw [hz]; rfl, by rw [hstop]; rfl, fun n hn => ?_⟩
    cases hn
    exact hcovered

end TrimWindow

/-! ## Times -/

theorem thousand_toDouble : ∃ d, (Number.int 1000).toDouble = .ok d ∧ d.isZero = false := by
  have h : ((Number.int 1000).toDouble.toOption.any fun d => !d.isZero) = true := by decide +kernel
  cases hd : (Number.int 1000).toDouble with
  | error e => rw [hd] at h; cases h
  | ok d =>
    rw [hd] at h
    exact ⟨d, rfl, Bool.not_eq_true' _ ▸ h⟩

theorem succeeds_seconds {n : Number} (h : n.Covered) : Succeeds (seconds n) := by
  refine (succeeds_bind_of fun _ _ => succeeds_pure _).mpr ?_
  cases n with
  | int n => exact Number.intQuotient_ok h (show 0 < 1000 by decide)
  | float x =>
    obtain ⟨d, hd, hz⟩ := thousand_toDouble
    rw [Number.div_eq rfl hd (fun _ _ h => by cases h), hz]
    exact succeeds_ok _

/-- A length or a duration is divided by a speed that is not a zero. -/
theorem succeeds_div_speed {n : Number} (h : n.Covered) (speed : Binary64) :
    Succeeds (n.div (.float speed)) ↔ speed.isZero = false := by
  obtain ⟨a, ha⟩ := (Number.succeeds_toDouble n).mpr h
  rw [Number.div_eq ha rfl fun _ _ _ h => by cases h]
  cases speed.isZero
  · exact iff_of_true (succeeds_ok _) rfl
  · exact iff_of_false (not_succeeds_error _) fun h => by cases h

namespace TrimWindow
variable {w : TrimWindow}

theorem Sound.inputArgs (h : w.Sound) : Succeeds w.inputArgs := by
  unfold TrimWindow.inputArgs
  split
  · rename_i start _ hstart
    obtain ⟨l, hl, -, hcovered⟩ := h.length
    obtain ⟨seek, hseek⟩ := succeeds_seconds (h.start start hstart).covered
    rw [hseek, hl]
    cases l with
    | none => exact succeeds_ok _
    | some n => exact (succeeds_bind_of fun _ _ => succeeds_pure _).mpr (succeeds_seconds (hcovered n rfl))
  · exact succeeds_ok _

/-- A fast cut with both bounds, whose length is told. -/
def Guarded (w : TrimWindow) : Prop := w.strict = false ∧ w.start.isSome = true ∧ w.stop.isSome = true

theorem Sound.outputArgs (h : w.Sound) (speed : Binary64) :
    Succeeds (w.outputArgs speed) ↔ (w.Guarded → speed.isZero = false) := by
  unfold TrimWindow.outputArgs
  split
  · rename_i start stop hstrict hstart hstop
    have hguarded : w.Guarded := ⟨hstrict, by rw [hstart]; rfl, by rw [hstop]; rfl⟩
    obtain ⟨l, hl, hsome, hcovered⟩ := h.length
    obtain ⟨n, rfl⟩ := Option.isSome_iff_exists.mp (hsome.trans hguarded.2.2)
    rw [hl, imp_iff_right hguarded, ← succeeds_div_speed (hcovered n rfl) speed]
    change Succeeds (n.div (.float speed) >>= _) ↔ _
    refine succeeds_bind_of fun q _ => ?_
    exact (succeeds_bind_of fun _ _ => succeeds_pure _).mpr (succeeds_seconds trivial)
  · rename_i hno
    refine iff_of_true (succeeds_ok _) fun ⟨hstrict, hstart, hstop⟩ => ?_
    obtain ⟨start, hstart⟩ := Option.isSome_iff_exists.mp hstart
    obtain ⟨stop, hstop⟩ := Option.isSome_iff_exists.mp hstop
    exact absurd hstop (hno start stop hstrict hstart)

theorem Sound.strictParams (h : w.Sound) : Succeeds w.strictParams := by
  have hstart := succeeds_seconds h.startOrZero.covered
  unfold TrimWindow.strictParams
  split
  · exact succeeds_ok _
  · exact succeeds_ok _
  · exact (succeeds_bind_of fun _ _ => succeeds_pure _).mpr hstart
  · rename_i stop _ hstop
    refine (succeeds_bind_of fun _ _ => ?_).mpr hstart
    exact (succeeds_bind_of fun _ _ => succeeds_pure _).mpr (succeeds_seconds (h.stop stop hstop).covered)

theorem Sound.trimStage (h : w.Sound) (trims : List Trim) : Succeeds (trimStage w trims) :=
  (succeeds_bind_of fun _ _ => succeeds_pure _).mpr h.strictParams

end TrimWindow

/-! ## Regions -/

theorem succeeds_regionValue (n : Option Number) (axis : String) (missing : Value) :
    Succeeds (regionValue n axis missing) ↔ ∀ x, n = some x → x.Covered := by
  cases n with
  | none => exact iff_of_true (succeeds_ok _) fun _ h => by cases h
  | some n =>
    have hnan : Succeeds (regionValue (some n) axis missing) ↔ Succeeds n.isNaN := by
      refine succeeds_bind_of fun nan _ => ?_
      cases nan with
      | true => exact succeeds_pure _
      | false =>
        rw [if_neg Bool.false_ne_true]
        split <;> exact succeeds_pure _
    rw [hnan, Number.succeeds_isNaN]
    refine ⟨fun h x hx => ?_, fun h => h n rfl⟩
    cases hx
    exact h

/-- The sizes and offsets of a region can be converted. -/
structure Chain.Region.Covered (r : Region) : Prop where
  width : ∀ n, r.width = some n → n.Covered
  height : ∀ n, r.height = some n → n.Covered
  x : ∀ n, r.x = some n → n.Covered
  y : ∀ n, r.y = some n → n.Covered

theorem succeeds_regionParams (r : Region) : Succeeds (regionParams r) ↔ r.Covered := by
  have hall : Succeeds (regionParams r) ↔ _ ∧ _ ∧ _ ∧ _ :=
    succeeds_bind_iff fun _ _ => succeeds_bind_iff fun _ _ => succeeds_bind_iff fun _ _ =>
      succeeds_bind_of fun _ _ => succeeds_pure _
  rw [hall]
  simp only [succeeds_regionValue]
  exact ⟨fun ⟨hw, hh, hx, hy⟩ => ⟨hw, hh, hx, hy⟩, fun h => ⟨h.width, h.height, h.x, h.y⟩⟩

/-- A region counts only where no crop node does. -/
theorem succeeds_cropStage (crops : List Crop) (trims : List Trim) :
    Succeeds (cropStage crops trims) ↔
      (crops = [] → ∀ last region, trims.getLast? = some last → last.region = some region → region.Covered) := by
  unfold cropStage
  split
  · rename_i crop hcrop
    refine iff_of_true (succeeds_ok _) fun h => ?_
    rw [h] at hcrop
    cases hcrop
  · rename_i last hcrops hlast
    rw [imp_iff_right (List.getLast?_eq_none_iff.mp hcrops)]
    split
    · rename_i hregion
      refine iff_of_true (succeeds_ok _) fun l region hl hr => ?_
      cases hlast.symm.trans hl
      cases hregion.symm.trans hr
    · rename_i region hregion
      refine (succeeds_bind_of fun _ _ => succeeds_pure _).trans ((succeeds_regionParams region).trans ?_)
      refine ⟨fun h l r hl hr => ?_, fun h => h last region hlast hregion⟩
      cases hlast.symm.trans hl
      cases hregion.symm.trans hr
      exact h
  · rename_i hlast
    refine iff_of_true (succeeds_ok _) fun _ last _ hl => ?_
    cases hlast.symm.trans hl

/-! ## Opacities -/

theorem succeeds_opacity (v : Value) : Succeeds (opacity v) ↔ v.Covered := by
  cases v with
  | number n =>
    refine Iff.trans ?_ (Number.succeeds_isNaN n)
    refine succeeds_bind_of fun nan hnan => ?_
    cases nan with
    | true => exact succeeds_pure _
    | false =>
      have hn : n.Covered := (Number.succeeds_isNaN n).mp ⟨false, hnan⟩
      rw [if_neg Bool.false_ne_true, Number.succeeds_toDouble]
      exact Number.covered_min trivial (Number.covered_raised hn)
  | _ => exact iff_of_true (succeeds_ok _) trivial

theorem succeeds_overlayStages (cwd : String) (i : Nat) (overlays : List Overlay) :
    Succeeds (overlayStages cwd i overlays) ↔ ∀ o ∈ overlays, o.opacity.Covered := by
  induction overlays generalizing i with
  | nil => exact iff_of_true (succeeds_ok _) fun _ h => by cases h
  | cons o rest ih =>
    have hstage : Succeeds (overlayStage cwd i o) ↔ o.opacity.Covered := by
      rw [← succeeds_opacity]
      exact succeeds_bind_of fun _ _ => succeeds_pure _
    have hall : Succeeds (overlayStages cwd i (o :: rest)) ↔ _ ∧ _ :=
      succeeds_bind_iff fun _ _ => succeeds_bind_of fun _ _ => succeeds_pure _
    rw [hall, hstage, ih, List.forall_mem_cons]

/-! ## Speeds -/

/-- A ratio that counts can be converted. -/
def Chain.Speed.Covered (s : Speed) : Prop := ∀ n, s.ratio = .number n → Number.lt (.int 0) n = true → n.Covered

theorem speedFactor_number (n : Number) : speedFactor (.number n) =
    if Number.lt (.int 0) n then n.isFinite.bind fun finite => .ok (if finite then some n else none) else .ok none := rfl

theorem succeeds_speedFactor (s : Speed) : Succeeds (speedFactor s.ratio) ↔ s.Covered := by
  unfold Chain.Speed.Covered
  cases s.ratio with
  | number n =>
    rw [speedFactor_number]
    cases hlt : Number.lt (.int 0) n with
    | false =>
      refine iff_of_true (succeeds_ok _) fun m hm h => ?_
      cases hm
      rw [hlt] at h
      cases h
    | true =>
      refine (succeeds_bind_of fun _ _ => succeeds_ok _).trans ((Number.succeeds_isFinite n).trans ?_)
      refine ⟨fun h m hm _ => ?_, fun h => h n rfl hlt⟩
      cases hm
      exact h
  | _ => exact iff_of_true (succeeds_ok _) fun _ h => by cases h

theorem speedFactor_covered {v : Value} {n : Number} (h : speedFactor v = .ok (some n)) : n.Covered := by
  cases v with
  | number m =>
    rw [speedFactor_number] at h
    split at h
    · obtain ⟨finite, hf, h⟩ := bind_eq_ok.mp h
      cases finite <;> cases h
      exact (Number.succeeds_isFinite n).mp ⟨true, hf⟩
    · cases h
  | _ => cases h

theorem succeeds_multiplySpeed (ratio : Binary64) (s : Speed) :
    Succeeds (multiplySpeed ratio s.ratio) ↔ s.Covered := by
  rw [← succeeds_speedFactor]
  refine succeeds_bind_of fun factor hfactor => ?_
  cases factor with
  | none => exact succeeds_pure _
  | some n =>
    exact (succeeds_bind_of fun _ _ => succeeds_pure _).mpr
      ((Number.succeeds_toDouble n).mpr (speedFactor_covered hfactor))

theorem succeeds_compoundSpeed (speeds : List Speed) : Succeeds (compoundSpeed speeds) ↔ ∀ s ∈ speeds, s.Covered := by
  suffices hfold : ∀ ratio, Succeeds (speeds.foldlM (fun ratio node => multiplySpeed ratio node.ratio) ratio) ↔
      ∀ s ∈ speeds, s.Covered from hfold _
  induction speeds with
  | nil => exact fun _ => iff_of_true (succeeds_pure _) fun _ h => by cases h
  | cons s rest ih =>
    intro ratio
    rw [List.foldlM_cons, succeeds_bind_iff fun a _ => ih a, succeeds_multiplySpeed, List.forall_mem_cons]

/-! ## The length of the result -/

/-- The length of a source is known. -/
def Chain.Load.Measured (load : Load) : Prop := ∃ d, load.duration = some d ∧ d.isFinite = true

/-- What is left of the source is cut to the window and divided by the speed. -/
theorem succeeds_cutDuration {w : TrimWindow} (hw : w.Sound) (speed : Binary64) {left : Number} (hleft : left.Covered) :
    Succeeds (do
      let kept := match ← w.length with
        | some length => left.min length
        | none => left
      return some (← (Number.zero.max kept).div (.float speed)) : Except ArithmeticError (Option Binary64)) ↔
      speed.isZero = false := by
  obtain ⟨l, hl, -, hcovered⟩ := hw.length
  rw [hl]
  cases l with
  | none =>
    rw [← succeeds_div_speed (Number.covered_raised hleft) speed]
    exact succeeds_bind_of fun _ _ => succeeds_pure _
  | some length =>
    rw [← succeeds_div_speed (Number.covered_raised (Number.covered_min hleft (hcovered length rfl))) speed]
    exact succeeds_bind_of fun _ _ => succeeds_pure _

theorem succeeds_estimatedDuration {w : TrimWindow} (hw : w.Sound) (load : Load) (speed : Binary64) :
    Succeeds (estimatedDuration load.duration w speed) ↔ (load.Measured → speed.isZero = false) := by
  unfold estimatedDuration Chain.Load.Measured
  cases hd : load.duration with
  | none => exact iff_of_true (succeeds_ok _) fun ⟨_, h, _⟩ => by cases h
  | some d =>
    dsimp only
    cases hfin : d.isFinite with
    | false =>
      refine iff_of_true (succeeds_ok _) fun ⟨d', hd', hf⟩ => ?_
      cases hd'
      rw [hfin] at hf
      cases hf
    | true =>
      rw [imp_iff_right ⟨d, rfl, hfin⟩, if_pos rfl]
      cases hs : w.start with
      | none => exact succeeds_cutDuration hw speed (show (Number.float d).Covered from trivial)
      | some start =>
        dsimp only
        split
        · obtain ⟨x, hx⟩ := Number.float_sub d (hw.start start hs).covered
          rw [hx]
          exact succeeds_cutDuration hw speed (show (Number.float x).Covered from trivial)
        · exact succeeds_cutDuration hw speed (show (Number.float d).Covered from trivial)

end MediaEngine
