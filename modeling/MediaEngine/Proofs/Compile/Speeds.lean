import MediaEngine.Proofs.Compile.Dependence
import MediaEngine.Proofs.Compile.Origins
import MediaEngine.Proofs.Json.Numbers
import MediaEngine.Proofs.Magnitudes

/-! # The compound speed

Ratios are multiplied as doubles, and a product that has become nothing or infinite stays so. Hence the compound speed of
a chain is a positive finite number exactly if all products up to it are in the range of doubles (`compoundSpeed_usable_iff`).
Then it can be divided by, and it is what the stage of a change of speed shows (`usable_speed_iff`). -/

namespace MediaEngine
open Chain

/-! ## Products -/

namespace Binary64
variable {x y : Binary64} {num den : Nat}

/-- A quotient is rounded to nothing up to half a unit. -/
theorem roundUnits_pos_iff (hden : 0 < den) : 0 < roundUnits num den ↔ den < 2 * num := by
  by_cases hle : den ≤ num
  · exact iff_of_true (roundUnits_pos hden hle) (by omega)
  · have hlt : num < den := Nat.not_le.mp hle
    have hspacing : spacing 0 = 1 := rfl
    simp only [roundUnits, Nat.div_eq_of_lt hlt, hspacing, Nat.mul_one, nearest, Nat.mod_eq_of_lt hlt]
    grind

/-- A double above zero that is not infinite. -/
def IsUsable (x : Binary64) : Prop := x.IsAmount ∧ 0 < x.units

/-- Nothing, or infinite. -/
def IsSpent (x : Binary64) : Prop := x = .zero ∨ x = .infinite false

theorem IsSpent.not_usable (h : x.IsSpent) : ¬ x.IsUsable := by
  rintro ⟨⟨u, fits, rfl⟩, hpos⟩
  rcases h with h | h
  · cases h
    exact Nat.lt_irrefl 0 hpos
  · cases h

/-- Two factors whose product is rounded neither to nothing nor beyond the finite doubles. -/
def Lasts (x y : Binary64) : Prop := one < 2 * (x.units * y.units) ∧ x.units * y.units < one * edge

instance (x y : Binary64) : Decidable (Lasts x y) := inferInstanceAs (Decidable (_ ∧ _))

theorem mul_eq_round (hx : x.IsAmount) (hy : y.IsAmount) : x.mul y = round false (x.units * y.units) one := by
  obtain ⟨a, fa, rfl⟩ := hx
  obtain ⟨b, fb, rfl⟩ := hy
  rfl

theorem mul_usable (hx : x.IsUsable) (hy : y.IsUsable) (h : Lasts x y) : (x.mul y).IsUsable := by
  have hfinite := (roundUnits_lt_limit one_pos).mpr h.2
  obtain ⟨hamount, hunits⟩ := round_isAmount hfinite
  rw [mul_eq_round hx.1 hy.1]
  exact ⟨hamount, hunits ▸ (roundUnits_pos_iff one_pos).mpr h.1⟩

theorem mul_spent (hx : x.IsUsable) (hy : y.IsUsable) (h : ¬ Lasts x y) : (x.mul y).IsSpent := by
  rw [mul_eq_round hx.1 hy.1]
  by_cases hfinite : roundUnits (x.units * y.units) one < limit
  · have hsmall : ¬ one < 2 * (x.units * y.units) := fun hlow => h ⟨hlow, (roundUnits_lt_limit one_pos).mp hfinite⟩
    have hnone : roundUnits (x.units * y.units) one = 0 :=
      Nat.eq_zero_of_not_pos (mt (roundUnits_pos_iff one_pos).mp hsmall)
    exact .inl (round_eq hnone (by decide +kernel))
  · refine .inr ((round_cases _ _).resolve_right fun hamount => hfinite ?_)
    exact (round_isFinite _ _ _).mp hamount.isFinite

/-- Nothing multiplied is nothing, and what is infinite stays infinite. -/
theorem IsSpent.mul (hx : x.IsSpent) (hy : y.IsUsable) : (x.mul y).IsSpent := by
  obtain ⟨⟨b, fb, rfl⟩, hb⟩ := hy
  rcases hx with rfl | rfl
  · refine .inl ?_
    change round false (0 * b) one = zero
    exact round_eq (by rw [Nat.zero_mul]; exact roundUnits_small one_pos) (by decide +kernel)
  · exact .inr (if_neg (Nat.ne_of_gt hb))

/-- One factor after the other is a double whose product with what came before is in the range of doubles. -/
def Sustains : Binary64 → List Number → Prop
  | _, [] => True
  | x, n :: rest => ∃ y, n.toDouble = .ok y ∧ Lasts x y ∧ Sustains (x.mul y) rest

theorem sustains_cons {n : Number} {rest : List Number} (hy : n.toDouble = .ok y) :
    Sustains x (n :: rest) ↔ Lasts x y ∧ Sustains (x.mul y) rest := by
  refine ⟨fun ⟨y', hy', h⟩ => ?_, fun h => ⟨y, hy, h⟩⟩
  cases hy.symm.trans hy'
  exact h

theorem not_sustains_cons {n : Number} {rest : List Number} {e : ArithmeticError} (he : n.toDouble = .error e) :
    ¬ Sustains x (n :: rest) := fun ⟨_, hy, _⟩ => by cases he.symm.trans hy

instance decidableSustains : (x : Binary64) → (ns : List Number) → Decidable (Sustains x ns)
  | _, [] => .isTrue trivial
  | x, n :: rest =>
    match hn : n.toDouble with
    | .error _ => .isFalse (not_sustains_cons hn)
    | .ok y => @decidable_of_iff' _ _ (sustains_cons hn) (@instDecidableAnd _ _ _ (decidableSustains (x.mul y) rest))

end Binary64

/-! ## Ratios -/

section Ratios
open Binary64
variable {x : Binary64} {n : Number} {ns : List Number}

/-- The ratio multiplied by one after the other. -/
def multiplyAll (x : Binary64) (ns : List Number) : Except ArithmeticError Binary64 :=
  ns.foldlM (fun x n => do return x.mul (← n.toDouble)) x

theorem multiplyAll_cons {y : Binary64} (hy : n.toDouble = .ok y) : multiplyAll x (n :: ns) = multiplyAll (x.mul y) ns := by
  rw [multiplyAll, List.foldlM_cons, hy]
  rfl

theorem multiplyAll_error {e : ArithmeticError} (he : n.toDouble = .error e) : multiplyAll x (n :: ns) = .error e := by
  rw [multiplyAll, List.foldlM_cons, he]
  rfl

/-- A positive finite number. -/
def Number.Valid (n : Number) : Prop := Number.lt (.int 0) n = true ∧ n.finite = true

theorem Number.Valid.usable (h : n.Valid) (hx : n.toDouble = .ok x) : x.IsUsable := by
  have hzero : Number.zero.extent = (Number.int 0).extent := extent_zero rfl
  have hpos : Number.zero.lt n = true := by
    rw [← h.1, Number.lt, Number.lt, hzero]
  refine (Number.toDouble_isPositive hpos hx).resolve_left ?_
  rintro rfl
  have hfinite : n.isFinite = .ok false := by rw [Number.isFinite, hx]; rfl
  rw [isFinite_eq, hx] at hfinite
  exact Bool.false_ne_true ((Except.ok.inj hfinite).symm.trans h.2)

theorem ratio?_valid {v : Value} (h : v.ratio? = some n) : n.Valid := by
  cases v with
  | number m =>
    rw [Value.ratio?] at h
    split at h
    · rename_i hm
      cases h
      exact Bool.and_eq_true_iff.mp hm
    · cases h
  | _ => cases h

/-- What is nothing or infinite is so with all ratios that follow. -/
theorem multiplyAll_spent (hx : x.IsSpent) (hns : ∀ n ∈ ns, n.Valid) {r : Binary64} (h : multiplyAll x ns = .ok r) : r.IsSpent := by
  induction ns generalizing x with
  | nil =>
    cases h
    exact hx
  | cons n rest ih =>
    obtain ⟨hn, hrest⟩ := List.forall_mem_cons.mp hns
    cases hy : n.toDouble with
    | error e => cases (multiplyAll_error hy).symm.trans h
    | ok y =>
      rw [multiplyAll_cons hy] at h
      exact ih (hx.mul (hn.usable hy)) hrest h

theorem multiplyAll_usable_iff (hx : x.IsUsable) (hns : ∀ n ∈ ns, n.Valid) :
    (∃ r, multiplyAll x ns = .ok r ∧ r.IsUsable) ↔ Sustains x ns := by
  induction ns generalizing x with
  | nil => exact iff_of_true ⟨x, rfl, hx⟩ trivial
  | cons n rest ih =>
    obtain ⟨hn, hrest⟩ := List.forall_mem_cons.mp hns
    cases hy : n.toDouble with
    | error e =>
      refine iff_of_false (fun ⟨r, hr, _⟩ => ?_) (not_sustains_cons hy)
      cases (multiplyAll_error hy).symm.trans hr
    | ok y =>
      have husable := hn.usable hy
      rw [multiplyAll_cons hy, sustains_cons hy]
      by_cases hlasts : Lasts x y
      · exact (ih (mul_usable hx husable hlasts) hrest).trans (and_iff_right hlasts).symm
      · refine iff_of_false (fun ⟨r, hr, hfit⟩ => ?_) fun h => hlasts h.1
        exact (multiplyAll_spent (mul_spent hx husable hlasts) hrest hr).not_usable hfit

end Ratios

/-- The ratios of speed nodes that are positive finite numbers. -/
def ratiosOf (speeds : List Speed) : List Number := speeds.filterMap (·.ratio.ratio?)

/-- The compound speed is a positive finite number exactly if no product on the way to it leaves the range of doubles. -/
theorem compoundSpeed_usable_iff (speeds : List Speed) :
    (∃ r, compoundSpeed speeds = .ok r ∧ r.IsUsable) ↔ Binary64.Sustains (Binary64.ofNat 1) (ratiosOf speeds) := by
  have hone : (Binary64.ofNat 1).IsUsable := ⟨Binary64.isAmount_one.1, Binary64.isAmount_one.2 ▸ Binary64.one_pos⟩
  rw [compoundSpeed_eq]
  refine multiplyAll_usable_iff hone fun n hn => ?_
  obtain ⟨node, -, hratio⟩ := List.mem_filterMap.mp hn
  exact ratio?_valid hratio

/-! ## What is made of a speed -/

/-- A speed stage comes from the compound speed alone. -/
theorem Stage.Origin.speed_only {cwd : String} {parts : Parts} {w : TrimWindow} {speed : Binary64} {stage : Stage} {s : FilterStage}
    (h : stage.Origin cwd parts w speed) (hs : stage.filter? = some s) (htype : s.type = NodeKind.speed.tag) :
    stage ∈ speedStage speed := by
  cases h with
  | speed h => exact h
  | input | output => cases hs
  | overlay _ h =>
    obtain ⟨opacity, -, h⟩ := bind_eq_ok.mp h
    cases h
    exact absurd ((filterStage_typed _ _ _ s hs).symm.trans htype) (by decide)
  | trim | crop | region | resize | caption | frameRate | square =>
    exact absurd ((filterStage_typed _ _ _ s hs).symm.trans htype) (by decide)

section Shown
variable {cwd : String} {chain : ChainInput} {options : OptionsInput} {plan : Plan} {nodes : List Node} {speed : Binary64} {s : FilterStage}

/-- A speed stage shows a speed other than one, as a number and as the divisor of the times. -/
theorem speedStage_params (h : .filter s ∈ speedStage speed) :
    speed ≠ Binary64.ofNat 1 ∧ s.params = [("ratio", .double speed), ("setpts", .text ("PTS/" ++ speed.text))] := by
  unfold speedStage at h
  split at h
  · cases h
  · cases List.mem_singleton.mp h
    exact ⟨‹_›, rfl⟩

theorem compiled_speed_stages (h : compile cwd chain options = .ok plan) (hnodes : chain.nodes = .ok nodes)
    (hspeed : compoundSpeed (Parts.ofNodes nodes).speeds = .ok speed) (hs : s ∈ plan.findStages NodeKind.speed.tag) :
    speed ≠ Binary64.ofNat 1 ∧ s.params = [("ratio", .double speed), ("setpts", .text ("PTS/" ++ speed.text))] := by
  obtain ⟨nodes', load, w, speed', hnodes', ha⟩ := compile_assembled h
  cases hnodes.symm.trans hnodes'
  cases hspeed.symm.trans ha.ratio
  obtain ⟨target, -, hstages⟩ := ha.stages
  obtain ⟨hmem, htype⟩ := List.mem_filter.mp hs
  obtain ⟨stage, hstage, hfilter⟩ := List.mem_filterMap.mp hmem
  have hspeed := (stagesOf_origins hstages stage hstage).speed_only hfilter (beq_iff_eq.mp htype)
  cases stage with
  | filter f =>
    cases hfilter
    exact speedStage_params hspeed
  | input | output => cases hfilter

end Shown

theorem Binary64.IsUsable.isZero {x : Binary64} (h : x.IsUsable) : x.isZero = false := by
  obtain ⟨⟨u, fits, rfl⟩, hpos⟩ := h
  exact beq_eq_false_iff_ne.mpr (Nat.ne_of_gt hpos)

/-- What a speed has to be good for, of whatever chain these are the speed nodes. -/
structure Paces (speeds : List Speed) (speed : Binary64) : Prop where
  usable : speed.IsUsable
  shown : ∀ cwd chain options plan nodes, compile cwd chain options = .ok plan → chain.nodes = .ok nodes →
    (Parts.ofNodes nodes).speeds = speeds → ∀ s ∈ plan.findStages NodeKind.speed.tag,
      speed ≠ Binary64.ofNat 1 ∧ s.params = [("ratio", .double speed), ("setpts", .text ("PTS/" ++ speed.text))]
  written : ∃ t : Json.NumberText, t.Writes speed.text.toList (.double speed)
  divides : ∀ n : Number, n.Covered → Succeeds (n.div (.float speed))
  guards : ∀ trims w, TrimWindow.ofTrims trims = .ok w → Succeeds (w.outputArgs speed)
  estimates : ∀ trims w, TrimWindow.ofTrims trims = .ok w → ∀ load : Load, Succeeds (estimatedDuration load.duration w speed)

/-- The ratios of some speed nodes compound to a speed that serves exactly if no product on the way leaves the range of doubles. -/
theorem usable_speed_iff (speeds : List Speed) :
    (∃ speed, compoundSpeed speeds = .ok speed ∧ Paces speeds speed) ↔ Binary64.Sustains (Binary64.ofNat 1) (ratiosOf speeds) := by
  rw [← compoundSpeed_usable_iff]
  refine exists_congr fun speed => and_congr_right fun hspeed => ⟨Paces.usable, fun husable => ?_⟩
  have hzero := husable.isZero
  exact {
    usable := husable
    shown := fun cwd chain options plan nodes h hnodes hspeeds s hs => compiled_speed_stages h hnodes (hspeeds ▸ hspeed) hs
    written := Json.doubleText_written husable.1.isFinite
    divides := fun n hn => (succeeds_div_speed hn speed).mpr hzero
    guards := fun trims w hw => ((TrimWindow.ofTrims_sound hw).outputArgs speed).mpr fun _ => hzero
    estimates := fun trims w hw load => (succeeds_estimatedDuration (TrimWindow.ofTrims_sound hw) load speed).mpr fun _ => hzero }

def speedNodes (ratios : List Binary64) : List Speed := ratios.map fun r => ⟨⟨none, defaultVersion⟩, .double r⟩

/-- A chain that changes the speed, of a source of one second. -/
def speedChain (ratios : List Binary64) : MediaChain where
  nodes := .load ⟨⟨none, defaultVersion⟩, .video, "in.mp4", some (Binary64.ofNat 1000), none⟩ ::
    ((speedNodes ratios).map .speed ++ [.export ⟨⟨none, defaultVersion⟩, none, none, none, none⟩])

/-- Half of three times the speed serves. -/
theorem three_halves_serve : ∃ speed,
    compoundSpeed (speedNodes [Binary64.ofNat 3, Binary64.ofDecimal false 5 (-1)]) = .ok speed ∧
      Paces (speedNodes [Binary64.ofNat 3, Binary64.ofDecimal false 5 (-1)]) speed :=
  (usable_speed_iff _).mpr (by decide +kernel)

/-- Why the arithmetic of a compilation failed, if it did. -/
def arithmeticFailure : Except CompileError Plan → Option ArithmeticError
  | .error (.arithmetic e) => some e
  | _ => none

theorem error_of_failure {x : Except CompileError Plan} {e : ArithmeticError} (h : arithmeticFailure x = some e) :
    x = .error (.arithmetic e) := by
  unfold arithmeticFailure at h
  split at h <;> cases h
  rfl

/-- Two ratios that are positive finite numbers become infinite together, and then that is shown, or nothing, and then the
chain does not compile. -/
theorem spent_speeds :
    let large := Binary64.ofDecimal false 1 200
    let small := Binary64.ofDecimal false 1 (-200)
    (large.IsUsable ∧ small.IsUsable) ∧
      (∃ plan s, compile "/" (.chain (speedChain [large, large])) (.value .null) = .ok plan ∧
        plan.findStages NodeKind.speed.tag = [s] ∧ s.params = [("ratio", .double (.infinite false)), ("setpts", .text "PTS/inf")]) ∧
      compile "/" (.chain (speedChain [small, small])) (.value .null) = .error (.arithmetic .divisionByZero) := by
  intro large small
  have hlarge : large.IsUsable := ⟨Binary64.isAmount_of_pos (by decide +kernel) (by decide +kernel), by decide +kernel⟩
  have hsmall : small.IsUsable := ⟨Binary64.isAmount_of_pos (by decide +kernel) (by decide +kernel), by decide +kernel⟩
  have hcompound : compoundSpeed (Parts.ofNodes (speedChain [large, large]).nodes).speeds = .ok (.infinite false) := by decide +kernel
  have hshown : (compile "/" (.chain (speedChain [large, large])) (.value .null)).toOption.map
      (fun plan => (plan.findStages NodeKind.speed.tag).length) = some 1 := by decide +kernel
  obtain ⟨plan, hplan, hlength⟩ := ok_of_toOption_map hshown
  obtain ⟨s, hs⟩ := List.length_eq_one_iff.mp hlength
  have hparams := compiled_speed_stages hplan rfl hcompound (hs ▸ List.mem_singleton_self s)
  exact ⟨⟨hlarge, hsmall⟩, ⟨plan, s, hplan, hs, hparams.2⟩, error_of_failure (by decide +kernel)⟩

end MediaEngine
