import Mathlib.Order.Interval.Finset.Nat
import MediaEngine.Proofs.Compile.Cuts
import MediaEngine.Proofs.Compile.Stages
import MediaEngine.Proofs.Wholes

/-! # The length that is kept

The expected length of a result is computed by subtracting the start, cutting to the window and raising to zero. For whole
numbers of milliseconds at the speed of one this is the number of milliseconds of the source that the window keeps
(`compile_estimates`), in whatever order the bounds and the end of the source stand. -/

namespace MediaEngine
open Chain

/-! ## Milliseconds that are kept -/

section Kept
variable {d : Int} {s e : Option Int}

/-- The milliseconds of a source that lasts this long, each by when it begins, that are in a window. -/
def keptMilliseconds (d : Int) (s e : Option Int) : Finset Nat :=
  (Finset.range d.toNat).filter fun t => s.getD 0 ≤ t ∧ (t : Int) < e.getD d

/-- Where the window of a source that lasts this long ends. -/
def windowEnd (d : Int) : Option Int → Int
  | none => d
  | some e => if e < d then e else d

/-- There are as many as lie between the start of the window and its end, and none if it ends before. -/
theorem card_keptMilliseconds (hs : 0 ≤ s.getD 0) :
    ((keptMilliseconds d s e).card : Int) = max 0 (windowEnd d e - s.getD 0) := by
  have hinterval : keptMilliseconds d s e = Finset.Ico (s.getD 0).toNat (windowEnd d e).toNat := by
    ext t
    simp only [keptMilliseconds, Finset.mem_filter, Finset.mem_range, Finset.mem_Ico]
    cases e with
    | none =>
      simp only [windowEnd, Option.getD_none]
      omega
    | some e =>
      simp only [windowEnd, Option.getD_some]
      omega
  rw [hinterval, Nat.card_Ico]
  omega

theorem card_keptMilliseconds_le (hs : 0 ≤ s.getD 0) : (keptMilliseconds d s e).card ≤ d.natAbs := by
  have hcard := card_keptMilliseconds (d := d) (e := e) hs
  have hend : windowEnd d e ≤ d := by
    unfold windowEnd
    split
    · exact Int.le_refl d
    · split <;> omega
  omega

end Kept

/-! ## Windows of whole numbers -/

/-- What a bound in force is, if there is one: a whole number of milliseconds that is not negative. -/
inductive Marked : Option Number → Option Int → Prop
  | unset : Marked none none
  | set {n : Number} {k : Int} (whole : n.IsWhole k) (natural : 0 ≤ k) : Marked (some n) (some k)

/-- What is left of a source from the start of the window on. -/
def TrimWindow.remaining (w : TrimWindow) (x : Binary64) : Except ArithmeticError Number :=
  match w.start with
  | some start => if Number.lt (.int 0) start then (Number.float x).sub start else .ok (.float x)
  | none => .ok (.float x)

section Window
variable {w : TrimWindow} {s e : Option Int} {x : Binary64} {d : Int}

theorem estimatedDuration_finite (w : TrimWindow) (speed : Binary64) (h : x.isFinite = true) :
    estimatedDuration (some x) w speed = w.remaining x >>= fun left => w.length >>= fun length =>
      (Number.zero.max ((length.map left.min).getD left)).div (.float speed) >>= fun played => .ok (some played) := by
  have hmatch : ∀ (length : Option Number) (left : Number),
      (match length with | some length => left.min length | none => left) = (length.map left.min).getD left := by
    intro length left
    cases length <;> rfl
  unfold estimatedDuration TrimWindow.remaining
  dsimp only
  rw [if_pos h]
  simp only [← hmatch]
  cases w.start with
  | none => rfl
  | some start =>
    dsimp only
    split <;> rfl

theorem startOrZero_whole (hs : Marked w.start s) : w.startOrZero.IsWhole (s.getD 0) ∧ 0 ≤ s.getD 0 := by
  obtain ⟨hsome, hnone⟩ := w.startOrZero_extent
  generalize hstart : w.start = start at hs
  cases hs with
  | unset =>
    rw [hnone hstart]
    exact ⟨Number.isWhole_zero, Int.le_refl 0⟩
  | set whole natural => exact ⟨⟨(hsome _ hstart).trans whole.place, whole.small⟩, natural⟩

/-- What is left of the source, raised to zero, is as long as from the start to the end of it. -/
theorem remaining_whole (hx : (Number.float x).IsWhole d) (hs : Marked w.start s) :
    ∃ left l, w.remaining x = .ok left ∧ left.extent = some (.within l) ∧
      max 0 l = max 0 (d - s.getD 0) * (Binary64.one : Int) := by
  unfold TrimWindow.remaining
  generalize w.start = start at hs
  cases hs with
  | unset => exact ⟨_, _, rfl, hx.place, by rw [Number.raised_units, Option.getD_none, Int.sub_zero]⟩
  | @set start k whole natural =>
    dsimp only
    split
    · exact Number.sub_whole hx whole natural
    · rename_i hlt
      have hk : ¬ 0 < k := mt whole.sides.1.mpr hlt
      obtain rfl : k = 0 := by omega
      exact ⟨_, _, rfl, hx.place, by rw [Number.raised_units, Option.getD_some, Int.sub_zero]⟩

/-- A window that has an end is as long as from its start to its end, and of no length if it ends before. -/
theorem length_whole {stop : Number} {k : Int} (hs : Marked w.start s) (hstop : w.stop = some stop) (hk : stop.IsWhole k) :
    ∃ length, w.length = .ok (some length) ∧
      length.extent = some (.within (max 0 (k - s.getD 0) * (Binary64.one : Int))) := by
  obtain ⟨hstart, hnatural⟩ := startOrZero_whole hs
  obtain ⟨gap, l, hsub, hgap, hl⟩ := Number.sub_whole hk hstart hnatural
  refine ⟨Number.zero.max gap, ?_, ?_⟩
  · unfold TrimWindow.length
    rw [hstop]
    dsimp only
    rw [hsub]
    rfl
  · rw [← hl]
    exact Number.max_place rfl hgap

/-- What is left of the source, cut to the window and raised to zero, is as long as the window keeps of it. -/
theorem kept_whole (hx : (Number.float x).IsWhole d) (hs : Marked w.start s) (he : Marked w.stop e) :
    ∃ left length, w.remaining x = .ok left ∧ w.length = .ok length ∧
      (Number.zero.max ((length.map left.min).getD left)).IsWhole (keptMilliseconds d s e).card := by
  have hzero : Number.zero.extent = some (.within 0) := rfl
  obtain ⟨-, hnatural⟩ := startOrZero_whole hs
  obtain ⟨left, l, hleft, hplace, hl⟩ := remaining_whole hx hs
  have hsmall : ((keptMilliseconds d s e).card : Int).natAbs < 2 ^ 53 :=
    Nat.lt_of_le_of_lt (card_keptMilliseconds_le hnatural) hx.small
  have hcard := card_keptMilliseconds (d := d) (e := e) hnatural
  generalize hstop : w.stop = stop at he
  cases he with
  | unset =>
    have hlength : w.length = .ok none := by
      unfold TrimWindow.length
      rw [hstop]
    refine ⟨left, none, hleft, hlength, ?_, hsmall⟩
    rw [hcard]
    exact hl ▸ Number.max_place hzero hplace
  | @set stop k whole natural =>
    obtain ⟨length, hlength, hend⟩ := length_whole hs hstop whole
    refine ⟨left, some length, hleft, hlength, ?_, hsmall⟩
    have hmin : min (d - s.getD 0) (k - s.getD 0) = windowEnd d (some k) - s.getD 0 := by
      simp only [windowEnd]
      omega
    rw [hcard, ← hmin, ← Number.raised_min_units hl]
    exact Number.max_place hzero (Number.min_place hplace hend)

/-- At the speed of one a source of a whole number of milliseconds is expected to last as many as the window keeps of it. -/
theorem estimatedDuration_whole (hx : (Number.float x).IsWhole d) (hs : Marked w.start s) (he : Marked w.stop e) :
    estimatedDuration (some x) w (.ofNat 1) = .ok (some (.ofNat (keptMilliseconds d s e).card)) := by
  have hfinite : x.isFinite = true := by
    obtain ⟨sign, u, fits, rfl, -⟩ := Binary64.finite_of_place hx.place
    rfl
  obtain ⟨left, length, hleft, hlength, hwhole⟩ := kept_whole hx hs he
  rw [estimatedDuration_finite w _ hfinite, hleft, hlength]
  change (Number.zero.max _).div _ >>= _ = _
  rw [Number.raised_div_one hwhole]
  rfl

end Window

/-! ## Chains -/

/-- What a value sets a bound to: a whole number of milliseconds, or nothing. -/
inductive Value.Marks (v : Value) : Option Int → Prop
  | unset (free : ∀ n, ¬ v.Sets n) : v.Marks none
  | set {n : Number} {k : Int} (sets : v.Sets n) (whole : n.IsWhole k) : v.Marks (some k)

/-- The bound of the last trim node, which a chain without trim nodes does not have. -/
def lastBound (trims : List Trim) (bound : Trim → Value) : Value := (trims.getLast?.map bound).getD .null

section Bounds
variable {trims : List Trim} {bound : Trim → Value} {held : Option Number} {k : Option Int}

theorem lastBound_sets (n : Number) :
    (lastBound trims bound).Sets n ↔ ∃ last, trims.getLast? = some last ∧ (bound last).Sets n := by
  unfold lastBound
  cases trims.getLast? with
  | none =>
    refine iff_of_false (fun h => ?_) fun ⟨_, h, _⟩ => by cases h
    cases h.number
  | some last => exact ⟨fun h => ⟨last, rfl, h⟩, fun ⟨_, h, hs⟩ => by cases h; exact hs⟩

theorem marked_of_last (h : ∀ n, held = some n ↔ ∃ last, trims.getLast? = some last ∧ (bound last).Sets n)
    (hk : (lastBound trims bound).Marks k) : Marked held k := by
  have hheld : ∀ n, held = some n ↔ (lastBound trims bound).Sets n := fun n => (h n).trans (lastBound_sets n).symm
  cases hk with
  | unset free =>
    rw [Option.eq_none_iff_forall_ne_some.mpr fun n hn => free n ((hheld n).mp hn)]
    exact .unset
  | @set n k sets whole =>
    have hk : ¬ k < 0 := by
      rw [← whole.sides.2, sets.natural]
      exact Bool.false_ne_true
    rw [(hheld n).mpr sets]
    exact .set whole (Int.not_lt.mp hk)

end Bounds

/-- A length is known of the result exactly if it is of the source. -/
theorem Assembled.estimated_iff {cwd : String} {options : OptionsInput} {nodes : List Node} {plan : Plan} {load : Load} {w : TrimWindow}
    {speed : Binary64} (h : Assembled cwd options nodes plan load w speed) :
    plan.metadata.estimatedDuration = none ↔ ¬ load.Measured := by
  have he := h.estimate
  unfold Chain.Load.Measured
  cases hduration : load.duration with
  | none =>
    rw [hduration] at he
    rw [← Except.ok.inj he]
    exact iff_of_true rfl fun ⟨_, h, _⟩ => by cases h
  | some x =>
    rw [hduration] at he
    cases hfinite : x.isFinite with
    | false =>
      have hnone : estimatedDuration (some x) w speed = .ok none := if_neg (by rw [hfinite]; exact Bool.false_ne_true)
      rw [← Except.ok.inj (hnone.symm.trans he)]
      refine iff_of_true rfl fun ⟨y, hy, hf⟩ => ?_
      cases hy
      cases hfinite.symm.trans hf
    | true =>
      rw [estimatedDuration_finite w speed hfinite] at he
      obtain ⟨left, -, he⟩ := bind_eq_ok.mp he
      obtain ⟨length, -, he⟩ := bind_eq_ok.mp he
      obtain ⟨played, -, he⟩ := bind_eq_ok.mp he
      rw [← Except.ok.inj he]
      exact iff_of_false (Option.some_ne_none _) fun h => h ⟨x, rfl, hfinite⟩

/-- The result is expected to last as many milliseconds, `length`, as the window keeps of a source that lasts `d`. -/
structure Estimates (d : Int) (s e : Option Int) (plan : Plan) (length : Nat) : Prop where
  estimate : plan.metadata.estimatedDuration = some (.ofNat length)
  whole : (Number.float (.ofNat length)).IsWhole length
  kept : length = (keptMilliseconds d s e).card
  clamped : (length : Int) = max 0 (windowEnd d e - s.getD 0)

/-- Where the source and the bounds are whole numbers of milliseconds and nothing changes the speed, the result is expected to
last as long as the part of the source that lies in the window, strict or not. -/
theorem compile_estimates {cwd : String} {chain : ChainInput} {options : OptionsInput} {plan : Plan}
    (h : compile cwd chain options = .ok plan) :
    ∃ nodes load, chain.nodes = .ok nodes ∧ nodes.filterMap Node.load? = [load] ∧
      (plan.metadata.estimatedDuration = none ↔ ¬ load.Measured) ∧
      ∀ x d s e, load.duration = some x → (Number.float x).IsWhole d →
        (lastBound (nodes.filterMap Node.trim?) Trim.start).Marks s → (lastBound (nodes.filterMap Node.trim?) Trim.stop).Marks e →
        compoundSpeed (nodes.filterMap Node.speed?) = .ok (.ofNat 1) → ∃ length, Estimates d s e plan length := by
  obtain ⟨nodes, load, w, speed, hnodes, ha⟩ := compile_assembled h
  refine ⟨nodes, load, hnodes, ha.source, ha.estimated_iff, fun x d s e hduration hx hs he hspeed => ?_⟩
  have hgoverns := ofTrims_governs ha.window
  have hstart : Marked w.start s := marked_of_last hgoverns.start hs
  have hstop : Marked w.stop e := marked_of_last hgoverns.stop he
  obtain ⟨-, hnatural⟩ := startOrZero_whole hstart
  have hcard := card_keptMilliseconds (d := d) (e := e) hnatural
  have hestimate := ha.estimate
  rw [show speed = .ofNat 1 from Except.ok.inj (ha.ratio.symm.trans hspeed), hduration,
    estimatedDuration_whole hx hstart hstop] at hestimate
  have hsmall := card_keptMilliseconds_le (d := d) (e := e) hnatural
  have hd := hx.small
  exact ⟨_, (Except.ok.inj hestimate).symm, Number.isWhole_ofNat (by omega), rfl, hcard⟩

/-- A source of ten seconds, cut from a quarter of it to beyond its end, at speeds that undo each other. -/
def cutSource : MediaChain where
  nodes := [
    .load ⟨⟨none, defaultVersion⟩, .video, "/in.mp4", some (.ofNat 10000), none⟩,
    .trim ⟨⟨none, defaultVersion⟩, .null, .int 3000, true, none⟩,
    .trim ⟨⟨none, defaultVersion⟩, .int 2500, .double (.ofNat 12000), false, none⟩,
    .speed ⟨⟨none, defaultVersion⟩, .int 2⟩,
    .speed ⟨⟨none, defaultVersion⟩, .double (.ofDecimal false 5 (-1))⟩,
    .export ⟨⟨none, defaultVersion⟩, none, none, none, none⟩]

theorem cutSource_lasts : ∃ plan, compile "/" (.chain cutSource) (.value .null) = .ok plan ∧
    compoundSpeed (cutSource.nodes.filterMap Node.speed?) = .ok (.ofNat 1) ∧
    Estimates 10000 (some 2500) (some 12000) plan 7500 := by
  have hstrict : (compile "/" (.chain cutSource) (.value .null)).toOption.map (·.metadata.strictCut) = some true := by
    decide +kernel
  have hspeed : compoundSpeed (cutSource.nodes.filterMap Node.speed?) = .ok (.ofNat 1) := by decide +kernel
  have hduration : (Number.float (.ofNat 10000)).IsWhole 10000 := Number.isWhole_ofNat (k := 10000) (by decide)
  have hstart : (Value.int 2500).Marks (some 2500) := .set ⟨rfl, fun x hx => (by cases hx), by decide +kernel⟩ ⟨rfl, by decide⟩
  have hstop : (Value.double (.ofNat 12000)).Marks (some 12000) := by
    refine .set ⟨rfl, fun x hx => ?_, by decide +kernel⟩ (Number.isWhole_ofNat (k := 12000) (by decide))
    cases hx
    decide +kernel
  obtain ⟨plan, hplan, -⟩ := ok_of_toOption_map hstrict
  obtain ⟨nodes, load, hnodes, hload, -, hwhole⟩ := compile_estimates hplan
  cases hnodes
  cases hload
  obtain ⟨length, hlength⟩ := hwhole _ _ _ _ rfl hduration hstart hstop hspeed
  obtain rfl : length = 7500 := Int.ofNat.inj hlength.clamped
  exact ⟨plan, hplan, hspeed, hlength⟩

end MediaEngine
