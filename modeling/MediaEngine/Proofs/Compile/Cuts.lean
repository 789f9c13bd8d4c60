import MediaEngine.Proofs.Compile.Assembly
import MediaEngine.Proofs.Compile.Framing
import MediaEngine.Proofs.Compile.Refusals

/-! # Where a cut shows

The last trim node sets the bounds of a chain and any trim node makes the cut strict. A strict cut is one
filter stage that carries the bounds and no options, a fast cut is options alone. The end of a fast cut
without a start shows in neither: it only shortens the length that is expected (`compile_cuts`). -/

namespace MediaEngine
open Chain

/-! ## Bounds -/

/-- The value is this number, which is finite and not below zero. -/
structure Value.Sets (v : Value) (n : Number) : Prop where
  number : v = .number n
  finite : ∀ x, n = .float x → x.isFinite = true
  natural : n.lt (.int 0) = false

theorem Binary64.finite?_finite {x y : Binary64} (h : x.finite? = some y) : y.isFinite = true := by
  cases x with
  | finite s u hu =>
    cases h
    rfl
  | _ => cases h

/-- Whether a number that can be converted is finite. -/
theorem Number.isFinite_iff {n : Number} {finite : Bool} (h : n.isFinite = .ok finite) :
    finite = true ↔ ∀ x, n = .float x → x.isFinite = true := by
  obtain ⟨d, hd, h⟩ := bind_eq_ok.mp h
  cases h
  cases n with
  | float x =>
    cases hd
    refine ⟨fun h y hy => ?_, fun h => h d rfl⟩
    cases hy
    exact h
  | int n =>
    refine iff_of_true ?_ fun _ h => by cases h
    cases hx : Binary64.ofInt? n with
    | none =>
      rw [Number.toDouble, hx] at hd
      cases hd
    | some x =>
      rw [Number.toDouble, hx] at hd
      cases hd
      exact Binary64.finite?_finite hx

/-- A bound is what its value sets. -/
theorem usableBound_iff {v : Value} {bound : Option Number} (h : usableBound v = .ok bound) (n : Number) :
    bound = some n ↔ v.Sets n := by
  -- Only a finite number that is not negative is a bound.
  cases v with
  | number m =>
    obtain ⟨finite, hfinite, h⟩ := bind_eq_ok.mp h
    have hm := Number.isFinite_iff hfinite
    cases finite with
    | false =>
      cases h
      refine iff_of_false (fun h => by cases h) fun hs => ?_
      cases hs.number
      exact Bool.false_ne_true (hm.mpr hs.finite)
    | true =>
      cases hlt : m.lt (.int 0) with
      | true =>
        rw [if_pos rfl, hlt] at h
        cases h
        refine iff_of_false (fun h => by cases h) fun hs => ?_
        cases hs.number
        cases hlt.symm.trans hs.natural
      | false =>
        rw [if_pos rfl, hlt] at h
        cases h
        refine ⟨fun h => ?_, fun hs => ?_⟩
        · cases h
          exact ⟨rfl, hm.mp rfl, hlt⟩
        · cases hs.number
          rfl
  | _ =>
    cases h
    exact iff_of_false (fun h => by cases h) fun hs => by cases hs.number

/-- The last trim node sets the bounds, and any trim node makes the cut strict. -/
structure Governs (trims : List Trim) (w : TrimWindow) : Prop where
  start : ∀ n, w.start = some n ↔ ∃ last, trims.getLast? = some last ∧ last.start.Sets n
  stop : ∀ n, w.stop = some n ↔ ∃ last, trims.getLast? = some last ∧ last.stop.Sets n
  strict : w.strict = true ↔ ∃ trim ∈ trims, trim.strict = true

theorem ofTrims_governs {trims : List Trim} {w : TrimWindow} (h : TrimWindow.ofTrims trims = .ok w) :
    Governs trims w := by
  unfold TrimWindow.ofTrims at h
  cases hl : trims.getLast? with
  | none =>
    rw [hl] at h
    cases h
    constructor
    case strict =>
      rw [List.getLast?_eq_none_iff.mp hl]
      exact iff_of_false Bool.false_ne_true fun ⟨_, h, _⟩ => by cases h
    all_goals exact fun n => iff_of_false (fun h => by cases h) fun ⟨_, h, _⟩ => by rw [hl] at h; cases h
  | some last =>
    rw [hl] at h
    obtain ⟨start, hstart, h⟩ := bind_eq_ok.mp h
    obtain ⟨stop, hstop, h⟩ := bind_eq_ok.mp h
    cases h
    constructor
    case strict => exact List.any_eq_true
    case start =>
      intro n
      rw [hl]
      refine (usableBound_iff hstart n).trans ⟨fun h => ⟨last, rfl, h⟩, fun ⟨l, h, hs⟩ => ?_⟩
      cases h
      exact hs
    case stop =>
      intro n
      rw [hl]
      refine (usableBound_iff hstop n).trans ⟨fun h => ⟨last, rfl, h⟩, fun ⟨l, h, hs⟩ => ?_⟩
      cases h
      exact hs

/-! ## Windows -/

theorem extent_zero {n : Number} (h : n.isZero = true) : Number.zero.extent = n.extent := by
  cases n with
  | int n =>
    rw [beq_iff_eq.mp h]
    decide +kernel
  | float x =>
    cases x with
    | finite s u hu =>
      obtain rfl : u = 0 := beq_iff_eq.mp h
      cases s <;> rfl
    | _ => cases h

namespace TrimWindow
variable {w : TrimWindow} {speed : Binary64}

/-- A window without a bound. -/
def Empty (w : TrimWindow) : Prop := w.start = none ∧ w.stop = none

/-- What a strict cut carries for a start is the start itself, but for a start that is a zero the zero among doubles. -/
theorem startOrZero_extent : (∀ n, w.start = some n → w.startOrZero.extent = n.extent) ∧
    (w.start = none → w.startOrZero = .zero) := by
  unfold startOrZero
  refine ⟨fun n hn => ?_, fun hn => by rw [hn]⟩
  rw [hn]
  dsimp only
  split
  · exact extent_zero ‹_›
  · rfl

/-- The parameters of a strict cut carry the start, a zero if there is none, and the end if there is one. -/
structure Carries (w : TrimWindow) (params : Members) : Prop where
  start : ∃ text, seconds w.startOrZero = .ok text ∧
    params.find? "start_ms" = some (.number w.startOrZero) ∧ params.find? "start" = some (.text text)
  stop : ∀ n, w.stop = some n →
    ∃ text, seconds n = .ok text ∧ params.find? "end_ms" = some (.number n) ∧ params.find? "end" = some (.text text)
  open_ended : w.stop = none → params.find? "end_ms" = none ∧ params.find? "end" = none

theorem strictParams_none (w : TrimWindow) (h : w.strict = false ∨ w.Empty) : w.strictParams = .ok none := by
  obtain ⟨start, stop, strict⟩ := w
  rcases h with rfl | ⟨rfl, rfl⟩
  · rfl
  · cases strict <;> rfl

theorem strictParams_carries (w : TrimWindow) {params : Option Members} (hs : w.strict = true) (hw : ¬ w.Empty)
    (h : w.strictParams = .ok params) : ∃ m, params = some m ∧ w.Carries m := by
  unfold strictParams at h
  split at h
  · rename_i hs'
    cases hs.symm.trans hs'
  · rename_i hstart hstop
    exact absurd ⟨hstart, hstop⟩ hw
  · rename_i hstop _
    obtain ⟨text, htext, h⟩ := bind_eq_ok.mp h
    cases h
    refine ⟨_, rfl, ⟨text, htext, rfl, rfl⟩, fun n hn => ?_, fun _ => ⟨rfl, rfl⟩⟩
    cases hstop.symm.trans hn
  · rename_i stop hstop
    obtain ⟨text, htext, h⟩ := bind_eq_ok.mp h
    obtain ⟨last, hlast, h⟩ := bind_eq_ok.mp h
    cases h
    refine ⟨_, rfl, ⟨text, htext, rfl, rfl⟩, fun n hn => ?_, fun hn => ?_⟩
    · cases hstop.symm.trans hn
      exact ⟨last, hlast, rfl, rfl⟩
    · cases hstop.symm.trans hn

/-- The length that is left between the start and this end, never negative. -/
def Length (w : TrimWindow) (stop length : Number) : Prop :=
  ∃ d, stop.sub w.startOrZero = .ok d ∧ length = Number.zero.max d

theorem length_iff {l : Option Number} (h : w.length = .ok l) :
    (w.stop = none → l = none) ∧ ∀ stop, w.stop = some stop → ∃ n, l = some n ∧ w.Length stop n := by
  unfold length at h
  split at h
  · rename_i hstop
    cases h
    refine ⟨fun _ => rfl, fun stop hs => ?_⟩
    cases hstop.symm.trans hs
  · rename_i stop hstop
    obtain ⟨d, hd, h⟩ := bind_eq_ok.mp h
    cases h
    refine ⟨fun hs => ?_, fun stop' hs => ?_⟩
    · cases hstop.symm.trans hs
    · cases hstop.symm.trans hs
      exact ⟨_, rfl, d, hd, rfl⟩

/-- A cut that is not fast, or has no start, shows in no options. -/
theorem no_args {input output : List String} (h : w.strict = true ∨ w.start = none)
    (hinput : w.inputArgs = .ok input) (houtput : w.outputArgs speed = .ok output) : input = [] ∧ output = [] := by
  have hin : w.inputArgs = .ok [] := by
    unfold inputArgs
    split
    · rename_i hs hn
      rw [hs, hn] at h
      simp at h
    · rfl
  have hout : w.outputArgs speed = .ok [] := by
    unfold outputArgs
    split
    · rename_i hs hn _
      rw [hs, hn] at h
      simp at h
    · rfl
  cases hinput.symm.trans hin
  cases houtput.symm.trans hout
  exact ⟨rfl, rfl⟩

/-- The options of a fast cut from a start: it is sought, and if there is an end the length is limited in front of
    the source and, at the speed at which it is played, in front of the result. -/
structure Seeks (w : TrimWindow) (speed : Binary64) (start : Number) (input output : List String) : Prop where
  seek : ∃ text rest, seconds start = .ok text ∧ input = "-ss" :: text :: rest
  onward : w.stop = none → input.length = 2 ∧ output = []
  limit : ∀ stop, w.stop = some stop → ∃ length text played shown, w.Length stop length ∧
    seconds length = .ok text ∧ input.drop 2 = ["-t", text] ∧
    length.div (.float speed) = .ok played ∧ seconds (.float played) = .ok shown ∧ output = ["-t", shown]

theorem args_seek {start : Number} {input output : List String} (hs : w.strict = false) (hstart : w.start = some start)
    (hinput : w.inputArgs = .ok input) (houtput : w.outputArgs speed = .ok output) :
    w.Seeks speed start input output := by
  unfold inputArgs at hinput
  rw [hs, hstart] at hinput
  obtain ⟨text, htext, hinput⟩ := bind_eq_ok.mp hinput
  obtain ⟨l, hl, hinput⟩ := bind_eq_ok.mp hinput
  obtain ⟨hnone, hsome⟩ := length_iff hl
  cases hstop : w.stop with
  | none =>
    rw [hnone hstop] at hinput
    unfold outputArgs at houtput
    rw [hs, hstart, hstop] at houtput
    cases hinput
    cases houtput
    refine ⟨⟨text, [], htext, rfl⟩, fun _ => ⟨rfl, rfl⟩, fun stop hn => ?_⟩
    cases hstop.symm.trans hn
  | some stop =>
    obtain ⟨length, rfl, hlength⟩ := hsome stop hstop
    obtain ⟨limit, hlimit, hinput⟩ := bind_eq_ok.mp hinput
    unfold outputArgs at houtput
    rw [hs, hstart, hstop] at houtput
    obtain ⟨l', hl', houtput⟩ := bind_eq_ok.mp houtput
    cases hl.symm.trans hl'
    obtain ⟨played, hplayed, houtput⟩ := bind_eq_ok.mp houtput
    obtain ⟨shown, hshown, houtput⟩ := bind_eq_ok.mp houtput
    cases hinput
    cases houtput
    refine ⟨⟨text, _, htext, rfl⟩, fun hn => ?_, fun stop' hn => ?_⟩
    · cases hstop.symm.trans hn
    · cases hstop.symm.trans hn
      exact ⟨length, limit, played, shown, hlength, hlimit, rfl, hplayed, hshown, rfl⟩

end TrimWindow

/-! ## Plans -/

/-- Where a window shows in a plan, among its trim stages and in the options of its source and of its result. -/
structure Shows (w : TrimWindow) (speed : Binary64) (trims : List FilterStage) (input output : List String) : Prop where
  uncut : w.Empty → trims = [] ∧ input = [] ∧ output = []
  strict : w.strict = true → ¬ w.Empty →
    (∃ stage, trims = [stage] ∧ w.Carries stage.params) ∧ input = [] ∧ output = []
  fast : w.strict = false → trims = []
  seek : w.strict = false → ∀ start, w.start = some start → w.Seeks speed start input output
  endless : w.strict = false → w.start = none → input = [] ∧ output = []

/-- A plan without a trim stage and without options of its source and result. -/
def Unseen (trims : List FilterStage) (input output : List String) : Prop := trims = [] ∧ input = [] ∧ output = []

theorem Shows.unseen_iff {w : TrimWindow} {speed : Binary64} {trims : List FilterStage} {input output : List String}
    (h : Shows w speed trims input output) :
    Unseen trims input output ↔ w.Empty ∨ w.strict = false ∧ w.start = none := by
  constructor
  · rintro ⟨rfl, rfl, -⟩
    by_cases hw : w.Empty
    · exact .inl hw
    cases hs : w.strict with
    | true =>
      obtain ⟨⟨stage, hstage, -⟩, -⟩ := h.strict hs hw
      cases hstage
    | false =>
      cases hstart : w.start with
      | none => exact .inr ⟨rfl, rfl⟩
      | some start =>
        obtain ⟨text, rest, -, hinput⟩ := (h.seek hs start hstart).seek
        cases hinput
  · rintro (hw | ⟨hs, hstart⟩)
    · exact h.uncut hw
    · exact ⟨h.fast hs, h.endless hs hstart⟩

theorem Assembled.shows {cwd : String} {options : OptionsInput} {nodes : List Node} {plan : Plan} {load : Load} {w : TrimWindow}
    {speed : Binary64} (h : Assembled cwd options nodes plan load w speed) :
    ∃ source target, plan.inputStage = .ok source ∧ plan.outputStage = .ok target ∧
      Shows w speed (plan.findStages NodeKind.trim.tag) source.args target.args := by
  obtain ⟨target, -, hstages⟩ := h.stages
  obtain ⟨⟨input, hinput, hhead⟩, ⟨output, houtput, hlast⟩, ⟨params, hparams, htrims⟩, -, -⟩ := stagesOf_framed hstages
  change (plan.findStages NodeKind.trim.tag).map (·.params) = params.toList at htrims
  refine ⟨⟨load.kind, load.version, input, Path.absolute cwd load.path⟩, _, by rw [Plan.inputStage, hhead],
    by rw [Plan.outputStage, hlast]; rfl, ?_⟩
  have hcut : w.strict = false ∨ w.Empty → plan.findStages NodeKind.trim.tag = [] := fun hw => by
    rw [w.strictParams_none hw] at hparams
    cases hparams
    exact List.map_eq_nil_iff.mp htrims
  constructor
  case uncut => exact fun hw => ⟨hcut (.inr hw), TrimWindow.no_args (.inr hw.1) hinput houtput⟩
  case strict =>
    intro hs hw
    obtain ⟨m, rfl, hm⟩ := w.strictParams_carries hs hw hparams
    obtain ⟨stage, hstage, rfl⟩ := List.map_eq_singleton_iff.mp htrims
    exact ⟨⟨stage, hstage, hm⟩, TrimWindow.no_args (.inl hs) hinput houtput⟩
  case fast => exact fun hs => hcut (.inl hs)
  case seek => exact fun hs start hstart => TrimWindow.args_seek hs hstart hinput houtput
  case endless => exact fun _ hstart => TrimWindow.no_args (.inr hstart) hinput houtput

/-- A source of known length that is cut at an end is expected to last until then at the most. -/
theorem Assembled.expected {cwd : String} {options : OptionsInput} {nodes : List Node} {plan : Plan} {load : Load} {w : TrimWindow}
    {speed : Binary64} (h : Assembled cwd options nodes plan load w speed) (hstart : w.start = none) {stop : Number} (hstop : w.stop = some stop)
    {d : Binary64} (hd : load.duration = some d) (hfinite : d.isFinite = true) :
    ∃ length x, w.Length stop length ∧
      (Number.zero.max ((Number.float d).min length)).div (.float speed) = .ok x ∧
      plan.metadata.estimatedDuration = some x := by
  have he := h.estimate
  unfold estimatedDuration at he
  rw [hd] at he
  dsimp only at he
  rw [if_pos hfinite, hstart] at he
  obtain ⟨left, hleft, he⟩ := bind_eq_ok.mp he
  obtain ⟨l, hl, he⟩ := bind_eq_ok.mp he
  cases hleft
  obtain ⟨length, rfl, hlength⟩ := (TrimWindow.length_iff hl).2 stop hstop
  obtain ⟨x, hx, he⟩ := bind_eq_ok.mp he
  exact ⟨length, x, hlength, hx, (Except.ok.inj he).symm⟩

/-- How the window of a chain shows in its plan. -/
structure Cut (nodes : List Node) (plan : Plan) (w : TrimWindow) (speed : Binary64) (source : InputStage)
    (target : OutputStage) : Prop where
  governs : Governs (nodes.filterMap Node.trim?) w
  ratio : compoundSpeed (nodes.filterMap Node.speed?) = .ok speed
  first : plan.inputStage = .ok source
  last : plan.outputStage = .ok target
  shows : Shows w speed (plan.findStages NodeKind.trim.tag) source.args target.args
  unseen : Unseen (plan.findStages NodeKind.trim.tag) source.args target.args ↔
    w.Empty ∨ w.strict = false ∧ w.start = none
  expected : w.start = none → ∀ stop, w.stop = some stop → ∀ load ∈ nodes.filterMap Node.load?,
    ∀ d, load.duration = some d → d.isFinite = true →
      ∃ length x, w.Length stop length ∧
        (Number.zero.max ((Number.float d).min length)).div (.float speed) = .ok x ∧
        plan.metadata.estimatedDuration = some x

/-- The window of every chain that compiles shows in one place: a strict cut in one trim stage that carries its
    bounds, a fast cut with a start in the options. The end of a fast cut without a start shows in no stage, and
    the length that is expected is cut to it. -/
theorem compile_cuts {cwd : String} {chain : ChainInput} {options : OptionsInput} {plan : Plan}
    (h : compile cwd chain options = .ok plan) :
    ∃ nodes w speed source target, chain.nodes = .ok nodes ∧ Cut nodes plan w speed source target := by
  obtain ⟨nodes, load, w, speed, hnodes, ha⟩ := compile_assembled h
  obtain ⟨source, target, hsource, htarget, hshows⟩ := ha.shows
  refine ⟨nodes, w, speed, source, target, hnodes, ofTrims_governs ha.window, ha.ratio, hsource, htarget, hshows, ?_,
    fun hstart stop hstop l hl d hd hfinite => ?_⟩
  · exact hshows.unseen_iff
  rw [show nodes.filterMap Node.load? = [load] from ha.source] at hl
  cases List.mem_singleton.mp hl
  exact ha.expected hstart hstop hd hfinite

/-- A source of ten seconds, a fast cut with these bounds, and an export. -/
def clip (start stop : Value) : MediaChain where
  nodes := [
    .load ⟨⟨none, defaultVersion⟩, .media, "clip.mp4", some (Binary64.ofNat 10000), none⟩,
    .trim ⟨⟨none, defaultVersion⟩, start, stop, false, none⟩,
    .export ⟨⟨none, defaultVersion⟩, none, none, none, none⟩]

/-- Whether a chain compiles to a plan with these options, without a trim stage, of this expected length. -/
def compilesTo (chain : MediaChain) (input output : List String) (length : Nat) : Bool :=
  match compile "/work" (.chain chain) (.value .null) with
  | .error _ => false
  | .ok plan => (plan.findStages NodeKind.trim.tag).isEmpty && plan.inputStage.toOption.any (·.args == input) &&
      plan.outputStage.toOption.any (·.args == output) && plan.metadata.estimatedDuration == some (Binary64.ofNat length)

theorem compilesTo_plan {chain : MediaChain} {input output : List String} {length : Nat}
    (h : compilesTo chain input output length = true) :
    ∃ plan source target, compile "/work" (.chain chain) (.value .null) = .ok plan ∧
      plan.inputStage = .ok source ∧ plan.outputStage = .ok target ∧
      plan.findStages NodeKind.trim.tag = [] ∧ source.args = input ∧ target.args = output ∧
      plan.metadata.estimatedDuration = some (Binary64.ofNat length) := by
  unfold compilesTo at h
  split at h
  · cases h
  · rename_i plan hplan
    obtain ⟨_, _, _, _, _, ha⟩ := compile_assembled hplan
    obtain ⟨source, target, hsource, htarget, -⟩ := ha.shows
    rw [hsource, htarget] at h
    simp only [Bool.and_eq_true, List.isEmpty_iff, Except.toOption, Option.any_some, beq_iff_eq] at h
    exact ⟨plan, source, target, hplan, hsource, htarget, h.1.1.1, h.1.1.2, h.1.2, h.2⟩

/-- A fast cut from 1.2 to 4.2 seconds is sought and limited. -/
theorem both_bounds_seek : ∃ plan nodes w speed source target,
    compile "/work" (.chain (clip (.number (.int 1200)) (.number (.int 4200)))) (.value .null) = .ok plan ∧
      Cut nodes plan w speed source target ∧ plan.inputStage = .ok source ∧ plan.outputStage = .ok target ∧
      source.args = ["-ss", "1.200", "-t", "3.000"] ∧ target.args = ["-t", "3.000"] := by
  obtain ⟨plan, source, target, hplan, hsource, htarget, -, hinput, houtput, -⟩ := compilesTo_plan
    (show compilesTo (clip (.number (.int 1200)) (.number (.int 4200))) ["-ss", "1.200", "-t", "3.000"] ["-t", "3.000"]
      3000 = true by decide +kernel)
  obtain ⟨nodes, w, speed, first, last, -, hcut⟩ := compile_cuts hplan
  cases hsource.symm.trans hcut.first
  cases htarget.symm.trans hcut.last
  exact ⟨plan, nodes, w, speed, source, target, hplan, hcut, hsource, htarget, hinput, houtput⟩

/-- The end of a fast cut at two seconds shows in no stage, while two of ten seconds are expected. -/
theorem lone_end_unseen : ∃ plan source target trim,
    compile "/work" (.chain (clip .null (.number (.int 2000)))) (.value .null) = .ok plan ∧
      (clip .null (.number (.int 2000))).nodes.filterMap Node.trim? = [trim] ∧
      trim.stop.Sets (.int 2000) ∧ trim.strict = false ∧
      plan.inputStage = .ok source ∧ plan.outputStage = .ok target ∧
      Unseen (plan.findStages NodeKind.trim.tag) source.args target.args ∧
      plan.metadata.estimatedDuration = some (Binary64.ofNat 2000) := by
  obtain ⟨plan, source, target, hplan, hsource, htarget, htrims, hinput, houtput, hlength⟩ := compilesTo_plan
    (show compilesTo (clip .null (.number (.int 2000))) [] [] 2000 = true by decide +kernel)
  have hsets : (Value.number (.int 2000)).Sets (.int 2000) := ⟨rfl, (fun _ h => by cases h), by decide +kernel⟩
  exact ⟨plan, source, target, _, hplan, rfl, hsets, rfl, hsource, htarget, ⟨htrims, hinput, houtput⟩, hlength⟩

end MediaEngine
