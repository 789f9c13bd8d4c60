import Mathlib.Algebra.Field.Rat
import Mathlib.Tactic.Ring
import MediaEngine.Proofs.Compile.Estimates
import MediaEngine.Proofs.Json.Numbers

/-! # Milliseconds that are written in seconds

Milliseconds are divided by a thousand in doubles, and the quotient is written with three places. Up to `2 ^ 52` a whole number
of milliseconds is written exactly, since the quotient is off by less than half of a thousandth (`seconds_counts`). So the limit
of a fast cut is written as the difference of the end and the start that a strict cut with the same bounds is written with
(`milliseconds_exact`). -/

namespace MediaEngine

/-! ## Errors of rounding -/

section Nearest
variable {num den k : Nat}

/-- Rounding moves a quotient by a half at the most. -/
theorem nearest_close (num : Nat) (hd : 0 < den) :
    2 * (nearest num den * den) ≤ 2 * num + den ∧ 2 * num ≤ 2 * (nearest num den * den) + den := by
  have hsplit : num / den * den + num % den = num := Nat.div_add_mod' num den
  have hrest : num % den < den := Nat.mod_lt num hd
  have hnext : (num / den + 1) * den = num / den * den + den := Nat.succ_mul _ _
  simp only [nearest]
  split
  · omega
  · split
    · omega
    · split <;> omega

/-- A quotient that is less than a half away from a whole number is rounded to it. -/
theorem nearest_eq (h : 2 * (k * den) < 2 * num + den) (h' : 2 * num < 2 * (k * den) + den) : nearest num den = k := by
  have hd : 0 < den := by omega
  obtain ⟨hlow, hhigh⟩ := nearest_close num hd
  rcases Nat.lt_trichotomy (nearest num den) k with hlt | heq | hgt
  · have hnext : nearest num den * den + den ≤ k * den := Nat.succ_mul _ _ ▸ Nat.mul_le_mul_right den hlt
    omega
  · exact heq
  · have hnext : k * den + den ≤ nearest num den * den := Nat.succ_mul _ _ ▸ Nat.mul_le_mul_right den hgt
    omega

end Nearest

namespace Binary64
variable {num den k : Nat}

/-- The nearest double is half a step away at the most. -/
theorem roundUnits_close (num : Nat) (hd : 0 < den) :
    2 * (roundUnits num den * den) ≤ 2 * num + den * spacing (num / den) ∧
      2 * num ≤ 2 * (roundUnits num den * den) + den * spacing (num / den) := by
  have hclose := nearest_close num (Nat.mul_pos hd (spacing_pos (num / den)))
  have hunits : nearest num (den * spacing (num / den)) * (den * spacing (num / den)) = roundUnits num den * den := by
    rw [roundUnits, Nat.mul_right_comm, ← Nat.mul_assoc]
  rwa [hunits] at hclose

theorem round_mul_right {s : Bool} (hk : 0 < k) : round s (num * k) (den * k) = round s num den := by
  unfold round
  simp only [roundUnits_mul_right hk]

/-- Below `2 ^ 43` a step between doubles is a part of one in 1024 at the most. -/
theorem spacing_small {units : Nat} (h : units < 2 ^ 43 * one) : spacing units * 1024 ≤ one := by
  have hlog : units.log2 - 52 ≤ 1064 := by
    by_cases h0 : units = 0
    · simp [h0]
    · have hpow : 2 ^ 43 * one = 2 ^ 1117 := by rw [one, Nat.pow_eq, ← pow_split (show 1117 = 43 + 1074 from rfl)]
      have := (Nat.log2_lt h0).mpr (Nat.lt_of_lt_of_eq h hpow)
      omega
  calc spacing units * 1024 ≤ 2 ^ 1064 * 1024 := Nat.mul_le_mul_right _ (Nat.pow_le_pow_right (by decide) hlog)
    _ = one := by decide +kernel

/-- The thousandths of a quotient by a thousand are the dividend again. -/
theorem nearest_thousandths (hk : k ≤ 2 ^ 52) : nearest (roundUnits (k * one) 1000 * 1000) one = k := by
  have hsmall : k * one / 1000 < 2 ^ 43 * one := by
    rw [Nat.div_lt_iff_lt_mul (by decide)]
    calc k * one ≤ 2 ^ 52 * one := Nat.mul_le_mul_right _ hk
      _ < 2 ^ 43 * one * 1000 := by decide +kernel
  have hstep := spacing_small hsmall
  have hpos := spacing_pos (k * one / 1000)
  -- the double is off by half a step, and a thousand half steps are less than half of one
  obtain ⟨hlow, hhigh⟩ := roundUnits_close (k * one) (show 0 < 1000 by decide)
  exact nearest_eq (by omega) (by omega)

end Binary64

/-! ## Texts -/

/-- Milliseconds as the seconds that they are: whole seconds, a point, and three digits. -/
def inSeconds (milliseconds : Nat) : String :=
  String.ofList (Nat.toDigits 10 (milliseconds / 1000) ++
    ['.', Nat.digitChar (milliseconds / 100 % 10), Nat.digitChar (milliseconds / 10 % 10), Nat.digitChar (milliseconds % 10)])

/-- The number that a decimal text writes: digits, a point, and digits. -/
def decimal? (text : String) : Option ℚ :=
  match text.toList.span Char.isDigit with
  | (whole, point :: places) =>
    if point = '.' ∧ whole ≠ [] ∧ places ≠ [] ∧ places.all Char.isDigit then
      some (Nat.ofDigitChars 10 whole 0 + Nat.ofDigitChars 10 places 0 / 10 ^ places.length)
    else none
  | (_, []) => none

section Texts
open Decimal Json
variable {n : Nat}

theorem padded_three (h : n < 1000) :
    padded 3 n = [Nat.digitChar (n / 100), Nat.digitChar (n / 10 % 10), Nat.digitChar (n % 10)] := by
  have last : ∀ m, 0 < m / 10 → Nat.toDigits 10 m = Nat.toDigits 10 (m / 10) ++ [Nat.digitChar (m % 10)] := by
    intro m hm
    have hrest : m % 10 < 10 := Nat.mod_lt m (by decide)
    rw [← Nat.toDigits_of_lt_base hrest, Nat.toDigits_append_toDigits (by decide) hm hrest, Nat.div_add_mod]
  unfold padded digits
  rcases Nat.lt_or_ge n 10 with hone | hone
  · rw [Nat.toDigits_of_lt_base hone, Nat.div_eq_of_lt hone, Nat.div_eq_of_lt (by omega : n < 100), Nat.mod_eq_of_lt hone]
    rfl
  rcases Nat.lt_or_ge n 100 with htwo | htwo
  · rw [last n (by omega), Nat.toDigits_of_lt_base (by omega), Nat.div_eq_of_lt htwo, Nat.mod_eq_of_lt (by omega : n / 10 < 10)]
    rfl
  · rw [last n (by omega), last (n / 10) (by omega), Nat.div_div_eq_div_mul, Nat.toDigits_of_lt_base (by omega)]
    rfl

theorem inSeconds_eq (n : Nat) : inSeconds n = String.ofList (digits (n / 1000) ++ '.' :: padded 3 (n % 1000)) := by
  have hrest : n % 1000 < 1000 := Nat.mod_lt n (by decide)
  have hhundreds : n % 1000 / 100 = n / 100 % 10 := by omega
  have htens : n % 1000 / 10 % 10 = n / 10 % 10 := by omega
  have hones : n % 1000 % 10 = n % 10 := by omega
  rw [padded_three hrest, hhundreds, htens, hones]
  rfl

theorem decimal?_inSeconds (n : Nat) : decimal? (inSeconds n) = some ((n : ℚ) / 1000) := by
  have hwhole := areDigits_digits (n / 1000)
  have hplaces := areDigits_padded 3 (n % 1000)
  have hlength : (padded 3 (n % 1000)).length = 3 := by
    rw [padded_three (Nat.mod_lt n (by decide))]
    rfl
  have hspan : (digits (n / 1000) ++ '.' :: padded 3 (n % 1000)).span Char.isDigit =
      (digits (n / 1000), '.' :: padded 3 (n % 1000)) :=
    span_digits hwhole.2 fun c hc => by cases hc; rfl
  have hvalue : ((n / 1000 : Nat) : ℚ) + (n % 1000 : Nat) / 10 ^ 3 = n / 1000 := by
    have hsplit : (1000 : ℚ) * (n / 1000 : Nat) + (n % 1000 : Nat) = n := by exact_mod_cast Nat.div_add_mod n 1000
    rw [← hsplit]
    ring
  rw [inSeconds_eq, decimal?, String.toList_ofList, hspan]
  dsimp only
  rw [if_pos ⟨rfl, hwhole.1, hplaces.1, List.all_eq_true.mpr hplaces.2⟩, hlength, ← natOf_eq hwhole.2, ← natOf_eq hplaces.2,
    natOf_digits, natOf_padded, hvalue]

end Texts

/-! ## Bounds -/

theorem Binary64.IsAmount.isZero_iff {x : Binary64} (h : x.IsAmount) : x.isZero = true ↔ x.units = 0 := by
  obtain ⟨u, fits, rfl⟩ := h
  exact beq_iff_eq

namespace Number
open Binary64
variable {n : Number} {k : Nat}

/-- The number is this count: it is the whole number, or the double of it, which for zero is the zero without a sign. -/
def Counts (n : Number) (k : Nat) : Prop := n = .int k ∨ n = .float (.ofNat k)

theorem Counts.isWhole (h : n.Counts k) (hk : k < 2 ^ 53) : n.IsWhole k := by
  rcases h with rfl | rfl
  · exact ⟨rfl, hk⟩
  · exact isWhole_ofNat hk

theorem counts_zero : zero.Counts 0 := by
  refine .inr (congrArg Number.float ?_)
  rw [ofNat, Nat.zero_mul, round_zero false (by decide +kernel)]
  rfl

theorem Counts.isZero_iff (h : n.Counts k) (hk : k < 2 ^ 53) : n.isZero = true ↔ k = 0 := by
  rcases h with rfl | rfl
  · exact beq_iff_eq.trans Int.natCast_eq_zero
  · obtain ⟨hamount, hunits⟩ := ofNat_whole (Nat.le_of_lt hk)
    refine hamount.isZero_iff.trans ?_
    rw [hunits, Nat.mul_eq_zero]
    exact or_iff_left (Nat.ne_of_gt Binary64.one_pos)

theorem counts_raised (h : (zero.max n).IsWhole k) : (zero.max n).Counts k := by
  have hdouble := raised_toDouble h
  generalize zero.max n = m at h hdouble ⊢
  cases m with
  | int i => exact .inl (congrArg Number.int h.int_eq)
  | float x =>
    cases hdouble
    exact .inr rfl

theorem Counts.sets (h : n.Counts k) (hk : k < 2 ^ 53) : (Value.number n).Sets n := by
  refine ⟨rfl, fun x hx => ?_, Bool.eq_false_iff.mpr fun hlt => ?_⟩
  · rcases h with rfl | rfl
    · cases hx
    · cases hx
      exact (ofNat_whole (Nat.le_of_lt hk)).1.isFinite
  · have := (h.isWhole hk).sides.2.mp hlt
    omega

end Number

section Seconds
open Binary64 Number
variable {n : Number} {k : Nat}

/-- The quotient by a thousand has the text of so many milliseconds. -/
theorem threePlaces_thousandth (hk : k ≤ 2 ^ 52) :
    (round false (k * one) 1000).isFinite = true ∧ (round false (k * one) 1000).threePlaces = inSeconds k := by
  have hfits : k * one < 1000 * edge := by
    calc k * one ≤ 2 ^ 52 * one := Nat.mul_le_mul_right _ hk
      _ < 1000 * edge := by decide +kernel
  have hlimit := (roundUnits_lt_limit (show 0 < 1000 by decide)).mpr hfits
  rw [round_eq rfl ⟨hlimit, spacing_dvd_roundUnits _ _⟩]
  refine ⟨rfl, ?_⟩
  simp only [threePlaces, nearest_thousandths hk, inSeconds_eq]
  rfl

/-- A count of milliseconds up to `2 ^ 52` is written exactly. -/
theorem seconds_counts (h : n.Counts k) (hk : k ≤ 2 ^ 52) : seconds n = .ok (inSeconds k) := by
  obtain ⟨hfinite, htext⟩ := threePlaces_thousandth hk
  -- a quotient of whole numbers is rounded once, and so is that of their doubles, which are exact
  have hquotient : n.div (.int 1000) = .ok (round false (k * one) 1000) := by
    rcases h with rfl | rfl
    · change intQuotient k 1000 = _
      have hsign : (decide ((k : Int) < 0) != decide ((1000 : Int) < 0)) = false := by
        simp
      rw [intQuotient, if_neg (by decide), hsign, Int.natAbs_natCast]
      exact if_pos hfinite
    · have hthousand : (Number.int 1000).toDouble = .ok (ofNat 1000) := by decide +kernel
      have hzero : (ofNat 1000).isZero = false := by decide +kernel
      obtain ⟨hk, hunits⟩ := ofNat_whole (Nat.le_trans hk (by decide))
      obtain ⟨hth, hthunits⟩ := ofNat_whole (show 1000 ≤ 2 ^ 53 by decide)
      have hpos : 0 < (ofNat 1000).units := hthunits ▸ Nat.mul_pos (by decide) Binary64.one_pos
      rw [Number.div_eq rfl hthousand fun _ _ => Number.noConfusion, hzero, div_eq_round hk hth hpos, hunits, hthunits,
        round_mul_right Binary64.one_pos]
      rfl
  rw [seconds, hquotient]
  exact congrArg Except.ok htext

/-- The zero with a sign is not the double of a count. -/
example : seconds (.float (.finite true 0 (by decide +kernel))) = .ok "-0.000" := by decide +kernel

end Seconds

/-! ## Windows -/

/-- The options of a source are a start and a limit, and the limit is written as the difference of the end and the start in
    the parameters of a trim stage. -/
def LimitIsDifference (args : List String) (params : Members) : Prop :=
  ∃ seek limit first last a b, args = ["-ss", seek, "-t", limit] ∧
    params.find? "start" = some (.text first) ∧ params.find? "end" = some (.text last) ∧
    decimal? first = some a ∧ decimal? last = some b ∧ decimal? limit = some (b - a)

namespace TrimWindow
variable {w : TrimWindow} {s e : Nat}

/-- The window is from this count of milliseconds to that. -/
structure Spans (w : TrimWindow) (s e : Nat) : Prop where
  start : ∃ n, w.start = some n ∧ n.Counts s
  stop : ∃ n, w.stop = some n ∧ n.Counts e

theorem Spans.startOrZero (h : w.Spans s e) (hs : s < 2 ^ 53) : w.startOrZero.Counts s := by
  obtain ⟨start, hstart, hcounts⟩ := h.start
  unfold TrimWindow.startOrZero
  rw [hstart]
  dsimp only
  split
  · -- a start that is a zero gives way to the zero among doubles
    rename_i hzero
    obtain rfl := (hcounts.isZero_iff hs).mp hzero
    exact Number.counts_zero
  · exact hcounts

theorem Spans.length (h : w.Spans s e) (hle : s ≤ e) (he : e < 2 ^ 53) :
    ∃ length, w.length = .ok (some length) ∧ length.Counts (e - s) := by
  obtain ⟨start, hstart, hs⟩ := h.start
  obtain ⟨stop, hstop, hstopCounts⟩ := h.stop
  have hmarked : Marked w.start (some (s : Int)) :=
    hstart ▸ .set (hs.isWhole (Nat.lt_of_le_of_lt hle he)) (Int.natCast_nonneg s)
  obtain ⟨length, hlength, hplace⟩ := length_whole hmarked hstop (hstopCounts.isWhole he)
  obtain ⟨-, hends⟩ := length_iff hlength
  obtain ⟨_, heq, gap, -, rfl⟩ := hends stop hstop
  cases heq
  refine ⟨_, hlength, Number.counts_raised ⟨?_, by omega⟩⟩
  rw [hplace, Option.getD_some, Int.max_eq_right (by omega), Int.ofNat_sub hle]

theorem Spans.inputArgs (h : w.Spans s e) (hle : s ≤ e) (he : e ≤ 2 ^ 52) (hfast : w.strict = false) :
    w.inputArgs = .ok ["-ss", inSeconds s, "-t", inSeconds (e - s)] := by
  obtain ⟨start, hstart, hs⟩ := h.start
  obtain ⟨length, hlength, hcounts⟩ := h.length hle (Nat.lt_of_le_of_lt he (by decide))
  unfold TrimWindow.inputArgs
  rw [hfast, hstart]
  dsimp only
  rw [seconds_counts hs (Nat.le_trans hle he), hlength]
  refine (bind_eq_ok (x := .ok (inSeconds s))).mpr ⟨_, rfl, bind_eq_ok.mpr ⟨_, rfl, ?_⟩⟩
  dsimp only
  rw [seconds_counts hcounts (by omega)]
  rfl

theorem Spans.not_empty (h : w.Spans s e) : ¬ w.Empty := by
  obtain ⟨start, hstart, -⟩ := h.start
  exact fun hempty => by cases hstart.symm.trans hempty.1

theorem Spans.strictParams (h : w.Spans s e) (hle : s ≤ e) (he : e ≤ 2 ^ 52) (hstrict : w.strict = true) :
    ∃ params, w.strictParams = .ok (some params) ∧ w.Carries params := by
  obtain ⟨start, hstart, -⟩ := h.start
  obtain ⟨stop, hstop, hcounts⟩ := h.stop
  have hfirst := seconds_counts (h.startOrZero (by omega)) (Nat.le_trans hle he)
  have hlast := seconds_counts hcounts he
  have htotal : ∃ params, w.strictParams = .ok (some params) := by
    unfold TrimWindow.strictParams
    rw [hstrict, hstart, hstop]
    dsimp only
    rw [hfirst, hlast]
    exact ⟨_, rfl⟩
  obtain ⟨params, hparams⟩ := htotal
  obtain ⟨_, heq, hcarries⟩ := w.strictParams_carries hstrict h.not_empty hparams
  cases heq
  exact ⟨params, hparams, hcarries⟩

theorem Carries.texts {params : Members} (hparams : w.Carries params) (h : w.Spans s e) (hle : s ≤ e) (he : e ≤ 2 ^ 52) :
    params.find? "start" = some (.text (inSeconds s)) ∧ params.find? "end" = some (.text (inSeconds e)) := by
  obtain ⟨first, hfirst, -, hstart⟩ := hparams.start
  obtain ⟨stop, hstop, hcounts⟩ := h.stop
  obtain ⟨last, hlast, -, hend⟩ := hparams.stop stop hstop
  have hzero := h.startOrZero (by omega)
  cases hfirst.symm.trans (seconds_counts hzero (Nat.le_trans hle he))
  cases hlast.symm.trans (seconds_counts hcounts he)
  exact ⟨hstart, hend⟩

end TrimWindow

theorem limitIsDifference {s e : Nat} {params : Members} (hle : s ≤ e)
    (hstart : params.find? "start" = some (.text (inSeconds s))) (hend : params.find? "end" = some (.text (inSeconds e))) :
    LimitIsDifference ["-ss", inSeconds s, "-t", inSeconds (e - s)] params := by
  refine ⟨_, _, _, _, _, _, rfl, hstart, hend, decimal?_inSeconds s, decimal?_inSeconds e, ?_⟩
  rw [decimal?_inSeconds, Nat.cast_sub hle, sub_div]

/-! ## Plans -/

section Plans
open Chain
variable {chain : ChainInput} {plan : Plan} {strict : Bool} {s e : Nat}

theorem Assembled.inputArgs {cwd : String} {options : OptionsInput} {nodes : List Node} {load : Load} {w : TrimWindow}
    {speed : Binary64} (h : Assembled cwd options nodes plan load w speed) :
    ∃ source, plan.inputStage = .ok source ∧ w.inputArgs = .ok source.args := by
  obtain ⟨target, -, hstages⟩ := h.stages
  obtain ⟨⟨input, hinput, hhead⟩, -⟩ := stagesOf_framed hstages
  exact ⟨⟨load.kind, load.version, input, Path.absolute cwd load.path⟩, by rw [Plan.inputStage, hhead], hinput⟩

/-- The chain compiles to this plan, its last trim node has these counts of milliseconds as bounds, and this is whether any
    trim node is strict. -/
structure CutsAt (chain : ChainInput) (plan : Plan) (strict : Bool) (s e : Nat) : Prop where
  compiled : ∃ cwd options, compile cwd chain options = .ok plan
  bounds : ∃ nodes trim start stop, chain.nodes = .ok nodes ∧ (nodes.filterMap Node.trim?).getLast? = some trim ∧
    trim.start = .number start ∧ start.Counts s ∧ trim.stop = .number stop ∧ stop.Counts e ∧
    (nodes.filterMap Node.trim?).any (·.strict) = strict

/-- The plan is assembled from a window between the bounds. -/
theorem CutsAt.assembled (h : CutsAt chain plan strict s e) (hs : s < 2 ^ 53) (he : e < 2 ^ 53) :
    ∃ cwd options nodes load w speed, Assembled cwd options nodes plan load w speed ∧ w.Spans s e ∧ w.strict = strict := by
  obtain ⟨cwd, options, hplan⟩ := h.compiled
  obtain ⟨nodes, trim, start, stop, hnodes, hlast, hstart, hstarts, hstop, hstops, hstrict⟩ := h.bounds
  obtain ⟨_, load, w, speed, hsame, ha⟩ := compile_assembled hplan
  cases hnodes.symm.trans hsame
  have hgoverns : Governs (nodes.filterMap Node.trim?) w := ofTrims_governs ha.window
  refine ⟨cwd, options, nodes, load, w, speed, ha, ⟨⟨start, ?_, hstarts⟩, ⟨stop, ?_, hstops⟩⟩, ?_⟩
  · exact (hgoverns.start start).mpr ⟨trim, hlast, hstart ▸ hstarts.sets hs⟩
  · exact (hgoverns.stop stop).mpr ⟨trim, hlast, hstop ▸ hstops.sets he⟩
  · rw [← hstrict, Bool.eq_iff_iff, hgoverns.strict, List.any_eq_true]

/-- The source of a fast cut is sought to its start and limited to its length. -/
theorem CutsAt.source (h : CutsAt chain plan false s e) (hle : s ≤ e) (he : e ≤ 2 ^ 52) :
    ∃ source, plan.inputStage = .ok source ∧ source.args = ["-ss", inSeconds s, "-t", inSeconds (e - s)] := by
  obtain ⟨cwd, options, nodes, load, w, speed, ha, hspans, hfast⟩ := h.assembled (by omega) (by omega)
  obtain ⟨source, hsource, hargs⟩ := ha.inputArgs
  exact ⟨source, hsource, Except.ok.inj (hargs.symm.trans (hspans.inputArgs hle he hfast))⟩

/-- A strict cut is one trim stage that carries its bounds. -/
theorem CutsAt.stage (h : CutsAt chain plan true s e) (hle : s ≤ e) (he : e ≤ 2 ^ 52) :
    ∃ stage, plan.findStages NodeKind.trim.tag = [stage] ∧ stage.params.find? "start" = some (.text (inSeconds s)) ∧
      stage.params.find? "end" = some (.text (inSeconds e)) := by
  obtain ⟨cwd, options, nodes, load, w, speed, ha, hspans, hstrict⟩ := h.assembled (by omega) (by omega)
  obtain ⟨source, target, -, -, hshows⟩ := ha.shows
  obtain ⟨⟨stage, htrims, hcarries⟩, -⟩ := hshows.strict hstrict hspans.not_empty
  exact ⟨stage, htrims, hcarries.texts hspans hle he⟩

end Plans

/-- Milliseconds up to `2 ^ 52`, whole numbers or doubles, are written as exactly the seconds that they are. So the limit of a
    fast cut is, as decimals, the end less the start that a strict cut with the same bounds is written with: of windows, whose
    texts can all be computed, and of the plans that chains compile to. -/
theorem milliseconds_exact :
    (∀ n ≤ 2 ^ 52, ∀ x : Number, x.Counts n → seconds x = .ok (inSeconds n)) ∧
    ∀ s e, s ≤ e → e ≤ 2 ^ 52 →
      (∀ fast strict : TrimWindow, fast.Spans s e → fast.strict = false → strict.Spans s e → strict.strict = true →
        ∃ args params, fast.inputArgs = .ok args ∧ strict.strictParams = .ok (some params) ∧
          LimitIsDifference args params) ∧
      ∀ fast strict plan plan', CutsAt fast plan false s e → CutsAt strict plan' true s e →
        ∃ source stage, plan.inputStage = .ok source ∧ plan'.findStages Chain.NodeKind.trim.tag = [stage] ∧
          LimitIsDifference source.args stage.params := by
  refine ⟨fun n hn x hx => seconds_counts hx hn, fun s e hle he =>
    ⟨fun fast strict hfast hf hstrict hs => ?_, fun fast strict plan plan' hfast hstrict => ?_⟩⟩
  · obtain ⟨params, hparams, hcarries⟩ := hstrict.strictParams hle he hs
    obtain ⟨hstart, hend⟩ := hcarries.texts hstrict hle he
    exact ⟨_, params, hfast.inputArgs hle he hf, hparams, limitIsDifference hle hstart hend⟩
  · obtain ⟨source, hsource, hargs⟩ := hfast.source hle he
    obtain ⟨stage, hstage, hstart, hend⟩ := hstrict.stage hle he
    exact ⟨source, stage, hsource, hstage, hargs ▸ limitIsDifference hle hstart hend⟩

/-- The chain with every cut of it strict. -/
def Chain.MediaChain.strictly (chain : MediaChain) : MediaChain where
  nodes := chain.nodes.map fun
    | .trim t => .trim { t with strict := true }
    | node => node

/-- The greatest count is written exactly, and the limit of a fast cut from 1.2 to 4.2 seconds is what a strict cut of the same
    source is written with. -/
theorem three_seconds_exact :
    seconds (.int (2 ^ 52)) = .ok "4503599627370.496" ∧ seconds (.float (.ofNat (2 ^ 52))) = .ok "4503599627370.496" ∧
    (∃ args params, TrimWindow.inputArgs ⟨some (.int 1200), some (.float (.ofNat 4200)), false⟩ = .ok args ∧
      TrimWindow.strictParams ⟨some (.float (.ofNat 1200)), some (.int 4200), true⟩ = .ok (some params) ∧
      LimitIsDifference args params) ∧
    ∃ plan plan' source stage,
      compile "/work" (.chain (clip (.int 1200) (.double (.ofNat 4200)))) (.value .null) = .ok plan ∧
      compile "/work" (.chain (clip (.double (.ofNat 1200)) (.int 4200)).strictly) (.value .null) = .ok plan' ∧
      plan.inputStage = .ok source ∧ plan'.findStages Chain.NodeKind.trim.tag = [stage] ∧
      LimitIsDifference source.args stage.params := by
  have htext : inSeconds (2 ^ 52) = "4503599627370.496" := by decide +kernel
  have hle : 1200 ≤ 4200 := by decide
  have he : 4200 ≤ 2 ^ 52 := by decide
  have hfast : (compile "/work" (.chain (clip (.int 1200) (.double (.ofNat 4200)))) (.value .null)).toOption.map
      (·.metadata.strictCut) = some false := by decide +kernel
  have hstrict : (compile "/work" (.chain (clip (.double (.ofNat 1200)) (.int 4200)).strictly) (.value .null)).toOption.map
      (·.metadata.strictCut) = some true := by decide +kernel
  obtain ⟨plan, hplan, -⟩ := ok_of_toOption_map hfast
  obtain ⟨plan', hplan', -⟩ := ok_of_toOption_map hstrict
  obtain ⟨source, stage, hsource, hstage, hlimit⟩ := (milliseconds_exact.2 1200 4200 hle he).2 _ _ plan plan'
    ⟨⟨_, _, hplan⟩, _, _, _, _, rfl, rfl, rfl, .inl rfl, rfl, .inr rfl, rfl⟩
    ⟨⟨_, _, hplan'⟩, _, _, _, _, rfl, rfl, rfl, .inr rfl, rfl, .inl rfl, rfl⟩
  refine ⟨htext ▸ milliseconds_exact.1 (2 ^ 52) (Nat.le_refl _) _ (.inl rfl),
    htext ▸ milliseconds_exact.1 (2 ^ 52) (Nat.le_refl _) _ (.inr rfl), ?_,
    plan, plan', source, stage, hplan, hplan', hsource, hstage, hlimit⟩
  exact (milliseconds_exact.2 1200 4200 hle he).1 _ _ ⟨⟨_, rfl, .inl rfl⟩, _, rfl, .inr rfl⟩ rfl
    ⟨⟨_, rfl, .inr rfl⟩, _, rfl, .inl rfl⟩ rfl

end MediaEngine
