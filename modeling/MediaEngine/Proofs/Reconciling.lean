import MediaEngine.Proofs.Bridging

/-! # Two signals, one progress

A frame moves the progress to its own time exactly if the two are further apart than is tolerated, and afterwards they are
not (`frame_settles`). So the progress is in sync with the signal that was told last, if that signal leads
(`signals_reconciled`). All this is said of the numbers as they are rounded. It takes a tolerance that is a number, and
there is one unless a frame is so long that its duration is infinite and no frame is tolerated. -/

namespace MediaEngine.Job
open Binary64

/-! ## Frames -/

section Frames
variable {n : Number} {v : Value}

/-- The frames that are tolerated are none, or a number above zero. -/
theorem toleratedFrames_cases (h : toleratedFrames v = .ok n) :
    n = .zero ∧ n.isZero = true ∨ Number.zero.lt n = true ∧ n.isZero = false := by
  cases v with
  | null =>
    cases h
    exact .inr ⟨by decide +kernel, rfl⟩
  | bool | number | text | list | object =>
    obtain ⟨m, -, hret⟩ := bind_eq_ok.mp h
    cases hret
    rcases Number.raised_cases m with hzero | ⟨hm, hpos⟩
    · rw [hzero]
      exact .inl ⟨rfl, rfl⟩
    · rw [hm]
      exact .inr ⟨hpos, Number.isZero_of_lt hpos⟩

theorem toleratedFrames_length {x : Binary64} (hn : toleratedFrames v = .ok n) (hx : n.toDouble = .ok x) :
    (x = .zero ∨ x.IsPositive) ∧ (x = .zero ↔ n.isZero = true) := by
  rcases toleratedFrames_cases hn with ⟨rfl, hnone⟩ | ⟨hpos, hsome⟩
  · cases hx
    exact ⟨.inl rfl, iff_of_true rfl hnone⟩
  · have hpositive := Number.toDouble_isPositive hpos hx
    exact ⟨.inr hpositive, iff_of_false hpositive.ne_zero (by rw [hsome]; exact Bool.false_ne_true)⟩

/-- A frame has a duration above zero. -/
theorem frameDuration_isPositive {rate : Binary64} (h : usableFps v = .ok rate) :
    ((Binary64.ofNat 1000).div rate).IsPositive := by
  have hrate : rate.isFinite = true ∧ Binary64.zero.lt rate = true := by
    cases v with
    | null | bool | text | list | object => cases h
    | number n =>
      obtain ⟨y, -, hret⟩ := bind_eq_ok.mp h
      split at hret
      · rename_i hok
        cases hret
        exact Bool.and_eq_true_iff.mp hok
      · cases hret
  have hamount := isAmount_of_pos hrate.1 hrate.2
  have hsecond := isAmount_ofNat (n := 1000) (by decide +kernel)
  refine div_isPositive hsecond.1 ?_ hamount ((isAmount_zero.lt_iff hamount).mp hrate.2)
  rw [hsecond.2]
  exact Nat.le_mul_of_pos_left one (by decide)

end Frames

/-! ## Bridges -/

namespace Bridge
variable {b : Bridge} {p q : Progress} {fps tolerance frames : Value} {i : Int} {t : Binary64}

/-- A frame has a duration above zero; and where that is finite, or the tolerance is a number, the tolerance is not below
zero. -/
structure Sound (b : Bridge) : Prop where
  duration : b.frameDuration.IsPositive
  tolerated : b.frameDuration.isFinite = true ∨ b.tolerance.isNaN = false → Binary64.zero.le b.tolerance = true

/-- The tolerance of a bridge is a number, unless no frame of an infinite duration is tolerated. -/
theorem build_tolerance (h : build fps tolerance frames p = .ok (b, q)) :
    b.Sound ∧ (b.tolerance.isNaN = true ↔
      b.frameDuration.isFinite = false ∧ ∃ n, toleratedFrames tolerance = .ok n ∧ n.isZero = true) := by
  obtain ⟨rate, n, x, hrate, hn, hx, rfl, -⟩ := build_eq h
  have hduration := frameDuration_isPositive hrate
  have hlength := toleratedFrames_length hn hx
  have hframes : (∃ n, toleratedFrames tolerance = .ok n ∧ n.isZero = true) ↔ x = .zero := by
    rw [hlength.2]
    refine ⟨fun ⟨m, hm, h⟩ => ?_, fun h => ⟨n, hn, h⟩⟩
    cases hn.symm.trans hm
    exact h
  rw [hframes, hduration.infinite_iff]
  rcases mul_cases hlength.1 hduration with ⟨hnone, hinfinite, hproduct⟩ | ⟨hnot, hproduct⟩
  · refine ⟨⟨hduration, fun h => ?_⟩, iff_of_true (by rw [hproduct]; rfl) ⟨hinfinite, hnone⟩⟩
    rw [hproduct, hduration.infinite_iff.mpr hinfinite] at h
    rcases h with h | h <;> cases h
  · obtain ⟨hle, hnan⟩ := nonneg_of_cases hproduct
    exact ⟨⟨hduration, fun _ => hle⟩, iff_of_false (by rw [hnan]; exact Bool.false_ne_true) fun h => hnot h.symm⟩

/-- The time of a frame is an amount if it is finite, and then the duration of a frame is finite. -/
theorem timeOf_isAmount (hb : b.Sound) (hi : 0 ≤ i) (ht : b.timeOf i = .ok t) (hfin : t.isFinite = true) :
    t.IsAmount ∧ Binary64.zero.le b.tolerance = true := by
  obtain ⟨m, hm, ht⟩ := bind_eq_ok.mp ht
  rw [Number.mul_float] at hm
  obtain ⟨x, hx, hm⟩ := bind_eq_ok.mp hm
  cases hm
  cases ht
  -- The first frame counts as one, so the product is never of nothing with something infinite.
  have hx := Number.toDouble_isPositive (Number.zero_lt_of_pos (by omega)) hx
  rcases mul_cases (.inr hx) hb.duration with ⟨rfl, -, -⟩ | ⟨-, hproduct⟩
  · exact absurd rfl hx.ne_zero
  · refine ⟨?_, hb.tolerated (.inl (finite_of_mul hfin))⟩
    rcases hproduct with hinfinite | hamount
    · rw [hinfinite] at hfin
      cases hfin
    · exact hamount

theorem drift_le_iff (ht : t.IsAmount) (hp : p.Sound) (htol : Binary64.zero.le b.tolerance = true) :
    (drift t p).le b.tolerance = true ↔ b.tolerance.lt (drift t p) = false := by
  have htolerance : b.tolerance.extent.isSome = true := by
    cases h : b.tolerance.extent with
    | some _ => rfl
    | none =>
      unfold Binary64.le at htol
      rw [h] at htol
      cases htol
  have hdrift : (drift t p).extent.isSome = true := by
    rw [drift, (gap_isAmount ht hp.output).1.extent_eq]
    rfl
  rw [le_eq_not_lt htolerance hdrift, Bool.not_eq_true']

theorem frameTime_eq (hi : 0 ≤ i) (ht : b.timeOf i = .ok t) : b.frameTime (.int i) = .ok t :=
  bind_eq_ok.mpr ⟨i, if_pos hi, bridging_eq_ok.mpr ht⟩

/-- What is left of a progress once a frame was shown: it is moved to the time of the frame exactly if it was further away
than is tolerated, and now it is not. -/
structure Settled (b : Bridge) (p : Progress) (t : Binary64) (q : Progress) : Prop where
  moved : b.tolerance.lt (drift t p) = true → q = { p with output := t }
  kept : b.tolerance.lt (drift t p) = false → q = p
  near : (drift t q).le b.tolerance = true

/-- The progress that a frame leaves is settled. -/
theorem frame_settles (hp : p.Sound) (ht : t.IsAmount) (htol : Binary64.zero.le b.tolerance = true) :
    b.Settled p t (if b.tolerance.lt (drift t p) then { p with output := usable t } else p) := by
  rw [usable_of_isAmount ht]
  by_cases hfar : b.tolerance.lt (drift t p) = true
  · rw [if_pos hfar]
    refine ⟨fun _ => rfl, fun hnear => absurd hfar (by rw [hnear]; exact Bool.false_ne_true), ?_⟩
    have hgap : drift t { p with output := t } = .zero := gap_self ht
    rw [hgap]
    exact htol
  · rw [if_neg hfar]
    exact ⟨fun h => absurd h hfar, fun _ => rfl, (drift_le_iff ht hp htol).mpr (Bool.not_eq_true _ ▸ hfar)⟩

/-- What is settled is not moved again. -/
theorem Settled.again (h : b.Settled p t q) (hq : q.Sound) (ht : t.IsAmount) (htol : Binary64.zero.le b.tolerance = true) :
    (if b.tolerance.lt (drift t q) then { q with output := usable t } else q) = q := by
  rw [if_neg]
  rw [(drift_le_iff ht hq htol).mp h.near]
  exact Bool.false_ne_true

/-- Right after an encoder's time that leads, the progress is at the time that it is compared with. -/
theorem isInSync_encoder {n : Number} {k : Nat} (hpreview : b.lastPreview.IsAmount) (hk : n.extent = some (.within k))
    (hx : n.toDouble = .ok t) (ht : t.IsAmount) (hunits : t.units = roundUnits k 1)
    (hleads : (Number.float b.lastPreview).le n = true) :
    isInSync { b with lastEncoder := n } { p with output := t } = .ok (Binary64.zero.le b.tolerance) := by
  have hshown : (Number.float b.lastPreview).extent = some (.within b.lastPreview.units) := hpreview.extent_eq
  have hreference : ((Number.float b.lastPreview).max n).toDouble = .ok t := by
    unfold Number.max
    split
    · exact hx
    · rename_i hnot
      -- The two times are the same place, though one may be a whole number.
      have hle := (Number.le_iff hshown hk).mp hleads
      have hge : ¬ (b.lastPreview.units : Int) < k := mt (Number.lt_iff hshown hk).mpr hnot
      have hsame : b.lastPreview = t := hpreview.ext ht <| by
        rw [hunits, show k = b.lastPreview.units by omega, hpreview.roundUnits_units]
      rw [hsame]
      rfl
  rw [isInSync_eq (b := { b with lastEncoder := n }) hreference, gap_self ht]

/-- Right after a frame that leads, the progress is compared with the time of the frame. -/
theorem isInSync_frame (hleads : b.lastEncoder.le (.float b.lastPreview) = true) :
    b.isInSync p = .ok ((drift b.lastPreview p).le b.tolerance) := by
  refine isInSync_eq ?_
  rw [Number.max, Number.not_lt_of_le hleads]
  rfl

/-- A bridge that remembers other times is as sound. -/
theorem Sound.remember (h : b.Sound) (preview : Binary64) (encoder : Number) :
    Sound { b with lastPreview := preview, lastEncoder := encoder } := ⟨h.duration, h.tolerated⟩

end Bridge

namespace Drive
variable {s : Drive} {c : Call} {b : Bridge} {i : Int} {t : Binary64}

/-! ## Drives -/

/-- The bridge and the progress are sound. -/
structure Sound (s : Drive) : Prop where
  bridge : s.bridge.Sound
  progress : s.progress.Sound

theorem build_sound {p q : Progress} {fps tolerance frames : Value} (hp : p.Sound)
    (h : Bridge.build fps tolerance frames p = .ok (b, q)) : Sound ⟨b, q⟩ := by
  refine ⟨(Bridge.build_tolerance h).1, ?_⟩
  obtain ⟨_, _, _, -, -, -, -, rfl | ⟨v, hv⟩⟩ := Bridge.build_eq h
  · exact hp
  · exact hp.setTotal hv

theorem moving_sound {p : Progress} {r : Except BridgeError Progress} (hb : b.Sound) (hp : p.Sound)
    (hr : ∀ q, r = .ok q → q.Sound) : (moving p (b, r)).left.Sound := by
  cases r with
  | error e => exact ⟨hb, hp⟩
  | ok q => exact ⟨hb, hr q rfl⟩

theorem Sound.call (h : s.Sound) (c : Call) : (s.call c).left.Sound := by
  cases c with
  | build fps tolerance frames =>
    rw [Drive.call]
    cases hb : Bridge.build fps tolerance frames s.progress with
    | error e => exact h
    | ok bq => exact build_sound h.progress hb
  | encoder v =>
    rw [Drive.call]
    cases hv : Bridge.encoderTime v with
    | error e =>
      rw [Bridge.recordEncoder_error hv]
      exact h
    | ok n =>
      rw [Bridge.recordEncoder_ok hv]
      exact moving_sound (h.bridge.remember _ n) h.progress fun q hq => h.progress.setOutput (Bridge.bridging_eq_ok.mp hq)
  | frame v =>
    rw [Drive.call]
    cases hv : s.bridge.frameTime v with
    | error e =>
      rw [Bridge.recordFrame_error hv]
      exact h
    | ok t =>
      rw [Bridge.recordFrame_ok hv]
      refine moving_sound (h.bridge.remember t _) h.progress fun q hq => ?_
      cases hq
      split
      · exact { h.progress with output := isAmount_usable t }
      · exact h.progress
  | inSync =>
    rw [Drive.call]
    split <;> exact h
  | progress c =>
    rw [Drive.call]
    exact moving_sound h.bridge h.progress fun q hq => h.progress.call (Bridge.bridging_eq_ok.mp hq)

theorem Sound.after (h : s.Sound) (calls : List Call) : (s.after calls).Sound := by
  induction calls generalizing s with
  | nil => exact h
  | cons c calls ih => exact ih (h.call c)

/-- A frame settles the progress, and telling of it again changes nothing. -/
theorem frame_reconciles (h : s.Sound) (hi : 0 ≤ i) (ht : s.bridge.timeOf i = .ok t) (hfin : t.isFinite = true) :
    ∃ q, s.call (.frame (.int i)) = .ok (.moved q) ⟨{ s.bridge with lastPreview := t }, q⟩ ∧
      s.bridge.Settled s.progress t q ∧
      (Drive.mk { s.bridge with lastPreview := t } q).call (.frame (.int i)) =
        .ok (.moved q) ⟨{ s.bridge with lastPreview := t }, q⟩ := by
  obtain ⟨hamount, htol⟩ := Bridge.timeOf_isAmount h.bridge hi ht hfin
  have hfirst : s.call (.frame (.int i)) = moving s.progress (s.bridge.recordFrame s.progress (.int i)) := rfl
  rw [Bridge.recordFrame_ok (Bridge.frameTime_eq hi ht)] at hfirst
  have hsettled := Bridge.frame_settles h.progress hamount htol
  generalize (if s.bridge.tolerance.lt (Bridge.drift t s.progress) then _ else s.progress : Progress) = q at hfirst hsettled
  have hq : q.Sound := by
    have := h.call (.frame (.int i))
    rw [hfirst] at this
    exact this.progress
  refine ⟨q, hfirst, hsettled, ?_⟩
  -- The bridge remembers another time now, but a frame takes as long as before.
  have hagain : Bridge.recordFrame { s.bridge with lastPreview := t } q (.int i) = _ :=
    Bridge.recordFrame_ok (Bridge.frameTime_eq hi (b := { s.bridge with lastPreview := t }) ht)
  rw [Drive.call, hagain]
  rw [show (if Binary64.lt s.bridge.tolerance (Bridge.drift t q) then { q with output := usable t } else q) = q from
    hsettled.again hq hamount htol]
  rfl

/-! ## Runs of signals -/

/-- A signal with a finite time, or the question whether the signals are in sync. -/
inductive Regular (b : Bridge) : Call → Prop
  | encoder {n : Number} (hn : n.isFinite = .ok true) : Regular b (.encoder (.number n))
  | frame {i : Int} {t : Binary64} (hi : 0 ≤ i) (ht : b.timeOf i = .ok t) (hfin : t.isFinite = true) : Regular b (.frame (.int i))
  | inSync : Regular b .inSync

/-- The time that was told by a call is at least the one that the other signal told last. -/
def Leads (s : Drive) : Call → Prop
  | .encoder _ => (Number.float s.bridge.lastPreview).le s.bridge.lastEncoder = true
  | .frame _ => s.bridge.lastEncoder.le (.float s.bridge.lastPreview) = true
  | _ => False

/-- What signals keep of a bridge. -/
structure Driven (b : Bridge) (s : Drive) : Prop where
  duration : s.bridge.frameDuration = b.frameDuration
  tolerance : s.bridge.tolerance = b.tolerance
  preview : s.bridge.lastPreview.IsAmount
  encoder : s.bridge.lastEncoder.Covered
  progress : s.progress.Sound

theorem Driven.sound (h : Driven b s) (hb : b.Sound) : s.Sound where
  bridge := ⟨h.duration ▸ hb.duration, h.duration ▸ h.tolerance ▸ hb.tolerated⟩
  progress := h.progress

theorem zero_le_tolerance (hb : b.Sound) : Binary64.zero.le b.tolerance = !b.tolerance.isNaN := by
  cases hnan : b.tolerance.isNaN with
  | false => exact hb.tolerated (.inr hnan)
  | true =>
    cases htol : b.tolerance with
    | nan => rfl
    | infinite | finite =>
      rw [htol] at hnan
      cases hnan

/-- An encoder's time is taken over, and in sync if it leads. -/
theorem Driven.encoder_step (h : Driven b s) (hb : b.Sound) {n : Number} (hn : n.isFinite = .ok true) :
    ∃ a s', s.call (.encoder (.number n)) = .ok a s' ∧ Driven b s' ∧
      (Leads s' (.encoder (.number n)) → s'.bridge.isInSync s'.progress = .ok (!b.tolerance.isNaN)) := by
  obtain ⟨k, x, hk, hx, hamount, hunits⟩ := Number.raised_isAmount hn
  have hset : s.progress.setOutput (.number (Number.zero.max n)) = .ok { s.progress with output := x } := by
    rw [Progress.setOutput, usableTime_number hx, usable_of_isAmount hamount]
    rfl
  have hcall : s.call (.encoder (.number n)) =
      .ok (.moved { s.progress with output := x })
        ⟨{ s.bridge with lastEncoder := Number.zero.max n }, { s.progress with output := x }⟩ := by
    rw [call, Bridge.recordEncoder_ok (show Bridge.encoderTime (.number n) = .ok (Number.zero.max n) from rfl)]
    change moving s.progress (_, bridging (s.progress.setOutput (.number (Number.zero.max n)))) = _
    rw [hset]
    rfl
  have hcovered := (Number.succeeds_toDouble _).mp ⟨x, hx⟩
  refine ⟨_, _, hcall, ⟨h.duration, h.tolerance, h.preview, hcovered, { h.progress with output := hamount }⟩, fun hleads => ?_⟩
  rw [Bridge.isInSync_encoder h.preview hk hx hamount hunits hleads, ← zero_le_tolerance hb, h.tolerance]

/-- A frame is taken over, and in sync if it leads. -/
theorem Driven.frame_step (h : Driven b s) (hb : b.Sound) (hi : 0 ≤ i) (ht : b.timeOf i = .ok t) (hfin : t.isFinite = true) :
    ∃ a s', s.call (.frame (.int i)) = .ok a s' ∧ Driven b s' ∧
      (Leads s' (.frame (.int i)) → s'.bridge.isInSync s'.progress = .ok (!b.tolerance.isNaN)) := by
  obtain ⟨hamount, htol⟩ := Bridge.timeOf_isAmount hb hi ht hfin
  have htime : s.bridge.timeOf i = .ok t := by
    rw [← ht]
    unfold Bridge.timeOf
    rw [h.duration]
  have hs := h.sound hb
  obtain ⟨q, hcall, hsettled, -⟩ := frame_reconciles hs hi htime hfin
  have hq := hs.call (.frame (.int i))
  rw [hcall] at hq
  refine ⟨_, _, hcall, ⟨h.duration, h.tolerance, hamount, h.encoder, hq.progress⟩, fun hleads => ?_⟩
  have hnear : (Bridge.drift t q).le s.bridge.tolerance = true := hsettled.near
  rw [Bridge.isInSync_frame hleads, ← zero_le_tolerance hb, htol]
  exact congrArg Except.ok hnear

theorem Driven.step (h : Driven b s) (hb : b.Sound) (hc : Regular b c) : ∃ a s', s.call c = .ok a s' ∧ Driven b s' ∧
    (Leads s' c → s'.bridge.isInSync s'.progress = .ok (!b.tolerance.isNaN)) := by
  cases hc with
  | encoder hn => exact h.encoder_step hb hn
  | frame hi ht hfin => exact h.frame_step hb hi ht hfin
  | inSync =>
    obtain ⟨yes, hyes⟩ := Bridge.isInSync_covered (p := s.progress) h.encoder
    exact ⟨.synced yes, s, by rw [call, hyes], h, False.elim⟩

theorem Driven.after (h : Driven b s) (hb : b.Sound) {calls : List Call} (hcalls : ∀ c ∈ calls, Regular b c) :
    Driven b (s.after calls) := by
  induction calls generalizing s with
  | nil => exact h
  | cons c calls ih =>
    obtain ⟨a, s', hcall, hdriven, -⟩ := h.step hb (hcalls c List.mem_cons_self)
    have hrest := ih hdriven fun d hd => hcalls d (List.mem_cons_of_mem c hd)
    change Driven b ((s.call c).left.after calls)
    rw [hcall]
    exact hrest

theorem build_driven {p q : Progress} {fps tolerance frames : Value} (hp : p.Sound)
    (h : Bridge.build fps tolerance frames p = .ok (b, q)) : Driven b ⟨b, q⟩ := by
  have hsound := (build_sound hp h).progress
  obtain ⟨_, _, _, -, -, -, rfl, -⟩ := Bridge.build_eq h
  exact ⟨rfl, rfl, isAmount_zero, trivial, hsound⟩

/-- Wherever calls on a bridge and its progress have led, a frame with a finite time moves the progress to that time exactly
if it was further away than is tolerated, so that it no longer is, and telling of the frame again changes nothing. Where
only finite signals are told, a signal that leads is in sync, if the tolerance is a number; and it is one unless no frame of
an infinite duration is tolerated. -/
theorem signals_reconciled {p q : Progress} {fps tolerance frames : Value} (hp : p.Reached)
    (hb : Bridge.build fps tolerance frames p = .ok (b, q)) :
    (∀ calls i t, let s := (Drive.mk b q).after calls
      0 ≤ i → s.bridge.timeOf i = .ok t → t.isFinite = true →
      ∃ q', s.call (.frame (.int i)) = .ok (.moved q') ⟨{ s.bridge with lastPreview := t }, q'⟩ ∧
        s.bridge.Settled s.progress t q' ∧
        (Drive.mk { s.bridge with lastPreview := t } q').call (.frame (.int i)) =
          .ok (.moved q') ⟨{ s.bridge with lastPreview := t }, q'⟩) ∧
      (b.tolerance.isNaN = true ↔
        b.frameDuration.isFinite = false ∧ ∃ n, toleratedFrames tolerance = .ok n ∧ n.isZero = true) ∧
      ∀ calls c, (∀ d ∈ calls ++ [c], Regular b d) →
        let s := (Drive.mk b q).after (calls ++ [c])
        s.Leads c → s.bridge.isInSync s.progress = .ok (!b.tolerance.isNaN) := by
  obtain ⟨hsound, hnan⟩ := Bridge.build_tolerance hb
  refine ⟨fun calls i t => frame_reconciles ((build_sound hp.sound hb).after calls), hnan, fun calls c hcalls => ?_⟩
  have hbefore := (build_driven hp.sound hb).after hsound fun d hd => hcalls d (List.mem_append_left _ hd)
  have hlast := hcalls c (List.mem_append_right _ List.mem_cons_self)
  obtain ⟨a, s', hcall, -, hsync⟩ := hbefore.step hsound hlast
  have hleft : (Drive.mk b q).after (calls ++ [c]) = s' := by
    rw [after_append, after_singleton, hcall]
    rfl
  rw [hleft]
  exact hsync

/-- A frame that ends after two seconds moves a progress of one second, and is in sync. -/
theorem later_frame_in_sync :
    let b : Bridge := ⟨Binary64.ofNat 40, Binary64.ofNat 40, .zero, .zero⟩
    let p : Progress := ⟨.zero, none, none, false⟩
    let s : Drive := ⟨{ b with lastEncoder := .int 1000 }, { p with output := Binary64.ofNat 1000 }⟩
    p.Reached ∧ Bridge.build (.int 25) .null .null p = .ok (b, p) ∧ (Drive.mk b p).after [.encoder (.int 1000)] = s ∧
      s.bridge.timeOf 49 = .ok (Binary64.ofNat 2000) ∧ (Binary64.ofNat 2000).isFinite = true ∧
      s.call (.frame (.int 49)) = .ok (.moved { p with output := Binary64.ofNat 2000 })
        ⟨{ s.bridge with lastPreview := Binary64.ofNat 2000 }, { p with output := Binary64.ofNat 2000 }⟩ ∧
      (∀ d ∈ [Call.encoder (.int 1000)] ++ [.frame (.int 49)], Regular b d) ∧
      let later := (Drive.mk b p).after ([Call.encoder (.int 1000)] ++ [.frame (.int 49)])
      later.Leads (.frame (.int 49)) ∧ later.bridge.isInSync later.progress = .ok true := by
  intro b p s
  have hp : p.Reached := ⟨.null, p, [], rfl, rfl⟩
  have hbuild : Bridge.build (.int 25) .null .null p = .ok (b, p) := by decide +kernel
  have hencoder : Bridge.recordEncoder b p (.int 1000) = (s.bridge, .ok s.progress) := by decide +kernel
  have hafter : (Drive.mk b p).after [.encoder (.int 1000)] = s := by
    rw [after_singleton, call, hencoder]
    rfl
  have htime : s.bridge.timeOf 49 = .ok (Binary64.ofNat 2000) := by decide +kernel
  have hfinite : (Binary64.ofNat 2000).isFinite = true := by decide +kernel
  -- What the frame leads to follows from the theorem; only the numbers are left to be worked out.
  obtain ⟨hframe, -, hrun⟩ := signals_reconciled hp hbuild
  have hshown := hframe [.encoder (.int 1000)] 49 (Binary64.ofNat 2000)
  rw [hafter] at hshown
  obtain ⟨q, hcall, hsettled, -⟩ := hshown (by decide) htime hfinite
  have hmoved : q = { p with output := Binary64.ofNat 2000 } := hsettled.moved (by decide +kernel)
  rw [hmoved] at hcall
  have hregular : ∀ d ∈ [Call.encoder (.int 1000)] ++ [.frame (.int 49)], Regular b d := by
    intro d hd
    rcases List.mem_cons.mp hd with rfl | hd
    · exact .encoder (by decide +kernel)
    · rw [List.mem_singleton.mp hd]
      exact .frame (by decide) htime hfinite
  have hlater : (Drive.mk b p).after ([Call.encoder (.int 1000)] ++ [.frame (.int 49)]) =
      ⟨{ s.bridge with lastPreview := Binary64.ofNat 2000 }, { p with output := Binary64.ofNat 2000 }⟩ := by
    rw [after_append, hafter, after_singleton, hcall]
    rfl
  have hleads : ((Drive.mk b p).after ([Call.encoder (.int 1000)] ++ [.frame (.int 49)])).Leads (.frame (.int 49)) := by
    rw [hlater]
    change Number.le _ _ = true
    decide +kernel
  have hnumber : b.tolerance.isNaN = false := by decide +kernel
  have hsync := hrun _ _ hregular hleads
  rw [hnumber] at hsync
  exact ⟨hp, hbuild, hafter, htime, hfinite, hcall, hregular, hleads, hsync⟩

/-- Where no frame of an infinite duration is tolerated, the one signal that was told is not in sync with the progress
that it has just set. -/
theorem infinite_frame_out_of_sync :
    let fps := Value.double (Binary64.ofDecimal false 5 (-324))
    let b : Bridge := ⟨.infinite false, .nan, .zero, .zero⟩
    let p : Progress := ⟨.zero, none, none, false⟩
    let five := Binary64.ofNat 5
    p.Reached ∧ Bridge.build fps (.int 0) .null p = .ok (b, p) ∧ Regular b (.encoder (.double five)) ∧
      let s := (Drive.mk b p).after [.encoder (.double five)]
      s.Leads (.encoder (.double five)) ∧ s.bridge.lastEncoder = .float five ∧ s.progress.output = five ∧
        s.bridge.isInSync s.progress = .ok false := by
  intro fps b p five
  have hencoder : Bridge.recordEncoder b p (.double five) =
    ({ b with lastEncoder := .float five }, .ok { p with output := five }) := by decide +kernel
  have hafter : (Drive.mk b p).after [.encoder (.double five)] =
      ⟨{ b with lastEncoder := .float five }, { p with output := five }⟩ := by
    rw [after_singleton, call, hencoder]
    rfl
  refine ⟨⟨.null, p, [], rfl, rfl⟩, by decide +kernel, .encoder (by decide +kernel), ?_⟩
  rw [hafter]
  refine ⟨?_, rfl, rfl, by decide +kernel⟩
  change Number.le _ _ = true
  decide +kernel

end Drive
end MediaEngine.Job
