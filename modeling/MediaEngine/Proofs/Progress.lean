import MediaEngine.Job.Progress
import MediaEngine.Proofs.Compile.Arithmetic
import MediaEngine.Proofs.Magnitudes

/-! # What a progress comes to

A progress is moved by calls with values of any kind. Each call finds its time before it writes a field, so a call that
fails has written nothing (`writes_eq`). Whatever is called, the times are amounts and the part that is done lies between
zero and one; a total that was once set ends all estimates (`measured_throughout`). Against a whole that is greater than
zero the part rises with the output, up to one, as long as the quotient of the two has a double
(`ratio_rises_and_saturates`). -/

namespace MediaEngine.Job
open Binary64

/-! ## Usable times -/

section UsableTime
variable {v : Value} {n : Number} {x t : Binary64} {i : Int}

/-- A double as a time: itself if it is positive and finite, and zero otherwise. -/
def usable (x : Binary64) : Binary64 := if x.isFinite && Binary64.zero.lt x then x else .zero

theorem usableTime_number (hx : n.toDouble = .ok x) : usableTime (.number n) = .ok (usable x) := by
  rw [usableTime, hx]
  rfl

theorem usableTime_covered (h : n.Covered) : ∃ t, usableTime (.number n) = .ok t := by
  obtain ⟨x, hx⟩ := (Number.succeeds_toDouble n).mpr h
  exact ⟨_, usableTime_number hx⟩

theorem isAmount_usable (x : Binary64) : (usable x).IsAmount := by
  unfold usable
  split
  · rename_i h
    rw [Bool.and_eq_true] at h
    exact isAmount_of_pos h.1 h.2
  · exact isAmount_zero

/-- An amount is a time as it stands. -/
theorem usable_of_isAmount (h : x.IsAmount) : usable x = x := by
  unfold usable
  split
  · rfl
  · rename_i hnot
    rw [h.isFinite, Bool.true_and, isAmount_zero.lt_iff h] at hnot
    exact isAmount_zero.ext h (Nat.le_zero.mp (Nat.not_lt.mp hnot)).symm

theorem usableTime_isAmount (h : usableTime v = .ok t) : t.IsAmount := by
  cases v with
  | number n =>
    obtain ⟨x, hx, -⟩ := bind_eq_ok.mp h
    rw [usableTime_number hx] at h
    cases h
    exact isAmount_usable x
  | null | bool | text | list | object =>
    cases h
    exact isAmount_zero

theorem amounts_none : ∀ x ∈ (none : Option Binary64), x.IsAmount := fun _ h => by cases h

theorem usableTimeOr_isAmount {o : Option Binary64} (h : usableTimeOr v = .ok o) : ∀ x ∈ o, x.IsAmount := by
  cases v with
  | null =>
    cases h
    exact amounts_none
  | bool | number | text | list | object =>
    obtain ⟨t, ht, hret⟩ := bind_eq_ok.mp h
    cases hret
    intro x hx
    cases hx
    exact usableTime_isAmount ht

/-- The time that a number comes to is what is above zero of it, rounded. -/
theorem usableTime_units (hn : n.extent = some (.within i)) (ht : usableTime (.number n) = .ok t) :
    t.units = roundUnits i.toNat 1 := by
  obtain ⟨x, hx, -⟩ := bind_eq_ok.mp ht
  obtain ⟨s, u, fits, rfl, hu, hpos, hneg⟩ := Number.toDouble_shape hn hx
  rw [usableTime_number hx] at ht
  cases ht
  cases s with
  | false =>
    rw [usable_of_isAmount ⟨u, fits, rfl⟩, show i.toNat = i.natAbs by have := hpos rfl; omega]
    exact hu
  | true =>
    rw [show i.toNat = 0 by have := hneg rfl; omega, usable, if_neg]
    · exact (roundUnits_small (by decide)).symm
    · simp only [Binary64.isFinite, Bool.true_and]
      exact fun h => absurd (of_decide_eq_true (p := (0 : Int) < -(u : Int)) h) (by omega)

end UsableTime

namespace Progress

/-! ## Calls -/

/-- A call on a progress. -/
inductive Call where
  | output (v : Value)
  | total (v : Value)
  | estimate (v : Value)

/-- What a call makes of a progress. -/
def call (p : Progress) : Call → Except ArithmeticError Progress
  | .output v => p.setOutput v
  | .total v => p.setTotal v
  | .estimate v => p.setEstimate v

/-- The progress that a call leaves: the one before, where it fails. -/
def leave (p : Progress) (c : Call) : Progress :=
  match p.call c with
  | .ok q => q
  | .error _ => p

/-- The progress that calls leave, one after the other, those that fail included. -/
def after (p : Progress) (calls : List Call) : Progress := calls.foldl leave p

/-- A progress that calls lead to. -/
def Reached (p : Progress) : Prop := ∃ estimate p₀ calls, start estimate = .ok p₀ ∧ p = p₀.after calls

/-- What a call does to the fields, in its order: it finds a time, and writes one field after the other. -/
def Call.writes : Call → EStateM ArithmeticError Progress Unit
  | .output v => do
    let time ← ofExcept (usableTime v)
    modify fun p => { p with output := time }
  | .total .null => modify fun p => { p with total := none }
  | .total v => do
    let time ← ofExcept (usableTime v)
    modify fun p => { p with total := some time }
    modify fun p => { p with estimate := none }
    modify fun p => { p with locked := true }
  | .estimate v => do
    if (← get).locked then return
    let time ← ofExcept (usableTimeOr v)
    modify fun p => { p with estimate := time }

/-- The outcome of what either happens as a whole or leaves everything as it was. -/
def wholly {ε σ : Type} (s : σ) : Except ε σ → EStateM.Result ε σ Unit
  | .ok t => .ok () t
  | .error e => .error e s

/-- A call writes all that it makes of a progress, or nothing. -/
theorem writes_eq (c : Call) (p : Progress) : c.writes p = wholly p (p.call c) := by
  cases c with
  | output v =>
    change EStateM.bind _ _ p = wholly p (p.setOutput v)
    simp only [EStateM.bind, Progress.setOutput]
    cases usableTime v <;> rfl
  | total v =>
    cases v with
    | null => rfl
    | bool | number | text | list | object =>
      simp only [Call.writes, Progress.call, Progress.setTotal]
      generalize usableTime _ = r
      cases r <;> rfl
  | estimate v =>
    obtain ⟨output, total, estimate, locked⟩ := p
    cases locked with
    | true => rfl
    | false =>
      change EStateM.bind _ _ _ = wholly _ (do return Progress.mk output total (← usableTimeOr v) false)
      simp only [EStateM.bind]
      cases usableTimeOr v <;> rfl

/-! ## Times in range -/

/-- The times of a progress are amounts. -/
structure Sound (p : Progress) : Prop where
  output : p.output.IsAmount
  total : ∀ t ∈ p.total, t.IsAmount
  estimate : ∀ t ∈ p.estimate, t.IsAmount

/-- A total was set, and there is no estimate. -/
structure Closed (p : Progress) : Prop where
  locked : p.locked = true
  estimate : p.estimate = none

section Calls
variable {p q : Progress} {c : Call}

theorem setOutput_double (x : Binary64) : p.setOutput (.double x) = .ok { p with output := usable x } := by
  rw [Progress.setOutput, Value.double, usableTime_number rfl]
  rfl

theorem start_sound {estimate : Value} (h : start estimate = .ok p) : Sound p := by
  obtain ⟨o, ho, hret⟩ := bind_eq_ok.mp h
  cases hret
  exact ⟨isAmount_zero, amounts_none, usableTimeOr_isAmount ho⟩

theorem Sound.setOutput {v : Value} (hp : Sound p) (h : p.setOutput v = .ok q) : Sound q := by
  obtain ⟨t, ht, hret⟩ := bind_eq_ok.mp h
  cases hret
  exact { hp with output := usableTime_isAmount ht }

/-- A total that is something closes the estimates. -/
theorem setTotal_eq {v : Value} (hv : v ≠ .null) (h : p.setTotal v = .ok q) :
    ∃ t, usableTime v = .ok t ∧ q = { p with total := some t, estimate := none, locked := true } := by
  cases v with
  | null => exact absurd rfl hv
  | bool | number | text | list | object =>
    obtain ⟨t, ht, hret⟩ := bind_eq_ok.mp h
    cases hret
    exact ⟨t, ht, rfl⟩

theorem Sound.setTotal {v : Value} (hp : Sound p) (h : p.setTotal v = .ok q) : Sound q := by
  by_cases hv : v = .null
  · subst hv
    cases h
    exact { hp with total := amounts_none }
  · obtain ⟨t, ht, rfl⟩ := setTotal_eq hv h
    refine ⟨hp.output, fun x hx => ?_, amounts_none⟩
    cases hx
    exact usableTime_isAmount ht

theorem Sound.setEstimate {v : Value} (hp : Sound p) (h : p.setEstimate v = .ok q) : Sound q := by
  unfold Progress.setEstimate at h
  split at h
  · cases h
    exact hp
  · obtain ⟨o, ho, hret⟩ := bind_eq_ok.mp h
    cases hret
    exact { hp with estimate := usableTimeOr_isAmount ho }

theorem Sound.call (hp : Sound p) (h : p.call c = .ok q) : Sound q := by
  cases c with
  | output v => exact hp.setOutput h
  | total v => exact hp.setTotal h
  | estimate v => exact hp.setEstimate h

theorem Closed.call (hp : Closed p) (h : p.call c = .ok q) : Closed q := by
  cases c with
  | output v =>
    obtain ⟨t, -, hret⟩ := bind_eq_ok.mp h
    cases hret
    exact ⟨hp.locked, hp.estimate⟩
  | total v =>
    by_cases hv : v = .null
    · subst hv
      cases h
      exact ⟨hp.locked, hp.estimate⟩
    · obtain ⟨t, -, rfl⟩ := setTotal_eq hv h
      exact ⟨rfl, rfl⟩
  | estimate v =>
    rw [Progress.call, Progress.setEstimate, if_pos hp.locked] at h
    cases h
    exact hp

/-- What each call that succeeds keeps holds after all calls. -/
theorem after_induction {P : Progress → Prop} (step : ∀ p q c, P p → p.call c = .ok q → P q) (hp : P p) (calls : List Call) :
    P (p.after calls) := by
  induction calls generalizing p with
  | nil => exact hp
  | cons c calls ih =>
    refine ih ?_
    unfold leave
    cases h : p.call c with
    | ok q => exact step p q c hp h
    | error e => exact hp

theorem Sound.after (hp : Sound p) (calls : List Call) : Sound (p.after calls) :=
  after_induction (fun _ _ _ hp h => hp.call h) hp calls

theorem Closed.after (hp : Closed p) (calls : List Call) : Closed (p.after calls) :=
  after_induction (fun _ _ _ hp h => hp.call h) hp calls

theorem Reached.sound (h : p.Reached) : Sound p := by
  obtain ⟨estimate, p₀, calls, hstart, rfl⟩ := h
  exact (start_sound hstart).after calls

end Calls

/-! ## The part that is done -/

section Ratio
variable {p : Progress} {d : Binary64}

theorem Sound.denominator (hp : Sound p) (hd : p.denominator = some d) : d.IsAmount := by
  unfold Progress.denominator at hd
  cases ht : p.total with
  | some t =>
    rw [ht] at hd
    cases hd
    exact hp.total d ht
  | none =>
    rw [ht] at hd
    exact hp.estimate d hd

theorem ratio_of_outgrows (hp : Sound p) (hd : p.denominator = some d) (h : Outgrows p.output d) : p.ratio = .zero := by
  have hamount := hp.denominator hd
  simp only [ratio, hd]
  split
  · rename_i hpos
    have hinfinite : ¬ (p.output.div d).isFinite = true := fun hfinite =>
      (div_isFinite hp.output hamount ((isAmount_zero.lt_iff hamount).mp hpos)).mp hfinite h
    rw [if_neg hinfinite]
  · rfl

/-- The part is the quotient, or one where the quotient is greater. -/
theorem ratio_units (hp : Sound p) (hd : p.denominator = some d) (hpos : 0 < d.units) (h : ¬ Outgrows p.output d) :
    p.ratio.IsAmount ∧ p.ratio.units = Nat.min one (roundUnits (p.output.units * one) d.units) := by
  have hamount := hp.denominator hd
  have hraw := div_isAmount hp.output hamount hpos h
  have hcut := isAmount_one.1.min hraw.1
  have hraised := isAmount_zero.max hcut.1
  have heq : p.ratio = Binary64.zero.max ((Binary64.ofNat 1).min (p.output.div d)) := by
    simp only [ratio, hd]
    rw [if_pos ((isAmount_zero.lt_iff hamount).mpr hpos), if_pos hraw.1.isFinite]
  rw [heq]
  refine ⟨hraised.1, ?_⟩
  rw [hraised.2, hcut.2, isAmount_one.2, hraw.2]
  exact Nat.zero_max _

theorem ratio_range (hp : Sound p) : p.ratio.IsAmount ∧ p.ratio.units ≤ one := by
  have hzero : p.ratio = .zero → p.ratio.IsAmount ∧ p.ratio.units ≤ one := fun h => by
    rw [h]
    exact ⟨isAmount_zero, Nat.zero_le _⟩
  cases hd : p.denominator with
  | none =>
    refine hzero ?_
    simp only [ratio, hd]
  | some d =>
    by_cases hpos : Binary64.zero.lt d = true
    · by_cases h : Outgrows p.output d
      · exact hzero (ratio_of_outgrows hp hd h)
      · obtain ⟨hamount, hunits⟩ := ratio_units hp hd ((isAmount_zero.lt_iff (hp.denominator hd)).mp hpos) h
        exact ⟨hamount, hunits ▸ Nat.min_le_left _ _⟩
    · refine hzero ?_
      simp only [ratio, hd]
      exact if_neg hpos

end Ratio

/-! ## All calls -/

/-- The times are finite and not negative, and the part that is done is a finite number from zero to one. -/
structure InRange (p : Progress) : Prop where
  output : p.output.isFinite = true ∧ Binary64.zero.le p.output = true
  total : ∀ t ∈ p.total, t.isFinite = true ∧ Binary64.zero.le t = true
  estimate : ∀ t ∈ p.estimate, t.isFinite = true ∧ Binary64.zero.le t = true
  ratio : p.ratio.isFinite = true ∧ Binary64.zero.le p.ratio = true ∧ p.ratio.le (.ofNat 1) = true

theorem Sound.inRange {p : Progress} (hp : Sound p) : InRange p := by
  obtain ⟨hratio, hone⟩ := ratio_range hp
  exact {
    output := ⟨hp.output.isFinite, hp.output.nonneg⟩
    total := fun t ht => ⟨(hp.total t ht).isFinite, (hp.total t ht).nonneg⟩
    estimate := fun t ht => ⟨(hp.estimate t ht).isFinite, (hp.estimate t ht).nonneg⟩
    ratio := ⟨hratio.isFinite, hratio.nonneg, (hratio.le_iff isAmount_one.1).mpr (isAmount_one.2 ▸ hone)⟩ }

theorem after_total (p : Progress) (before rest : List Call) (v : Value) :
    p.after (before ++ .total v :: rest) = ((p.after before).leave (.total v)).after rest := by
  rw [after, List.foldl_append, List.foldl_cons]
  rfl

/-- Whatever the calls on a progress, those that fail included, it stays in range; from a total on that was set to
something there is no estimate, so that nothing is done of a total that was taken back; and a call that fails writes
nothing. -/
theorem measured_throughout {estimate : Value} {p : Progress} (h : start estimate = .ok p) (calls : List Call) :
    InRange (p.after calls) ∧
      (∀ before v rest, calls = before ++ .total v :: rest → v ≠ .null → Succeeds ((p.after before).setTotal v) →
        (p.after calls).estimate = none ∧ ((p.after calls).total = none → (p.after calls).ratio = .zero)) ∧
      ∀ c : Call, c.writes (p.after calls) = wholly (p.after calls) ((p.after calls).call c) := by
  refine ⟨((start_sound h).after calls).inRange, ?_, fun c => writes_eq c _⟩
  rintro before v rest rfl hv ⟨q, hq⟩
  have hclosed : Closed ((p.after before).leave (.total v)) := by
    rw [leave, call, hq]
    obtain ⟨t, -, rfl⟩ := setTotal_eq hv hq
    exact ⟨rfl, rfl⟩
  rw [after_total]
  have hafter := hclosed.after rest
  refine ⟨hafter.estimate, fun htotal => ?_⟩
  simp only [ratio, denominator, htotal, hafter.estimate]
  rfl

/-- A total beyond all doubles fails, one of a second is set and taken back, and an estimate comes too late. -/
theorem cleared_total_closes : ∃ p, start (.int 8000) = .ok p ∧
    let calls := [.total (.int (10 ^ 400)), .total (.int 1000), .output (.int 2500), .total .null, .estimate (.int 5)]
    InRange (p.after calls) ∧ (p.after calls).estimate = none ∧ (p.after calls).total = none ∧
      (p.after calls).ratio = .zero := by
  have hstart : start (.int 8000) = .ok ⟨.zero, none, some (Binary64.ofNat 8000), false⟩ := by decide +kernel
  have hset : Succeeds (Progress.setTotal (after ⟨.zero, none, some (Binary64.ofNat 8000), false⟩ [.total (.int (10 ^ 400))])
      (.int 1000)) := ⟨⟨.zero, some (Binary64.ofNat 1000), none, true⟩, by decide +kernel⟩
  obtain ⟨hrange, hlater, -⟩ := measured_throughout hstart
    [.total (.int (10 ^ 400)), .total (.int 1000), .output (.int 2500), .total .null, .estimate (.int 5)]
  obtain ⟨hestimate, hratio⟩ := hlater [.total (.int (10 ^ 400))] (.int 1000) _ rfl Value.noConfusion hset
  have htotal : (after ⟨.zero, none, some (Binary64.ofNat 8000), false⟩ [.total (.int (10 ^ 400)), .total (.int 1000),
    .output (.int 2500), .total .null, .estimate (.int 5)]).total = none := by decide +kernel
  exact ⟨_, hstart, hrange, hestimate, htotal, hratio htotal⟩

/-! ## One call after another -/

section Rising
variable {p : Progress} {d : Binary64}

/-- The time that is done rises with what it is set to. -/
theorem setOutput_mono {a b : Number} (ha : a.isFinite = .ok true) (hb : b.isFinite = .ok true) (hle : a.le b = true) :
    ∃ x y, p.setOutput (.number a) = .ok { p with output := x } ∧ p.setOutput (.number b) = .ok { p with output := y } ∧
      x.IsAmount ∧ y.IsAmount ∧ x.units ≤ y.units := by
  obtain ⟨i, x, hai, hax⟩ := Number.extent_of_isFinite ha
  obtain ⟨j, y, hbj, hby⟩ := Number.extent_of_isFinite hb
  have hij := (Number.le_iff hai hbj).mp hle
  have hx := usableTime_number hax
  have hy := usableTime_number hby
  refine ⟨_, _, by rw [setOutput, hx]; rfl, by rw [setOutput, hy]; rfl, isAmount_usable x, isAmount_usable y, ?_⟩
  rw [usableTime_units hai hx, usableTime_units hbj hy]
  exact roundUnits_mono 1 (Int.toNat_le_toNat hij)

theorem ratio_mono {q : Progress} (hp : Sound p) (hq : Sound q) (hpd : p.denominator = some d) (hqd : q.denominator = some d)
    (hpos : 0 < d.units) (hle : p.output.units ≤ q.output.units) (h : ¬ Outgrows q.output d) :
    p.ratio.le q.ratio = true := by
  obtain ⟨hpa, hpu⟩ := ratio_units hp hpd hpos fun hout => h (Nat.le_trans hout hle)
  obtain ⟨hqa, hqu⟩ := ratio_units hq hqd hpos h
  rw [hpa.le_iff hqa, hpu, hqu]
  have hround := roundUnits_mono d.units (Nat.mul_le_mul_right one hle)
  exact Nat.le_min.mpr ⟨Nat.min_le_left _ _, Nat.le_trans (Nat.min_le_right _ _) hround⟩

theorem ratio_saturates (hp : Sound p) (hd : p.denominator = some d) (hpos : 0 < d.units) (hle : d.units ≤ p.output.units)
    (h : ¬ Outgrows p.output d) : p.ratio = .ofNat 1 := by
  obtain ⟨hamount, hunits⟩ := ratio_units hp hd hpos h
  refine hamount.ext isAmount_one.1 ?_
  rw [hunits, isAmount_one.2]
  have hone : Representable one := by decide +kernel
  refine Nat.min_eq_left ?_
  calc one = roundUnits (one * d.units) d.units := (roundUnits_exact hone.2 hpos).symm
    _ ≤ roundUnits (p.output.units * one) d.units :=
      roundUnits_mono _ (by rw [Nat.mul_comm]; exact Nat.mul_le_mul_right one hle)

/-- Against a whole above zero, the part after a smaller output is not the greater one, and from the whole on it is one.
Both hold as long as the quotient of the greater output has a double; a quotient without one counts as nothing done. -/
theorem ratio_rises_and_saturates (hp : p.Reached) (hd : p.denominator = some d) (hpos : Binary64.zero.lt d = true) :
    (∀ a b : Number, a.isFinite = .ok true → b.isFinite = .ok true → a.le b = true →
      ∃ pa pb, p.setOutput (.number a) = .ok pa ∧ p.setOutput (.number b) = .ok pb ∧
        (¬ Outgrows pb.output d → pa.ratio.le pb.ratio = true)) ∧
      (d.le p.output = true → ¬ Outgrows p.output d → p.ratio = .ofNat 1) ∧
      (Outgrows p.output d → p.ratio = .zero) := by
  have hsound := hp.sound
  have hamount := hsound.denominator hd
  have hunits := (isAmount_zero.lt_iff hamount).mp hpos
  refine ⟨fun a b ha hb hle => ?_, fun hle => ?_, ratio_of_outgrows hsound hd⟩
  · obtain ⟨x, y, hx, hy, hxa, hya, hxy⟩ := setOutput_mono ha hb hle
    exact ⟨_, _, hx, hy, ratio_mono { hsound with output := hxa } { hsound with output := hya } hd hd hunits hxy⟩
  · exact ratio_saturates hsound hd hunits ((hamount.le_iff hsound.output).mp hle)

end Rising

/-- Of one second, a quarter is not more than a half, and two and a half seconds are all. -/
theorem part_of_a_second_rises :
    let p : Progress := ⟨Binary64.ofNat 2500, some (Binary64.ofNat 1000), none, true⟩
    p.Reached ∧ p.denominator = some (Binary64.ofNat 1000) ∧ Binary64.zero.lt (Binary64.ofNat 1000) = true ∧
      (∃ pa pb, p.setOutput (.int 250) = .ok pa ∧ p.setOutput (.int 500) = .ok pb ∧ pa.ratio.le pb.ratio = true) ∧
      p.ratio = .ofNat 1 := by
  intro p
  have hp : p.Reached := ⟨.null, ⟨.zero, none, none, false⟩, [.total (.int 1000), .output (.int 2500)], rfl, by decide +kernel⟩
  have hpos : Binary64.zero.lt (Binary64.ofNat 1000) = true := by decide +kernel
  obtain ⟨hrises, hfull, -⟩ := ratio_rises_and_saturates hp (d := Binary64.ofNat 1000) rfl hpos
  obtain ⟨pa, pb, ha, hb, hle⟩ := hrises (.int 250) (.int 500) (by decide +kernel) (by decide +kernel) (by decide +kernel)
  have hhalf : p.setOutput (.int 500) = .ok { p with output := Binary64.ofNat 500 } := by decide +kernel
  cases hhalf.symm.trans hb
  exact ⟨hp, rfl, hpos, ⟨pa, _, ha, hb, hle (by decide +kernel)⟩, hfull (by decide +kernel) (by decide +kernel)⟩

/-- Of the least whole that is above zero, as much is all of it, and more is none. -/
theorem part_of_the_least_drops :
    let least := Binary64.ofDecimal false 5 (-324)
    let large := Binary64.ofDecimal false 1 308
    let p : Progress := ⟨.zero, some least, none, true⟩
    p.Reached ∧ p.denominator = some least ∧ Binary64.zero.lt least = true ∧
      least.isFinite = true ∧ large.isFinite = true ∧ least.le large = true ∧
      ∃ pa pb, p.setOutput (.double least) = .ok pa ∧ p.setOutput (.double large) = .ok pb ∧
        pa.ratio.le pb.ratio = false ∧ least.le pb.output = true ∧ pb.ratio ≠ .ofNat 1 := by
  intro least large p
  exact ⟨⟨.null, ⟨.zero, none, none, false⟩, [.total (.double least)], rfl, by decide +kernel⟩, rfl,
    by decide +kernel, by decide +kernel, by decide +kernel, by decide +kernel, { p with output := least },
    { p with output := large }, by decide +kernel, by decide +kernel, by decide +kernel, by decide +kernel, by decide +kernel⟩

end Progress

end MediaEngine.Job
