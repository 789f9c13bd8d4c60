import MediaEngine.Proofs.Decimals

/-! # The order of doubles

Rounding keeps the order of what is rounded (`roundUnits_mono`), so amounts can be compared by their units: an amount is
rounded to itself, and the gap between two amounts is an amount again, never beyond the larger of the two. A length may be
infinite as well, and products and quotients of lengths are lengths, but for nothing times something infinite. -/

namespace MediaEngine

/-! ## Rounding in order -/

theorem nearest_mono {m n : Nat} (den : Nat) (h : m ≤ n) : nearest m den ≤ nearest n den := by
  have hq : m / den ≤ n / den := Nat.div_le_div_right h
  rcases Nat.lt_or_eq_of_le hq with hlt | heq
  · calc nearest m den ≤ m / den + 1 := nearest_le m den
      _ ≤ n / den := hlt
      _ ≤ nearest n den := le_nearest n den
  · have hr : m % den ≤ n % den := by
      have hm := Nat.div_add_mod m den
      have hn := Nat.div_add_mod n den
      rw [heq] at hm
      omega
    simp only [nearest, heq]
    grind

namespace Binary64

/-- The larger quotient is not rounded to less. Where the two lie between different powers of two, there is a power
between what they are rounded to. -/
theorem roundUnits_mono {m n : Nat} (den : Nat) (h : m ≤ n) : roundUnits m den ≤ roundUnits n den := by
  have hq : m / den ≤ n / den := Nat.div_le_div_right h
  by_cases hs : (n / den).log2 - 52 ≤ (m / den).log2 - 52
  · have hlog : (m / den).log2 ≤ (n / den).log2 := by
      by_cases h0 : m / den = 0
      · simp [h0]
      · have hpos : n / den ≠ 0 := Nat.ne_of_gt (Nat.lt_of_lt_of_le (Nat.pos_of_ne_zero h0) hq)
        exact (Nat.le_log2 hpos).mpr (Nat.le_trans (Nat.log2_self_le h0) hq)
    have hspacing : spacing (m / den) = spacing (n / den) := by
      rw [spacing, spacing, show (m / den).log2 - 52 = (n / den).log2 - 52 by omega]
    rw [roundUnits, roundUnits, hspacing]
    exact Nat.mul_le_mul_right _ (nearest_mono _ h)
  · obtain ⟨k, hk⟩ : ∃ k, (n / den).log2 = k + 53 := ⟨(n / den).log2 - 53, by omega⟩
    have hm : m / den < 2 ^ (k + 53) := by
      by_cases h0 : m / den = 0
      · rw [h0]
        exact Nat.two_pow_pos _
      · exact (Nat.log2_lt h0).mp (by omega)
    have hn : 2 ^ (k + 1 + 52) ≤ n / den := by
      refine Nat.le_trans (Nat.pow_le_pow_right (by decide) ?_) (Nat.log2_self_le (n := n / den) ?_)
      · omega
      · intro h0
        simp [h0] at hk
    calc roundUnits m den ≤ 2 ^ (k + 53) := roundUnits_le hm
      _ = 2 ^ (k + 1 + 52) := by rw [show k + 53 = k + 1 + 52 by omega]
      _ ≤ roundUnits n den := le_roundUnits hn

/-! ## Amounts -/

/-- The units of a finite double, and none of another. -/
def units : Binary64 → Nat
  | .finite _ u _ => u
  | _ => 0

/-- A finite double without a sign. -/
def IsAmount (x : Binary64) : Prop := ∃ u fits, x = .finite false u fits

theorem isAmount_zero : IsAmount zero := ⟨0, _, rfl⟩

namespace IsAmount
variable {x y : Binary64}

theorem isFinite (h : x.IsAmount) : x.isFinite = true := by
  obtain ⟨u, fits, rfl⟩ := h
  rfl

theorem isNaN (h : x.IsAmount) : x.isNaN = false := by
  obtain ⟨u, fits, rfl⟩ := h
  rfl

theorem ext (hx : x.IsAmount) (hy : y.IsAmount) (h : x.units = y.units) : x = y := by
  obtain ⟨u, fits, rfl⟩ := hx
  obtain ⟨v, fits', rfl⟩ := hy
  cases show u = v from h
  rfl

theorem lt_iff (hx : x.IsAmount) (hy : y.IsAmount) : x.lt y = true ↔ x.units < y.units := by
  obtain ⟨u, fits, rfl⟩ := hx
  obtain ⟨v, fits', rfl⟩ := hy
  exact decide_eq_true_iff.trans Int.ofNat_lt

theorem le_iff (hx : x.IsAmount) (hy : y.IsAmount) : x.le y = true ↔ x.units ≤ y.units := by
  obtain ⟨u, fits, rfl⟩ := hx
  obtain ⟨v, fits', rfl⟩ := hy
  change (!decide ((v : Int) < u)) = true ↔ u ≤ v
  simp

theorem nonneg (h : x.IsAmount) : zero.le x = true := (le_iff isAmount_zero h).mpr (Nat.zero_le _)

theorem extent_eq (h : x.IsAmount) : x.extent = some (.within x.units) := by
  obtain ⟨u, fits, rfl⟩ := h
  rfl

/-- An amount is rounded to itself. -/
theorem roundUnits_units (h : x.IsAmount) : roundUnits x.units 1 = x.units := by
  obtain ⟨u, fits, rfl⟩ := h
  have hexact := roundUnits_exact fits.2 Nat.one_pos
  rwa [Nat.mul_one] at hexact

theorem units_lt_limit (h : x.IsAmount) : x.units < limit := by
  obtain ⟨u, fits, rfl⟩ := h
  exact fits.1

theorem max (hx : x.IsAmount) (hy : y.IsAmount) : (x.max y).IsAmount ∧ (x.max y).units = Nat.max x.units y.units := by
  unfold Binary64.max
  split
  · rename_i hlt
    exact ⟨hy, (Nat.max_eq_right (Nat.le_of_lt ((hx.lt_iff hy).mp hlt))).symm⟩
  · rename_i hlt
    exact ⟨hx, (Nat.max_eq_left (Nat.not_lt.mp (mt (hx.lt_iff hy).mpr hlt))).symm⟩

theorem min (hx : x.IsAmount) (hy : y.IsAmount) : (x.min y).IsAmount ∧ (x.min y).units = Nat.min x.units y.units := by
  unfold Binary64.min
  split
  · rename_i hlt
    exact ⟨hy, (Nat.min_eq_right (Nat.le_of_lt ((hy.lt_iff hx).mp hlt))).symm⟩
  · rename_i hlt
    exact ⟨hx, (Nat.min_eq_left (Nat.not_lt.mp (mt (hy.lt_iff hx).mpr hlt))).symm⟩

end IsAmount

theorem isAmount_of_pos {x : Binary64} (hf : x.isFinite = true) (hp : zero.lt x = true) : x.IsAmount := by
  match x, hf with
  | .finite false u fits, _ => exact ⟨u, fits, rfl⟩
  | .finite true u fits, _ =>
    have hneg : (0 : Int) < -(u : Int) := of_decide_eq_true hp
    omega

/-- What is rounded to less than the limit is an amount. -/
theorem round_isAmount {num den : Nat} (h : roundUnits num den < limit) :
    (round false num den).IsAmount ∧ (round false num den).units = roundUnits num den := by
  rw [round_eq rfl ⟨h, spacing_dvd_roundUnits num den⟩]
  exact ⟨⟨_, _, rfl⟩, rfl⟩

/-- Either of two doubles that can be compared is less than the other or not less. -/
theorem le_eq_not_lt {x y : Binary64} (hx : x.extent.isSome = true) (hy : y.extent.isSome = true) : y.le x = !x.lt y := by
  obtain ⟨a, ha⟩ := Option.isSome_iff_exists.mp hx
  obtain ⟨b, hb⟩ := Option.isSome_iff_exists.mp hy
  simp only [Binary64.le, Binary64.lt, ha, hb]

/-! ## Gaps -/

/-- The units between two numbers of units. -/
def apart (a b : Nat) : Nat := ((a : Int) - b).natAbs

theorem apart_self (a : Nat) : apart a a = 0 := by simp [apart]

/-- The gap between two amounts is an amount: what is between them, rounded. -/
theorem gap_isAmount {x y : Binary64} (hx : x.IsAmount) (hy : y.IsAmount) :
    (x.sub y).abs.IsAmount ∧ (x.sub y).abs.units = roundUnits (apart x.units y.units) 1 := by
  have hxl := hx.units_lt_limit
  have hyl := hy.units_lt_limit
  have hxr := hx.roundUnits_units
  have hyr := hy.roundUnits_units
  obtain ⟨a, fa, rfl⟩ := hx
  obtain ⟨b, fb, rfl⟩ := hy
  change (add (.finite false a fa) (.finite true b fb)).abs.IsAmount ∧
    (add (.finite false a fa) (.finite true b fb)).abs.units = roundUnits (apart a b) 1
  change roundUnits a 1 = a at hxr
  change roundUnits b 1 = b at hyr
  have hsum : signed false a + signed true b = (a : Int) - b := by simp [signed, Int.sub_eq_add_neg]
  -- A gap is at most the larger of the two, and rounding keeps it there.
  have hbelow : roundUnits (apart a b) 1 < limit := by
    rcases Nat.le_total a b with hab | hab
    · have := roundUnits_mono 1 (show apart a b ≤ b by unfold apart; omega)
      rw [hyr] at this
      exact Nat.lt_of_le_of_lt this hyl
    · have := roundUnits_mono 1 (show apart a b ≤ a by unfold apart; omega)
      rw [hxr] at this
      exact Nat.lt_of_le_of_lt this hxl
  have habs : ∀ s : Bool, (round s (apart a b) 1).abs.IsAmount ∧ (round s (apart a b) 1).abs.units = roundUnits (apart a b) 1 := by
    intro s
    rw [round_eq rfl ⟨hbelow, spacing_dvd_roundUnits _ _⟩]
    exact ⟨⟨_, _, rfl⟩, rfl⟩
  simp only [add, hsum]
  split
  · rename_i h0
    have hzero : apart a b = 0 := by simp [apart, h0]
    rw [← hzero]
    exact habs _
  · exact habs _

theorem gap_self {x : Binary64} (hx : x.IsAmount) : (x.sub x).abs = zero := by
  obtain ⟨hamount, hunits⟩ := gap_isAmount hx hx
  refine hamount.ext isAmount_zero ?_
  rw [hunits, apart_self]
  exact roundUnits_small (by decide)

/-! ## Quotients -/

/-- The least whole number that is rounded beyond the finite doubles. -/
def ceiling : Nat := 2 ^ 1024 - 2 ^ 970

theorem covers_iff_lt {n : Int} : Covers n ↔ n.natAbs < ceiling := by rw [Covers, ceiling]

/-- An amount is so many times another that their quotient is rounded beyond the finite doubles. -/
def Outgrows (x y : Binary64) : Prop := y.units * ceiling ≤ x.units

instance (x y : Binary64) : Decidable (Outgrows x y) := inferInstanceAs (Decidable (_ ≤ _))

section Quotient
variable {x y : Binary64}

theorem outgrows_iff (hpos : 0 < y.units) : Outgrows x y ↔ ¬ roundUnits (x.units * one) y.units < limit := by
  have hedge : edge = ceiling * one := by rw [edge_scaled, ceiling]
  rw [roundUnits_lt_limit hpos, hedge, ← Nat.mul_assoc, Nat.mul_lt_mul_right one_pos, Nat.not_lt]
  exact Iff.rfl

theorem div_eq_round (hx : x.IsAmount) (hy : y.IsAmount) (hpos : 0 < y.units) :
    x.div y = round false (x.units * one) y.units := by
  obtain ⟨a, fa, rfl⟩ := hx
  obtain ⟨b, fb, rfl⟩ := hy
  exact if_neg (Nat.ne_of_gt hpos)

theorem div_isFinite (hx : x.IsAmount) (hy : y.IsAmount) (hpos : 0 < y.units) :
    (x.div y).isFinite = true ↔ ¬ Outgrows x y := by
  rw [div_eq_round hx hy hpos, round_isFinite, outgrows_iff hpos, not_not]

theorem div_isAmount (hx : x.IsAmount) (hy : y.IsAmount) (hpos : 0 < y.units) (h : ¬ Outgrows x y) :
    (x.div y).IsAmount ∧ (x.div y).units = roundUnits (x.units * one) y.units := by
  rw [div_eq_round hx hy hpos]
  exact round_isAmount (not_not.mp (mt (outgrows_iff hpos).mpr h))

end Quotient

theorem isAmount_ofNat {n : Nat} (h : Representable (n * one)) : (ofNat n).IsAmount ∧ (ofNat n).units = n * one := by
  have hexact := roundUnits_exact h.2 Nat.one_pos
  rw [Nat.mul_one] at hexact
  rw [ofNat, round_eq hexact h]
  exact ⟨⟨_, _, rfl⟩, rfl⟩

theorem isAmount_one : (ofNat 1).IsAmount ∧ (ofNat 1).units = one := by
  have h := isAmount_ofNat (n := 1) (by decide +kernel)
  rwa [Nat.one_mul] at h

/-! ## Lengths -/

/-- A double above zero, finite or infinite. -/
def IsPositive (x : Binary64) : Prop := x = .infinite false ∨ x.IsAmount ∧ 0 < x.units

section Length
variable {x y : Binary64}

theorem IsPositive.ne_zero (h : x.IsPositive) : x ≠ .zero := by
  rintro rfl
  rcases h with h | ⟨-, h⟩
  · cases h
  · exact Nat.lt_irrefl 0 h

theorem IsPositive.infinite_iff (h : x.IsPositive) : x.isFinite = false ↔ x = .infinite false := by
  rcases h with rfl | ⟨⟨u, fits, rfl⟩, -⟩
  · exact iff_of_true rfl rfl
  · exact iff_of_false Bool.noConfusion Binary64.noConfusion

theorem isPositive_of_lt (h : zero.lt x = true) : x.IsPositive := by
  match x, h with
  | .infinite false, _ => exact .inl rfl
  | .infinite true, h => cases h
  | .finite s u fits, h =>
    have hamount := isAmount_of_pos (x := .finite s u fits) rfl h
    exact .inr ⟨hamount, (isAmount_zero.lt_iff hamount).mp h⟩

theorem round_cases (num den : Nat) : round false num den = .infinite false ∨ (round false num den).IsAmount := by
  unfold round
  split
  · exact .inr ⟨_, _, rfl⟩
  · exact .inl rfl

theorem nonneg_of_cases (h : x = .infinite false ∨ x.IsAmount) : zero.le x = true ∧ x.isNaN = false := by
  rcases h with rfl | h
  · exact ⟨rfl, rfl⟩
  · exact ⟨h.nonneg, h.isNaN⟩

/-- The product of a length with one above zero is a length, except for nothing times something infinite. -/
theorem mul_cases (hx : x = .zero ∨ x.IsPositive) (hy : y.IsPositive) :
    x = .zero ∧ y = .infinite false ∧ x.mul y = .nan ∨
      ¬ (x = .zero ∧ y = .infinite false) ∧ (x.mul y = .infinite false ∨ (x.mul y).IsAmount) := by
  rcases hx with rfl | hx
  · rcases hy with rfl | ⟨⟨b, fb, rfl⟩, hb⟩
    · exact .inl ⟨rfl, rfl, rfl⟩
    · exact .inr ⟨fun h => Binary64.noConfusion h.2, round_cases _ _⟩
  · refine .inr ⟨fun h => hx.ne_zero h.1, ?_⟩
    rcases hx with rfl | ⟨⟨a, fa, rfl⟩, ha⟩ <;> rcases hy with rfl | ⟨⟨b, fb, rfl⟩, hb⟩
    · exact .inl rfl
    · exact .inl (if_neg (Nat.ne_of_gt hb))
    · exact .inl (if_neg (Nat.ne_of_gt ha))
    · exact round_cases _ _

theorem finite_of_mul (h : (x.mul y).isFinite = true) : y.isFinite = true := by
  cases y with
  | finite => rfl
  | nan => cases x <;> cases h
  | infinite =>
    cases x with
    | nan | infinite => cases h
    | finite s a fits =>
      simp only [mul] at h
      split at h <;> cases h

/-- A quotient of one or more is not rounded to nothing. -/
theorem roundUnits_pos {num den : Nat} (hden : 0 < den) (h : den ≤ num) : 0 < roundUnits num den :=
  calc 0 < 1 := Nat.one_pos
    _ = roundUnits (1 * den) den := (roundUnits_exact (by decide) hden).symm
    _ ≤ roundUnits num den := roundUnits_mono den (by rwa [Nat.one_mul])

/-- No amount is so large that the quotient of one, or of more, by it would be nothing. -/
theorem div_isPositive (hx : x.IsAmount) (hone : one ≤ x.units) (hy : y.IsAmount) (hpos : 0 < y.units) : (x.div y).IsPositive := by
  by_cases hout : Outgrows x y
  · have hnot := mt (div_isFinite hx hy hpos).mp (not_not.mpr hout)
    rw [div_eq_round hx hy hpos] at hnot ⊢
    exact .inl ((round_cases _ _).resolve_right fun h => hnot h.isFinite)
  · obtain ⟨hamount, hunits⟩ := div_isAmount hx hy hpos hout
    refine .inr ⟨hamount, hunits ▸ roundUnits_pos hpos ?_⟩
    calc y.units ≤ limit := Nat.le_of_lt hy.units_lt_limit
      _ ≤ one * one := by decide +kernel
      _ ≤ x.units * one := Nat.mul_le_mul_right one hone

end Length

end Binary64

/-! ## Places on the number line -/

theorem Extent.lt_asymm {a b : Extent} (h : a.lt b = true) : b.lt a = false := by
  cases a <;> cases b <;> simp_all [Extent.lt]
  omega

theorem Extent.lt_trans {a b c : Extent} (h : a.lt b = true) (h' : b.lt c = true) : a.lt c = true := by
  cases a <;> cases b <;> cases c <;> simp_all [Extent.lt]
  omega

theorem Extent.eq_of_not_lt {a b : Extent} (h : a.lt b = false) (h' : b.lt a = false) : a = b := by
  cases a <;> cases b <;> simp_all [Extent.lt]
  omega

namespace Number
variable {n m : Number}

theorem le_of_lt (h : n.lt m = true) : n.le m = true := by
  unfold Number.lt at h
  unfold Number.le
  split at h
  · rw [Extent.lt_asymm h]
    rfl
  · cases h

theorem not_lt_of_le (h : n.le m = true) : m.lt n = false := by
  unfold Number.le at h
  unfold Number.lt
  split at h
  · rename_i hn hm
    rw [hn, hm]
    exact Bool.not_eq_true' _ ▸ h
  · cases h

theorem lt_asymm (h : n.lt m = true) : m.lt n = false := not_lt_of_le (le_of_lt h)

theorem lt_trans {k : Number} (h : n.lt m = true) (h' : m.lt k = true) : n.lt k = true := by
  unfold Number.lt at h h' ⊢
  cases hn : n.extent <;> cases hm : m.extent <;> cases hk : k.extent <;> simp only [hn, hm, hk] at h h' ⊢ <;> try cases h
  · cases h'
  · exact Extent.lt_trans h h'

theorem extent_eq_of_not_lt (hn : n.extent.isSome = true) (hm : m.extent.isSome = true) (h : n.lt m = false) (h' : m.lt n = false) :
    n.extent = m.extent := by
  obtain ⟨a, ha⟩ := Option.isSome_iff_exists.mp hn
  obtain ⟨b, hb⟩ := Option.isSome_iff_exists.mp hm
  simp only [Number.lt, ha, hb] at h h'
  rw [ha, hb, Extent.eq_of_not_lt h h']

theorem extent_isSome (h : n ≠ .float .nan) : n.extent.isSome = true := by
  cases n with
  | int k => rfl
  | float x => cases x <;> first | rfl | exact absurd rfl h

end Number

/-! ## Numbers as doubles -/

namespace Number
open Binary64
variable {n m : Number} {i j : Int} {x : Binary64}

theorem lt_iff (hn : n.extent = some (.within i)) (hm : m.extent = some (.within j)) : n.lt m = true ↔ i < j := by
  simp only [Number.lt, hn, hm, Extent.lt, decide_eq_true_eq]

theorem le_iff (hn : n.extent = some (.within i)) (hm : m.extent = some (.within j)) : n.le m = true ↔ i ≤ j := by
  simp only [Number.le, hn, hm, Extent.lt, Bool.not_eq_true', decide_eq_false_iff_not, Int.not_lt]

theorem zero_lt_of_pos {k : Int} (h : 0 < k) : zero.lt (.int k) = true := by
  refine (lt_iff (i := 0) (j := k * (one : Int)) rfl rfl).mpr (Int.mul_pos h ?_)
  exact Int.natCast_pos.mpr Binary64.one_pos

/-- The double of a number with a place is what the place is rounded to, on the same side of zero. -/
theorem toDouble_shape (hn : n.extent = some (.within i)) (hx : n.toDouble = .ok x) :
    ∃ s u fits, x = .finite s u fits ∧ u = roundUnits i.natAbs 1 ∧ (s = false → 0 ≤ i) ∧ (s = true → i ≤ 0) := by
  cases n with
  | float y =>
    cases hx
    match x, hn with
    | .finite s u fits, hn =>
      have hexact := roundUnits_exact fits.2 Nat.one_pos
      rw [Nat.mul_one] at hexact
      cases s <;> cases hn <;> refine ⟨_, u, fits, rfl, ?_, ?_, ?_⟩ <;> simp [signed, hexact]
  | int n =>
    cases hn
    have hside : (decide (n < 0) = false → 0 ≤ n * (one : Int)) ∧ (decide (n < 0) = true → n * (one : Int) ≤ 0) := by
      have hone : (0 : Int) ≤ one := Int.natCast_nonneg _
      refine ⟨fun h => Int.mul_nonneg ?_ hone, fun h => Int.mul_nonpos_of_nonpos_of_nonneg ?_ hone⟩
      · have := of_decide_eq_false h
        omega
      · have := of_decide_eq_true h
        omega
    have hfinite : roundUnits (n.natAbs * one) 1 < limit := by
      rw [roundUnits_lt_limit Nat.one_pos, Nat.one_mul]
      exact (covers_iff n).mp ((toDouble_int n).mp ⟨x, hx⟩)
    rw [toDouble, ofInt?, round_eq rfl ⟨hfinite, spacing_dvd_roundUnits _ _⟩] at hx
    cases hx
    refine ⟨_, _, _, rfl, ?_, hside⟩
    rw [Int.natAbs_mul, Int.natAbs_natCast]

theorem extent_of_isFinite (h : n.isFinite = .ok true) : ∃ i x, n.extent = some (.within i) ∧ n.toDouble = .ok x := by
  cases n with
  | int n =>
    cases hx : (Number.int n).toDouble with
    | ok x => exact ⟨_, x, rfl, rfl⟩
    | error e =>
      rw [Number.isFinite, hx] at h
      cases h
  | float x =>
    match x, h with
    | .finite s u fits, _ => exact ⟨_, _, rfl, rfl⟩

/-- A number above zero has a double above zero. -/
theorem toDouble_isPositive (hpos : zero.lt n = true) (hx : n.toDouble = .ok x) : x.IsPositive := by
  cases n with
  | float y =>
    cases hx
    exact isPositive_of_lt hpos
  | int m =>
    have hplace : (Number.int m).extent = some (.within (m * (one : Int))) := rfl
    have hpos := (lt_iff (n := zero) (i := 0) rfl hplace).mp hpos
    obtain ⟨s, u, fits, rfl, hu, -, hneg⟩ := toDouble_shape hplace hx
    cases s with
    | false => exact .inr ⟨⟨u, fits, rfl⟩, hu ▸ roundUnits_pos Nat.one_pos (by omega)⟩
    | true =>
      have := hneg rfl
      omega

theorem isZero_of_lt (h : zero.lt n = true) : n.isZero = false := by
  cases n with
  | int m =>
    have hpos := (lt_iff (n := zero) (m := .int m) (i := 0) rfl rfl).mp h
    refine beq_eq_false_iff_ne.mpr fun h0 => ?_
    rw [h0, Int.zero_mul] at hpos
    exact Int.lt_irrefl 0 hpos
  | float x =>
    rcases isPositive_of_lt h with rfl | ⟨⟨u, fits, rfl⟩, hu⟩
    · rfl
    · exact beq_eq_false_iff_ne.mpr (Nat.ne_of_gt hu)

theorem raised_cases (n : Number) : zero.max n = zero ∨ zero.max n = n ∧ zero.lt n = true := by
  unfold Number.max
  split
  · exact .inr ⟨rfl, ‹_›⟩
  · exact .inl rfl

/-- A finite number that is brought up to zero has an amount for its double. -/
theorem raised_isAmount (hn : n.isFinite = .ok true) : ∃ i : Nat, ∃ x, (zero.max n).extent = some (.within i) ∧
    (zero.max n).toDouble = .ok x ∧ x.IsAmount ∧ x.units = roundUnits i 1 := by
  have hzero : zero.extent = some (.within 0) := rfl
  rcases raised_cases n with hraised | ⟨hraised, hpos⟩ <;> rw [hraised]
  · exact ⟨0, Binary64.zero, hzero, rfl, isAmount_zero, (roundUnits_small (by decide)).symm⟩
  · obtain ⟨i, x, hi, hx⟩ := extent_of_isFinite hn
    have hpos := (lt_iff hzero hi).mp hpos
    obtain ⟨s, u, fits, rfl, hu, -, hneg⟩ := toDouble_shape hi hx
    cases s with
    | false => exact ⟨i.natAbs, _, by rw [Int.natAbs_of_nonneg (by omega)]; exact hi, hx, ⟨u, fits, rfl⟩, hu⟩
    | true =>
      have := hneg rfl
      omega

theorem sub_float (n : Number) (y : Binary64) :
    n.sub (.float y) = (do return Number.float ((← n.toDouble).sub y) : Except ArithmeticError Number) := by
  cases n <;> rfl

theorem mul_float (n : Number) (y : Binary64) :
    n.mul (.float y) = (do return Number.float ((← n.toDouble).mul y) : Except ArithmeticError Number) := by
  cases n <;> rfl

end Number

end MediaEngine
