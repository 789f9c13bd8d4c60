import MediaEngine.Decimal.Reading
import MediaEngine.Decimal.Shortest
import MediaEngine.Proofs.Rounding

/-! # Decimals that read back

A decimal reads back as the units that it is rounded to, and it does not matter how many of its digits stand behind
the point (`Positive.units_shift`). The search for the shortest decimal of a double ends with one that reads back as
the double, whichever grid it stops at (`shortest_units`). -/

namespace MediaEngine
open Decimal

/-! ## Scaled quotients -/

section Scaled
variable {num den k : Nat}

theorem nearest_mul_right (hk : 0 < k) : nearest (num * k) (den * k) = nearest num den := by
  have hrest : 2 * (num % den * k) = 2 * (num % den) * k := (Nat.mul_assoc _ _ _).symm
  simp only [nearest, Nat.mul_div_mul_right num den hk, Nat.mul_mod_mul_right, hrest, Nat.mul_lt_mul_right hk]

namespace Binary64

/-- Rounding looks at the quotient only. -/
theorem roundUnits_mul_right (hk : 0 < k) : roundUnits (num * k) (den * k) = roundUnits num den := by
  have hden : den * k * spacing (num / den) = den * spacing (num / den) * k := Nat.mul_right_comm _ _ _
  rw [roundUnits, Nat.mul_div_mul_right num den hk, hden, nearest_mul_right hk, roundUnits]

theorem spacing_pos (units : Nat) : 0 < spacing units := Nat.two_pow_pos _

/-- What a double has is not rounded. -/
theorem roundUnits_exact {units : Nat} (h : spacing units ∣ units) (hk : 0 < k) : roundUnits (units * k) k = units := by
  have hscaled : roundUnits (units * k) (1 * k) = roundUnits units 1 := roundUnits_mul_right hk
  have hkept : nearest units (1 * spacing units) = units / spacing units := by
    rw [nearest, Nat.one_mul, Nat.mod_eq_zero_of_dvd h]
    exact if_pos (spacing_pos units)
  rw [Nat.one_mul] at hscaled
  rw [hscaled, roundUnits, Nat.div_one, hkept, Nat.div_mul_cancel h]

/-- A quotient below one half is rounded to nothing. -/
theorem roundUnits_small (h : 2 * num < den) : roundUnits num den = 0 := by
  have hq : num / den = 0 := Nat.div_eq_of_lt (by omega)
  have hs : spacing 0 = 1 := rfl
  have hr : num % den = num := Nat.mod_eq_of_lt (by omega)
  rw [roundUnits, hq, hs, Nat.mul_one, Nat.mul_one, nearest, hq, hr]
  exact if_pos h

theorem round_zero (s : Bool) (fits : Representable 0) : round s 0 1 = .finite s 0 fits := by
  have h : roundUnits 0 1 = 0 := roundUnits_small (by decide)
  unfold round
  simp only [h]
  exact dif_pos fits.1

theorem round_eq {s : Bool} {units : Nat} (h : roundUnits num den = units) (fits : Representable units) :
    round s num den = .finite s units fits := by
  subst h
  unfold round
  exact dif_pos fits.1

end Binary64

end Scaled

/-! ## Decimals and their units -/

namespace Decimal
open Binary64

theorem units_of_nonneg {d : Positive} (h : 0 ≤ d.exponent) :
    d.units = roundUnits (d.digits * 10 ^ d.exponent.toNat * one) 1 := by
  simp only [Positive.units, powerOfTen, if_pos h, Nat.pow_eq]

theorem units_of_nonpos {d : Positive} (h : d.exponent ≤ 0) :
    d.units = roundUnits (d.digits * one) (10 ^ (-d.exponent).toNat) := by
  rcases Int.lt_or_eq_of_le h with hneg | hzero
  · simp only [Positive.units, powerOfTen, if_neg (Int.not_le.mpr hneg), Nat.pow_eq, Nat.mul_one]
  · rw [units_of_nonneg (Int.le_of_eq hzero.symm), hzero]
    simp

theorem units_step (digits : Nat) (e : Int) :
    Positive.units ⟨digits * 10, e - 1⟩ = Positive.units ⟨digits, e⟩ := by
  rcases Int.lt_or_le 0 e with he | he
  · have hpow : 10 ^ e.toNat = 10 * 10 ^ (e - 1).toNat := by
      rw [show e.toNat = (e - 1).toNat + 1 by omega, Nat.pow_succ, Nat.mul_comm]
    rw [units_of_nonneg (show (0 : Int) ≤ e - 1 by omega), units_of_nonneg (show (0 : Int) ≤ e by omega)]
    simp only [hpow, Nat.mul_assoc]
  · have hpow : 10 ^ (-(e - 1)).toNat = 10 ^ (-e).toNat * 10 := by
      rw [show (-(e - 1)).toNat = (-e).toNat + 1 by omega, Nat.pow_succ]
    rw [units_of_nonpos (show e - 1 ≤ 0 by omega), units_of_nonpos (show e ≤ 0 by omega)]
    simp only [hpow, Nat.mul_right_comm digits 10 one]
    exact roundUnits_mul_right (by decide)

/-- A decimal stands for the same with zeros at its end. -/
theorem Positive.units_shift (digits : Nat) (e : Int) (k : Nat) :
    Positive.units ⟨digits * 10 ^ k, e - k⟩ = Positive.units ⟨digits, e⟩ := by
  induction k with
  | zero => simp
  | succ k ih =>
    have hexp : e - ((k + 1 : Nat) : Int) = e - k - 1 := by omega
    rw [Nat.pow_succ, ← Nat.mul_assoc, hexp, units_step, ih]

theorem units_zero {d : Positive} (h : d.digits = 0) : d.units = 0 := by
  rcases Int.le_total 0 d.exponent with he | he
  · rw [units_of_nonneg he, h, Nat.zero_mul, Nat.zero_mul]
    exact roundUnits_small (by decide)
  · rw [units_of_nonpos he, h, Nat.zero_mul]
    exact roundUnits_small (Nat.pow_pos (by decide))

/-- A decimal that reads back as a finite double is not too large to be looked at. -/
theorem exponent_le {d : Positive} (hd : d.digits ≠ 0) (h : d.units < limit) : d.exponent ≤ 400 := by
  refine Int.not_lt.mp fun hlarge => ?_
  have hpow : 10 ^ 400 ≤ 10 ^ d.exponent.toNat := Nat.pow_le_pow_right (by decide) (by omega)
  have hquotient : 2 ^ (2046 + 52) ≤ d.digits * 10 ^ d.exponent.toNat * one / 1 := by
    rw [Nat.div_one]
    calc 2 ^ (2046 + 52) ≤ 10 ^ 400 * one := by decide +kernel
      _ ≤ 10 ^ d.exponent.toNat * one := Nat.mul_le_mul_right _ hpow
      _ ≤ d.digits * 10 ^ d.exponent.toNat * one :=
        Nat.mul_le_mul_right _ (Nat.le_mul_of_pos_left _ (Nat.pos_of_ne_zero hd))
  rw [units_of_nonneg (by omega)] at h
  exact absurd h (Nat.not_lt.mpr (le_roundUnits hquotient))

/-- Nor is one that reads back as another number than zero too small. -/
theorem le_exponent {d : Positive} (h : d.units ≠ 0) : -400 ≤ d.exponent + (d.digits.log2 : Int) := by
  refine Int.not_lt.mp fun hsmall => h ?_
  obtain ⟨m, hm⟩ : ∃ m : Nat, (-d.exponent).toNat = m + d.digits.log2 + 401 :=
    ⟨(-d.exponent).toNat - d.digits.log2 - 401, by omega⟩
  rw [units_of_nonpos (by omega), hm]
  refine roundUnits_small ?_
  have hdigits : d.digits < 2 ^ (d.digits.log2 + 1) := Nat.lt_log2_self
  have hone : 2 * 2 * one ≤ 10 ^ 401 := by decide +kernel
  have hpos := one_pos
  generalize one = o at hone hpos ⊢
  calc 2 * (d.digits * o) < 2 * (2 ^ (d.digits.log2 + 1) * o) :=
        Nat.mul_lt_mul_of_pos_left (Nat.mul_lt_mul_of_pos_right hdigits hpos) (by decide)
    _ = 2 ^ d.digits.log2 * (2 * 2 * o) := by ring
    _ ≤ 10 ^ (m + d.digits.log2) * 10 ^ 401 := Nat.mul_le_mul
        (Nat.le_trans (Nat.pow_le_pow_left (by decide) _) (Nat.pow_le_pow_right (by decide) (Nat.le_add_left _ _))) hone
    _ = 10 ^ (m + d.digits.log2 + 401) := (Nat.pow_add ..).symm

/-- A decimal is read as the double of its units. -/
theorem ofDecimal_units {d : Positive} {units : Nat} (s : Bool) (h : d.units = units) (h0 : units ≠ 0)
    (fits : Representable units) : ofDecimal s d.digits d.exponent = .finite s units fits := by
  have hdigits : d.digits ≠ 0 := fun hd => h0 (h.symm.trans (units_zero hd))
  have hlarge : ¬ 400 < d.exponent := Int.not_lt.mpr (exponent_le hdigits (h ▸ fits.1))
  have hsmall : ¬ d.exponent + (d.digits.log2 : Int) < -400 := Int.not_lt.mpr (le_exponent (h ▸ h0))
  rw [ofDecimal, if_neg hdigits, if_neg hlarge, if_neg hsmall]
  split
  · rename_i he
    exact round_eq ((units_of_nonneg he).symm.trans h) fits
  · rename_i he
    exact round_eq ((units_of_nonpos (Int.le_of_not_le he)).symm.trans h) fits

/-! ## The shortest decimal -/

section Shortest
variable {units : Nat}

theorem nearer_eq {low rest step : Nat} {down up d : Positive} {downReads upReads : Bool}
    (h : nearer low rest step down up downReads upReads = some d) :
    d = down ∧ downReads = true ∨ d = up ∧ upReads = true := by
  unfold nearer at h
  split at h
  · split at h
    · cases h
      exact .inl ⟨rfl, rfl⟩
    split at h
    · cases h
      exact .inr ⟨rfl, rfl⟩
    split at h <;> cases h
    · exact .inl ⟨rfl, rfl⟩
    · exact .inr ⟨rfl, rfl⟩
  · cases h
    exact .inl ⟨rfl, rfl⟩
  · cases h
    exact .inr ⟨rfl, rfl⟩
  · cases h

theorem onGrid_units {e : Int} {d : Positive} (h : onGrid units e = some d) : d.units = units := by
  unfold onGrid at h
  generalize powerOfTen e = power at h
  obtain ⟨num, den⟩ := power
  dsimp only at h
  obtain ⟨hd, hread⟩ | ⟨hd, hread⟩ := nearer_eq h
  · rw [hd]
    exact beq_iff_eq.mp hread
  · rw [hd]
    exact beq_iff_eq.mp hread

/-- A unit is a power of five on the finest grid. -/
theorem exact_units (h : spacing units ∣ units) : Positive.units ⟨units * Nat.pow 5 1074, -1074⟩ = units := by
  have hden : 10 ^ (-(-1074 : Int)).toNat = Nat.pow 5 1074 * one := by decide +kernel
  have hpos : 0 < Nat.pow 5 1074 * one := by decide +kernel
  have hunits := units_of_nonpos (d := ⟨units * Nat.pow 5 1074, -1074⟩) (show (-1074 : Int) ≤ 0 by decide)
  rw [hunits, hden]
  generalize Nat.pow 5 1074 = five at hpos ⊢
  rw [Nat.mul_assoc]
  exact roundUnits_exact h hpos

theorem search_units (h : spacing units ∣ units) (top : Int) (count fuel : Nat) : (search units top count fuel).units = units := by
  induction fuel generalizing count with
  | zero =>
    rw [search]
    exact exact_units h
  | succ fuel ih =>
    rw [search]
    cases hgrid : onGrid units (top - count + 1) with
    | none => exact ih _
    | some d => exact onGrid_units hgrid

theorem trim_units (fuel : Nat) (d : Positive) : (d.trim fuel).units = d.units := by
  induction fuel generalizing d with
  | zero => rfl
  | succ fuel ih =>
    rw [Positive.trim]
    split
    · rename_i hten
      rw [ih, ← units_step, Nat.div_mul_cancel (Nat.dvd_of_mod_eq_zero hten.2), Int.add_sub_cancel]
    · rfl

/-- The shortest decimal reads back as the double that it is written for. -/
theorem shortest_units (h : spacing units ∣ units) : (shortest units).units = units :=
  (trim_units _ _).trans (search_units h _ _ _)

theorem shortest_digits (h : spacing units ∣ units) (h0 : units ≠ 0) : (shortest units).digits ≠ 0 :=
  fun hd => h0 ((shortest_units h).symm.trans (units_zero hd))

/-- The shortest decimal of a double, with any number of zeros at its end, is read as the double. -/
theorem ofDecimal_shortest (s : Bool) (h0 : units ≠ 0) (fits : Representable units) (k : Nat) :
    ofDecimal s ((shortest units).digits * 10 ^ k) ((shortest units).exponent - k) = .finite s units fits := by
  have hunits := shortest_units fits.2
  generalize shortest units = d at hunits ⊢
  obtain ⟨digits, exponent⟩ := d
  exact ofDecimal_units s ((Positive.units_shift digits exponent k).trans hunits) h0 fits

end Shortest

end Decimal

end MediaEngine
