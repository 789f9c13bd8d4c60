import Mathlib.Tactic.Linarith
import Mathlib.Tactic.Ring
import MediaEngine.Proofs.Places

/-! # Which quotients have a double

A rounded quotient is finite up to half a step below `2 ^ 1024`, and not from there on
(`roundUnits_lt_limit`). So a whole number has a double exactly below `2 ^ 1024 - 2 ^ 970`, and what is
smaller than a number that has one has one too. -/

namespace MediaEngine

section Nearest
variable {num den k : Nat}

theorem le_nearest (num den : Nat) : num / den ≤ nearest num den := by
  simp only [nearest]
  split
  · exact Nat.le_refl _
  split
  · exact Nat.le_succ _
  split
  · exact Nat.le_refl _
  · exact Nat.le_succ _

/-- Rounding stays below an even number as long as the quotient is closer to the number before it. -/
theorem nearest_lt_iff (hd : 0 < den) (hk : k % 2 = 0) (hpos : 0 < k) :
    nearest num den < k ↔ 2 * num < (2 * k - 1) * den := by
  have hsplit : den * (num / den) + num % den = num := Nat.div_add_mod num den
  have hr : num % den < den := Nat.mod_lt num hd
  obtain ⟨m, rfl⟩ : ∃ m, k = m + 1 := ⟨k - 1, by omega⟩
  have hfac : (2 * (m + 1) - 1) * den = 2 * (den * m) + den := by
    rw [show 2 * (m + 1) - 1 = 2 * m + 1 by omega]
    ring
  rw [hfac]
  rcases Nat.lt_trichotomy (num / den) m with hq | hq | hq
  · have hle := nearest_le num den
    have hmul : den * (num / den + 1) ≤ den * m := Nat.mul_le_mul_left den hq
    rw [Nat.mul_add, Nat.mul_one] at hmul
    omega
  · have hodd : ¬ num / den % 2 = 0 := by omega
    simp only [nearest, hodd, if_false]
    rw [hq] at hsplit ⊢
    split
    · omega
    · split <;> omega
  · have hle := le_nearest num den
    have hmul : den * (m + 1) ≤ den * (num / den) := Nat.mul_le_mul_left den hq
    rw [Nat.mul_add, Nat.mul_one] at hmul
    omega

end Nearest

namespace Binary64
variable {num den : Nat}

theorem one_pos : 0 < one := Nat.two_pow_pos _

/-- The units from which on a quotient is rounded beyond the finite doubles. -/
def edge : Nat := 2 ^ 2098 - 2 ^ 2044

theorem roundUnits_le {k : Nat} (h : num / den < 2 ^ (k + 53)) : roundUnits num den ≤ 2 ^ (k + 53) := by
  have hlog : (num / den).log2 - 52 ≤ k := by
    by_cases h0 : num / den = 0
    · simp [h0]
    · have := (Nat.log2_lt h0).2 h
      omega
  calc roundUnits num den ≤ 2 ^ 53 * spacing (num / den) := Nat.mul_le_mul_right _ (nearest_spacing_le num den)
    _ ≤ 2 ^ 53 * 2 ^ k := Nat.mul_le_mul_left _ (Nat.pow_le_pow_right (by omega) hlog)
    _ = 2 ^ (k + 53) := by rw [← Nat.pow_add, Nat.add_comm]

theorem le_roundUnits {k : Nat} (h : 2 ^ (k + 52) ≤ num / den) : 2 ^ (k + 52) ≤ roundUnits num den := by
  have h0 : num / den ≠ 0 := by
    have := Nat.two_pow_pos (k + 52)
    omega
  have hlog : k + 52 ≤ (num / den).log2 := (Nat.le_log2 h0).2 h
  have hs : spacing (num / den) = 2 ^ ((num / den).log2 - 52) := rfl
  have hpos : 0 < spacing (num / den) := Nat.two_pow_pos _
  -- The kept digits are at least the first of 53 places.
  have hkept : 2 ^ 52 ≤ nearest num (den * spacing (num / den)) := by
    refine Nat.le_trans ?_ (le_nearest _ _)
    rw [← Nat.div_div_eq_div_mul, Nat.le_div_iff_mul_le hpos, hs, ← Nat.pow_add]
    calc 2 ^ (52 + ((num / den).log2 - 52)) = 2 ^ (num / den).log2 := by congr 1; omega
      _ ≤ num / den := Nat.log2_self_le h0
  calc 2 ^ (k + 52) ≤ 2 ^ (52 + ((num / den).log2 - 52)) := Nat.pow_le_pow_right (by omega) (by omega)
    _ = 2 ^ 52 * spacing (num / den) := by rw [Nat.pow_add, hs]
    _ ≤ roundUnits num den := Nat.mul_le_mul_right _ hkept

theorem pow_split {a b c : Nat} (h : c = a + b) : 2 ^ c = 2 ^ a * 2 ^ b := by
  subst h
  exact Nat.pow_add 2 a b

theorem pow_double {a c : Nat} (h : c = a + 1) : 2 ^ c = 2 * 2 ^ a := by
  rw [h, Nat.pow_succ, Nat.mul_comm]

theorem edge_eq : edge = (2 ^ 54 - 1) * 2 ^ 2044 := by
  rw [edge, pow_split (show 2098 = 54 + 2044 from rfl), Nat.sub_mul, Nat.one_mul]

theorem lt_edge : 2 ^ 2097 < edge := by
  rw [edge_eq, pow_split (show 2097 = 53 + 2044 from rfl)]
  exact Nat.mul_lt_mul_of_pos_right (by decide) (Nat.two_pow_pos _)

/-- The middle between the two largest numbers of 54 places, scaled by `half`. -/
theorem scaled_middle (den half : Nat) :
    (2 * 2 ^ 53 - 1) * (den * (2 * half)) = 2 * (den * ((2 ^ 54 - 1) * half)) := by
  rw [show 2 * 2 ^ 53 - 1 = 2 ^ 54 - 1 from rfl]
  ring

/-- At the size of the largest doubles a step is `2 ^ 2045` units. -/
theorem roundUnits_top (hd : 0 < den) (hlog : (num / den).log2 = 2097) :
    roundUnits num den < limit ↔ num < den * edge := by
  have hs : spacing (num / den) = 2 ^ 2045 := by rw [spacing, hlog, Nat.pow_eq]
  have hlimit : limit = 2 ^ 53 * 2 ^ 2045 := pow_split rfl
  have hstep : 2 ^ 2045 = 2 * 2 ^ 2044 := pow_double rfl
  have hpos : 0 < (2 : Nat) ^ 2045 := Nat.two_pow_pos _
  rw [roundUnits, hs, hlimit, Nat.mul_lt_mul_right hpos,
    nearest_lt_iff (Nat.mul_pos hd hpos) (by decide) (by decide), edge_eq, hstep]
  generalize (2 : Nat) ^ 2044 = half
  rw [scaled_middle]
  exact Nat.mul_lt_mul_left (by decide)

/-- A quotient is rounded to a finite double exactly below the edge. -/
theorem roundUnits_lt_limit (hd : 0 < den) : roundUnits num den < limit ↔ num < den * edge := by
  have hsplit : den * (num / den) + num % den = num := Nat.div_add_mod num den
  have hr : num % den < den := Nat.mod_lt num hd
  by_cases hlow : num / den < 2 ^ 2097
  · refine iff_of_true ?_ ?_
    · calc roundUnits num den ≤ 2 ^ 2097 := roundUnits_le hlow
        _ < limit := Nat.pow_lt_pow_right (by decide) (by decide)
    · calc num < den * (num / den + 1) := by rw [Nat.mul_add, Nat.mul_one]; omega
        _ ≤ den * edge := Nat.mul_le_mul_left _ (Nat.le_of_lt (Nat.lt_of_le_of_lt hlow lt_edge))
  by_cases hhigh : 2 ^ 2098 ≤ num / den
  · refine iff_of_false (Nat.not_lt.mpr (le_roundUnits hhigh)) (Nat.not_lt.mpr ?_)
    calc den * edge ≤ den * 2 ^ 2098 := Nat.mul_le_mul_left _ (Nat.sub_le _ _)
      _ ≤ den * (num / den) := Nat.mul_le_mul_left _ hhigh
      _ ≤ num := Nat.mul_div_le _ _
  · have h0 : num / den ≠ 0 := fun h => hlow (h ▸ Nat.two_pow_pos 2097)
    refine roundUnits_top hd (Nat.le_antisymm ?_ ((Nat.le_log2 h0).2 (Nat.not_lt.mp hlow)))
    exact Nat.le_of_lt_succ ((Nat.log2_lt h0).2 (Nat.not_le.mp hhigh))

/-! ## Whole numbers with a double -/

/-- A whole number that is not rounded beyond the finite doubles. -/
def Covers (n : Int) : Prop := n.natAbs < 2 ^ 1024 - 2 ^ 970

theorem edge_scaled : edge = (2 ^ 1024 - 2 ^ 970) * one := by
  rw [edge, one, Nat.pow_eq, Nat.sub_mul, ← pow_split (show 2098 = 1024 + 1074 from rfl),
    ← pow_split (show 2044 = 970 + 1074 from rfl)]

theorem covers_iff (n : Int) : Covers n ↔ n.natAbs * one < edge := by
  rewrite [edge_scaled, Nat.mul_lt_mul_right one_pos]
  exact Iff.rfl

/-- What is between zero and a number with a double has one too. -/
theorem Covers.mono {m n : Int} (h : Covers n) (hm : m.natAbs ≤ n.natAbs) : Covers m :=
  Nat.lt_of_le_of_lt hm h

theorem round_isFinite (negative : Bool) (num den : Nat) :
    (round negative num den).isFinite = true ↔ roundUnits num den < limit := by
  unfold round
  split
  · exact iff_of_true rfl ‹_›
  · exact iff_of_false Bool.false_ne_true ‹_›

theorem ofInt?_isSome (n : Int) : (ofInt? n).isSome = true ↔ Covers n := by
  have hround : (ofInt? n).isSome = (round (decide (n < 0)) (n.natAbs * one) 1).isFinite := by
    unfold ofInt?
    cases round (decide (n < 0)) (n.natAbs * one) 1 <;> rfl
  rewrite [hround, round_isFinite, roundUnits_lt_limit Nat.one_pos, Nat.one_mul]
  exact (covers_iff n).symm

end Binary64

namespace Number
open Binary64

theorem toDouble_int (n : Int) : (∃ x, (Number.int n).toDouble = .ok x) ↔ Covers n := by
  have htoDouble : (Number.int n).toDouble = (ofInt? n).elim (.error .wholeTooLarge) .ok := by
    simp only [toDouble]
  rewrite [htoDouble, ← ofInt?_isSome]
  cases ofInt? n with
  | none => exact iff_of_false (fun ⟨_, h⟩ => by cases h) Bool.false_ne_true
  | some x => exact iff_of_true ⟨x, rfl⟩ rfl

/-- Where a double takes part, both numbers are converted and a zero divides nothing. -/
theorem div_eq {x y : Number} {a b : Binary64} (hx : x.toDouble = .ok a) (hy : y.toDouble = .ok b)
    (h : ∀ m n, x = .int m → y ≠ .int n) :
    x.div y = if b.isZero then .error .divisionByZero else .ok (a.div b) := by
  have hdiv : x.div y = (do
      let a ← x.toDouble
      let b ← y.toDouble
      if b.isZero then throw .divisionByZero
      return a.div b) := by
    cases x with
    | float x => cases y <;> rfl
    | int m =>
      cases y with
      | float y => rfl
      | int n => exact absurd rfl (h m n rfl)
  rw [hdiv, hx, hy]
  change (if b.isZero = true then _ else _) = if b.isZero = true then _ else _
  split <;> rfl

theorem div_error {x y : Number} {e : ArithmeticError} (hx : x.toDouble = .error e)
    (h : ∀ m n, x = .int m → y ≠ .int n) : x.div y = .error e := by
  cases x with
  | float x => cases hx
  | int m =>
    cases y with
    | float y =>
      simp only [Number.div, hx]
      rfl
    | int n => exact absurd rfl (h m n rfl)

/-- A whole number with a double can be divided by a natural number. -/
theorem intQuotient_ok {n : Int} (h : Covers n) {den : Nat} (hd : 0 < den) :
    ∃ x, intQuotient n den = .ok x := by
  have hden : ((den : Int) = 0) = False := eq_false (by omega)
  have hfit : n.natAbs * one < den * edge :=
    Nat.lt_of_lt_of_le ((covers_iff n).mp h) (Nat.le_mul_of_pos_left edge hd)
  rw [intQuotient]
  simp only [hden, if_false, Int.natAbs_natCast]
  rw [if_pos ((round_isFinite _ _ _).mpr ((roundUnits_lt_limit hd).mpr hfit))]
  exact ⟨_, rfl⟩

end Number

namespace Settings
open Binary64

/-- The timeout can be told in seconds as long as it has a double. -/
theorem timeoutSeconds_ok (s : Settings) : (∃ x, s.timeoutSeconds = .ok x) ↔ Covers s.queueTimeout := by
  have hzero : (Binary64.ofNat 1000).isZero = false := by decide +kernel
  have hmixed : ∀ m n, Number.int s.queueTimeout = .int m → Number.float (Binary64.ofNat 1000) ≠ .int n :=
    fun _ _ _ h => by cases h
  rw [timeoutSeconds, ← Number.toDouble_int]
  cases h : (Number.int s.queueTimeout).toDouble with
  | error e =>
    rw [Number.div_error h hmixed]
  | ok a =>
    rw [Number.div_eq h rfl hmixed, hzero]
    exact iff_of_true ⟨_, rfl⟩ ⟨a, rfl⟩

/-- A timeout that can be told in seconds can be told in whole seconds. -/
theorem timely_of_covers {s : Settings} (h : Covers s.queueTimeout) : s.Timely := by
  obtain ⟨x, hx⟩ := Number.intQuotient_ok h (show 0 < 1000 by decide)
  exact ⟨_, by rw [timeoutWhole, show Number.intQuotient s.queueTimeout 1000 = .ok x from hx]; rfl⟩

end Settings

end MediaEngine
