/-!
# Double precision numbers

A finite number is a sign and a whole number of units, where a unit is the least positive double,
`2 ^ -1074`. Every finite double is such a multiple, so values, sums and comparisons are exact whole
numbers, and rounding happens in one place, `Binary64.round`.

Main statement: `spacing_dvd_roundUnits`, a rounded quotient lies on the grid of doubles of its size.
-/

namespace MediaEngine

/-- The quotient rounded to the nearest whole number, a half to the even neighbour. -/
def nearest (num den : Nat) : Nat :=
  let q := num / den
  let r := num % den
  if 2 * r < den then q
  else if den < 2 * r then q + 1
  else if q % 2 = 0 then q else q + 1

theorem nearest_le (num den : Nat) : nearest num den ≤ num / den + 1 := by
  simp only [nearest]
  split
  · omega
  · split
    · omega
    · split <;> omega

namespace Binary64

/-- The distance, in units, between neighbouring doubles at the size of `units`: 53 binary digits
    are kept, and nothing is finer than a unit. -/
def spacing (units : Nat) : Nat := Nat.pow 2 (units.log2 - 52)

/-- The units of the first power of two above all finite doubles. -/
def limit : Nat := Nat.pow 2 2098

/-- The units of one: `1 = 2 ^ 1074` units. -/
def one : Nat := Nat.pow 2 1074

/-- A magnitude that a finite double has. -/
def Representable (units : Nat) : Prop := units < limit ∧ spacing units ∣ units

instance (units : Nat) : Decidable (Representable units) := by
  unfold Representable; infer_instance

/-- The quotient, a number of units, rounded to the grid of doubles; the largest exponent is not
    looked at. -/
def roundUnits (num den : Nat) : Nat :=
  nearest num (den * spacing (num / den)) * spacing (num / den)

theorem quotient_lt_spacing (q : Nat) : q < Nat.pow 2 53 * spacing q := by
  have h : q < 2 ^ (q.log2 + 1) := Nat.lt_log2_self
  have hp : 2 ^ (q.log2 + 1) ≤ 2 ^ (53 + (q.log2 - 52)) :=
    Nat.pow_le_pow_right (by omega) (by omega)
  rw [spacing, Nat.pow_eq, Nat.pow_eq, ← Nat.pow_add]
  exact Nat.lt_of_lt_of_le h hp

/-- The kept digits of a rounded quotient fit in 53 places, or are the next power of two. -/
theorem nearest_spacing_le (num den : Nat) :
    nearest num (den * spacing (num / den)) ≤ Nat.pow 2 53 := by
  have h := nearest_le num (den * spacing (num / den))
  have hq : num / (den * spacing (num / den)) < Nat.pow 2 53 := by
    rw [← Nat.div_div_eq_div_mul]
    have hs : 0 < spacing (num / den) := Nat.two_pow_pos _
    rw [Nat.div_lt_iff_lt_mul hs]
    exact quotient_lt_spacing _
  exact Nat.le_trans h hq

theorem spacing_dvd_mul {m s : Nat} (h : m ≤ Nat.pow 2 53) : spacing (m * Nat.pow 2 s) ∣ m * Nat.pow 2 s := by
  rw [Nat.pow_eq] at h ⊢
  rw [spacing, Nat.pow_eq]
  by_cases hm : m = 2 ^ 53
  · subst hm
    rw [← Nat.pow_add, Nat.log2_two_pow]
    exact Nat.pow_dvd_pow 2 (by omega)
  · by_cases h0 : m * 2 ^ s = 0
    · rw [h0]; exact Nat.dvd_zero _
    · have hlt : m * 2 ^ s < 2 ^ (53 + s) := by
        rw [Nat.pow_add]
        exact Nat.mul_lt_mul_of_pos_right (by omega) (Nat.two_pow_pos s)
      have hlog : (m * 2 ^ s).log2 < 53 + s := (Nat.log2_lt h0).2 hlt
      exact Nat.dvd_trans (Nat.pow_dvd_pow 2 (by omega)) (Nat.dvd_mul_left _ _)

theorem spacing_dvd_roundUnits (num den : Nat) : spacing (roundUnits num den) ∣ roundUnits num den :=
  spacing_dvd_mul (nearest_spacing_le num den)

end Binary64

/-- A double precision number: not a number, one of the two infinities, or a finite number. Both
    zeros are kept apart, and there is one value that is not a number. -/
inductive Binary64 where
  | nan
  | infinite (negative : Bool)
  | finite (negative : Bool) (units : Nat) (fits : Binary64.Representable units)
  deriving DecidableEq

namespace Binary64

/-- The double nearest to a quotient of units; beyond the largest finite double it is infinite. -/
@[irreducible]
def round (negative : Bool) (num den : Nat) : Binary64 :=
  if h : roundUnits num den < limit then
    .finite negative (roundUnits num den) ⟨h, spacing_dvd_roundUnits num den⟩
  else .infinite negative

/-- Zero without a sign. -/
def zero : Binary64 := .finite false 0 (by decide +kernel)

instance : Inhabited Binary64 := ⟨zero⟩

/-- The number, if it is finite. -/
def finite? : Binary64 → Option Binary64
  | .finite s u h => some (.finite s u h)
  | _ => none

/-- The double nearest to a whole number, or `none` where that would be infinite. -/
def ofInt? (n : Int) : Option Binary64 := (round (decide (n < 0)) (n.natAbs * one) 1).finite?

/-- The double nearest to a natural number. -/
def ofNat (n : Nat) : Binary64 := round false (n * one) 1

/-- The double nearest to `digits * 10 ^ exponent`. Exponents far outside the range of doubles are
    answered without computing the power. -/
def ofDecimal (negative : Bool) (digits : Nat) (exponent : Int) : Binary64 :=
  if digits = 0 then round negative 0 1
  else if 400 < exponent then .infinite negative
  else if exponent + (digits.log2 : Int) < -400 then round negative 0 1
  else if 0 ≤ exponent then round negative (digits * Nat.pow 10 exponent.toNat * one) 1
  else round negative (digits * one) (Nat.pow 10 (-exponent).toNat)

/-- Neither infinite nor the value that is not a number. -/
def isFinite : Binary64 → Bool
  | .finite .. => true
  | _ => false

/-- The value that is not a number. -/
def isNaN : Binary64 → Bool
  | .nan => true
  | _ => false

/-- One of the two zeros. -/
def isZero : Binary64 → Bool
  | .finite _ u _ => u == 0
  | _ => false

/-- The other sign. -/
def neg : Binary64 → Binary64
  | .nan => .nan
  | .infinite s => .infinite !s
  | .finite s u h => .finite (!s) u h

/-- The magnitude. -/
def abs : Binary64 → Binary64
  | .nan => .nan
  | .infinite _ => .infinite false
  | .finite _ u h => .finite false u h

/-- The signed units of a finite double. -/
def signed (negative : Bool) (units : Nat) : Int := if negative then -(units : Int) else units

/-- The sum rounded to nearest. Opposite numbers add up to the zero without a sign. -/
def add : Binary64 → Binary64 → Binary64
  | .nan, _ => .nan
  | _, .nan => .nan
  | .infinite s, .infinite t => if s == t then .infinite s else .nan
  | .infinite s, _ => .infinite s
  | _, .infinite t => .infinite t
  | .finite s a _, .finite t b _ =>
    let sum := signed s a + signed t b
    if sum = 0 then round (s && t) 0 1 else round (decide (sum < 0)) sum.natAbs 1

/-- The whole part of a finite double, toward zero; zero for all others. -/
def wholePart : Binary64 → Int
  | .finite s u _ => signed s (u / one)
  | _ => 0

/-- The difference rounded to nearest. -/
def sub (x y : Binary64) : Binary64 := add x (neg y)

/-- The product rounded to nearest. -/
def mul : Binary64 → Binary64 → Binary64
  | .nan, _ => .nan
  | _, .nan => .nan
  | .infinite s, .infinite t => .infinite (s != t)
  | .infinite s, .finite t b _ => if b = 0 then .nan else .infinite (s != t)
  | .finite s a _, .infinite t => if a = 0 then .nan else .infinite (s != t)
  | .finite s a _, .finite t b _ => round (s != t) (a * b) one

/-- The quotient rounded to nearest; a number other than zero over zero is infinite. -/
def div : Binary64 → Binary64 → Binary64
  | .nan, _ => .nan
  | _, .nan => .nan
  | .infinite _, .infinite _ => .nan
  | .infinite s, .finite t _ _ => .infinite (s != t)
  | .finite s _ _, .infinite t => round (s != t) 0 1
  | .finite s a _, .finite t b _ =>
    if b = 0 then (if a = 0 then .nan else .infinite (s != t))
    else round (s != t) (a * one) b

end Binary64

/-- A place on the number line in units, ends included. -/
inductive Extent where
  | below
  | within (units : Int)
  | above
  deriving DecidableEq

namespace Extent

/-- The strict order along the line. -/
def lt : Extent → Extent → Bool
  | .below, .below => false
  | .below, _ => true
  | .within a, .within b => decide (a < b)
  | .within _, .above => true
  | _, _ => false

end Extent

namespace Binary64

/-- The place of a double on the number line; the value that is not a number has none. -/
def extent : Binary64 → Option Extent
  | .nan => none
  | .infinite s => some (if s then .below else .above)
  | .finite s u _ => some (.within (signed s u))

/-- The strict order; nothing is ordered with the value that is not a number. -/
def lt (x y : Binary64) : Bool :=
  match x.extent, y.extent with
  | some a, some b => a.lt b
  | _, _ => false

/-- The order in which both zeros are equal; nothing is ordered with the value that is not a number. -/
def le (x y : Binary64) : Bool :=
  match x.extent, y.extent with
  | some a, some b => !b.lt a
  | _, _ => false

/-- The larger of the two; the first where they are equal or cannot be compared. -/
def max (x y : Binary64) : Binary64 := if x.lt y then y else x

/-- The smaller of the two; the first where they are equal or cannot be compared. -/
def min (x y : Binary64) : Binary64 := if y.lt x then y else x

end Binary64

end MediaEngine
