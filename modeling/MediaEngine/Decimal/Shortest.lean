import MediaEngine.Binary64

/-!
# The shortest decimal of a double

Among the decimals that read back as a given double, the one with the fewest digits is written, and of
several with that many digits the one nearest to the double. For each count of digits only the two
neighbours of the double on the grid of such decimals need to be looked at.
-/

namespace MediaEngine.Decimal

/-- A positive decimal `digits * 10 ^ exponent`. -/
structure Positive where
  digits : Nat
  exponent : Int
  deriving DecidableEq

/-- The power `10 ^ e` as a quotient. -/
def powerOfTen (e : Int) : Nat × Nat :=
  if 0 ≤ e then (Nat.pow 10 e.toNat, 1) else (1, Nat.pow 10 (-e).toNat)

/-- Whether `10 ^ e` is at most the magnitude. -/
def reaches (units : Nat) (e : Int) : Bool :=
  let (num, den) := powerOfTen e
  num * Binary64.one ≤ units * den

/-- The exponent of the leading decimal digit: the magnitude lies in `[10 ^ e, 10 ^ (e + 1))`. The
    binary exponent gives it to within one. -/
def leading (units : Nat) : Int :=
  let estimate := (((units.log2 : Int) - 1074) * 30103).fdiv 100000
  if reaches units (estimate + 1) then estimate + 1
  else if reaches units estimate then estimate
  else estimate - 1

/-- The units that a decimal reads back as. -/
def Positive.units (d : Positive) : Nat :=
  let (num, den) := powerOfTen d.exponent
  Binary64.roundUnits (d.digits * num * Binary64.one) den

/-- The nearer of two neighbours that reads back, a tie going to the even digit. The magnitude lies `rest`
    of `step` above the lower one, whose digits are `low`. -/
def nearer (low rest step : Nat) (down up : Positive) (downReads upReads : Bool) : Option Positive :=
  match downReads, upReads with
  | true, true =>
    if 2 * rest < step then some down
    else if step < 2 * rest then some up
    else if low % 2 = 0 then some down else some up
  | true, false => some down
  | false, true => some up
  | false, false => none

/-- The decimal of the grid `10 ^ e` that reads back as the magnitude and is nearest to it; `none` where
    neither neighbour reads back. -/
def onGrid (units : Nat) (e : Int) : Option Positive :=
  let (num, den) := powerOfTen e
  let step := num * Binary64.one
  let low := units * den / step
  let rest := units * den % step
  let down : Positive := ⟨low, e⟩
  let up : Positive := ⟨low + 1, e⟩
  nearer low rest step down up (down.units == units) (up.units == units)

/-- The first hit on the grids of `count` and more digits. Seventeen digits suffice; past them the exact
    value is written, `2 ^ -1074 = 5 ^ 1074 * 10 ^ -1074`. -/
def search (units : Nat) (top : Int) (count : Nat) : Nat → Positive
  | 0 => ⟨units * Nat.pow 5 1074, -1074⟩
  | fuel + 1 => (onGrid units (top - count + 1)).getD (search units top (count + 1) fuel)

/-- A decimal without zeros at its end. -/
def Positive.trim : Nat → Positive → Positive
  | 0, d => d
  | fuel + 1, d =>
    if d.digits ≠ 0 ∧ d.digits % 10 = 0 then trim fuel ⟨d.digits / 10, d.exponent + 1⟩ else d

/-- The shortest decimal that reads back as the magnitude. -/
def shortest (units : Nat) : Positive :=
  (search units (leading units) 1 17).trim 20

end MediaEngine.Decimal
