import MediaEngine.Decimal.Shortest

/-!
# Decimal texts of doubles

Two written forms: the shortest decimal that reads back, positional for exponents from `-4` to `15`
and scientific outside them, and a fixed count of places.
-/

namespace MediaEngine.Decimal

/-- The digits of a natural number. -/
def digits (n : Nat) : List Char := Nat.toDigits 10 n

/-- The digits, with zeros in front up to a width. -/
def padded (width n : Nat) : List Char :=
  let ds := digits n
  List.replicate (width - ds.length) '0' ++ ds

/-- A positional text: the digits with the point after the first `whole` of them, zeros filled in. -/
def positional (ds : List Char) (whole : Int) : List Char :=
  if whole ≤ 0 then '0' :: '.' :: (List.replicate (-whole).toNat '0' ++ ds)
  else if (ds.length : Int) ≤ whole then
    ds ++ List.replicate (whole.toNat - ds.length) '0' ++ ['.', '0']
  else ds.take whole.toNat ++ '.' :: ds.drop whole.toNat

/-- A scientific text: one digit before the point, and an exponent of at least two digits. -/
def scientific (ds : List Char) (exponent : Int) : List Char :=
  let mantissa := match ds with
    | [] => []
    | [d] => [d]
    | d :: rest => d :: '.' :: rest
  let sign := if exponent < 0 then '-' else '+'
  mantissa ++ 'e' :: sign :: padded 2 exponent.natAbs

/-- The shortest text of a finite magnitude. -/
def magnitudeText (units : Nat) : List Char :=
  if units = 0 then ['0', '.', '0']
  else
    let d := shortest units
    let ds := digits d.digits
    let whole := d.exponent + ds.length
    if -4 < whole ∧ whole ≤ 16 then positional ds whole else scientific ds (whole - 1)

end MediaEngine.Decimal

namespace MediaEngine

namespace Binary64
open Decimal

/-- The shortest text that reads back as the double. -/
def text : Binary64 → String
  | .nan => "nan"
  | .infinite s => if s then "-inf" else "inf"
  | .finite s u _ => String.ofList (if s then '-' :: magnitudeText u else magnitudeText u)

/-- The exact value rounded to three places, a half to the even neighbour. -/
def threePlaces : Binary64 → String
  | .nan => "nan"
  | .infinite s => if s then "-inf" else "inf"
  | .finite s u _ =>
    let thousandths := nearest (u * 1000) one
    let body := digits (thousandths / 1000) ++ '.' :: padded 3 (thousandths % 1000)
    String.ofList (if s then '-' :: body else body)

end Binary64

end MediaEngine
