import WaveGen.Decimal

/-!
# General number format (specification §10.11)

The instrument prints a number with at most six significant digits and without needless zeros. Plain
positional notation serves from `10 ^ -4` up to `10 ^ 6`; outside that range the number has one
leading digit and an exponent of at least two digits (`1.23457e+06`).
-/

namespace WaveGen

/-- The significant digits that are printed. -/
def significantDigits : Nat := 6

/-- The least power of ten that is still printed in positional notation. -/
def leastPositional : Int := -4

namespace Decimal

/-- Drops the zeros at the end of a fraction. -/
def dropTrailingZeros (fraction : Text) : Text := (fraction.reverse.dropWhile (· == '0')).reverse

/-- Digits in front of the point and digits behind it. Zeros at the end are dropped, and so is the
point if nothing is left behind it. -/
def pointed (whole fraction : Text) : Text :=
  match dropTrailingZeros fraction with
  | [] => whole
  | kept => whole ++ '.' :: kept

/-- An exponent with its mark, its sign and at least two digits. -/
def exponentText (power : Int) : Text :=
  let digits := Text.ofNat power.natAbs
  let padded := if digits.length < 2 then '0' :: digits else digits
  'e' :: (if power < 0 then '-' else '+') :: padded

/-- The text of a magnitude with the given digits, of which the first counts `10 ^ power`. -/
def magnitudeText (digits : Text) (power : Int) : Text :=
  if power < leastPositional ∨ (significantDigits : Int) ≤ power then
    pointed (digits.take 1) (digits.drop 1) ++ exponentText power
  else if power < 0 then
    pointed ['0'] (List.replicate (-power - 1).toNat '0' ++ digits)
  else
    pointed (digits.take (power.toNat + 1)) (digits.drop (power.toNat + 1))

/-- The text of a number that is not zero and whose significand has no needless zero in front. -/
def generalText (d : Decimal) : Text :=
  let digits := Text.ofNat d.significand
  let magnitude := magnitudeText digits (d.exponent + (digits.length - 1 : Nat))
  if d.negative then '-' :: magnitude else magnitude

end Decimal

namespace Binary64

/-- The text of a double (`formatFloat`, specification §4.1): its value rounded to six significant
digits, ties to even. Both zeros are printed alike, and so are the numbers that are not finite: by
name.

The digits are rounded once. Positional notation may also be had by two roundings: the first gives
the exponent, and the second rounds the value to as many decimal places as this exponent leaves for
the digits. That these come to the same, carries included, is part of `toText_general`. -/
def toText : Binary64 → Text
  | .nan => "nan".toList
  | .infinite negative => if negative then "-inf".toList else "inf".toList
  | .finite negative rank =>
    if rank.val = 0 then "0".toList
    else (Decimal.nearest significantDigits negative (rankUnits rank.val) unitsPerOne).generalText

end Binary64

end WaveGen
