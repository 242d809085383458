import WaveGen.Text
import WaveGen.Binary64

/-!
# Decimal numbers (specification §4.1)

A `Decimal` is a sign, a whole significand and a power of ten. It stands between the texts that
spell numbers and the doubles that the instrument computes with.

* `Decimal.read?` — the grammar of numbers: an optional sign, digits with an optional point, and an
  optional exponent.
* `Decimal.toBinary64` — the nearest double.
* `Decimal.nearest` — a ratio rounded to a number of significant digits.
-/

namespace WaveGen

/-- The number `± significand * 10 ^ exponent`. -/
structure Decimal where
  /-- Whether the sign is a minus; zero may have one, too. -/
  negative : Bool
  /-- The whole number that the power of ten multiplies. -/
  significand : Nat
  /-- The exponent of the power of ten. -/
  exponent : Int
deriving DecidableEq, Repr

namespace Decimal

/-! ## Reading -/

/-- Takes an optional sign off the front: whether it is a minus, and what follows. -/
def takeSign : Text → Bool × Text
  | '-' :: rest => (true, rest)
  | '+' :: rest => (false, rest)
  | t => (false, t)

/-- Reads a text of one or more decimal digits. -/
def readDigits? (t : Text) : Option Nat :=
  if t.isEmpty || !t.all Char.isDigit then none else some (Text.digitsValue t)

/-- The exponent from which on no further digit of it is read. -/
def exponentCap : Nat := 65536

/-- The exponent that digits spell, up to the digit that takes it to the cap or above. -/
def cappedExponent (digits : Text) : Nat :=
  digits.foldl (fun n c => if n < exponentCap then 10 * n + (c.toNat - '0'.toNat) else n) 0

/-- Reads what follows the significand: nothing, or an exponent mark with a whole number. -/
def readExponent? : Text → Option Int
  | [] => some 0
  | mark :: rest =>
    if mark = 'e' || mark = 'E' then
      let (negative, digits) := takeSign rest
      if (readDigits? digits).isSome then
        let n := cappedExponent digits
        some (if negative then -(n : Int) else n)
      else none
    else none

/-- Reads digits with an optional point among or beside them: the digits in front of the point,
those behind it, and what follows. -/
def takeSignificand (t : Text) : Text × Text × Text :=
  let whole := t.takeWhile Char.isDigit
  match t.dropWhile Char.isDigit with
  | '.' :: rest => (whole, rest.takeWhile Char.isDigit, rest.dropWhile Char.isDigit)
  | rest => (whole, [], rest)

/-- Reads a decimal number. There is at least one digit in front of the exponent. -/
def read? (t : Text) : Option Decimal :=
  let (negative, body) := takeSign t
  let (whole, fraction, rest) := takeSignificand body
  if whole.isEmpty && fraction.isEmpty then none
  else
    (readExponent? rest).map fun exponent =>
      ⟨negative, Text.digitsValue (whole ++ fraction), exponent - fraction.length⟩

/-! ## Rounding -/

/-- The number of decimal digits of a natural number; that of 0 is 1. -/
def digitCount (n : Nat) : Nat := (Nat.toDigits 10 n).length

/-- Every positive decimal number below `10 ^ -reach` is too small for a double other than zero, and
every one from `10 ^ reach` on is too large for a finite double. -/
def reach : Int := 400

/-- The double nearest to the number. -/
def toBinary64 (d : Decimal) : Binary64 :=
  let top := d.exponent + digitCount d.significand
  if d.significand = 0 ∨ top < -reach then .finite d.negative ⟨0, finiteRanks_pos⟩
  else if reach < top then .infinite d.negative
  else
    Binary64.ofUnits d.negative
      (d.significand * Nat.pow 10 d.exponent.toNat * Binary64.unitsPerOne)
      (Nat.pow 10 (-d.exponent).toNat)

/-- The power of ten of the leading digit of the positive number `num / den`. -/
def leadingPower (num den : Nat) : Int :=
  if den ≤ num then (digitCount (num / den) : Int) - 1 else -(digitCount ((den - 1) / num) : Int)

/-- The positive number `num / den` rounded to `digits` significant digits, with the given sign. A
tie goes to the even neighbour, and the significand has exactly `digits` digits. -/
def nearest (digits : Nat) (negative : Bool) (num den : Nat) : Decimal :=
  let exponent := leadingPower num den - (digits - 1)
  let significand := roundDiv (num * Nat.pow 10 (-exponent).toNat) (den * Nat.pow 10 exponent.toNat)
  if significand = Nat.pow 10 digits then ⟨negative, Nat.pow 10 (digits - 1), exponent + 1⟩
  else ⟨negative, significand, exponent⟩

end Decimal

/-- Reads a double: a decimal number, or one of the names `inf`, `infinity` and `nan` in any letter
case, with an optional sign. -/
def Binary64.read? (t : Text) : Option Binary64 :=
  match Decimal.read? t with
  | some d => some d.toBinary64
  | none =>
    let (negative, body) := Decimal.takeSign t
    let name := Text.lower body
    if name = "inf".toList ∨ name = "infinity".toList then some (.infinite negative)
    else if name = "nan".toList then some .nan
    else none

end WaveGen
