import WaveGen.Decimal.General

/-!
# Quantities (specification §4.1)

Numeric settings are kept as the texts that the instrument displays. This module computes with such
texts: each operand is read as a double (`Quantity.parse`), the result is computed in doubles, and
it is displayed again with six significant digits (`Quantity.display`).
-/

namespace WaveGen

/-- The failure of arithmetic on texts: an operand is not a finite number. -/
inductive QuantityFault where
  | notANumber (text : Text)
deriving DecidableEq, Repr

/-- The wording of a failure. -/
def QuantityFault.message : QuantityFault → Text
  | .notANumber text => Text.quoted text ++ " is not a number".toList

namespace Quantity

/-- Reads a finite number, with blanks around it or not. -/
def parse (t : Text) : Except QuantityFault Binary64 :=
  match Binary64.read? (Text.trim t) with
  | some x => if x.isFinite then .ok x else .error (.notANumber t)
  | none => .error (.notANumber t)

/-- The displayed form of a number. -/
def display (x : Binary64) : Text := x.toText

/-- The difference of two quantities. -/
def subtract (a b : Text) : Except QuantityFault Text := do
  let x ← parse a
  let y ← parse b
  return display (x.sub y)

/-- The product of two quantities. -/
def multiply (a b : Text) : Except QuantityFault Text := do
  let x ← parse a
  let y ← parse b
  return display (x.mul y)

/-- The factor by which both operands of a quotient are scaled: `10 ^ 10`. -/
def quotientScale : Binary64 := Decimal.toBinary64 ⟨false, 1, 10⟩

/-- The quotient of two quantities; `inf` when the denominator is zero. Both operands are scaled
first, each with its own rounding. -/
def divide (numerator denominator : Text) : Except QuantityFault Text := do
  let n ← parse numerator
  let d ← parse denominator
  if d.isZero then return "inf".toList
  return display ((n.mul quotientScale).div (d.mul quotientScale))

end Quantity

end WaveGen
