import WaveGen.Text

/-!
# Reading texts from the front

A `Reader` takes something off the front of a text. It gives what it read and the text behind, or
nothing if the text does not begin with such a thing.

* `Reader.mark`, `Reader.word` — a fixed character or text.
* `Reader.span` — all characters of a class at the front.
* `Reader.whole` — a text that is used up by one reading.
-/

namespace WaveGen

/-- Takes something off the front of a text. -/
abbrev Reader (α : Type) := Text → Option (α × Text)

namespace Reader

variable {α : Type}

/-- Takes this character off the front. -/
def mark (c : Char) : Text → Option Text
  | [] => none
  | d :: rest => if d = c then some rest else none

/-- Takes this text off the front. -/
def word (w t : Text) : Option Text := Text.dropHead? w t

/-- All characters of a class at the front, and the text behind them. -/
def span (p : Char → Bool) (t : Text) : Text × Text := (t.takeWhile p, t.dropWhile p)

/-- Takes one or more characters of a class off the front. -/
def span1 (p : Char → Bool) : Reader Text := fun t =>
  match span p t with
  | ([], _) => none
  | found => some found

/-- Reads a text that one reading uses up. -/
def whole (r : Reader α) (t : Text) : Option α :=
  match r t with
  | some (a, []) => some a
  | _ => none

/-! ## Digits -/

/-- The digits of hexadecimal numbers, in either case. -/
def isHexDigit (c : Char) : Bool :=
  c.isDigit || ('a' ≤ c && c ≤ 'f') || ('A' ≤ c && c ≤ 'F')

/-- The value of a hexadecimal digit. -/
def digitValue (c : Char) : Nat :=
  if c.isDigit then c.toNat - '0'.toNat else c.toLower.toNat - 'a'.toNat + 10

/-- The number that digits spell in a number system. -/
def value (radix : Nat) (digits : Text) : Nat :=
  digits.foldl (fun n c => n * radix + digitValue c) 0

/-- Takes exactly `count` hexadecimal digits off the front: their value. -/
def hexDigits (count : Nat) : Reader Nat := fun t =>
  let digits := t.take count
  if digits.length = count ∧ digits.all isHexDigit then
    some (value 16 digits, t.drop count)
  else none

end Reader

end WaveGen
