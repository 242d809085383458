import WaveGen.Configuration.Value
import WaveGen.Decimal
import WaveGen.Toml.Lexeme

/-!
# Scalars of TOML

Numbers, dates and times, and flags. Whole numbers fit into 64 bits with a sign; they may be written
in decimal, hexadecimal, octal or binary, with underscores between the digits.
-/

namespace WaveGen

namespace Toml

/-! ## Digits -/

/-- Takes digits off the front, of which any may have one underscore before it. The underscores are
left out. -/
def spanGrouped (isDigit : Char → Bool) : Text → Text × Text
  | [] => ([], [])
  | c :: rest =>
    if isDigit c then
      let (digits, rest) := spanGrouped isDigit rest
      (c :: digits, rest)
    else
      match c, rest with
      | '_', d :: after =>
        if isDigit d then
          let (digits, rest) := spanGrouped isDigit after
          (d :: digits, rest)
        else ([], c :: rest)
      | _, _ => ([], c :: rest)

/-- Takes one or more digits off the front, the first without an underscore before it. -/
def readGrouped (isDigit : Char → Bool) : Reader Text
  | [] => none
  | c :: rest =>
    if isDigit c then
      let (digits, rest) := spanGrouped isDigit rest
      some (c :: digits, rest)
    else none

/-- Takes the sign of a number off the front, if it has one. -/
def takeSign : Text → Text × Text
  | '+' :: rest => (['+'], rest)
  | '-' :: rest => (['-'], rest)
  | t => ([], t)

/-- Takes the whole part of a decimal number off the front, with its sign. It has no needless zero
in front, so a zero there stands alone. -/
def readWholePart : Reader Text := fun t =>
  let (sign, body) := takeSign t
  match body with
  | '0' :: rest => some (sign ++ ['0'], rest)
  | _ => do
    let (digits, rest) ← readGrouped Char.isDigit body
    return (sign ++ digits, rest)

/-! ## Whole numbers -/

/-- A whole number, if it fits into 64 bits with a sign. -/
def fitting? (n : Int) : Option Value :=
  if -Int.pow 2 63 ≤ n ∧ n < Int.pow 2 63 then some (.whole n) else none

/-- Takes a whole number off the front, behind the mark of its number system. -/
def readRadix (radix : Nat) (isDigit : Char → Bool) : Reader Value := fun t => do
  let (digits, rest) ← readGrouped isDigit t
  return (← fitting? (Reader.value radix digits), rest)

/-- Takes a whole number off the front. -/
def readWhole : Reader Value := fun t =>
  match t with
  | '0' :: 'x' :: rest => readRadix 16 Reader.isHexDigit rest
  | '0' :: 'o' :: rest => readRadix 8 (fun c => '0' ≤ c && c ≤ '7') rest
  | '0' :: 'b' :: rest => readRadix 2 (fun c => c == '0' || c == '1') rest
  | _ => do
    let (spelling, rest) ← readWholePart t
    let (negative, digits) := Decimal.takeSign spelling
    let n ← Decimal.readDigits? digits
    return (← fitting? (if negative then -(n : Int) else n), rest)

/-! ## Real numbers -/

/-- Takes a fraction off the front, with its point. -/
def readFraction : Reader Text := fun t => do
  let (digits, rest) ← readGrouped Char.isDigit (← Reader.mark '.' t)
  return ('.' :: digits, rest)

/-- Takes an exponent off the front, with its mark. -/
def readExponent : Reader Text
  | [] => none
  | c :: rest =>
    if c = 'e' ∨ c = 'E' then do
      let (sign, body) := takeSign rest
      let (digits, rest) ← readGrouped Char.isDigit body
      return ('e' :: sign ++ digits, rest)
    else none

/-- Takes what makes a number real off the front: a fraction, an exponent, or both. -/
def readRealPart : Reader Text := fun t =>
  match readFraction t with
  | none => readExponent t
  | some (fraction, rest) =>
    match readExponent rest with
    | none => some (fraction, rest)
    | some (exponent, rest) => some (fraction ++ exponent, rest)

/-- Takes a real number in digits off the front. One that is too large for a double is refused if it
is positive. -/
def readReal : Reader Value := fun t => do
  let (whole, rest) ← readWholePart t
  let (real, rest) ← readRealPart rest
  let x := (← Decimal.read? (whole ++ real)).toBinary64
  if x = .infinite false then none else return (.real x, rest)

/-- Takes the name of a number that is not finite off the front. -/
def readNamed : Reader Value := fun t =>
  let (sign, body) := takeSign t
  match Reader.word "inf".toList body with
  | some rest => some (.real (.infinite (sign == ['-'])), rest)
  | none => do
    let rest ← Reader.word "nan".toList body
    return (.real .nan, rest)

/-! ## Dates and times -/

/-- Takes a number of exactly `count` decimal digits off the front, from `low` to `high`. -/
def readCounted (count low high : Nat) : Reader Nat := fun t =>
  let digits := t.take count
  let n := Text.digitsValue digits
  if digits.length = count ∧ digits.all Char.isDigit ∧ low ≤ n ∧ n ≤ high then
    some (n, t.drop count)
  else none

/-- The number of days of a month. -/
def daysOf (year month : Nat) : Nat :=
  if month = 2 then
    if year % 4 = 0 ∧ (year % 100 ≠ 0 ∨ year % 400 = 0) then 29 else 28
  else if month = 4 ∨ month = 6 ∨ month = 9 ∨ month = 11 then 30
  else 31

/-- Takes a date off the front. -/
def readDate (t : Text) : Option Text := do
  let (year, t) ← readCounted 4 0 9999 t
  let (month, t) ← readCounted 2 1 12 (← Reader.mark '-' t)
  let (_, rest) ← readCounted 2 1 (daysOf year month) (← Reader.mark '-' t)
  return rest

/-- Takes a time of day off the front. The 60th second is a leap second. -/
def readTime (t : Text) : Option Text := do
  let (_, t) ← readCounted 2 0 23 t
  let (_, t) ← readCounted 2 0 59 (← Reader.mark ':' t)
  let (_, t) ← readCounted 2 0 60 (← Reader.mark ':' t)
  match Reader.mark '.' t with
  | none => return t
  | some behindPoint =>
    match Reader.span1 Char.isDigit behindPoint with
    | some (_, rest) => return rest
    | none => return t

/-- Takes the offset of a time from universal time off the front, if there is one. -/
def dropOffset (t : Text) : Text :=
  match t with
  | 'Z' :: rest => rest
  | 'z' :: rest => rest
  | c :: rest =>
    if c = '+' ∨ c = '-' then
      (do
        let (_, t) ← readCounted 2 0 23 rest
        let (_, t) ← readCounted 2 0 59 (← Reader.mark ':' t)
        return t : Option Text).getD (c :: rest)
    else t
  | [] => t

/-- Takes the time behind a date off the front, if there is one. -/
def dropTimeOfDate (t : Text) : Text :=
  match t with
  | c :: rest =>
    if c = 'T' ∨ c = 't' ∨ c = ' ' then
      match readTime rest with
      | some rest => dropOffset rest
      | none => t
    else t
  | [] => t

/-- Takes a date, a time or both off the front. The value is a table in which no configuration finds
a field, so nothing of it is kept. -/
def readMoment : Reader Value := fun t =>
  let moment : Value := .table .inline []
  match readDate t with
  | some rest => some (moment, dropTimeOfDate rest)
  | none => (readTime t).map fun rest => (moment, rest)

/-! ## Scalars -/

/-- Takes a flag off the front. -/
def readFlag : Reader Value := fun t =>
  match Reader.word "true".toList t with
  | some rest => some (.flag true, rest)
  | none => (Reader.word "false".toList t).map fun rest => (.flag false, rest)

/-- Takes the first thing off the front that one of the readers can take. -/
def firstOf {α : Type} (readers : List (Reader α)) : Reader α := fun t =>
  readers.findSome? fun r => r t

/-- Takes a scalar that is not a string off the front. -/
def readScalar : Reader Value :=
  firstOf [readMoment, readReal, readNamed, readWhole, readFlag]

end Toml

end WaveGen
