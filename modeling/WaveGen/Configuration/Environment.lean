import WaveGen.Configuration.Layer
import WaveGen.Decimal
import WaveGen.Text.QuotedString

/-!
# Environment variables (specification §10.4)

The environment is the uppermost layer of a configuration. The variables that begin with `SDG_EMU_`
name a field by its path (`SDG_EMU_SERVER__PORT`), and their values are read as flags, numbers,
quoted strings, lists or tables; all else is a text. The prefix and the two underscores are the
program's; how a name is taken apart with them, and how a value is read, is assumed behaviour of the
library that reads the environment.

* `Environment.path?` — the path that a variable's name spells.
* `Environment.parseValue` — the value that a variable's text spells.
* `Environment.layer` — what the variables say, each upon those before it.
-/

namespace WaveGen

namespace Environment

/-! ## Names -/

/-- What the names of the variables begin with, in any letter case. -/
def nameStart : Text := "SDG_EMU_".toList

/-- Two underscores in a name stand for a point in a path. -/
def points : Text → Text
  | '_' :: '_' :: rest => '.' :: points rest
  | c :: rest => c :: points rest
  | [] => []

/-- The path that a variable's name spells, in small letters. A name of which some part is empty
spells none. -/
def path? (name : Text) : Option (List Text) :=
  let name := Text.trim name
  if Text.sameLetters (name.take nameStart.length) nameStart then
    let path := Text.trim (points (name.drop nameStart.length))
    let parts := Text.split '.' (Text.lower path)
    if parts.any (·.isEmpty) then none else some parts
  else none

/-! ## Values -/

/-- The blanks around the parts of a value. -/
def isBlank (c : Char) : Bool := c == ' ' || c == '\t' || c == '\n' || c == '\x0c' || c == '\r'

/-- Drops the blanks in front. -/
def dropBlanks (t : Text) : Text := t.dropWhile isBlank

/-- The characters of which a plain value consists. -/
def isPlain (c : Char) : Bool :=
  !(c == ',' || c == '\x7b' || c == '\x7d' || c == '[' || c == ']')

/-- The whole number that a text spells, if it fits into 64 bits, with a sign or without. -/
def wholeNumber? (t : Text) : Option Int := do
  let (negative, digits) := Decimal.takeSign t
  let n ← Decimal.readDigits? digits
  let value : Int := if negative then -(n : Int) else n
  if -Int.pow 2 63 ≤ value ∧ value < Int.pow 2 64 then some value else none

/-- The number with a point that a text spells. A number without a point is whole or none at all. -/
def realNumber? (t : Text) : Option Binary64 := if t.contains '.' then Binary64.read? t else none

/-- The value that a plain text spells: a number, or else the text itself. -/
def plainValue (t : Text) : Value :=
  match realNumber? t with
  | some x => .real x
  | none =>
    match wholeNumber? t with
    | some n => .whole n
    | none => .text t

/-! ## Quoted strings -/

/-- The characters at the front of a text that lie within so many bytes. -/
def withinBytes : Nat → Text → Text
  | _, [] => []
  | bytes, c :: rest =>
    if c.utf8Size ≤ bytes then c :: withinBytes (bytes - c.utf8Size) rest else []

/-- What a quoted string stands for, given its characters in front of the first escape and those
from there on. The characters in front are counted and then kept as far as they lie within that many
bytes, which is all of them if they are ASCII. -/
def joinAtEscape (front behind : Text) : Text := withinBytes front.length front ++ behind

/-- Takes a quoted string off the front. -/
def readQuoted : Reader Text := fun t => do
  let (content, rest) ← QuotedString.read t
  let (front, behind) := Reader.span (fun c => c != '\\' && c != '\x22') (t.drop 1)
  if behind.head? = some '\\' then
    return (joinAtEscape front (content.drop front.length), rest)
  else return (content, rest)

/-! ## Lists and tables -/

/-- Takes items with commas between them off the front, up to the closing mark. A comma may stand
behind the last one, too. Every item but the last uses up a comma, so the length of the text is
enough of `steps`. -/
def readItems {α : Type} (item : Reader α) (close : Char) : Nat → Reader (List α)
  | 0, _ => none
  | steps + 1, t =>
    match Reader.mark close t with
    | some rest => some ([], rest)
    | none => do
      let (a, t) ← item t
      match Reader.mark ',' t with
      | none => return ([a], ← Reader.mark close t)
      | some t =>
        let (more, rest) ← readItems item close steps t
        return (a :: more, rest)

/-- Takes a key of a table off the front, with blanks around it. -/
def readKey : Reader Text := fun t => do
  let t := dropBlanks t
  let (key, rest) ←
    match t with
    | '\x22' :: _ => readQuoted t
    | _ => Reader.span1 (fun c => c.isAlphanum || c == '_' || c == '-') t
  return (key, dropBlanks rest)

/-- Takes an entry of a table off the front. -/
def readEntry (value : Reader Value) : Reader (Text × Value) := fun t => do
  let (key, t) ← readKey t
  let (v, rest) ← value (dropBlanks (← Reader.mark '=' t))
  return ((key, v), dropBlanks rest)

/-- Takes a value off the front, without blanks before it. A value within another is shorter, so the
length of the text is enough of `depth`. -/
def readBareValue (inner : Reader Value) : Reader Value := fun t =>
  match Reader.word "true".toList t with
  | some rest => some (.flag true, rest)
  | none =>
    match Reader.word "false".toList t with
    | some rest => some (.flag false, rest)
    | none =>
      match t with
      | '\x7b' :: rest => do
        let (entries, rest) ← readItems (readEntry inner) '\x7d' t.length rest
        return (.table .inline entries.reverse, rest)
      | '[' :: rest => do
        let (items, rest) ← readItems inner ']' t.length rest
        return (.list items, rest)
      | '\x22' :: _ => do
        let (s, rest) ← readQuoted t
        return (.text s, rest)
      | '\'' :: c :: '\'' :: rest => some (.text [c], rest)
      | '\'' :: _ => none
      | _ =>
        let (plain, rest) := Reader.span isPlain t
        some (plainValue (Text.trim plain), rest)

/-- Takes a value off the front, with blanks around it. Values lie within each other at most `depth`
deep. -/
def readValue : Nat → Reader Value
  | 0, _ => none
  | depth + 1, t => do
    let (v, rest) ← readBareValue (readValue depth) (dropBlanks t)
    return (v, dropBlanks rest)

/-- The value that a variable's text spells. A text that is not used up by one value stands for
itself, with its blanks. -/
def parseValue (t : Text) : Value := (Reader.whole (readValue (t.length + 1)) t).getD (.text t)

/-! ## The layer -/

/-- What a value at a path says of the section at the head of the path. -/
def sectionAt (v : Value) : List Text → Section
  | [] => .ofValue v
  | [field] => .fields [(field, v)]
  | field :: _ => .fields [(field, .table .inline [])]

/-- What one variable says. -/
def variableLayer (name value : Text) : Layer :=
  match path? name with
  | some (head :: rest) => fun name =>
    if name = head then some (sectionAt (parseValue value) rest) else none
  | _ => Layer.empty

/-- What the variables say together, each upon those before it. -/
def layer (given : List (Text × Text)) : Layer :=
  given.foldl (fun below (name, value) => (variableLayer name value).above below) Layer.empty

end Environment

end WaveGen
