import WaveGen.Text.QuotedString

/-!
# Lexemes of TOML

Blanks, comments, line ends, keys and the four forms of strings: in double or in single quotes, on
one line or on several.
-/

namespace WaveGen

namespace Toml

/-! ## Blanks and line ends -/

/-- The blanks within a line. -/
def isBlank (c : Char) : Bool := c == ' ' || c == '\t'

/-- Drops the blanks in front. -/
def dropBlanks (t : Text) : Text := t.dropWhile isBlank

/-- Takes a line end off the front. -/
def lineEnd? : Text → Option Text
  | '\n' :: rest => some rest
  | '\r' :: '\n' :: rest => some rest
  | _ => none

/-- Drops a comment in front, up to the line end. A comment has no control characters but tabs. -/
def dropComment : Text → Text
  | '#' :: rest => rest.dropWhile QuotedString.isPlain
  | t => t

/-- Takes the end of a line off the front, with blanks and a comment before it. The end of the text
is a line end too. -/
def readLineRest (t : Text) : Option Text :=
  match dropComment (dropBlanks t) with
  | [] => some []
  | rest => lineEnd? rest

/-- Drops blanks, comments and line ends in front. A comment that no line end follows stays. Every
step drops a character, so the length of the text is enough of `steps`. -/
def dropLines : Nat → Text → Text
  | 0, t => t
  | steps + 1, t =>
    let t := dropBlanks t
    match lineEnd? (dropComment t) with
    | some rest => dropLines steps rest
    | none => t

/-- Drops all blanks, comments and line ends in front. -/
def dropAllLines (t : Text) : Text := dropLines (t.length + 1) t

/-! ## Strings on one line -/

/-- Takes a string in single quotes off the front. -/
def readLiteral : Reader Text := fun t => do
  let t ← Reader.mark '\'' t
  let (content, rest) := Reader.span (fun c => QuotedString.isPlain c && c != '\'') t
  return (content, ← Reader.mark '\'' rest)

/-! ## Strings on several lines -/

/-- Three quotes. -/
def tripleQuote (quote : Char) : Text := [quote, quote, quote]

/-- Takes the end of a string on several lines off the front: three quotes, before which one or two
may stand that belong to the string. -/
def readClosing (quote : Char) : Reader Text := fun t =>
  let (quotes, rest) := Reader.span (· == quote) t
  if quotes.length < 3 then none
  else
    let own := min (quotes.length - 3) 2
    some (List.replicate own quote, List.replicate (quotes.length - 3 - own) quote ++ rest)

/-- Drops blanks and line ends in front. Every step drops a character, so the length of the text is
enough of `steps`. -/
def dropBlankLines : Nat → Text → Text
  | 0, t => t
  | steps + 1, t =>
    let t := dropBlanks t
    match lineEnd? t with
    | some rest => dropBlankLines steps rest
    | none => t

/-- Drops the rest of a line behind a backslash at its end, and all blanks and line ends that
follow. It fails if something else stands in the line. -/
def dropJoint (t : Text) : Option Text := do
  let rest ← lineEnd? (dropBlanks t)
  return dropBlankLines (rest.length + 1) rest

/-- Takes the rest of a string on several lines off the front. Escapes are read if `escapes` says
so, and a line end of either form counts as a line feed. Every step uses up a character, so the
length of the text is enough of `steps`. -/
def readLinesBody (quote : Char) (escapes : Bool) : Nat → Reader Text
  | 0, _ => none
  | steps + 1, t =>
    match readClosing quote t with
    | some closing => some closing
    | none =>
      match t with
      | [] => none
      | c :: rest =>
        match lineEnd? t with
        | some rest => do
          let (more, rest) ← readLinesBody quote escapes steps rest
          return ('\n' :: more, rest)
        | none =>
          if c = '\\' ∧ escapes then
            match dropJoint rest with
            | some rest => readLinesBody quote escapes steps rest
            | none => do
              let (escaped, rest) ← QuotedString.readEscape rest
              let (more, rest) ← readLinesBody quote escapes steps rest
              return (escaped :: more, rest)
          else if QuotedString.isPlain c then do
            let (more, rest) ← readLinesBody quote escapes steps rest
            return (c :: more, rest)
          else none

/-- Takes a string on several lines off the front. A line end right behind the opening quotes does
not belong to it. -/
def readLines (quote : Char) (escapes : Bool) : Reader Text := fun t => do
  let body ← Reader.word (tripleQuote quote) t
  readLinesBody quote escapes (body.length + 1) ((lineEnd? body).getD body)

/-- Takes a string of any form off the front. -/
def readString : Reader Text := fun t =>
  if Text.startsWith (tripleQuote '\x22') t then readLines '\x22' true t
  else if Text.startsWith (tripleQuote '\'') t then readLines '\'' false t
  else
    match t with
    | '\x22' :: _ => QuotedString.read t
    | _ => readLiteral t

/-! ## Keys -/

/-- The characters of a key without quotes. -/
def isKeyChar (c : Char) : Bool := c.isAlphanum || c == '_' || c == '-'

/-- Takes one part of a key off the front. -/
def readKeyPart : Reader Text := fun t =>
  match t with
  | '\x22' :: _ => QuotedString.read t
  | '\'' :: _ => readLiteral t
  | _ => Reader.span1 isKeyChar t

/-- Takes a key off the front: parts with points between them, and blanks around each. Every part
but the last uses up a point, so the length of the text is enough of `steps`. -/
def readKeyParts : Nat → Reader (List Text)
  | 0, _ => none
  | steps + 1, t => do
    let (part, t) ← readKeyPart (dropBlanks t)
    let t := dropBlanks t
    match Reader.mark '.' t with
    | none => return ([part], t)
    | some t =>
      let (more, rest) ← readKeyParts steps t
      return (part :: more, rest)

/-- The greatest depth, by keys and by values, that is not allowed any more. -/
def depthLimit : Nat := 80

/-- Takes a key off the front: the parts on the way, and the last part. -/
def readKey : Reader (List Text × Text) := fun t => do
  let (parts, rest) ← readKeyParts t.length t
  if depthLimit ≤ parts.length then none
  else return ((parts.dropLast, ← parts.getLast?), rest)

end Toml

end WaveGen
