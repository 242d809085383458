import WaveGen.Text.Reader

/-!
# Quoted strings

A string between double quotes, in which a backslash begins an escape: a letter for a control
character, or the code of a character in hexadecimal.
-/

namespace WaveGen

namespace QuotedString

/-- The characters that stand for themselves: all but the control characters, of which only the tab
is allowed. -/
def isPlain (c : Char) : Bool := c == '\t' || (0x20 ≤ c.toNat && c.toNat != 0x7F)

/-- The character with this code, if there is one. -/
def ofCode? (code : Nat) : Option Char := if code.isValidChar then some (Char.ofNat code) else none

/-- Takes the code of a character off the front, in so many hexadecimal digits. -/
def readCode (digits : Nat) : Reader Char := fun t => do
  let (code, rest) ← Reader.hexDigits digits t
  return (← ofCode? code, rest)

/-- Takes an escape off the front, behind its backslash: the character that it stands for. -/
def readEscape : Reader Char
  | 'b' :: rest => some ('\x08', rest)
  | 't' :: rest => some ('\t', rest)
  | 'n' :: rest => some ('\n', rest)
  | 'f' :: rest => some ('\x0c', rest)
  | 'r' :: rest => some ('\r', rest)
  | '\x22' :: rest => some ('\x22', rest)
  | '\\' :: rest => some ('\\', rest)
  | 'u' :: rest => readCode 4 rest
  | 'U' :: rest => readCode 8 rest
  | _ => none

/-- Takes the rest of a string off the front, with its closing quote. Every step uses up a
character, so the length of the text is enough of `steps`. -/
def readBody : Nat → Reader Text
  | 0, _ => none
  | _ + 1, [] => none
  | steps + 1, c :: rest =>
    if c = '\x22' then some ([], rest)
    else if c = '\\' then do
      let (escaped, rest) ← readEscape rest
      let (more, rest) ← readBody steps rest
      return (escaped :: more, rest)
    else if isPlain c then do
      let (more, rest) ← readBody steps rest
      return (c :: more, rest)
    else none

/-- Takes a string off the front, with both quotes. -/
def read : Reader Text := fun t => do
  let body ← Reader.mark '\x22' t
  readBody body.length body

end QuotedString

end WaveGen
