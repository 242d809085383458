import WaveGen.Text.Utf8

/-!
# Lines (specification §6)

Commands and replies travel as lines of bytes, each ended by a line feed.

* `Line.cut` — the complete lines among some bytes, and the bytes of the line that is not complete.
* `Line.command?` — the command that a line spells, if it spells one.
* `Line.terminated` — a reply as it is sent, with the line feed at its end.
-/

namespace WaveGen

namespace Line

/-- The line feed, which ends every line. -/
def feed : UInt8 := 10

/-- Puts a byte in front of lines that were cut already: a line feed ends a new line, and any other
byte belongs to the line in front. -/
def addByte (b : UInt8) : List Bytes × Bytes → List Bytes × Bytes
  | (lines, rest) =>
    if b = feed then ([] :: lines, rest)
    else
      match lines with
      | [] => ([], b :: rest)
      | line :: more => ((b :: line) :: more, rest)

/-- Cuts bytes into the complete lines, without their line feeds, and the rest behind the last line
feed. -/
def cut (bytes : Bytes) : List Bytes × Bytes := bytes.foldr addByte ([], [])

/-- The command that a line spells: without blanks at its ends and in capital letters. A blank line
spells none, nor does one that is not UTF-8. -/
def command? (line : Bytes) : Option Text :=
  match Utf8.decode? line with
  | none => none
  | some text =>
    let command := Text.upper (Text.trim text)
    if command.isEmpty then none else some command

/-- A text with one line feed at its end; one that is there already is enough. -/
def terminated (text : Text) : Text := if text.getLast? = some '\n' then text else text ++ ['\n']

end Line

end WaveGen
