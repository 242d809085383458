import WaveGen.Line

/-!
# Framing (specification §10.7)

Received bytes come in chunks that know nothing of lines. A `Framer` (`LineFramer`, specification
§10.7) holds the bytes of the line that is not complete and gives out a command for every line as it
is completed. Lines that are too long are dropped as a whole, up to their line feed.

That a line is being dropped is the lack of held bytes here, so that nothing is held of such a line.
The loop with a flag of its own for it is `LineBuffer`; both give the same answers
(`LineBuffer.transcript_framer`).
-/

namespace WaveGen

/-- The state of reading lines from a connection. -/
structure Framer where
  /-- The greatest number of bytes that a line may have. -/
  limit : Nat
  /-- The bytes of the incomplete line; nothing if it is too long already and is being dropped. -/
  held : Option Bytes
deriving DecidableEq, Repr

namespace Framer

/-- A framer that has not received anything. -/
def new (limit : Nat) : Framer := ⟨limit, some []⟩

/-- The number of bytes that are held for the incomplete line. -/
def pending (f : Framer) : Nat := (f.held.getD []).length

/-- Bytes together with those already held, unless they are more than a line may have. -/
def withinLimit (limit : Nat) (held more : Bytes) : Option Bytes :=
  if (held ++ more).length ≤ limit then some (held ++ more) else none

/-- Holds further bytes of the incomplete line. -/
def hold (f : Framer) (more : Bytes) : Framer :=
  { f with held := f.held.bind fun held => withinLimit f.limit held more }

/-- Ends the line: the framer as it was at first, and the command that the line spells. -/
def finish (f : Framer) : Framer × Option Text := (new f.limit, f.held.bind Line.command?)

/-- Receives complete lines. -/
def pushLines (f : Framer) : List Bytes → Framer × List Text
  | [] => (f, [])
  | line :: rest =>
    let (fresh, command) := (f.hold line).finish
    let (last, commands) := fresh.pushLines rest
    (last, command.toList ++ commands)

/-- Receives a chunk of bytes: the framer afterwards, and the commands completed by the chunk. -/
def push (f : Framer) (chunk : Bytes) : Framer × List Text :=
  let (lines, rest) := Line.cut chunk
  let (last, commands) := f.pushLines lines
  (last.hold rest, commands)

end Framer

end WaveGen
