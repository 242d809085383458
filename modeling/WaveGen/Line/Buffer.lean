import WaveGen.Line

/-!
# Line buffers (specification §10.7)

The loop of `LineFramer`, as a program writes it: with a buffer and a flag where a `Framer` has one
field that may be empty. The flag is set while the rest of a line that is too long is skipped. A
chunk is cut behind every line feed, and its pieces are gone through one by one.
-/

namespace WaveGen

namespace Line

/-- Puts a byte in front of pieces that were cut already. -/
def pieceByte (b : UInt8) : List Bytes → List Bytes
  | [] => [[b]]
  | piece :: more => if b = feed then [b] :: piece :: more else (b :: piece) :: more

/-- Cuts bytes behind every line feed. -/
def pieces (bytes : Bytes) : List Bytes := bytes.foldr pieceByte []

end Line

/-- The state of reading lines from a connection, with a flag. -/
structure LineBuffer where
  /-- The greatest number of bytes that a line may have. -/
  limit : Nat
  /-- The bytes that are held for the incomplete line. -/
  buffer : Bytes
  /-- The incomplete line is too long already, and what comes of it is skipped. -/
  discarding : Bool
deriving DecidableEq, Repr

namespace LineBuffer

/-- A buffer that has not received anything. -/
def new (limit : Nat) : LineBuffer := ⟨limit, [], false⟩

/-- The number of bytes that are held for the incomplete line. -/
def pending (b : LineBuffer) : Nat := b.buffer.length

/-- Takes a piece, and gives the command that it completes. -/
def take (b : LineBuffer) (piece : Bytes) : LineBuffer × Option Text :=
  let complete := piece.getLast? == some Line.feed
  let body := if complete then piece.dropLast else piece
  if b.discarding then ({ b with discarding := !complete }, none)
  else
    let buffer := b.buffer ++ body
    if b.limit < buffer.length then ({ b with buffer := [], discarding := !complete }, none)
    else if complete then ({ b with buffer := [] }, Line.command? buffer)
    else ({ b with buffer := buffer }, none)

/-- Takes pieces one after the other. -/
def takeAll (b : LineBuffer) : List Bytes → LineBuffer × List Text
  | [] => (b, [])
  | piece :: rest =>
    let (next, command) := b.take piece
    let (last, commands) := next.takeAll rest
    (last, command.toList ++ commands)

/-- Receives a chunk of bytes: the buffer afterwards, and the commands completed by the chunk. -/
def push (b : LineBuffer) (chunk : Bytes) : LineBuffer × List Text := b.takeAll (Line.pieces chunk)

/-- Ends the line. A line that was being skipped comes to nothing, whatever is held. -/
def finish (b : LineBuffer) : LineBuffer × Option Text :=
  ({ b with buffer := [], discarding := false },
    if b.discarding then none else Line.command? b.buffer)

end LineBuffer

end WaveGen
