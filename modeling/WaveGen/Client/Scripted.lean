import WaveGen.Client

/-!
# Peers that follow a script

A scripted peer answers the lines that it receives with fixed bytes, one after the other, and keeps
a record of the lines.
-/

namespace WaveGen

/-- A peer that answers from a script. -/
structure ScriptedPeer where
  /-- The answers to the lines still to come; nothing where no answer is sent. -/
  replies : List (Option Bytes)
  /-- Whether the connection is closed right after the last answer. -/
  closesAfterLast : Bool
  /-- The lines received, the latest first, without their line feeds. -/
  received : List Bytes
  /-- The bytes of a line that is not complete. -/
  held : Bytes
deriving DecidableEq, Repr

namespace ScriptedPeer

/-- A peer that has not received anything. -/
def new (replies : List (Option Bytes)) (closesAfterLast : Bool) : ScriptedPeer :=
  ⟨replies, closesAfterLast, [], []⟩

/-- Receives complete lines. A line beyond the script closes the connection, and lines behind that
one are lost. -/
def receiveLines (p : ScriptedPeer) : List Bytes → Response ScriptedPeer
  | [] => ⟨p, [], none⟩
  | line :: rest =>
    match p.replies with
    | [] => ⟨{ p with received := line :: p.received }, [], some .closed⟩
    | reply :: replies =>
      let next := { p with replies := replies, received := line :: p.received }
      let bytes := reply.getD []
      if replies.isEmpty && p.closesAfterLast then ⟨next, bytes, some .closed⟩
      else
        let response := next.receiveLines rest
        { response with sent := bytes ++ response.sent }

/-- The scripted peer as the peer of a client. What is written once it has closed the connection is
lost without a sign. -/
def peer : Peer ScriptedPeer where
  receive p chunk :=
    let (lines, rest) := Line.cut (p.held ++ chunk)
    { p with held := rest }.receiveLines lines
  lose p _ := (p, .taken)

/-- The lines received, in their order and with their line feeds. -/
def transcript (p : ScriptedPeer) : List Bytes := p.received.reverse.map (· ++ [Line.feed])

end ScriptedPeer

end WaveGen
