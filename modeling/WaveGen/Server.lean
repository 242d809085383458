import WaveGen.Instrument
import WaveGen.Line.Framer

/-!
# Serving an instrument (specification §10.7)

A server answers command lines for one instrument. Each session has a framer of its own, and all
sessions act on the same instrument. A reply that is not empty goes back with one line feed at its
end.

* `Session.receive`, `Session.finish` — what a session does with a chunk of bytes, and at the end of
  what its client sends.
* `Server.session` — a session from start to end.
* `Server.exchange` — the same over a link, which may be down.
-/

namespace WaveGen

/-! ## Sessions -/

/-- A session of a client with the instrument. -/
structure Session where
  /-- The instrument as it is at this point of the session. -/
  instrument : Instrument
  /-- What was received of the client's lines. -/
  framer : Framer
deriving DecidableEq, Repr

namespace Session

/-- A session in which nothing was sent yet. -/
def start (i : Instrument) (limit : Nat) : Session := ⟨i, .new limit⟩

/-- The bytes that carry a reply; none for an empty one. -/
def replyBytes (reply : Text) : Bytes :=
  if reply.isEmpty then [] else Utf8.encode (Line.terminated reply)

/-- Answers commands: the instrument afterwards, and the bytes that go back. -/
def answer (i : Instrument) : List Text → Instrument × Bytes
  | [] => (i, [])
  | command :: rest =>
    let (changed, reply) := i.process command
    let (last, bytes) := answer changed rest
    (last, replyBytes reply ++ bytes)

/-- Receives a chunk of bytes: the session afterwards, and the bytes that go back. -/
def receive (s : Session) (chunk : Bytes) : Session × Bytes :=
  let (framer, commands) := s.framer.push chunk
  let (instrument, bytes) := answer s.instrument commands
  (⟨instrument, framer⟩, bytes)

/-- Receives several chunks, one after the other. -/
def receiveAll (s : Session) : List Bytes → Session × Bytes
  | [] => (s, [])
  | chunk :: rest =>
    let (next, bytes) := s.receive chunk
    let (last, more) := next.receiveAll rest
    (last, bytes ++ more)

/-- The client sends no more, which ends a last line without a line feed. -/
def finish (s : Session) : Session × Bytes :=
  let (framer, command) := s.framer.finish
  let (instrument, bytes) := answer s.instrument command.toList
  (⟨instrument, framer⟩, bytes)

end Session

/-! ## Servers -/

/-- A server for one instrument (`EmulatorServer`, specification §10.7). -/
structure Server where
  /-- The instrument that all sessions act on. -/
  instrument : Instrument
  /-- The greatest number of bytes that a command line may have. -/
  lineLimit : Nat
deriving DecidableEq, Repr

/-- Whether connections to a server can be made. -/
inductive Link where
  | up
  | down
deriving DecidableEq, Repr

/-- The failure of an exchange with a server: its link is down. -/
inductive LinkFault where
  | down
deriving DecidableEq, Repr

namespace Server

/-- A session in which the client sends these chunks and no more, and reads all that comes back. -/
def session (s : Server) (chunks : List Bytes) : Server × Bytes :=
  let (received, bytes) := (Session.start s.instrument s.lineLimit).receiveAll chunks
  let (finished, last) := received.finish
  ({ s with instrument := finished.instrument }, bytes ++ last)

/-- A session over a link. Nothing reaches the server over a link that is down. -/
def exchange (s : Server) (link : Link) (chunks : List Bytes) : Server × Except LinkFault Bytes :=
  match link with
  | .down => (s, .error .down)
  | .up =>
    let (after, bytes) := s.session chunks
    (after, .ok bytes)

/-- Sessions over a link, one after the other. -/
def exchanges (s : Server) (link : Link) :
    List (List Bytes) → Server × List (Except LinkFault Bytes)
  | [] => (s, [])
  | chunks :: rest =>
    let (next, outcome) := s.exchange link chunks
    let (last, outcomes) := next.exchanges link rest
    (last, outcome :: outcomes)

end Server

end WaveGen
