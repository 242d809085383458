import WaveGen.Client

/-!
# Stations

A station is an instrument on a plain line connection: one command per line, and one line back for
every reply that is not empty. It may answer some commands with texts of its own, and hang up on
one.
-/

namespace WaveGen

/-- An instrument on a plain line connection. -/
structure Station where
  /-- The instrument that processes the commands. -/
  instrument : Instrument
  /-- The commands that are answered with these very texts, whatever the instrument replies. -/
  overrides : List (Text × Text)
  /-- The command on which the station hangs up. -/
  closesOn : Option Text
  /-- The bytes of a line that is not complete. -/
  held : Bytes
deriving DecidableEq, Repr

namespace Station

/-- A station that answers with what its instrument replies. -/
def plain (i : Instrument) : Station := ⟨i, [], none, []⟩

/-- The bytes that answer a command, given the instrument's reply to it. -/
def answer (s : Station) (command reply : Text) : Bytes :=
  match s.overrides.lookup command with
  | some text => Utf8.encode text
  | none => if reply.isEmpty then [] else Utf8.encode (reply ++ ['\n'])

/-- Receives complete lines; one that is not UTF-8 is passed over. -/
def receiveLines (s : Station) : List Bytes → Response Station
  | [] => ⟨s, [], none⟩
  | line :: rest =>
    match Utf8.decode? line with
    | none => s.receiveLines rest
    | some command =>
      if s.closesOn = some command then ⟨s, [], some .closed⟩
      else
        let (instrument, reply) := s.instrument.process command
        let response := { s with instrument := instrument }.receiveLines rest
        { response with sent := s.answer command reply ++ response.sent }

/-- The station as the peer of a client. Nothing can be written to it once it has hung up. -/
def peer : Peer Station where
  receive s chunk :=
    let (lines, rest) := Line.cut (s.held ++ chunk)
    { s with held := rest }.receiveLines lines
  lose s _ := (s, .unwritten)

end Station

end WaveGen
