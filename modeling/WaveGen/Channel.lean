import WaveGen.Channel.Output
import WaveGen.Channel.BasicWave

/-!
# Commands for a channel (specification §4.3)

A command for a channel begins with the channel's address (`C1:`). What follows is an output command
or a basic wave command, told apart by what it begins with.
-/

namespace WaveGen

namespace Channel

/-- Carries out a command with its address. -/
def process (c : Channel) (command : Text) : Channel × Except CommandFault Reply :=
  match Text.dropHead? c.address command with
  | none => (c, .error (.wrongChannel command))
  | some body =>
    if Text.startsWith outputVerb body then c.output body
    else if Text.startsWith basicWaveVerb body then c.basicWave body
    else (c, .error (.unsupportedForm command))

end Channel

end WaveGen
