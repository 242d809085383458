import WaveGen.Command
import WaveGen.Settings

/-!
# Output channels (specification §4.3)

A channel owns its settings and has a number, by which commands address it (`C1:`). This module
holds the settings that a channel has when it is switched on, and how a command's parameters are
taken apart.
-/

namespace WaveGen

/-- An output channel. -/
structure Channel where
  /-- The number by which commands address the channel; the first channel has number 1. -/
  number : Nat
  /-- The present settings. -/
  settings : Settings
deriving DecidableEq, Repr

namespace Channel

/-! ## Settings of a channel -/

namespace Key

/-- Whether the output is enabled: `ON` or `OFF`. -/
abbrev output : Text := "OUTPUT".toList
/-- The waveform. -/
abbrev waveType : Text := "WVTP".toList
/-- The frequency. -/
abbrev frequency : Text := "FRQ".toList
/-- The period. -/
abbrev period : Text := "PERI".toList
/-- The amplitude, peak to peak. -/
abbrev amplitude : Text := "AMP".toList
/-- The effective amplitude. -/
abbrev effective : Text := "AMPVRMS".toList
/-- The amplitude as a level of power. -/
abbrev powerLevel : Text := "AMPDBM".toList
/-- The offset. -/
abbrev offset : Text := "OFST".toList
/-- The high level. -/
abbrev high : Text := "HLEV".toList
/-- The low level. -/
abbrev low : Text := "LLEV".toList
/-- The phase. -/
abbrev phase : Text := "PHSE".toList
/-- The load: `HZ` (high impedance) or `50` (ohms). -/
abbrev load : Text := "LOAD".toList
/-- The polarity: `NOR` or `INVT`. -/
abbrev polarity : Text := "PLRT".toList
/-- The greatest amplitude that the output may have. -/
abbrev greatestAmplitude : Text := "MAX_OUTPUT_AMP".toList

end Key

/-- The settings of a channel that was just switched on. -/
def defaults : List (Text × Text) :=
  [(Key.output, "OFF".toList), (Key.waveType, "SINE".toList), (Key.frequency, "1000".toList),
    (Key.period, "0.001".toList), (Key.amplitude, "4".toList), (Key.effective, "1.414".toList),
    (Key.powerLevel, "19.99738".toList), (Key.offset, "0".toList), (Key.high, "2".toList),
    (Key.low, "-2".toList), (Key.phase, "0".toList), (Key.load, "HZ".toList),
    (Key.polarity, "NOR".toList), (Key.greatestAmplitude, "20".toList)]

/-- The settings of a channel that was just switched on, as a store. -/
def defaultSettings : Settings := .ofDefaults defaults

/-- A channel that was just switched on. -/
def new (number : Nat) : Channel := ⟨number, defaultSettings⟩

/-- The channel with its settings as they were when it was switched on. -/
def reset (c : Channel) : Channel := { c with settings := defaultSettings }

/-- The channel with the settings of another one. It keeps its number. -/
def copyFrom (c source : Channel) : Channel := { c with settings := source.settings }

/-- What a command for this channel begins with. -/
def address (c : Channel) : Text := 'C' :: Text.ofNat c.number ++ [':']

/-! ## Parameters -/

/-- The parameters of a command: the word behind the verb and one space. Further words are left
out. -/
def parameterWord (verb command : Text) : Except CommandFault Text :=
  match Text.dropHead? (verb ++ [' ']) command with
  | some rest => .ok (Text.before ' ' rest)
  | none => .error (.unsupportedForm command)

end Channel

end WaveGen
