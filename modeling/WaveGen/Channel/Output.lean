import WaveGen.Channel.Basic

/-!
# The output command (specification §4.3)

`OUTP` switches the output on and off, and sets the load, the polarity and other settings. Its
parameters form a stream that takes effect from left to right (`Channel.outputStream`): what stands
in front of a faulty parameter stays in effect. A new load rescales the settings that depend on it,
all or none (`Channel.changeLoad`), and ends the stream.
-/

namespace WaveGen

namespace Channel

/-! ## Loads -/

/-- The load of 50 ohms. -/
def load50 : Text := "50".toList

/-- The load of high impedance. -/
def loadHighZ : Text := "HZ".toList

/-- The settings that a change of load rescales. -/
def loadScaled : List Text := [Key.amplitude, Key.effective, Key.powerLevel, Key.high, Key.low]

/-- How a change to this load scales a setting: 50 ohms halve it, high impedance doubles it. There
is no other load. -/
def loadScale? (load : Text) : Option (Text → Except QuantityFault Text) :=
  if load = load50 then some fun value => Quantity.divide value ['2']
  else if load = loadHighZ then some fun value => Quantity.multiply value ['2']
  else none

/-- Scales the values of the given keys; the first value that is no number is the fault. -/
def scaled (s : Settings) (scale : Text → Except QuantityFault Text) :
    List Text → Except QuantityFault (List (Text × Text))
  | [] => .ok []
  | key :: keys => do
    let value ← scale (s.value key)
    let others ← scaled s scale keys
    return (key, value) :: others

/-- The settings after a change of load (the rescaling of specification §4.3). The load that is
already there changes nothing. -/
def changeLoad (s : Settings) (load : Text) : Except CommandFault Settings :=
  if s.value Key.load = load then .ok s
  else
    match loadScale? load with
    | none => .error (.invalidValue Key.load load)
    | some scale =>
      match scaled s scale loadScaled with
      | .ok writes => .ok ((s.set Key.load load).setAll writes)
      | .error fault => .error (.notANumber fault)

/-! ## The stream of parameters -/

/-- The values that a setting takes in the output command; nothing if it takes any. -/
def choices? (key : Text) : Option (List Text) :=
  if key = Key.output then some ["ON".toList, "OFF".toList]
  else if key = Key.polarity then some ["NOR".toList, "INVT".toList]
  else none

/-- Whether the output command may give this value to a setting. -/
def admits (key value : Text) : Bool :=
  match choices? key with
  | some allowed => allowed.contains value
  | none => true

/-- Carries out the parameters of an output command from left to right, up to the first faulty one
(the set form of `OUTP`, specification §4.3). A change of load is the last parameter that counts
(§10.11). -/
def outputStream (command : Text) : List Text → Settings → Settings × Except CommandFault Unit
  | [], s => (s, .ok ())
  | token :: rest, s =>
    if token = "ON".toList ∨ token = "OFF".toList then
      outputStream command rest (s.set Key.output token)
    else if token = Key.load then
      match rest with
      | [] => (s, .error (.missingParameter command))
      | load :: _ =>
        match changeLoad s load with
        | .ok changed => (changed, .ok ())
        | .error fault => (s, .error fault)
    else if s.contains token then
      match rest with
      | [] => (s, .error (.missingParameter command))
      | value :: rest =>
        if admits token value then outputStream command rest (s.set token value)
        else (s, .error (.invalidValue token value))
    else (s, .error (.unknownSetting token command))

/-! ## The command -/

/-- The verb of the command. -/
def outputVerb : Text := "OUTP".toList

/-- The reply to the output query. -/
def outputReport (c : Channel) : Text :=
  c.address ++ "OUTP ".toList ++ c.settings.value Key.output ++ ",LOAD,".toList ++
    c.settings.value Key.load ++ ",PLRT,".toList ++ c.settings.value Key.polarity

/-- Carries out an output command, given without the channel's address. -/
def output (c : Channel) (command : Text) : Channel × Except CommandFault Reply :=
  if command = "OUTP?".toList then (c, .ok (.headed c.outputReport))
  else
    match parameterWord outputVerb command with
    | .error fault => (c, .error fault)
    | .ok word =>
      let (settings, outcome) := outputStream command (Text.split ',' word) c.settings
      ({ c with settings }, outcome.map fun _ => .silent)

end Channel

end WaveGen
