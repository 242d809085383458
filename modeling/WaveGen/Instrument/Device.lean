import WaveGen.Instrument.Basic

/-!
# Commands for the instrument as a whole (specification §4.4)

The header mode, the copying of one channel's settings to the other, the list of stored waveforms,
the buzzer, the identification and the completion of operations.
-/

namespace WaveGen

namespace Instrument

/-- The parameter of a command that has exactly one space. -/
def soleParameter (command : Text) : Except CommandFault Text :=
  match Text.split ' ' command with
  | [_, parameter] => .ok parameter
  | _ => .error (.unsupportedForm command)

/-- `*IDN?` identifies the instrument. -/
def identification (i : Instrument) : Reply := .bare i.model.identification

/-- `*OPC?` reports that the operations are complete; other forms say nothing. -/
def operationComplete (command : Text) : Reply :=
  if command = "*OPC?".toList then .headed "*OPC 1".toList else .silent

/-- `CHDR?` reports the header mode, and `CHDR` with the name of a mode sets it. -/
def commHeader (i : Instrument) (command : Text) : Instrument × Except CommandFault Reply :=
  if command = "CHDR?".toList then
    (i, .ok (.headed ("CHDR ".toList ++ i.settings.value Key.header)))
  else
    match soleParameter command with
    | .error fault => (i, .error fault)
    | .ok value =>
      match HeaderMode.parse value with
      | .error _ => (i, .error (.invalidValue Key.header value))
      | .ok mode =>
        ({ i with settings := i.settings.set Key.header mode.name }, .ok .silent)

/-- `BUZZ?` reports whether the buzzer is on, and `BUZZ` with `ON` or `OFF` switches it. -/
def buzzer (i : Instrument) (command : Text) : Instrument × Except CommandFault Reply :=
  if command = "BUZZ?".toList then
    (i, .ok (.headed ("BUZZ ".toList ++ i.settings.value Key.buzzer)))
  else
    match soleParameter command with
    | .error fault => (i, .error fault)
    | .ok value =>
      if value = "ON".toList ∨ value = "OFF".toList then
        ({ i with settings := i.settings.set Key.buzzer value }, .ok .silent)
      else (i, .error (.invalidValue Key.buzzer value))

/-- `STL?` lists the built-in waveforms, also as `STL? BUILDIN`; `STL? USER` lists the user's. -/
def storeList (i : Instrument) (command : Text) : Except CommandFault Reply :=
  if command = "STL?".toList then .ok (.headed (i.settings.value Key.builtIn))
  else
    match soleParameter command with
    | .error fault => .error fault
    | .ok value =>
      if value = "BUILDIN".toList then .ok (.headed (i.settings.value Key.builtIn))
      else if value = "USER".toList then .ok (.headed (i.settings.value Key.user))
      else .error (.invalidValue Key.builtIn value)

/-- The channel that a token names. -/
def channelOfToken (token : Text) : Except CommandFault ChannelId :=
  match (Channel.tokenIndex? token).bind ChannelId.ofIndex? with
  | some id => .ok id
  | none => .error (.invalidChannel token)

/-- The two channels that a copy command names: the one that is written and the one that is read. -/
def copyParameters (command : Text) : Except CommandFault (ChannelId × ChannelId) := do
  let pair ← soleParameter command
  match Text.split ',' pair with
  | [target, source] =>
    let target ← channelOfToken target
    let source ← channelOfToken source
    return (target, source)
  | _ => .error (.missingParameter command)

/-- `PACP C2,C1` copies all settings of the second channel named to the first one named. -/
def parameterCopy (i : Instrument) (command : Text) : Instrument × Except CommandFault Reply :=
  match copyParameters command with
  | .error fault => (i, .error fault)
  | .ok (target, source) =>
    let copy := (i.channel target).copyFrom (i.channel source)
    (i.withChannel target copy.settings, .ok .silent)

end Instrument

end WaveGen
