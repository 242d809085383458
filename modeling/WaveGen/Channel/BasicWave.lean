import WaveGen.Channel.Basic

/-!
# The basic wave command (specification §4.3)

`BSWV` sets one parameter of the wave, and with it those that follow from it: the period from the
frequency; the effective amplitude and the two levels from the amplitude. All of them are computed
before any is written (`Channel.waveWrites`), so a command that fails changes nothing.
-/

namespace WaveGen

namespace Channel

/-! ## Parameters of the wave -/

/-- The least amplitude of the output stage, in volts from peak to peak. -/
def leastAmplitude : Binary64 := Decimal.toBinary64 ⟨false, 2, -3⟩

/-- The greatest amplitude of the output stage, in volts from peak to peak. -/
def greatestAmplitude : Binary64 := Decimal.toBinary64 ⟨false, 20, 0⟩

/-- The effective amplitude of a sine of amplitude 1, as the instrument rounds it. -/
def effectiveFactor : Text := "0.3535".toList

/-- What a new frequency writes: the frequency and its reciprocal. -/
def frequencyWrites (value : Text) : Except QuantityFault (List (Text × Text)) := do
  let frequency ← Quantity.parse value
  let period ← Quantity.divide ['1'] value
  return [(Key.frequency, Quantity.display frequency), (Key.period, period)]

/-- What a new amplitude writes: the amplitude, moved into the range of the output stage, and what
follows from it. The low level is the high level less the amplitude. -/
def amplitudeWrites (value : Text) : Except QuantityFault (List (Text × Text)) := do
  let wanted ← Quantity.parse value
  let amplitude := Quantity.display (wanted.clamp leastAmplitude greatestAmplitude)
  let effective ← Quantity.multiply amplitude effectiveFactor
  let high ← Quantity.divide amplitude ['2']
  let low ← Quantity.subtract high amplitude
  return [(Key.amplitude, amplitude), (Key.effective, effective), (Key.high, high), (Key.low, low)]

/-- What setting the parameter `key` to `value` writes (the set form of `BSWV`, specification
§4.3). -/
def waveWrites (s : Settings) (command key : Text) (value? : Option Text) :
    Except CommandFault (List (Text × Text)) :=
  if s.contains key then
    match value? with
    | none => .error (.missingParameter command)
    | some value =>
      if key = Key.frequency then CommandFault.ofQuantity (frequencyWrites value)
      else if key = Key.amplitude then CommandFault.ofQuantity (amplitudeWrites value)
      else .ok [(key, value)]
  else .error (.unknownSetting key command)

/-! ## The command -/

/-- The verb of the command. -/
def basicWaveVerb : Text := "BSWV".toList

/-- The reply to the basic wave query. The level of power is defined for a load of 50 ohms only. -/
def basicWaveReport (c : Channel) : Text :=
  let value := c.settings.value
  let powerLevel :=
    if value Key.load = "50".toList then
      "AMPDBM,".toList ++ value Key.powerLevel ++ "dBm,".toList
    else []
  c.address ++ "BSWV WVTP,".toList ++ value Key.waveType ++ ",FRQ,".toList ++
    value Key.frequency ++ "HZ,PERI,".toList ++ value Key.period ++ "S,AMP,".toList ++
    value Key.amplitude ++ "V,AMPVRMS,".toList ++ value Key.effective ++ "Vrms,".toList ++
    powerLevel ++ "OFST,".toList ++ value Key.offset ++ "V,HLEV,".toList ++ value Key.high ++
    "V,LLEV,".toList ++ value Key.low ++ "V,PHSE,".toList ++ value Key.phase

/-- Carries out a basic wave command, given without the channel's address. Only the first parameter
and its value count. -/
def basicWave (c : Channel) (command : Text) : Channel × Except CommandFault Reply :=
  if command = "BSWV?".toList then (c, .ok (.headed c.basicWaveReport))
  else
    match parameterWord basicWaveVerb command with
    | .error fault => (c, .error fault)
    | .ok word =>
      let key := Text.before ',' word
      let value? := (Text.after? ',' word).map (Text.before ',')
      match waveWrites c.settings command key value? with
      | .error fault => (c, .error fault)
      | .ok writes => ({ c with settings := c.settings.setAll writes }, .ok .silent)

end Channel

end WaveGen
