import WaveGen.Text

/-!
# Command headers (specification §4.2)

A command is a *verb path* (verbs joined by colons), and after the first space its parameters. Every
verb has a long and a short spelling (`BASIC_WAVE`, `BSWV`); a question mark behind a verb makes a
query of it. Commands are read in either spelling, and replies are written as the header mode asks.

* `Verb.pairs` — the two spellings of each verb.
* `Header.shorten`, `Header.lengthen` — respelling a verb path; parameters stay untouched.
* `HeaderMode.format` — the reply as the header mode asks for it.
-/

namespace WaveGen

/-! ## Verbs -/

namespace Verb

/-- The long and the short spelling of each verb. -/
def pairs : List (Text × Text) :=
  [("COMM_HEADER", "CHDR"), ("OUTPUT", "OUTP"), ("BASIC_WAVE", "BSWV"), ("MODULATEWAVE", "MDWV"),
    ("SWEEPWAVE", "SWWV"), ("BURSTWAVE", "BTWV"), ("PARACOPY", "PACP"), ("ARBWAVE", "ARWV"),
    ("NUMBER_FORMAT", "NBFM"), ("LANGUAGE", "LAGG"), ("SYS_CFG", "SCFG"), ("BUZZER", "BUZZ"),
    ("SCREEN_SAVE", "SCSV"), ("CLOCK_SOURCE", "ROSC"), ("FREQCOUNTER", "FCNT"),
    ("INVERT", "INVT"), ("COUPLING", "COUP"), ("STORELIST", "STL"), ("WAVEDATA", "WVDT"),
    ("VIRTUALKEY", "VKEY"), ("SYSTEM", "SYST"), ("COMMUNICATE", "COMM"), ("IPADDRESS", "IPAD"),
    ("SUBNETMASK", "SMAS"), ("GATEWAY", "GAT"), ("SAMPLERATE", "SRATE"), ("HARMONIC", "HARM"),
    ("COMBINE", "CMBN")].map fun (long, short) => (long.toList, short.toList)

/-- The short spelling of a verb in its long one. -/
def short? (long : Text) : Option Text := pairs.lookup long

/-- The long spelling of a verb in its short one. -/
def long? (short : Text) : Option Text := (pairs.map Prod.swap).lookup short

/-- Takes a question mark off the end of a verb: the verb, and the mark if there was one. -/
def cutQuery (verb : Text) : Text × Text :=
  match verb.reverse with
  | '?' :: rest => (rest.reverse, ['?'])
  | _ => (verb, [])

/-- Respells one verb in capital letters. A question mark at its end is kept, and a verb that the
table does not have stays as it is. -/
def respell (table : Text → Option Text) (verb : Text) : Text :=
  let raised := Text.upper verb
  let (stem, mark) := cutQuery raised
  match table stem with
  | some other => other ++ mark
  | none => raised

end Verb

/-! ## Headers -/

namespace Header

/-- The verb path of a command: what stands in front of the first space. -/
def path (command : Text) : Text := Text.before ' ' command

/-- The parameters of a command: what stands behind the first space, if there is one. -/
def parameters? (command : Text) : Option Text := Text.after? ' ' command

/-- Respells every verb of a command. -/
def respell (table : Text → Option Text) (command : Text) : Text :=
  let verbs := (Text.split ':' (path command)).map (Verb.respell table)
  match parameters? command with
  | some parameters => Text.join ':' verbs ++ ' ' :: parameters
  | none => Text.join ':' verbs

/-- The command with its verbs in their short spelling. -/
def shorten (command : Text) : Text := respell Verb.short? command

/-- The command with its verbs in their long spelling. -/
def lengthen (command : Text) : Text := respell Verb.long? command

/-- The parameters alone; an empty text if there are none. -/
def strip (command : Text) : Text := (parameters? command).getD []

end Header

/-! ## Header modes -/

/-- How the header of a reply is written: with short verbs, with long verbs, or not at all. -/
inductive HeaderMode where
  | short
  | long
  | off
deriving DecidableEq, Repr

/-- A text that names no header mode. -/
inductive HeaderFault where
  | unknownMode (name : Text)
deriving DecidableEq, Repr

/-- The wording of the failure, with the name in capital letters. -/
def HeaderFault.message : HeaderFault → Text
  | .unknownMode name => "invalid header mode ".toList ++ Text.quoted (Text.upper name)

namespace HeaderMode

/-- The name of a header mode. -/
def name : HeaderMode → Text
  | short => "SHORT".toList
  | long => "LONG".toList
  | off => "OFF".toList

/-- The header mode of this name, in any letter case. -/
def parse (value : Text) : Except HeaderFault HeaderMode :=
  if Text.upper value = name short then .ok short
  else if Text.upper value = name long then .ok long
  else if Text.upper value = name off then .ok off
  else .error (.unknownMode value)

/-- The header mode that a stored setting stands for; a text that names none stands for `short`. -/
def ofSetting (value : Text) : HeaderMode :=
  match parse value with
  | .ok mode => mode
  | .error _ => short

/-- A reply, written as the header mode asks. -/
def format (mode : HeaderMode) (reply : Text) : Text :=
  match mode with
  | short => Header.shorten reply
  | long => Header.lengthen reply
  | off => Header.strip reply

end HeaderMode

end WaveGen
