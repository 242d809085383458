import WaveGen.Text

/-!
# Logging (specification §10.3)

How much is logged and in what form. Levels and forms are named in any letter case: what makes small
letters of a text is a parameter, which is `Text.lower` unless another one is given. No character
outside ASCII has a letter of these names as its lower case, so lowering the ASCII letters is enough.
-/

namespace WaveGen

/-! ## Levels -/

/-- How much is logged; each level includes those below it. -/
inductive LogLevel where
  | trace
  | debug
  | info
  | warn
  | error
deriving DecidableEq, Repr

/-- The form of what is logged. -/
inductive LogFormat where
  /-- Several lines per entry. -/
  | pretty
  /-- One line per entry. -/
  | compact
  /-- One JSON object per entry. -/
  | json
deriving DecidableEq, Repr

/-- A text that names no level or no form. -/
inductive LoggingFault where
  | unknownLevel (name : Text)
  | unknownFormat (name : Text)
deriving DecidableEq, Repr

namespace LogLevel

/-- The name of a level. -/
def name : LogLevel → Text
  | trace => "trace".toList
  | debug => "debug".toList
  | info => "info".toList
  | warn => "warn".toList
  | error => "error".toList

/-- The level of this name, once it is in small letters. -/
def parseWith (lower : Text → Text) (value : Text) : Except LoggingFault LogLevel :=
  if lower value = "trace".toList then .ok trace
  else if lower value = "debug".toList then .ok debug
  else if lower value = "info".toList then .ok info
  else if lower value = "warn".toList then .ok warn
  else if lower value = "error".toList then .ok error
  else .error (.unknownLevel value)

/-- The level of this name. -/
def parse (value : Text) : Except LoggingFault LogLevel := parseWith Text.lower value

end LogLevel

namespace LogFormat

/-- The form of this name, once it is in small letters. -/
def parseWith (lower : Text → Text) (value : Text) : Except LoggingFault LogFormat :=
  if lower value = "pretty".toList then .ok pretty
  else if lower value = "compact".toList then .ok compact
  else if lower value = "json".toList then .ok json
  else .error (.unknownFormat value)

/-- The form of this name. -/
def parse (value : Text) : Except LoggingFault LogFormat := parseWith Text.lower value

end LogFormat

/-- The wording of a failure, in which the names that would do are listed. -/
def LoggingFault.message : LoggingFault → Text
  | unknownLevel name =>
    "Invalid log level ".toList ++ Text.quoted name ++
      ". Must be one of: trace, debug, info, warn, error".toList
  | unknownFormat name =>
    "Invalid log format ".toList ++ Text.quoted name ++
      ". Must be one of: pretty, compact, json".toList

/-! ## Options -/

/-- The options of logging. -/
structure Logging where
  /-- How much is logged. -/
  level : LogLevel
  /-- The form of what is logged. -/
  format : LogFormat
  /-- Whether an entry tells the place in the program where it was made. -/
  withPlace : Bool
  /-- Whether an entry tells the thread that made it. -/
  withThread : Bool
  /-- Whether entries are coloured. -/
  withColour : Bool
deriving DecidableEq, Repr

namespace Logging

/-- The options for a level and a form: entries are coloured, and tell neither place nor thread. -/
def new (level : LogLevel) (format : LogFormat) : Logging := ⟨level, format, false, false, true⟩

/-- The options for these names of a level and a form. The level is looked at first. -/
def ofNames (lower : Text → Text) (level format : Text) : Except LoggingFault Logging := do
  let level ← LogLevel.parseWith lower level
  let format ← LogFormat.parseWith lower format
  return new level format

end Logging

end WaveGen
