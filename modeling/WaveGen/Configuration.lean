import WaveGen.Logging
import WaveGen.Model
import WaveGen.SocketAddress

/-!
# Configuration (specification §10.4)

What a server is told: its name, its logging, where it listens, how long a line may be, and which
model its instrument is of.

* `Configuration.validate` — whether a configuration can be used, and the first fault if not. It has
  lists of its own of the names that logging takes.
* `Configuration.socketAddress` — the address to listen on.
-/

namespace WaveGen

/-- The configuration of a server. -/
structure Configuration where
  /-- The name of the server. -/
  name : Text
  /-- The name of the level of logging. -/
  logLevel : Text
  /-- The name of the form of logging. -/
  logFormat : Text
  /-- The address of the host, in the form in which it stands before a port. -/
  bindAddress : Text
  /-- The port to listen on. -/
  port : UInt16
  /-- The pause before the address is tried again, in milliseconds. -/
  bindRetry : UInt64
  /-- The greatest number of bytes that a command line may have. -/
  lineLimit : UInt64
  /-- The name of the instrument's model. -/
  model : Text
deriving DecidableEq, Repr

/-- The reasons why a configuration cannot be used. -/
inductive ConfigurationFault where
  | unknownLogLevel (name : Text)
  | unknownLogFormat (name : Text)
  | portZero
  | lineLimitZero
  | invalidAddress (host : Text) (port : UInt16)
  | logging (fault : LoggingFault)
  | model (fault : ModelFault)
deriving DecidableEq, Repr

/-- The names of levels of logging that validation lets through. -/
def Configuration.validLevels : List Text :=
  ["trace", "debug", "info", "warn", "error"].map String.toList

/-- The names of forms of logging that validation lets through. -/
def Configuration.validFormats : List Text := ["pretty", "compact", "json"].map String.toList

namespace ConfigurationFault

/-- Names with commas between them. -/
def nameList (names : List Text) : Text := ", ".toList.intercalate names

/-- A host and a port with a colon between them. -/
def addressText (host : Text) (port : UInt16) : Text := host ++ ':' :: Text.ofNat port.toNat

/-- What is wrong with the configuration. -/
def reason : ConfigurationFault → Text
  | unknownLogLevel name =>
    "Invalid log_level ".toList ++ Text.quoted name ++ ". Must be one of: ".toList ++
      nameList Configuration.validLevels
  | unknownLogFormat name =>
    "Invalid log_format ".toList ++ Text.quoted name ++ ". Must be one of: ".toList ++
      nameList Configuration.validFormats
  | portZero => "Invalid port 0. Must be 1-65535".toList
  | lineLimitZero => "max_line_bytes must be greater than 0".toList
  | invalidAddress host port =>
    "Invalid bind address ".toList ++ Text.quoted (addressText host port) ++
      ": invalid socket address syntax".toList
  | logging fault => fault.message
  | model fault => fault.message

/-- The wording of a fault. -/
def message : ConfigurationFault → Text
  | model fault => fault.message
  | fault => "Configuration validation error: ".toList ++ fault.reason

end ConfigurationFault

namespace Configuration

/-- The configuration of a server that was told nothing. -/
def default : Configuration where
  name := "sdg-emulator".toList
  logLevel := "info".toList
  logFormat := "compact".toList
  bindAddress := "127.0.0.1".toList
  port := 21111
  bindRetry := 1000
  lineLimit := 4096
  model := "sdg1032x".toList

/-- The address to listen on. -/
def socketAddress (c : Configuration) : Except ConfigurationFault SocketAddress :=
  match SocketAddress.parse? (ConfigurationFault.addressText c.bindAddress c.port) with
  | some address => .ok address
  | none => .error (.invalidAddress c.bindAddress c.port)

/-- The model of the instrument. -/
def instrumentModel (c : Configuration) : Except ConfigurationFault Model :=
  match Model.parse c.model with
  | .ok model => .ok model
  | .error fault => .error (.model fault)

/-- The options of logging, for names that are looked at in small letters. -/
def loggingWith (lower : Text → Text) (c : Configuration) : Except ConfigurationFault Logging :=
  match Logging.ofNames lower c.logLevel c.logFormat with
  | .ok options => .ok options
  | .error fault => .error (.logging fault)

/-- The options of logging. -/
def logging (c : Configuration) : Except ConfigurationFault Logging := c.loggingWith Text.lower

/-- Looks whether the configuration can be used; if not, for the first of the faults in this order:
logging, port, line limit, address, model. The names for logging are looked at in small letters. -/
def validateWith (lower : Text → Text) (c : Configuration) : Except ConfigurationFault Unit := do
  unless validLevels.contains (lower c.logLevel) do throw (.unknownLogLevel c.logLevel)
  unless validFormats.contains (lower c.logFormat) do throw (.unknownLogFormat c.logFormat)
  if c.port = 0 then throw .portZero
  if c.lineLimit = 0 then throw .lineLimitZero
  let _ ← c.socketAddress
  let _ ← c.instrumentModel

/-- Looks whether the configuration can be used. -/
def validate (c : Configuration) : Except ConfigurationFault Unit := c.validateWith Text.lower

end Configuration

end WaveGen
