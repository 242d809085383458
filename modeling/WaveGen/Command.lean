import WaveGen.Quantity

/-!
# Commands (specification §7, §10.2, §10.6)

What every command comes to, whichever part of the instrument it addresses: a `Reply`, or a
`CommandFault` that says why the command was turned down.
-/

namespace WaveGen

/-- The reply to a command (`Response`, specification §10.6). -/
inductive Reply where
  /-- Nothing is sent. -/
  | silent
  /-- A reply with a header, which is written as the header mode asks. -/
  | headed (text : Text)
  /-- A reply that is sent as it is. -/
  | bare (text : Text)
deriving DecidableEq, Repr

/-- The reasons to turn a command down (`CommandError`, specification §10.2). -/
inductive CommandFault where
  /-- The command ends where a parameter is needed. -/
  | missingParameter (command : Text)
  /-- The command names a setting that there is not. -/
  | unknownSetting (key command : Text)
  /-- The setting does not take this value. -/
  | invalidValue (key value : Text)
  /-- The command needs a number, or computes with a setting that is none. -/
  | notANumber (fault : QuantityFault)
  /-- There is no such channel. -/
  | invalidChannel (token : Text)
  /-- The command addresses another channel. -/
  | wrongChannel (command : Text)
  /-- The command has a form that is not supported. -/
  | unsupportedForm (command : Text)
deriving DecidableEq, Repr

/-- The wording of a fault. -/
def CommandFault.message : CommandFault → Text
  | missingParameter command => "missing parameter in ".toList ++ Text.quoted command
  | unknownSetting key command =>
    "unknown sub-command ".toList ++ Text.quoted key ++ " in ".toList ++ Text.quoted command
  | invalidValue key value =>
    "invalid value ".toList ++ Text.quoted value ++ " for ".toList ++ key
  | notANumber fault => fault.message
  | invalidChannel token => "invalid channel token ".toList ++ Text.quoted token
  | wrongChannel command =>
    "command ".toList ++ Text.quoted command ++ " is not addressed to this channel".toList
  | unsupportedForm command => "unsupported command form ".toList ++ Text.quoted command

/-- The result of a computation on quantities, as part of a command. -/
def CommandFault.ofQuantity {α : Type} : Except QuantityFault α → Except CommandFault α
  | .ok a => .ok a
  | .error fault => .error (.notANumber fault)

end WaveGen
