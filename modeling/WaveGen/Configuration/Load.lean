import WaveGen.Configuration.Environment
import WaveGen.Configuration.Wrapped
import WaveGen.Toml

/-!
# Loading a configuration (specification §10.4)

A configuration is loaded from a file, which need not be there, and from the environment, which
comes on top. What is loaded is looked at before it is used. The command line comes last of all
(`Configuration.Flags`). How a layer is put upon another is a parameter of `Configuration.readWith?`
and `Configuration.loadWith`; the program has `Layer.above` there.
-/

namespace WaveGen

/-- The reasons why no configuration could be loaded. -/
inductive LoadFault where
  /-- The file breaks the rules of its format, or a value is of the wrong kind. -/
  | unreadable
  /-- What was loaded cannot be used. -/
  | unusable (fault : ConfigurationFault)
deriving DecidableEq, Repr

namespace Configuration

/-- The layer of a file, once the values wrapped in it were taken out; a file that is not there says
nothing. -/
def fileLayer? : Option Text → Option Layer
  | none => some Layer.empty
  | some content => ((Toml.parse? content).bind Value.unwrapEntries?).map Layer.ofTable

/-- The configuration that a file and the environment describe, whether it can be used or not, with
this way to put an upper layer upon a lower one. -/
def readWith? (merge : Layer → Layer → Layer) (file : Option Text)
    (environment : List (Text × Text)) : Option Configuration := do
  let lower ← fileLayer? file
  ofLayer? (merge (Environment.layer environment) lower)

/-- Loads a configuration that can be used, with this way to put an upper layer upon a lower one. -/
def loadWith (merge : Layer → Layer → Layer) (file : Option Text)
    (environment : List (Text × Text)) : Except LoadFault Configuration :=
  match readWith? merge file environment with
  | none => .error .unreadable
  | some c =>
    match c.validate with
    | .ok () => .ok c
    | .error fault => .error (.unusable fault)

/-- Loads a configuration that can be used. -/
def load (file : Option Text) (environment : List (Text × Text)) : Except LoadFault Configuration :=
  loadWith Layer.above file environment

/-- The fields that the command line may set. -/
structure Flags where
  /-- The name of the instrument's model. -/
  model : Option Text
  /-- The port to listen on. -/
  port : Option UInt16
  /-- The address of the host. -/
  bindAddress : Option Text
  /-- The name of the level of logging. -/
  logLevel : Option Text
deriving DecidableEq, Repr

/-- The configuration with the fields that the command line sets. -/
def withFlags (c : Configuration) (flags : Flags) : Configuration :=
  { c with
    model := flags.model.getD c.model
    port := flags.port.getD c.port
    bindAddress := flags.bindAddress.getD c.bindAddress
    logLevel := flags.logLevel.getD c.logLevel }

end Configuration

end WaveGen
