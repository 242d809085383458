import WaveGen.Comparison
import WaveGen.Configuration.Load
import WaveGen.Console

/-!
# The command line (specification §10.9)

The program serves an instrument, is a console for one, or compares two.

* `CommandLine.parse` — what the arguments ask for.
* `CommandLine.configuration` — the configuration that serving an instrument starts with.
* `CommandLine.console`, `CommandLine.verify` — the output and the exit status of the other two.
-/

namespace WaveGen

namespace CommandLine

/-! ## Requests -/

/-- What the arguments ask for. -/
inductive Request where
  | serve (flags : Configuration.Flags) (file : Text)
  | console (address : Text)
  | verify (emulator hardware : Text) (sweeps : Bool)
  | help
  /-- The arguments ask for nothing that there is. -/
  | misuse
deriving DecidableEq, Repr

/-- The file that holds the configuration, unless another one is named. -/
def defaultFile : Text := "config/emulator.toml".toList

/-! ## Arguments -/

/-- An argument of a subcommand. -/
inductive Argument where
  /-- An option with its value. -/
  | option (name value : Text)
  /-- An option that has no value. -/
  | switch (name : Text)
  | positional (value : Text)
deriving DecidableEq, Repr

/-- The arguments that a subcommand takes. -/
structure Grammar where
  /-- The names of the options with a value. -/
  options : List Text
  /-- The names of the options without a value. -/
  switches : List Text
  /-- The greatest number of positional arguments. -/
  positionals : Nat

/-- Whether an argument looks like an option. A lone hyphen does not. -/
def looksLikeOption : Text → Bool
  | '-' :: _ :: _ => true
  | _ => false

/-- The number of a port, which may have a plus sign. -/
def port? (value : Text) : Option UInt16 := do
  let (negative, digits) := Decimal.takeSign value
  let n ← Decimal.readDigits? digits
  if n < UInt16.size ∧ (negative → n = 0) then some (UInt16.ofNat n) else none

/-- Whether an option takes this value. -/
def admits (name value : Text) : Bool :=
  if name = "port".toList then (port? value).isSome
  else if name = "config".toList then !value.isEmpty
  else true

/-- How reading the arguments of a subcommand ended. -/
inductive Outcome where
  | arguments (found : List Argument)
  | help
  | misuse
deriving DecidableEq, Repr

/-- Puts an argument in front of those that follow. -/
def Outcome.prepend (a : Argument) : Outcome → Outcome
  | arguments found => .arguments (a :: found)
  | other => other

/-- Arguments behind a double hyphen, all of which are positional. -/
def readPositionals (room : Nat) (args : List Text) : Outcome :=
  if args.length ≤ room then .arguments (args.map .positional) else .misuse

/-- How many more positional arguments there may be behind these arguments. -/
def Grammar.room (g : Grammar) (before : List Argument) : Nat :=
  g.positionals - (before.filter fun a => match a with
    | .positional _ => true
    | _ => false).length

/-- Whether an option or a switch was given already. -/
def given (name : Text) (before : List Argument) : Bool :=
  before.any fun a => match a with
    | .option other _ => other == name
    | .switch other => other == name
    | .positional _ => false

/-- Reads the arguments of a subcommand from left to right, behind those in `before`. A request for
help ends the reading, and so does a misuse; no option may be given twice. -/
def readArguments (g : Grammar) (before : List Argument) : List Text → Outcome
  | [] => .arguments []
  | arg :: rest =>
    match arg with
    | ['-', '-'] => readPositionals (g.room before) rest
    | '-' :: '-' :: body =>
      let name := Text.before '=' body
      if name = "help".toList then (if body = name then .help else .misuse)
      else if given name before then .misuse
      else if g.switches.contains name then
        if body = name then
          (readArguments g (.switch name :: before) rest).prepend (.switch name)
        else .misuse
      else if g.options.contains name then
        match Text.after? '=' body with
        | some value =>
          if admits name value then
            (readArguments g (.option name value :: before) rest).prepend (.option name value)
          else .misuse
        | none =>
          match rest with
          | [] => .misuse
          | value :: rest =>
            if looksLikeOption value || !admits name value then .misuse
            else (readArguments g (.option name value :: before) rest).prepend (.option name value)
      else .misuse
    | '-' :: 'h' :: _ => .help
    | _ =>
      if looksLikeOption arg || g.room before == 0 then .misuse
      else (readArguments g (.positional arg :: before) rest).prepend (.positional arg)

/-- The value of an option, if it was given. -/
def valueOf? (name : String) (found : List Argument) : Option Text :=
  found.findSome? fun a => match a with
    | .option other value => if other = name.toList then some value else none
    | _ => none

/-- The positional arguments in their order. -/
def positionalsOf (found : List Argument) : List Text :=
  found.filterMap fun a => match a with
    | .positional value => some value
    | _ => none

/-! ## Subcommands -/

/-- The options of `serve`. -/
def serveGrammar : Grammar :=
  ⟨["model", "port", "bind", "config", "log-level"].map String.toList, [], 0⟩

/-- The arguments of `console`. -/
def consoleGrammar : Grammar := ⟨[], [], 1⟩

/-- The arguments of `verify`. -/
def verifyGrammar : Grammar := ⟨[], ["sweeps".toList], 2⟩

/-- What arguments for `serve` ask for. -/
def serveRequest (found : List Argument) : Request :=
  .serve
    { model := valueOf? "model" found
      port := (valueOf? "port" found).bind port?
      bindAddress := valueOf? "bind" found
      logLevel := valueOf? "log-level" found }
    ((valueOf? "config" found).getD defaultFile)

/-- What arguments for `console` ask for. -/
def consoleRequest (found : List Argument) : Request :=
  match positionalsOf found with
  | [address] => .console address
  | _ => .misuse

/-- What arguments for `verify` ask for. -/
def verifyRequest (found : List Argument) : Request :=
  match positionalsOf found with
  | [emulator, hardware] => .verify emulator hardware (given "sweeps".toList found)
  | _ => .misuse

/-- The subcommands, and what arguments for each ask for. -/
def subcommands : List (Text × Grammar × (List Argument → Request)) :=
  [("serve".toList, serveGrammar, serveRequest), ("console".toList, consoleGrammar, consoleRequest),
    ("verify".toList, verifyGrammar, verifyRequest)]

/-- Whether arguments for `help` name something that there is help on. -/
def helpRequest : List Text → Request
  | [] => .help
  | [name] =>
    if name = "help".toList ∨ (subcommands.lookup name).isSome then .help else .misuse
  | _ => .misuse

/-- What the arguments of the program ask for. -/
def parse : List Text → Request
  | [] => .misuse
  | first :: rest =>
    if first = "help".toList then helpRequest rest
    else
      match subcommands.lookup first with
      | some (grammar, request) =>
        match readArguments grammar [] rest with
        | .arguments found => request found
        | .help => .help
        | .misuse => .misuse
      | none =>
        match first with
        | '-' :: 'h' :: _ => .help
        | _ => if first = "--help".toList then .help else .misuse

/-! ## Results -/

/-- How a run of the program ended. -/
structure Result where
  /-- The exit status: 0 for success, 1 for a failure, 2 for a misuse. -/
  status : Nat
  /-- The standard output. -/
  output : Text
  /-- What went wrong, if something did. -/
  failure : Option Text
deriving DecidableEq, Repr

/-- The run ended well. -/
def success (output : Text) : Result := ⟨0, output, none⟩

/-- The run failed. -/
def failed (output message : Text) : Result := ⟨1, output, some message⟩

/-- The line on which a failure is reported: the first line of its wording. -/
def failureLine (message : Text) : Text := Text.firstLine ("Error: ".toList ++ message)

/-! ## Serving -/

/-- The reasons why serving an instrument does not start. -/
inductive ServeFault where
  /-- No configuration could be loaded from this file and the environment. -/
  | unreadable (file : Text)
  /-- The configuration cannot be used. -/
  | unusable (fault : ConfigurationFault)
deriving DecidableEq, Repr

/-- The wording of a fault. -/
def ServeFault.message : ServeFault → Text
  | unreadable file => "Failed to load configuration from ".toList ++ file
  | unusable fault => fault.message

/-- The configuration that serving an instrument starts with: what the file and the environment say,
put together in this way, and above that the flags. It is looked at only after the flags were
applied. -/
def configurationWith (merge : Layer → Layer → Layer) (flags : Configuration.Flags) (file : Text)
    (content : Option Text) (environment : List (Text × Text)) : Except ServeFault Configuration :=
  match Configuration.readWith? merge content environment with
  | none => .error (.unreadable file)
  | some c =>
    match (c.withFlags flags).validate with
    | .ok () => .ok (c.withFlags flags)
    | .error fault => .error (.unusable fault)

/-- The configuration that serving an instrument starts with. -/
def configuration (flags : Configuration.Flags) (file : Text) (content : Option Text)
    (environment : List (Text × Text)) : Except ServeFault Configuration :=
  configurationWith Layer.above flags file content environment

/-- The configuration that serving an instrument starts with, where the file is given as bytes. -/
def configurationOfBytes (flags : Configuration.Flags) (file : Text) (content : Option Bytes)
    (environment : List (Text × Text)) : Except ServeFault Configuration :=
  match content with
  | none => configuration flags file none environment
  | some bytes =>
    match Utf8.decode? bytes with
    | none => .error (.unreadable file)
    | some text => configuration flags file (some text) environment

/-! ## Console and comparison -/

/-- What the console prints before its session. -/
def greeting : Text := "Waiting for connection...\nConnected!\n".toList

/-- A console session with a peer, with this input. -/
def console {σ : Type} (peer : Peer σ) (c : Connection σ) (input : Bytes) : Result :=
  match Console.session peer c input with
  | (.ok (), last) => success (greeting ++ last.output)
  | (.error fault, last) => failed (greeting ++ last.output) fault.message

/-- A full comparison. -/
def verify {m : Type → Type} [Monad m] (emulator hardware : Respondent m) (sweeps : Bool) :
    m Result := do
  let report ← Comparison.runAll emulator hardware sweeps
  return if report.passed then success [] else failed [] report.summary

end CommandLine

end WaveGen
