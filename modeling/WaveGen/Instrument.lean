import WaveGen.Instrument.Device

/-!
# Processing commands (specification §4.5)

One command in, one reply out. A command is brought to its normal form (`Instrument.normalize`), its
address is found (`Route.ofCommand`), and it is carried out there (`Instrument.route`). The
instrument never answers a command that it turned down (`Instrument.dispatch`), and writes the
header of its replies as the header mode asks (`Instrument.process`).
-/

namespace WaveGen

/-! ## Routes -/

/-- Where a command is carried out. -/
inductive Route where
  | identification
  | operationComplete
  | parameterCopy
  | reset
  | commHeader
  | buzzer
  | storeList
  /-- The channel at this place, counted from zero; there need not be one. -/
  | channel (index : Nat)
  /-- Nowhere: the instrument does not know the command. -/
  | nowhere
deriving DecidableEq, Repr

namespace Route

/-- The verbs of the instrument as a whole, and whether the verb must be the whole command. -/
def deviceVerbs : List (Text × Bool × Route) :=
  [("*IDN?".toList, true, identification), ("*OPC".toList, false, operationComplete),
    ("PACP".toList, false, parameterCopy), ("*RST".toList, true, reset),
    ("CHDR".toList, false, commHeader), ("BUZZ".toList, false, buzzer),
    ("STL".toList, false, storeList)]

/-- The place of the channel that a command such as `C2:OUTP ON` addresses. -/
def channelIndex? : Text → Option Nat
  | 'C' :: digit :: ':' :: _ => Channel.tokenIndex? ['C', digit]
  | _ => none

/-- Where a command in normal form is carried out (steps 2 to 4 of specification §4.5). -/
def ofCommand (command : Text) : Route :=
  match deviceVerbs.find? fun (verb, whole, _) =>
      if whole then command == verb else Text.startsWith verb command with
  | some (_, _, route) => route
  | none =>
    match channelIndex? command with
    | some index => channel index
    | none => nowhere

end Route

namespace Instrument

/-! ## One command -/

/-- The normal form of a command: without blanks at its ends, in capital letters and with short
verbs. -/
def normalize (command : Text) : Text := Header.shorten (Text.upper (Text.trim command))

/-- Carries out a command for one of the channels. -/
def channelCommand (i : Instrument) (index : Nat) (command : Text) :
    Instrument × Except CommandFault Reply :=
  match ChannelId.ofIndex? index with
  | none => (i, .error (.invalidChannel command))
  | some id =>
    let (changed, outcome) := (i.channel id).process command
    (i.withChannel id changed.settings, outcome)

/-- Carries out a command in normal form. -/
def route (i : Instrument) (command : Text) : Instrument × Except CommandFault Reply :=
  match Route.ofCommand command with
  | .identification => (i, .ok i.identification)
  | .operationComplete => (i, .ok (operationComplete command))
  | .parameterCopy => i.parameterCopy command
  | .reset => (i.reset, .ok .silent)
  | .commHeader => i.commHeader command
  | .buzzer => i.buzzer command
  | .storeList => (i, i.storeList command)
  | .channel index => i.channelCommand index command
  | .nowhere => (i, .ok .silent)

/-- Carries out a command in normal form; one that is turned down gets no answer. -/
def dispatch (i : Instrument) (command : Text) : Instrument × Reply :=
  match i.route command with
  | (changed, .ok reply) => (changed, reply)
  | (changed, .error _) => (changed, .silent)

/-- The text of a reply, as the present header mode asks for it; empty if nothing is sent. -/
def replyText (i : Instrument) : Reply → Text
  | .silent => []
  | .headed text => i.headerMode.format text
  | .bare text => text

/-- Processes a command (`Engine.process`, specification §6): the instrument afterwards, and the
text of its reply. -/
def process (i : Instrument) (command : Text) : Instrument × Text :=
  let (changed, reply) := i.dispatch (normalize command)
  (changed, changed.replyText reply)

/-! ## Runs of commands -/

/-- The instrument after several commands. -/
def after (i : Instrument) (commands : List Text) : Instrument :=
  commands.foldl (fun i command => (i.process command).1) i

/-- The replies to several commands, in their order. -/
def replies (i : Instrument) : List Text → List Text
  | [] => []
  | command :: rest => let (changed, reply) := i.process command
    reply :: changed.replies rest

end Instrument

end WaveGen
