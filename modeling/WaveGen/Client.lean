import WaveGen.Line
import WaveGen.Server

/-!
# Clients (specification §10.8)

A client (`ScpiClient`, specification §10.8) sends commands as lines to a peer and reads reply
lines. It waits for a reply only when the command is a query.

* `Wire` — a connection to a peer, as the calls use it, with effects in any monad.
* `Client.write`, `Client.query`, `Client.queryRaw`, `Client.send` — the calls of a client.
* `Peer`, `Connection` — whatever answers a client, and a connection to it: the wire of a run in
  which the peer is known (`Peer.wire`).
* `Client.calls` — calls with a peer, one after the other.
-/

namespace WaveGen

/-! ## Faults -/

/-- The failures of a client. -/
inductive ClientFault where
  /-- No connection to this address could be made. -/
  | refused (address : Text)
  /-- The line of this command could not be written. -/
  | unwritten (command : Text)
  /-- The line was written, and could not be flushed. -/
  | unflushed
  /-- The peer has closed the connection, and all that it sent was read. -/
  | closed
  /-- The reply cannot be read: it is not UTF-8, or the connection is broken. -/
  | unreadable
  /-- No reply line to this query came in time. -/
  | timeout (query : Text)
deriving DecidableEq, Repr

/-- The wording of a failure. -/
def ClientFault.message : ClientFault → Text
  | refused address => "Failed to connect to ".toList ++ address
  | unwritten command => "Failed to write command: ".toList ++ command
  | unflushed => "Failed to flush stream".toList
  | closed => "Connection closed by peer".toList
  | unreadable => "Failed to read response".toList
  | timeout query => "Timeout waiting for response to: ".toList ++ query

/-! ## Wires -/

/-- How writing to a peer ends. -/
inductive Delivery where
  /-- The bytes are on their way. Whether the peer still reads them is another matter. -/
  | taken
  | unwritten
  | unflushed
deriving DecidableEq, Repr

/-- The failure of a call whose command was delivered like this, if it fails there. -/
def Delivery.fault? (command : Text) : Delivery → Option ClientFault
  | taken => none
  | unwritten => some (.unwritten command)
  | unflushed => some .unflushed

/-- How waiting for a line of a peer ends. -/
inductive Arrival where
  /-- With a line, and its line feed unless the stream ended without one. -/
  | line (bytes : Bytes)
  /-- The peer has closed the connection, and sent no more lines before. -/
  | closed
  /-- The connection is broken. -/
  | broken
  /-- No line came in time. -/
  | late
deriving DecidableEq, Repr

/-- What a client makes of it as the reply to a query. -/
def Arrival.reply (query : Text) : Arrival → Except ClientFault Text
  | line bytes =>
    match Utf8.decode? bytes with
    | some reply => .ok reply
    | none => .error .unreadable
  | closed => .error .closed
  | broken => .error .unreadable
  | late => .error (.timeout query)

/-- A connection to a peer, as the calls of a client use it. -/
structure Wire (m : Type → Type) where
  /-- Writes bytes, and flushes them. -/
  write : Bytes → m Delivery
  /-- Waits for the next line, and takes it. -/
  readLine : m Arrival

/-- Whoever responds to commands: the response to a command is nothing if none is awaited. -/
abbrev Respondent (m : Type → Type) := Text → m (Except ClientFault (Option Text))

namespace Client

/-! ## Calls -/

/-- Whether a command asks for a reply: its first word ends in a question mark. -/
def isQuery (command : Text) : Bool := (Text.before ' ' command).getLast? == some '?'

/-- The bytes that carry a command. -/
def commandBytes (command : Text) : Bytes := Utf8.encode (command ++ ['\n'])

section Calls

variable {m : Type → Type} [Monad m] (w : Wire m)

/-- Sends a command. -/
def write (command : Text) : m (Except ClientFault Unit) := do
  match (← w.write (commandBytes command)).fault? command with
  | some fault => return .error fault
  | none => return .ok ()

/-- Reads the reply to a query, exactly as received. -/
def readReply (query : Text) : m (Except ClientFault Text) := do
  return (← w.readLine).reply query

/-- Sends a query and reads the reply, exactly as received. Nothing is read if the query could not be
sent. -/
def queryRaw (query : Text) : m (Except ClientFault Text) := do
  match ← write w query with
  | .error fault => return .error fault
  | .ok () => readReply w query

/-- Sends a query and reads the reply without the blanks at its end. -/
def query (query : Text) : m (Except ClientFault Text) := do
  return (← queryRaw w query).map Text.trimEnd

/-- Sends a command, and reads the reply if it is a query. -/
def send : Respondent m := fun command => do
  if isQuery command then return (← queryRaw w command).map some
  else return (← write w command).map fun () => none

/-- The kinds of calls. -/
inductive Call where
  | write
  | query
  | queryRaw
  | send
deriving DecidableEq, Repr

/-- Makes one call; a call that reads nothing gives no text. -/
def Call.make (kind : Call) (command : Text) : m (Except ClientFault (Option Text)) := do
  match kind with
  | .write => return (← Client.write w command).map fun () => none
  | .query => return (← Client.query w command).map some
  | .queryRaw => return (← Client.queryRaw w command).map some
  | .send => Client.send w command

end Calls

end Client

/-! ## Peers and connections -/

/-- How a connection ends. Either way no more bytes come from the peer. -/
inductive Ending where
  /-- The peer has closed it. -/
  | closed
  /-- It is broken, so that reading fails behind what has arrived. -/
  | broken
deriving DecidableEq, Repr

/-- What a peer does when bytes reach it. -/
structure Response (σ : Type) where
  /-- The state of the peer afterwards. -/
  state : σ
  /-- The bytes that it sends back. -/
  sent : Bytes
  /-- How the connection then ends, if it does. -/
  ending : Option Ending

/-- Whatever answers a client, with states in `σ`. -/
structure Peer (σ : Type) where
  /-- What the peer does in a state, when these bytes reach it. -/
  receive : σ → Bytes → Response σ
  /-- What becomes of bytes that are written when the connection has ended. They do not reach the
  peer, but this may go unnoticed, and the state tells one write from the next. -/
  lose : σ → Bytes → σ × Delivery

/-- A connection to a peer, as the client sees it. -/
structure Connection (σ : Type) where
  /-- The state of the peer. -/
  state : σ
  /-- The bytes that the peer sent and the client has not read. -/
  unread : Bytes
  /-- How the connection has ended, if it has. -/
  ending : Option Ending
deriving DecidableEq, Repr

/-- A session with a server is a peer; it never ends the connection of its own accord. -/
def Session.peer : Peer Session where
  receive s chunk :=
    let (next, sent) := s.receive chunk
    ⟨next, sent, none⟩
  lose s _ := (s, .taken)

namespace Client

/-- A new connection to a peer in this state. -/
def newConnection {σ : Type} (state : σ) : Connection σ := ⟨state, [], none⟩

/-- Connects to an address once. -/
def connect {σ : Type} (link : Link) (address : Text) (state : σ) :
    Except ClientFault (Connection σ) :=
  match link with
  | .up => .ok (newConnection state)
  | .down => .error (.refused address)

/-- The next line among the unread bytes, with its line feed, and the bytes behind it. When the peer
has closed the connection, what is left of its bytes is the last line. -/
def nextLine? (unread : Bytes) (closed : Bool) : Option (Bytes × Bytes) :=
  match unread.dropWhile (· != Line.feed) with
  | _ :: rest => some (unread.takeWhile (· != Line.feed) ++ [Line.feed], rest)
  | [] => if closed && !unread.isEmpty then some (unread, []) else none

end Client

variable {σ : Type}

/-- Writes bytes over a connection. -/
def Peer.write (peer : Peer σ) (c : Connection σ) (bytes : Bytes) : Connection σ × Delivery :=
  match c.ending with
  | none =>
    let response := peer.receive c.state bytes
    (⟨response.state, c.unread ++ response.sent, response.ending⟩, .taken)
  | some ending =>
    let (state, delivery) := peer.lose c.state bytes
    (⟨state, c.unread, some ending⟩, delivery)

/-- How waiting for a line ends when there is none. -/
def Arrival.without : Option Ending → Arrival
  | none => late
  | some .closed => closed
  | some .broken => broken

/-- Takes the next line of what the peer sent. -/
def Connection.readLine (c : Connection σ) : Connection σ × Arrival :=
  match Client.nextLine? c.unread (c.ending == some .closed) with
  | some (line, rest) => ({ c with unread := rest }, .line line)
  | none => (c, .without c.ending)

/-- The wire to a peer. -/
def Peer.wire (peer : Peer σ) : Wire (StateM (Connection σ)) where
  write bytes := fun c => (peer.write c bytes).swap
  readLine := fun c => c.readLine.swap

/-- The response of a peer to a command that a client sends. -/
def Peer.respond (peer : Peer σ) (c : Connection σ) (command : Text) :
    Connection σ × Except ClientFault (Option Text) :=
  ((Client.send peer.wire command).run c).swap

namespace Client

/-! ## Runs of calls -/

/-- Makes one call with a peer. -/
def call (peer : Peer σ) (c : Connection σ) (kind : Call) (command : Text) :
    Connection σ × Except ClientFault (Option Text) :=
  ((kind.make peer.wire command).run c).swap

/-- Makes calls with a peer one after the other, up to the first that fails. -/
def calls (peer : Peer σ) (c : Connection σ) :
    List (Call × Text) → Connection σ × List (Except ClientFault (Option Text))
  | [] => (c, [])
  | (kind, command) :: rest =>
    match call peer c kind command with
    | (next, .error fault) => (next, [.error fault])
    | (next, .ok reply) =>
      let (last, outcomes) := calls peer next rest
      (last, .ok reply :: outcomes)

end Client

end WaveGen
