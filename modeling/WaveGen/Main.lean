import Std.Async
import WaveGen.CommandLine
import WaveGen.FileTree

/-!
# The program (specification §10.9)

Reads the command line, and connects what it asks for with the network, the standard streams, files
and the environment.
-/

namespace WaveGen

namespace Main

open Std.Async
open Std.Async.TCP

/-- A text as a string of the outside world. -/
def string (t : Text) : String := String.ofList t

/-! ## The network -/

/-- The most bytes that are received at once. -/
def chunkSize : UInt64 := 2048

/-- Bytes, as the network takes them. -/
def packed (bytes : Bytes) : ByteArray := bytes.toByteArray

/-- An address, as the network takes it. A scope has no place there. -/
def netAddress (a : SocketAddress) : Std.Net.SocketAddress :=
  match a.host with
  | .v4 host =>
    let octet (i : Nat) := UInt8.ofNat (host.toNat / Nat.pow 2 (8 * i))
    .v4 ⟨.ofParts (octet 3) (octet 2) (octet 1) (octet 0), a.port⟩
  | .v6 host _ =>
    let group (i : Nat) := UInt16.ofNat (host.toNat / Nat.pow 2 (16 * i))
    .v6 ⟨.ofParts (group 7) (group 6) (group 5) (group 4) (group 3) (group 2) (group 1) (group 0),
      a.port⟩

/-! ## Serving -/

/-- Sends bytes, if there are any. -/
def sendBytes (socket : Socket.Client) (bytes : Bytes) : Async Unit :=
  unless bytes.isEmpty do socket.send (packed bytes)

/-- Lets a session take a step on the instrument that all sessions share. -/
def step (shared : IO.Ref Instrument) (framer : Framer) (f : Session → Session × Bytes) :
    IO (Framer × Bytes) :=
  shared.modifyGet fun i =>
    let (next, bytes) := f ⟨i, framer⟩
    ((next.framer, bytes), next.instrument)

/-- Carries a session with a client to its end. -/
partial def serveClient (shared : IO.Ref Instrument) (socket : Socket.Client) (framer : Framer) :
    Async Unit := do
  match ← socket.recv? chunkSize with
  | none =>
    let (_, bytes) ← step shared framer Session.finish
    sendBytes socket bytes
  | some chunk =>
    let (framer, bytes) ← step shared framer fun s => s.receive chunk.toList
    sendBytes socket bytes
    serveClient shared socket framer

/-- Accepts clients, and serves each while it accepts further ones. -/
partial def acceptClients (shared : IO.Ref Instrument) (listener : Socket.Server) (limit : Nat) :
    Async Unit := do
  let socket ← listener.accept
  background (serveClient shared socket (.new limit))
  acceptClients shared listener limit

/-- Listens on an address, and tries again after a pause as long as that fails. -/
partial def listen (address : Std.Net.SocketAddress) (pause : UInt32) : IO Socket.Server := do
  try
    let listener ← Socket.Server.mk
    listener.bind address
    listener.listen 128
    return listener
  catch _ =>
    IO.sleep pause
    listen address pause

/-- Serves an instrument until the program is interrupted. -/
def serve (c : Configuration) (address : SocketAddress) (model : Model) : IO Unit := do
  let shared ← IO.mkRef (Instrument.new model)
  let listener ← listen (netAddress address) c.bindRetry.toUInt32
  let interrupt ← Signal.Waiter.mk .sigint false
  let interrupted : Async Unit := do
    let _ ← Async.ofAsyncTask (← interrupt.wait)
  (Async.race interrupted (acceptClients shared listener c.lineLimit.toNat)).block

/-! ## Clients -/

/-- A connection to a peer on the network. -/
structure Remote where
  /-- The socket of the connection. -/
  socket : Socket.Client
  /-- The bytes that were received and not read. -/
  unread : IO.Ref Bytes
  /-- How the connection has ended, if it has. -/
  ending : IO.Ref (Option Ending)

/-- The longest time, in milliseconds, that a reply may take. -/
def patience : Nat := 2000

/-- The addresses that a text stands for: one in digits, or those of the host that it names. -/
def resolve (address : Text) : IO (List Std.Net.SocketAddress) :=
  match SocketAddress.parse? address with
  | some a => return [netAddress a]
  | none =>
    match SocketAddress.nameAndPort? address with
    | none => return []
    | some (name, port) => do
      let found ← (DNS.getAddrInfo (string name) "").block
      return found.toList.map fun host =>
        match host with
        | .v4 addr => .v4 ⟨addr, port⟩
        | .v6 addr => .v6 ⟨addr, port⟩

/-- Connects to the first of these addresses that takes the connection. -/
def connectToAny : List Std.Net.SocketAddress → IO Remote
  | [] => throw (IO.userError "no such address")
  | address :: others => do
    try
      let socket ← Socket.Client.mk
      (socket.connect address).block
      socket.noDelay
      return ⟨socket, ← IO.mkRef [], ← IO.mkRef none⟩
    catch _ => connectToAny others

/-- Connects to an address, and tries again after a pause as long as that fails. -/
partial def connect (address : Text) : IO Remote := do
  try
    connectToAny (← resolve address)
  catch _ =>
    IO.sleep 1000
    connect address

namespace Remote

/-- Receives what the peer sends next, until this point in time at most. -/
def receive (r : Remote) (deadline : Nat) : Async Unit := do
  let time := deadline - (← IO.monoMsNow)
  try
    let received ← Selectable.one #[
      .case (r.socket.recvSelector chunkSize) fun chunk => return some chunk,
      .case (← Selector.sleep (.ofNat time)) fun _ => return none]
    match received with
    | none => return
    | some none => r.ending.set (some .closed)
    | some (some chunk) => r.unread.modify (· ++ chunk.toList)
  catch _ => r.ending.set (some .broken)

/-- Takes the next line of what the peer sends, and waits for it until this point in time. -/
partial def readLine (r : Remote) (deadline : Nat) : Async Arrival := do
  let ending ← r.ending.get
  let (next, arrival) := Connection.readLine ⟨(), ← r.unread.get, ending⟩
  if arrival = .late ∧ (← IO.monoMsNow) < deadline then
    r.receive deadline
    r.readLine deadline
  else
    r.unread.set next.unread
    return arrival

/-- The connection as the calls of a client use it. -/
def wire (r : Remote) : Wire IO where
  write bytes := Async.block do
    try
      r.socket.send (packed bytes)
      return .taken
    catch _ => return .unwritten
  readLine := Async.block do r.readLine ((← IO.monoMsNow) + patience)

end Remote

/-- The terminal that these streams are. -/
def terminal (input output : IO.FS.Stream) : Terminal IO where
  readLine := do
    try
      let line ← input.getLine
      return .ok (if line.isEmpty then none else some line.toList)
    catch _ => return .error .unreadableInput
  print text := do
    output.putStr (string text)
    output.flush

/-! ## Requests -/

/-- What is printed on a request for help. -/
def usage : String :=
  "Usage: sdg-emulator <COMMAND>\n\n" ++
  "Commands:\n" ++
  "  serve    Serve the emulated instrument over TCP\n" ++
  "  console  Interactive console against an emulator or instrument\n" ++
  "  verify   Compare the emulator's responses with real hardware\n"

/-- The content of the first of these files that there is. -/
def firstContent : List Text → IO (Option Bytes)
  | [] => return none
  | place :: others => do
    try
      return some (← IO.FS.readBinFile (string place)).toList
    catch _ => firstContent others

/-- The content of a file, which is looked for in the working directory and those above it. -/
def fileContent (path : Text) : IO (Option Bytes) := do
  let directory ← IO.currentDir
  firstContent (FileTree.places directory.toString.toList path)

/-- The environment variables in the order of their names. -/
def environment : IO (List (Text × Text)) := do
  let entries ← Std.Internal.UV.System.osEnviron
  let sorted := entries.toList.mergeSort fun a b => a.1 ≤ b.1
  return sorted.map fun (name, value) => (name.toList, value.toList)

/-- Reports a failure. -/
def fail (message : Text) : IO UInt32 := do
  IO.eprintln (string (CommandLine.failureLine message))
  return 1

/-- Carries out a request to serve an instrument. -/
def runServe (flags : Configuration.Flags) (file : Text) : IO UInt32 := do
  let content ← fileContent file
  match CommandLine.configurationOfBytes flags file content (← environment) with
  | .error fault => fail fault.message
  | .ok c =>
    match c.socketAddress, c.instrumentModel with
    | .ok address, .ok model =>
      serve c address model
      return 0
    | .error fault, _ => fail fault.message
    | _, .error fault => fail fault.message

/-- Carries out a request for a console. -/
def runConsole (address : Text) : IO UInt32 := do
  let (waiting, connected) := Reader.span (· != '\n') CommandLine.greeting
  IO.println (string waiting)
  let remote ← connect address
  IO.print (string (connected.drop 1))
  match ← Console.run (terminal (← IO.getStdin) (← IO.getStdout)) (Client.send remote.wire) with
  | .ok () => return 0
  | .error fault => fail fault.message

/-- Carries out a request for a comparison. -/
def runVerify (emulator hardware : Text) (sweeps : Bool) : IO UInt32 := do
  let first ← connect emulator
  let second ← connect hardware
  let result ← CommandLine.verify (Client.send first.wire) (Client.send second.wire) sweeps
  match result.failure with
  | none => return 0
  | some message => fail message

/-- Carries out a request. -/
def run : CommandLine.Request → IO UInt32
  | .serve flags file => runServe flags file
  | .console address => runConsole address
  | .verify emulator hardware sweeps => runVerify emulator hardware sweeps
  | .help => do
    IO.print usage
    return 0
  | .misuse => do
    IO.eprint usage
    return 2

end Main

end WaveGen

/-- The program. -/
def main (args : List String) : IO UInt32 :=
  WaveGen.Main.run (WaveGen.CommandLine.parse (args.map String.toList))
