import WaveGen.Client

/-!
# The console (specification §10.8)

An interactive session: commands are read line by line, sent to a peer, and the replies to queries
are printed. A prompt is printed before each line is read. Blank lines are passed over, and `EXIT`
ends the session.

* `Terminal` — where a session reads and prints, with effects in any monad.
* `Console.turn`, `Console.run` — a turn of a session, and turns up to its end.
* `Console.session` — a session with a known peer, all of whose input is at hand (`Console.Desk`).
-/

namespace WaveGen

/-- The failures of a console session. -/
inductive ConsoleFault where
  /-- An exchange with the peer failed. -/
  | exchange (fault : ClientFault)
  /-- A line of the input is not UTF-8. -/
  | unreadableInput
deriving DecidableEq, Repr

/-- The wording of a failure. -/
def ConsoleFault.message : ConsoleFault → Text
  | exchange fault => fault.message
  | unreadableInput => "stream did not contain valid UTF-8".toList

/-- Where a session reads its lines and prints. -/
structure Terminal (m : Type → Type) where
  /-- Takes the next line of the input; nothing at its end. -/
  readLine : m (Except ConsoleFault (Option Text))
  print : Text → m Unit

namespace Console

/-- What is printed before each line is read. -/
def prompt : Text := "Siglent> ".toList

/-- The word that ends a session. -/
def exitWord : Text := "EXIT".toList

/-- What a line of the input asks for. -/
inductive Action where
  /-- Nothing: the line is blank. -/
  | pass
  /-- The end of the session. -/
  | leave
  | send (command : Text)
deriving DecidableEq, Repr

/-- What a line asks for. Blanks at its ends and the case of its letters do not matter. -/
def action (line : Text) : Action :=
  let command := Text.upper (Text.trim line)
  if command.isEmpty then .pass
  else if command = exitWord then .leave
  else .send command

/-- What is printed of a reply. -/
def printed : Option Text → Text
  | some reply => Line.terminated reply
  | none => []

section Sessions

variable {m : Type → Type} [Monad m] (t : Terminal m) (peer : Respondent m)

/-- One turn of a session: how the session ended, or else it goes on. -/
def turn : m (Unit ⊕ Except ConsoleFault Unit) := do
  t.print prompt
  match ← t.readLine with
  | .error fault => return .inr (.error fault)
  | .ok none => return .inr (.ok ())
  | .ok (some line) =>
    match action line with
    | .pass => return .inl ()
    | .leave => return .inr (.ok ())
    | .send command =>
      match ← peer command with
      | .error fault => return .inr (.error (.exchange fault))
      | .ok reply =>
        t.print (printed reply)
        return .inl ()

/-- Takes turns until the session ends. -/
def run : m (Except ConsoleFault Unit) := repeatM (fun () => turn t peer) ()

end Sessions

/-! ## Sessions whose input is at hand -/

/-- The lines of the input; nothing for a line that is not UTF-8. A last line need not end in a line
feed. -/
def inputLines (input : Bytes) : List (Option Text) :=
  let (lines, rest) := Line.cut input
  (if rest.isEmpty then lines else lines ++ [rest]).map Utf8.decode?

/-- A session with a peer, as it stands. -/
structure Desk (σ : Type) where
  /-- The connection to the peer. -/
  connection : Connection σ
  /-- The lines of the input that were not read. -/
  input : List (Option Text)
  /-- All that was printed. -/
  output : Text

namespace Desk

variable {σ : Type}

/-- Reading and printing at a desk. -/
def terminal : Terminal (StateM (Desk σ)) where
  readLine := fun d =>
    match d.input with
    | [] => (.ok none, d)
    | none :: rest => (.error .unreadableInput, { d with input := rest })
    | some line :: rest => (.ok (some line), { d with input := rest })
  print text := fun d => ((), { d with output := d.output ++ text })

/-- The peer at the other end of the connection. -/
def respondent (peer : Peer σ) : Respondent (StateM (Desk σ)) := fun command d =>
  let (next, response) := peer.respond d.connection command
  (response, { d with connection := next })

/-- Carries a session to its end: how it ended, and how it stands then. -/
def run (peer : Peer σ) (d : Desk σ) : Except ConsoleFault Unit × Desk σ :=
  StateT.run (Console.run terminal (respondent peer)) d

end Desk

/-- A session over a connection, with this input. -/
def session {σ : Type} (peer : Peer σ) (c : Connection σ) (input : Bytes) :
    Except ConsoleFault Unit × Desk σ := Desk.run peer ⟨c, inputLines input, []⟩

end Console

end WaveGen
