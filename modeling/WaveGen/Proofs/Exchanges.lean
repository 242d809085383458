import WaveGen.Client.Station
import WaveGen.Proofs.ReplyLines
import WaveGen.Proofs.Serving

/-!
# An exchange is a command processed

A client writes a command as a line, and waits for a line only if the command is a query. When an
instrument at the other end answers just the queries, each with one line, nothing is left on the
connection after an exchange. The exchange is then as good as processing the command, whether the
instrument serves sessions or stands behind a plain line connection.

* `Client.call_eq` — any call with any peer, by what becomes of the bytes that it writes.
* `Client.complete_remainder_written` — the lines of written commands are the commands.
* `Session.peer_receive`, `Station.peer_receive` — a written line has the command processed.
* `Client.respond_of_receive` — an exchange with any peer that answers the written line.
-/

namespace WaveGen

/-! ## Calls with a peer -/

namespace Client

variable {σ : Type} {peer : Peer σ} {c next : Connection σ} {command : Text} {delivery : Delivery}

/-- Whether a call reads a line. -/
def reads : Call → Text → Bool
  | .write, _ => false
  | .query, _ => true
  | .queryRaw, _ => true
  | .send, command => isQuery command

/-- What a call gives for the line that it has read. -/
def shown : Call → Text → Text
  | .query, line => Text.trimEnd line
  | _, line => line

theorem run_write (hwrite : peer.write c (commandBytes command) = (next, delivery)) :
    (write peer.wire command).run c =
      (match delivery.fault? command with
        | some fault => .error fault
        | none => .ok (), next) := by
  have hwire : (peer.wire.write (commandBytes command)).run c = (delivery, next) :=
    congrArg Prod.swap hwrite
  rw [write, StateT.run_bind, hwire]
  rcases delivery with _ | _ | _ <;> rfl

theorem run_readReply (peer : Peer σ) (c : Connection σ) (query : Text) :
    (readReply peer.wire query).run c = (c.readLine.2.reply query, c.readLine.1) := rfl

theorem run_queryRaw (hwrite : peer.write c (commandBytes command) = (next, delivery)) :
    (queryRaw peer.wire command).run c =
      match delivery.fault? command with
      | some fault => (.error fault, next)
      | none => (next.readLine.2.reply command, next.readLine.1) := by
  rw [queryRaw, StateT.run_bind, run_write hwrite]
  cases delivery.fault? command <;> rfl

/-- **A call**, by what becomes of the bytes that it writes: it fails if they cannot be sent, and
otherwise reads a line if it reads at all. -/
theorem call_eq (hwrite : peer.write c (commandBytes command) = (next, delivery)) (kind : Call) :
    call peer c kind command =
      match delivery.fault? command with
      | some fault => (next, .error fault)
      | none =>
        if reads kind command then
          (next.readLine.1, (next.readLine.2.reply command).map fun line => some (shown kind line))
        else (next, .ok none) := by
  have hsent := run_write hwrite
  have hread := run_queryRaw hwrite
  cases kind with
  | write =>
    rw [call, Call.make, StateT.run_bind, hsent]
    cases delivery.fault? command <;> rfl
  | query =>
    rw [call, Call.make, StateT.run_bind, query, StateT.run_bind, hread]
    cases delivery.fault? command with
    | some fault => rfl
    | none =>
      rw [reads, if_pos rfl]
      cases next.readLine.2.reply command <;> rfl
  | queryRaw =>
    rw [call, Call.make, StateT.run_bind, hread]
    cases delivery.fault? command <;> rfl
  | send =>
    rw [call, Call.make, send, reads]
    split
    · rw [StateT.run_bind, hread]
      cases delivery.fault? command <;> rfl
    · rw [StateT.run_bind, hsent]
      cases delivery.fault? command <;> rfl

end Client

/-! ## Written lines -/

namespace Line

/-- A line in front of a stream is its first line. -/
theorem complete_remainder_line {line : Bytes} (h : feed ∉ line) (rest : Bytes) :
    complete (line ++ feed :: rest) = line :: complete rest ∧
      remainder (line ++ feed :: rest) = remainder rest := by
  apply complete_remainder_of_splitOn
  rw [List.splitOn_append_cons_self_of_not_mem h, ← complete_append_remainder, List.cons_append]

end Line

namespace Client

theorem commandBytes_eq (command : Text) :
    commandBytes command = Utf8.encode command ++ [Line.feed] := by
  rw [commandBytes, Utf8.encode_append]
  rfl

theorem complete_remainder_written {commands : List Text}
    (h : ∀ command ∈ commands, command.IsLine) :
    Line.complete (commands.flatMap commandBytes) = commands.map Utf8.encode ∧
      Line.remainder (commands.flatMap commandBytes) = [] := by
  induction commands with
  | nil => exact ⟨rfl, rfl⟩
  | cons command rest ih =>
    obtain ⟨hcommand, hrest⟩ := List.forall_mem_cons.mp h
    obtain ⟨hlines, hremainder⟩ := Line.complete_remainder_line
      (Utf8.feed_not_mem_encode_iff.mpr hcommand) (rest.flatMap commandBytes)
    rw [List.flatMap_cons, commandBytes_eq, List.append_assoc, List.singleton_append, hlines,
      hremainder, (ih hrest).1, (ih hrest).2]
    exact ⟨rfl, rfl⟩

theorem complete_remainder_command {command : Text} (h : command.IsLine) :
    Line.complete (commandBytes command) = [Utf8.encode command] ∧
      Line.remainder (commandBytes command) = [] := by
  have hwritten := complete_remainder_written (List.forall_mem_singleton.mpr h)
  rw [List.flatMap_singleton] at hwritten
  exact hwritten

/-- The first line among unread bytes is read whole. -/
theorem nextLine?_line {line : Bytes} (h : Line.feed ∉ line) (rest : Bytes) (closed : Bool) :
    nextLine? (line ++ Line.feed :: rest) closed = some (line ++ [Line.feed], rest) := by
  have hpass : ∀ b ∈ line, (b != Line.feed) = true :=
    fun b hb => bne_iff_ne.mpr fun heq => h (heq ▸ hb)
  rw [nextLine?, List.dropWhile_append_of_pos hpass, List.takeWhile_append_of_pos hpass]
  simp

end Client

/-- A reply of one line is sent as it is, with a line feed behind it. -/
theorem Server.sent_of_isLine {reply : Text} (h : reply.IsLine) :
    sent reply = if reply = [] then [] else Client.commandBytes reply := by
  have hlast : reply.getLast? ≠ some '\n' := fun hlast => h (List.mem_of_getLast? hlast)
  rw [sent, if_neg hlast, Client.commandBytes_eq]

/-! ## Instruments that serve sessions -/

namespace Session

/-- Lines of commands that are within the limit come to these very commands. -/
theorem answer_encoded (i : Instrument) {limit : Nat} {commands : List Text}
    (h : ∀ command ∈ commands, (Utf8.encode command).length ≤ limit) :
    answer i ((commands.map Utf8.encode).filterMap (Framer.spelled? limit)) =
      answer i commands := by
  have hfits : (commands.map Utf8.encode).filter (·.length ≤ limit) = commands.map Utf8.encode := by
    refine List.filter_eq_self.mpr fun line hline => ?_
    obtain ⟨command, hmem, rfl⟩ := List.mem_map.mp hline
    exact decide_eq_true (h command hmem)
  rw [answer_spelled, hfits, List.filterMap_map]
  have hdecode : Utf8.decode? ∘ Utf8.encode = some := funext Utf8.decode?_encode
  rw [hdecode, List.filterMap_some]

/-- A chunk that completes the lines of commands has the instrument process them. -/
theorem receive_lines (i : Instrument) {limit : Nat} {received chunk : Bytes}
    {commands : List Text} (hlines : Line.completedBy received chunk = commands.map Utf8.encode)
    (h : ∀ command ∈ commands, (Utf8.encode command).length ≤ limit) :
    receive ⟨i, .ofStream limit received⟩ chunk =
      (⟨i.after commands, .ofStream limit (received ++ chunk)⟩,
        (i.replies commands).flatMap Server.sent) := by
  rw [receive_ofStream, hlines]
  dsimp only
  rw [answer_encoded i h, answer_eq]

/-- A stream of whole lines leaves a framer as it was at first. -/
theorem start_eq (i : Instrument) (limit : Nat) {stream : Bytes}
    (h : Line.remainder stream = []) : start i limit = ⟨i, .ofStream limit stream⟩ := by
  rw [start, ← Framer.ofStream_nil, Framer.ofStream, Framer.ofStream, h]
  rfl

/-- A session that receives the whole line of a command processes it. -/
theorem peer_receive (i : Instrument) {limit : Nat} {command : Text} (hline : command.IsLine)
    (hfits : (Utf8.encode command).length ≤ limit) :
    peer.receive (start i limit) (Client.commandBytes command) =
      ⟨start (i.process command).1 limit, Server.sent (i.process command).2, none⟩ := by
  obtain ⟨hcomplete, hremainder⟩ := Client.complete_remainder_command hline
  have hlines : Line.completedBy [] (Client.commandBytes command) = [command].map Utf8.encode :=
    (Line.completedBy_nil_left _).trans hcomplete
  have hreceive := receive_lines i hlines (List.forall_mem_singleton.mpr hfits)
  rw [List.nil_append, ← start_eq i limit rfl, ← start_eq _ limit hremainder] at hreceive
  have hpeer : peer.receive (start i limit) (Client.commandBytes command) =
      ⟨((start i limit).receive (Client.commandBytes command)).1,
        ((start i limit).receive (Client.commandBytes command)).2, none⟩ := rfl
  rw [hpeer, hreceive, Instrument.after_cons, Instrument.after_nil, Instrument.replies_cons,
    Instrument.replies_nil, List.flatMap_singleton]

end Session

/-! ## Instruments behind a plain line connection -/

/-- A station that receives the whole line of a command processes it. -/
theorem Station.peer_receive (i : Instrument) {command : Text} (hline : command.IsLine)
    (hreply : (i.process command).2.IsLine) :
    peer.receive (plain i) (Client.commandBytes command) =
      ⟨plain (i.process command).1, Server.sent (i.process command).2, none⟩ := by
  obtain ⟨hcomplete, hremainder⟩ := Client.complete_remainder_command hline
  have hpeer : peer.receive (plain i) (Client.commandBytes command) =
      { plain i with held := (Line.cut (Client.commandBytes command)).2 }.receiveLines
        (Line.cut (Client.commandBytes command)).1 := rfl
  rw [hpeer, Line.cut_eq, hcomplete, hremainder]
  dsimp only
  rw [receiveLines, Utf8.decode?_encode]
  dsimp only
  rw [if_neg (by simp [plain]), receiveLines, Server.sent_of_isLine hreply]
  simp [plain, answer, Client.commandBytes]

namespace Client

variable {σ : Type}

/-- What sending a command gives, if this is the reply to it: the line that a client waits for when
it has asked. -/
def outcome (command reply : Text) : Option Text :=
  if isQuery command then some (reply ++ ['\n']) else none

/-- When one line is unread, that line is read. -/
theorem readLine_line (s : σ) {line : Text} (hline : line.IsLine) (ending : Option Ending) :
    Connection.readLine ⟨s, commandBytes line, ending⟩ =
      (⟨s, [], ending⟩, .line (commandBytes line)) := by
  rw [Connection.readLine]
  dsimp only
  rw [commandBytes_eq, nextLine?_line (Utf8.feed_not_mem_encode_iff.mpr hline)]

/-- A line is the reply that it spells. -/
theorem reply_line (query reply : Text) :
    (Arrival.line (commandBytes reply)).reply query = .ok (reply ++ ['\n']) := by
  rw [Arrival.reply, commandBytes, Utf8.decode?_encode]

/-- **An exchange** with a peer that answers the written line with a reply: the client has the reply
if it has asked for one, and nothing is left unread. -/
theorem respond_of_receive {peer : Peer σ} {s next : σ} {command reply : Text}
    (hreceive : peer.receive s (commandBytes command) = ⟨next, Server.sent reply, none⟩)
    (hline : reply.IsLine) (hreply : reply ≠ [] ↔ isQuery command = true) :
    peer.respond (newConnection s) command = (newConnection next, .ok (outcome command reply)) := by
  have hwrite : peer.write (newConnection s) (commandBytes command) =
      (⟨next, Server.sent reply, none⟩, .taken) := by
    show (Connection.mk _ _ _, _) = _
    rw [show (newConnection s).state = s from rfl, hreceive]
    rfl
  have hcall : peer.respond (newConnection s) command = _ := call_eq hwrite .send
  rw [hcall, Delivery.fault?, reads, outcome]
  dsimp only
  by_cases hquery : isQuery command = true
  · rw [if_pos hquery, if_pos hquery, Server.sent_of_isLine hline, if_neg (hreply.mpr hquery),
      readLine_line next hline, reply_line]
    rfl
  · have hsilent : reply = [] := not_not.mp fun h => hquery (hreply.mp h)
    rw [if_neg hquery, if_neg hquery, hsilent]
    rfl

end Client

end WaveGen
