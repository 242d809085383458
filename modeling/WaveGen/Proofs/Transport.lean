import Mathlib.Logic.Relation
import WaveGen.Proofs.Exchanges

/-!
# Sending is processing (specification §6)

A client that sends commands over one connection has from it what it would have from the instrument
itself, as long as the instrument answers the queries and nothing else. Commands are not
acknowledged: the client may be several of them ahead of the session, a chunk may end within a line
or hold several, and bytes are under way both ways at any time. Still every reply that the client
reads is the one to its own query.

* `Instrument.AnswersQueries` — the instrument answers just the queries among some commands.
* `Conversation.Step` — what can happen next between a client and a session.
* `Conversation.Follows` — the invariant: all commands are accounted for, those still to be sent, in
  flight as bytes, processed, and answered with the reply still in flight.
* `Conversation.sending_is_processing` — the result, for calls that wait and for any conversation.
-/

namespace WaveGen

/-! ## What the plain run gives -/

namespace Instrument

/-- An instrument answers the queries among these commands, and no others. -/
def AnswersQueries (i : Instrument) : List Text → Prop
  | [] => True
  | command :: rest =>
    ((i.process command).2 ≠ [] ↔ Client.isQuery command = true) ∧
      (i.process command).1.AnswersQueries rest

instance decidableAnswersQueries : (i : Instrument) → (commands : List Text) →
    Decidable (i.AnswersQueries commands)
  | _, [] => isTrue trivial
  | i, command :: rest =>
    have := decidableAnswersQueries (i.process command).1 rest
    inferInstanceAs (Decidable (_ ∧ _))

theorem answersQueries_append {i : Instrument} {commands more : List Text} :
    i.AnswersQueries (commands ++ more) ↔
      i.AnswersQueries commands ∧ (i.after commands).AnswersQueries more := by
  induction commands generalizing i with
  | nil => exact (true_and _).symm.to_iff
  | cons command rest ih =>
    rw [List.cons_append, AnswersQueries, AnswersQueries, ih, after_cons, and_assoc]

/-- What sending each of these commands gives, by the replies of the instrument itself: nothing for
a command that is no query, and the reply as a line for a query. -/
def outcomes (i : Instrument) (commands : List Text) : List (Option Text) :=
  List.zipWith Client.outcome commands (i.replies commands)

theorem outcomes_append (i : Instrument) (commands more : List Text) :
    i.outcomes (commands ++ more) = i.outcomes commands ++ (i.after commands).outcomes more := by
  rw [outcomes, replies_append, List.zipWith_append (length_replies i commands).symm]
  rfl

theorem outcomes_concat (i : Instrument) (commands : List Text) (command : Text) :
    i.outcomes (commands ++ [command]) =
      i.outcomes commands ++ [Client.outcome command ((i.after commands).process command).2] :=
  outcomes_append i commands [command]

/-- All bytes that are sent in answer to these commands. -/
def sentBytes (i : Instrument) (commands : List Text) : Bytes :=
  (i.replies commands).flatMap Server.sent

theorem sentBytes_append (i : Instrument) (commands more : List Text) :
    i.sentBytes (commands ++ more) = i.sentBytes commands ++ (i.after commands).sentBytes more := by
  rw [sentBytes, replies_append, List.flatMap_append]
  rfl

theorem sentBytes_concat (i : Instrument) (commands : List Text) (command : Text) :
    i.sentBytes (commands ++ [command]) =
      i.sentBytes commands ++ Server.sent ((i.after commands).process command).2 := by
  have hlast : (i.after commands).sentBytes [command] =
      Server.sent ((i.after commands).process command).2 := List.flatMap_singleton ..
  rw [sentBytes_append, hlast]

end Instrument

/-! ## Conversations -/

/-- A client that sends commands over a connection to a session, and what is under way between the
two. -/
@[ext] structure Conversation where
  /-- The commands that the client has still to send. -/
  commands : List Text
  /-- The query whose reply the client waits for. -/
  awaited : Option Text
  /-- The bytes that the client wrote and the session has not received. -/
  outbound : Bytes
  /-- The session. -/
  session : Session
  /-- The bytes that the session sent and the client has not read, arrived or not. -/
  unread : Bytes
  /-- How the calls ended that the client has made so far. -/
  outcomes : List (Except ClientFault (Option Text))

namespace Conversation

/-- A conversation in which nothing was sent yet. -/
def start (i : Instrument) (limit : Nat) (commands : List Text) : Conversation :=
  ⟨commands, none, [], .start i limit, [], []⟩

/-- A conversation that is over, with a session for this instrument and these outcomes. -/
def ended (i : Instrument) (limit : Nat) (outcomes : List (Except ClientFault (Option Text))) :
    Conversation :=
  ⟨[], none, [], .start i limit, [], outcomes⟩

/-- What can happen next. The client and the connection act in any order; only the reply to a query
keeps the client from sending more. -/
inductive Step (c : Conversation) : Conversation → Prop where
  /-- The client sends a command that is no query, and goes on at once. -/
  | write {command : Text} {rest : List Text} (hfree : c.awaited = none)
      (hnext : c.commands = command :: rest) (hquery : Client.isQuery command = false) :
      Step c { c with
        commands := rest
        outbound := c.outbound ++ Client.commandBytes command
        outcomes := c.outcomes ++ [.ok none] }
  /-- The client sends a query, and waits from now on for as long as it takes. -/
  | ask {query : Text} {rest : List Text} (hfree : c.awaited = none)
      (hnext : c.commands = query :: rest) (hquery : Client.isQuery query = true) :
      Step c { c with
        commands := rest
        awaited := some query
        outbound := c.outbound ++ Client.commandBytes query }
  /-- The session receives the first of the bytes under way, and answers the lines they complete. -/
  | receive {chunk rest : Bytes} (houtbound : c.outbound = chunk ++ rest) (hchunk : chunk ≠ []) :
      Step c { c with
        outbound := rest
        session := (c.session.receive chunk).1
        unread := c.unread ++ (c.session.receive chunk).2 }
  /-- The client reads the line that it waits for, once there is a whole one. -/
  | read {query : Text} {next : Connection Session} {reply : Except ClientFault Text}
      (hawaited : c.awaited = some query) (harrived : Line.feed ∈ c.unread)
      (hread : (Client.readReply Session.peer.wire query).run ⟨c.session, c.unread, none⟩ =
        (reply, next)) :
      Step c { c with
        awaited := none
        session := next.state
        unread := next.unread
        outcomes := c.outcomes ++ [reply.map some] }

/-- A bound on the steps that a conversation can still make. -/
def work (c : Conversation) : Nat :=
  (c.commands.flatMap Client.commandBytes).length + 2 * c.commands.length + c.outbound.length +
    c.awaited.toList.length

/-- Every step leaves less to be done: a command becomes bytes and perhaps a wait, bytes are
received, and a wait ends. -/
theorem Step.work_lt {c next : Conversation} (h : Step c next) : next.work < c.work := by
  cases h with
  | write hfree hnext hquery =>
    simp [work, hnext]
    omega
  | ask hfree hnext hquery =>
    simp [work, hfree, hnext]
    omega
  | receive houtbound hchunk =>
    have hlength := List.length_pos_iff.mpr hchunk
    simp [work, houtbound]
    omega
  | read hawaited harrived hread => simp [work, hawaited]

/-! ## The invariant -/

/-- A conversation about these commands, `front` of which the client is done with. What it has
written so far, the awaited query last, is `served` by the instrument, or `pending` as bytes of
which the session may have the first part. What was sent in answer is read or unread. -/
structure Follows (i : Instrument) (limit : Nat) (all front served pending : List Text)
    (received : Bytes) (c : Conversation) : Prop where
  sent : all = front ++ c.awaited.toList ++ c.commands
  written : front ++ c.awaited.toList = served ++ pending
  bytes : received ++ c.outbound = (front ++ c.awaited.toList).flatMap Client.commandBytes
  lines : Line.complete received = served.map Utf8.encode
  session : c.session = ⟨i.after served, .ofStream limit received⟩
  answered : i.sentBytes served = i.sentBytes front ++ c.unread
  outcomes : c.outcomes = (i.outcomes front).map .ok
  asked : ∀ query, c.awaited = some query → Client.isQuery query = true

theorem follows_start (i : Instrument) (limit : Nat) (commands : List Text) :
    Follows i limit commands [] [] [] [] (start i limit commands) where
  sent := rfl
  written := rfl
  bytes := rfl
  lines := rfl
  session := Session.start_eq i limit rfl
  answered := rfl
  outcomes := rfl
  asked _ hawaited := by cases hawaited

section Run

variable {i : Instrument} {limit : Nat} {all front served pending : List Text} {received : Bytes}
  {c next : Conversation}

/-- The command behind `front` is answered if and only if it is a query. -/
theorem reply_ne_nil_iff (hqueries : i.AnswersQueries all) {command : Text} {rest : List Text}
    (hall : all = front ++ command :: rest) :
    ((i.after front).process command).2 ≠ [] ↔ Client.isQuery command = true := by
  rw [hall, Instrument.answersQueries_append] at hqueries
  exact hqueries.2.1

namespace Follows

/-- As long as bytes of a query are pending, nothing is unread: all that was sent answers commands
that the client is done with. -/
theorem pending_eq_nil (h : Follows i limit all front served pending received c) {query : Text}
    (hawaited : c.awaited = some query) (hunread : c.unread ≠ []) : pending = [] := by
  have hwritten := h.written
  rw [hawaited, Option.toList_some] at hwritten
  rcases List.eq_nil_or_concat pending with hnil | ⟨others, last, hconcat⟩
  · exact hnil
  · rw [hconcat, List.concat_eq_append, ← List.append_assoc] at hwritten
    obtain ⟨hfront, -⟩ := List.append_singleton_inj.mp hwritten
    have hanswered := h.answered
    rw [hfront, Instrument.sentBytes_append, List.append_assoc, List.self_eq_append_right,
      List.append_eq_nil_iff] at hanswered
    exact absurd hanswered.2 hunread

/-- When the awaited query is processed, what is unread is the line of its reply. -/
theorem unread_eq (h : Follows i limit all front served [] received c) (hi : i.HoldsLines)
    (hlines : ∀ command ∈ all, command.IsLine) (hqueries : i.AnswersQueries all) {query : Text}
    (hawaited : c.awaited = some query) :
    served = front ++ [query] ∧ ((i.after front).process query).2.IsLine ∧
      c.unread = Client.commandBytes ((i.after front).process query).2 := by
  have hsent := h.sent
  have hwritten := h.written
  have hanswered := h.answered
  rw [hawaited, Option.toList_some, List.append_assoc] at hsent
  rw [hawaited, Option.toList_some, List.append_nil] at hwritten
  have hreply := (reply_ne_nil_iff hqueries hsent).mpr (h.asked query hawaited)
  have hline : ((i.after front).process query).2.IsLine := by
    refine (hi.after fun command hmem => hlines command ?_).isLine_reply query
    exact hsent ▸ List.mem_append_left _ hmem
  refine ⟨hwritten.symm, hline, ?_⟩
  rw [← hwritten, Instrument.sentBytes_concat, List.append_cancel_left_eq] at hanswered
  rw [← hanswered, Server.sent_of_isLine hline, if_neg hreply]

/-- Sending a command moves it from those to be sent to those that are pending. -/
theorem pending_concat (h : Follows i limit all front served pending received c) {command : Text}
    {rest : List Text} (hfree : c.awaited = none) (hnext : c.commands = command :: rest) :
    all = front ++ [command] ++ rest ∧ front ++ [command] = served ++ (pending ++ [command]) ∧
      received ++ (c.outbound ++ Client.commandBytes command) =
        (front ++ [command]).flatMap Client.commandBytes := by
  have hsent := h.sent
  have hwritten := h.written
  have hbytes := h.bytes
  rw [hfree, Option.toList_none, List.append_nil] at hsent hwritten hbytes
  refine ⟨?_, ?_, ?_⟩
  · rw [hsent, hnext, List.append_assoc, List.singleton_append]
  · rw [hwritten, List.append_assoc]
  · rw [← List.append_assoc, hbytes, List.flatMap_append, List.flatMap_singleton]

theorem step_write (h : Follows i limit all front served pending received c)
    (hqueries : i.AnswersQueries all) {command : Text} {rest : List Text} (hfree : c.awaited = none)
    (hnext : c.commands = command :: rest) (hquery : Client.isQuery command = false) :
    Follows i limit all (front ++ [command]) served (pending ++ [command]) received
      { c with
        commands := rest
        outbound := c.outbound ++ Client.commandBytes command
        outcomes := c.outcomes ++ [.ok none] } := by
  obtain ⟨hsent, hwritten, hbytes⟩ := h.pending_concat hfree hnext
  rw [List.append_assoc, List.singleton_append] at hsent
  have hsilent : ((i.after front).process command).2 = [] := by
    by_contra hreply
    rw [(reply_ne_nil_iff hqueries hsent).mp hreply] at hquery
    cases hquery
  refine { sent := ?_, written := ?_, bytes := ?_, lines := h.lines, session := h.session,
           answered := ?_, outcomes := ?_, asked := h.asked }
  · rw [hfree, hsent]
    simp
  · rw [hfree, Option.toList_none, List.append_nil]
    exact hwritten
  · rw [hfree, Option.toList_none, List.append_nil]
    exact hbytes
  · -- the command gets no reply, so nothing more is unread
    rw [h.answered, Instrument.sentBytes_concat, hsilent]
    simp [Server.sent]
  · rw [Instrument.outcomes_concat, List.map_append, h.outcomes]
    simp [Client.outcome, hquery]

theorem step_ask (h : Follows i limit all front served pending received c) {query : Text}
    {rest : List Text} (hfree : c.awaited = none) (hnext : c.commands = query :: rest)
    (hquery : Client.isQuery query = true) :
    Follows i limit all front served (pending ++ [query]) received
      { c with
        commands := rest
        awaited := some query
        outbound := c.outbound ++ Client.commandBytes query } := by
  obtain ⟨hsent, hwritten, hbytes⟩ := h.pending_concat hfree hnext
  exact { sent := hsent, written := hwritten, bytes := hbytes, lines := h.lines,
          session := h.session, answered := h.answered, outcomes := h.outcomes,
          asked := fun _ hsome => Option.some.inj hsome ▸ hquery }

/-- The commands whose lines a chunk completes are the first ones pending. -/
theorem step_receive (h : Follows i limit all front served pending received c)
    (hlines : ∀ command ∈ all, command.IsLine)
    (hfits : ∀ command ∈ all, (Utf8.encode command).length ≤ limit) {chunk rest : Bytes}
    (houtbound : c.outbound = chunk ++ rest) :
    ∃ more others, pending = more ++ others ∧
      Follows i limit all front (served ++ more) others (received ++ chunk)
        { c with
          outbound := rest
          session := (c.session.receive chunk).1
          unread := c.unread ++ (c.session.receive chunk).2 } := by
  have hwritten := h.written
  have hmem : ∀ command ∈ served ++ pending, command ∈ all := by
    intro command hcommand
    rw [h.sent, hwritten]
    exact List.mem_append_left _ hcommand
  -- the lines of all that was written, cut behind what was received before and with the chunk
  have hcut : pending.map Utf8.encode = Line.completedBy received chunk ++
      Line.completedBy (received ++ chunk) rest := by
    have hwhole := (Client.complete_remainder_written fun command hcommand =>
      hlines command (hmem command hcommand)).1
    rw [← hwritten, ← h.bytes, houtbound, ← List.append_assoc,
      (Line.complete_remainder_append (received ++ chunk) rest).1,
      (Line.complete_remainder_append received chunk).1, h.lines, hwritten, List.map_append,
      List.append_assoc, List.append_cancel_left_eq] at hwhole
    exact hwhole.symm
  obtain ⟨more, others, hpending, hmore, -⟩ := List.map_eq_append_iff.mp hcut
  have hreceive := Session.receive_lines (i.after served) hmore.symm fun command hcommand =>
    hfits command (hmem command (by simp [hpending, hcommand]))
  refine ⟨more, others, hpending, ?_⟩
  rw [h.session, hreceive]
  refine { sent := h.sent, written := ?_, bytes := ?_, lines := ?_, session := ?_, answered := ?_,
           outcomes := h.outcomes, asked := h.asked }
  · rw [hwritten, hpending, List.append_assoc]
  · rw [← h.bytes, houtbound, List.append_assoc]
  · rw [(Line.complete_remainder_append received chunk).1, h.lines, ← hmore, List.map_append]
  · rw [Instrument.after_append]
  · rw [Instrument.sentBytes_append, h.answered, List.append_assoc]
    rfl

/-- The line that is read is the whole reply to the awaited query, and nothing stays unread. -/
theorem step_read (h : Follows i limit all front served pending received c) (hi : i.HoldsLines)
    (hlines : ∀ command ∈ all, command.IsLine) (hqueries : i.AnswersQueries all) {query : Text}
    {next : Connection Session} {reply : Except ClientFault Text}
    (hawaited : c.awaited = some query) (harrived : Line.feed ∈ c.unread)
    (hread : (Client.readReply Session.peer.wire query).run ⟨c.session, c.unread, none⟩ =
      (reply, next)) :
    Follows i limit all (front ++ [query]) served pending received
      { c with
        awaited := none
        session := next.state
        unread := next.unread
        outcomes := c.outcomes ++ [reply.map some] } := by
  obtain rfl := h.pending_eq_nil hawaited (List.ne_nil_of_mem harrived)
  obtain ⟨hserved, hline, hunread⟩ := h.unread_eq hi hlines hqueries hawaited
  rw [hunread, Client.run_readReply, Client.readLine_line _ hline, Client.reply_line] at hread
  obtain ⟨rfl, rfl⟩ := Prod.mk.inj hread
  have hsent := h.sent
  have hbytes := h.bytes
  rw [hawaited, Option.toList_some] at hsent hbytes
  refine { sent := ?_, written := ?_, bytes := ?_, lines := h.lines, session := h.session,
           answered := ?_, outcomes := ?_, asked := fun _ hnone => by cases hnone }
  · rw [Option.toList_none, List.append_nil]
    exact hsent
  · rw [Option.toList_none, hserved]
  · rw [Option.toList_none, List.append_nil]
    exact hbytes
  · rw [hserved, List.append_nil]
  · rw [Instrument.outcomes_concat, List.map_append, h.outcomes]
    simp [Client.outcome, h.asked query hawaited, Except.map]

/-- **What happens next keeps the account.** -/
theorem step (h : Follows i limit all front served pending received c) (hi : i.HoldsLines)
    (hlines : ∀ command ∈ all, command.IsLine)
    (hfits : ∀ command ∈ all, (Utf8.encode command).length ≤ limit)
    (hqueries : i.AnswersQueries all) (hstep : Step c next) :
    ∃ front served pending received, Follows i limit all front served pending received next := by
  cases hstep with
  | write hfree hnext hquery => exact ⟨_, _, _, _, h.step_write hqueries hfree hnext hquery⟩
  | ask hfree hnext hquery => exact ⟨_, _, _, _, h.step_ask hfree hnext hquery⟩
  | receive houtbound hchunk =>
    obtain ⟨more, others, -, hfollows⟩ := h.step_receive hlines hfits houtbound
    exact ⟨_, _, _, _, hfollows⟩
  | read hawaited harrived hread =>
    exact ⟨_, _, _, _, h.step_read hi hlines hqueries hawaited harrived hread⟩

/-- Once all bytes are received, all that was written is processed. -/
theorem pending_eq_nil_of_received (h : Follows i limit all front served pending received c)
    (hlines : ∀ command ∈ all, command.IsLine) (houtbound : c.outbound = []) :
    pending = [] ∧ Line.remainder received = [] := by
  have hbytes := h.bytes
  rw [houtbound, List.append_nil] at hbytes
  have hwritten : ∀ command ∈ front ++ c.awaited.toList, command.IsLine := by
    intro command hcommand
    refine hlines command ?_
    rw [h.sent]
    exact List.mem_append_left _ hcommand
  obtain ⟨hcomplete, hremainder⟩ := Client.complete_remainder_written hwritten
  rw [← hbytes, h.lines, h.written, List.map_append, List.self_eq_append_right, List.map_eq_nil_iff]
    at hcomplete
  exact ⟨hcomplete, hbytes ▸ hremainder⟩

/-- **A conversation does not get stuck**: something can happen next, or it is over, with all
commands sent, all of them processed and every reply read. -/
theorem step_or_ended (h : Follows i limit all front served pending received c) (hi : i.HoldsLines)
    (hlines : ∀ command ∈ all, command.IsLine) (hqueries : i.AnswersQueries all) :
    (∃ next, Step c next) ∨ c = ended (i.after all) limit ((i.outcomes all).map .ok) := by
  by_cases houtbound : c.outbound = []
  · obtain ⟨rfl, hremainder⟩ := h.pending_eq_nil_of_received hlines houtbound
    cases hawaited : c.awaited with
    | some query =>
      obtain ⟨-, -, hunread⟩ := h.unread_eq hi hlines hqueries hawaited
      left
      refine ⟨_, .read hawaited ?_ rfl⟩
      rw [hunread, Client.commandBytes_eq]
      exact List.mem_append_right _ (List.mem_singleton_self _)
    | none =>
      cases hnext : c.commands with
      | cons command rest =>
        left
        cases hquery : Client.isQuery command with
        | true => exact ⟨_, .ask hawaited hnext hquery⟩
        | false => exact ⟨_, .write hawaited hnext hquery⟩
      | nil =>
        right
        have hsent := h.sent
        have hwritten := h.written
        have hanswered := h.answered
        rw [hawaited, hnext, Option.toList_none, List.append_nil, List.append_nil] at hsent
        rw [hawaited, Option.toList_none, List.append_nil, List.append_nil] at hwritten
        subst hsent hwritten
        rw [List.self_eq_append_right] at hanswered
        have hsession := h.session
        rw [← Session.start_eq _ limit hremainder] at hsession
        exact Conversation.ext hnext hawaited houtbound hsession hanswered h.outcomes
  · exact .inl ⟨_, .receive (List.append_nil _).symm houtbound⟩

end Follows

/-- Whatever happens in a conversation, every command is accounted for. -/
theorem follows_of_reaches (hi : i.HoldsLines) (hlines : ∀ command ∈ all, command.IsLine)
    (hfits : ∀ command ∈ all, (Utf8.encode command).length ≤ limit)
    (hqueries : i.AnswersQueries all)
    (hreach : Relation.ReflTransGen Step (start i limit all) c) :
    ∃ front served pending received, Follows i limit all front served pending received c := by
  induction hreach with
  | refl => exact ⟨_, _, _, _, follows_start i limit all⟩
  | tail _ hstep ih =>
    obtain ⟨front, served, pending, received, h⟩ := ih
    exact h.step hi hlines hfits hqueries hstep

end Run

end Conversation

/-! ## The result -/

/-- Calls that wait for each command to be processed give what the instrument itself replies. -/
theorem Client.calls_send {i : Instrument} (hi : i.HoldsLines) {limit : Nat}
    {commands : List Text} (hlines : ∀ command ∈ commands, command.IsLine)
    (hfits : ∀ command ∈ commands, (Utf8.encode command).length ≤ limit)
    (hqueries : i.AnswersQueries commands) :
    calls Session.peer (newConnection (.start i limit)) (commands.map (.send, ·)) =
      (newConnection (.start (i.after commands) limit), (i.outcomes commands).map .ok) := by
  induction commands generalizing i with
  | nil => rfl
  | cons command rest ih =>
    obtain ⟨hline, hrest⟩ := List.forall_mem_cons.mp hlines
    obtain ⟨hfit, hfits⟩ := List.forall_mem_cons.mp hfits
    obtain ⟨hreply, hqueries⟩ := hqueries
    have hsend : call Session.peer (newConnection (.start i limit)) .send command = _ :=
      respond_of_receive (Session.peer_receive i hline hfit) (hi.isLine_reply command) hreply
    rw [List.map_cons, calls, hsend]
    dsimp only
    rw [ih (hi.process hline) hrest hfits hqueries]
    rfl

namespace Conversation

/-- **Sending is processing.** A client sends commands, each of one line and within the limit, to an
instrument whose settings hold no line feeds and that answers the queries among them and nothing
else. Then the calls give nothing for a command that is no query and the instrument's own reply, as
a line, for a query, and the session is left with the instrument that has processed the commands.
Nor does it matter in what order and in what chunks bytes arrive: the outcomes are these from the
first on, no conversation goes on forever, and one that cannot go on has come to this very end. -/
theorem sending_is_processing (i : Instrument) (limit : Nat) (commands : List Text)
    (hi : i.HoldsLines)
    (hcommands : ∀ command ∈ commands, command.IsLine ∧ (Utf8.encode command).length ≤ limit)
    (hqueries : i.AnswersQueries commands) :
    Client.calls Session.peer (Client.newConnection (.start i limit)) (commands.map (.send, ·)) =
        (Client.newConnection (.start (i.after commands) limit),
          (i.outcomes commands).map .ok) ∧
      ∀ c, Relation.ReflTransGen Step (start i limit commands) c →
        c.outcomes <+: (i.outcomes commands).map .ok ∧
          (∀ next, Step c next → next.work < c.work) ∧
          ((∃ next, Step c next) ∨
            c = ended (i.after commands) limit ((i.outcomes commands).map .ok)) := by
  have hlines : ∀ command ∈ commands, command.IsLine :=
    fun command hmem => (hcommands command hmem).1
  have hfits : ∀ command ∈ commands, (Utf8.encode command).length ≤ limit :=
    fun command hmem => (hcommands command hmem).2
  refine ⟨Client.calls_send hi hlines hfits hqueries, fun c hreach => ?_⟩
  obtain ⟨front, served, pending, received, h⟩ := follows_of_reaches hi hlines hfits hqueries hreach
  refine ⟨?_, fun next hstep => hstep.work_lt, h.step_or_ended hi hlines hqueries⟩
  rw [h.outcomes, h.sent, List.append_assoc, Instrument.outcomes_append, List.map_append]
  exact List.prefix_append _ _

/-- An instrument with long headers and a stored value that makes no sense, commands in small
letters, one of them as long as the limit allows, and a change of the header mode on the way. -/
theorem sending_is_processing_long :
    let i := (Instrument.new .sdg1062x).after ["CHDR LONG".toList, "C2:BSWV PHSE,V;µ".toList]
    let commands := ["c2:output on ".toList, "C2:OUTPUT?".toList, "chdr off".toList,
      "buzz?".toList, "stl? user".toList]
    (Client.calls Session.peer (Client.newConnection (.start i 13)) (commands.map (.send, ·))).2 =
      [.ok none, .ok (some "C2:OUTPUT ON,LOAD,HZ,PLRT,NOR\n".toList), .ok none,
        .ok (some "ON\n".toList), .ok (some "WVNM\n".toList)] := by
  intro i commands
  have hi : i.HoldsLines := (Instrument.holdsLines_new .sdg1062x).after (by decide)
  rw [(sending_is_processing i 13 commands hi (by decide +kernel) (by decide +kernel)).1]
  have houtcomes : i.outcomes commands = [none, some "C2:OUTPUT ON,LOAD,HZ,PLRT,NOR\n".toList, none,
      some "ON\n".toList, some "WVNM\n".toList] := by decide +kernel
  rw [houtcomes]
  rfl

end Conversation

end WaveGen
