import WaveGen.Console
import WaveGen.Proofs.ReplyStreams
import WaveGen.Proofs.SessionOutput

/-!
# What a console session sends and prints (specification §10.8)

A session prompts, reads a line, and does one of several things with it: it passes over a blank one,
leaves at the word for that, sends a command and goes on, sends a query and prints the reply, or
gives up when an exchange fails. So a session is a sequence of turns, one for each line that was
read, and this module says what the turns are and that they account for all that was sent and
printed, whatever the peer does.

* `Console.linesOf`, `Console.asked` — the lines of an input, and the commands that they ask for.
* `Console.Turn`, `Console.Turn.InOrder` — a turn, and what has to be so in each.
* `Console.Account` — turns that account for a session. A session without lines has one
  (`Account.nil`), and so has one that is over with its first line (`Account.last`) or goes on
  (`Account.cons`).
* `Console.run_turn` — a session takes one turn after the other, on any terminal; `Console.Desk` has
  what the turns are when the input is at hand.
* `Console.run_sends_what_is_asked` — any input, over any connection.
-/

namespace WaveGen

/-! ## Reply lines -/

namespace Utf8

theorem eq_nil_of_encode {t : Text} (h : encode t = []) : t = [] := by
  have hread := decode?_encode t
  rw [h] at hread
  exact (Option.some.inj hread).symm

/-- What is written as a line with its line feed is a line with its line feed. -/
theorem eq_append_of_encode {t : Text} {line : Bytes} (hline : Line.feed ∉ line)
    (h : encode t = line ++ [Line.feed]) : ∃ body : Text, body.IsLine ∧ t = body ++ ['\n'] := by
  have hmem : '\n' ∈ t := by
    refine Classical.byContradiction fun hnot => ?_
    have hfeed := feed_not_mem_encode_iff.mpr hnot
    rw [h] at hfeed
    exact hfeed (List.mem_append_right _ (List.mem_singleton_self _))
  obtain ⟨body, rest, rfl, hbody⟩ := List.eq_append_cons_of_mem hmem
  have hwritten : encode (body ++ '\n' :: rest) = encode body ++ Line.feed :: encode rest :=
    encode_append body ('\n' :: rest)
  rw [hwritten] at h
  obtain ⟨-, -, hrest⟩ :=
    (List.append_cons_inj_of_notMem hline List.not_mem_nil).mp h.symm
  rw [eq_nil_of_encode hrest.symm]
  exact ⟨body, hbody, rfl⟩

end Utf8

namespace Client

variable {σ : Type}

/-- What is read as a line has no line feed but the one at its end. -/
theorem eq_of_nextLine? {unread line rest : Bytes} {closed : Bool}
    (h : nextLine? unread closed = some (line, rest)) :
    ∃ front, Line.feed ∉ front ∧ (line = front ∨ line = front ++ [Line.feed]) := by
  by_cases hfeed : Line.feed ∈ unread
  · obtain ⟨front, behind, rfl, hfront⟩ := List.eq_append_cons_of_mem hfeed
    rw [nextLine?_line hfront] at h
    cases h
    exact ⟨front, hfront, .inr rfl⟩
  · rw [nextLine?_of_not_mem hfeed] at h
    cases (Option.ite_none_right_eq_some.mp h).2
    exact ⟨unread, hfeed, .inl rfl⟩

/-- A reply is one line, with a line feed at its end or without. -/
theorem isLine_of_reply {c : Connection σ} {query reply : Text}
    (h : c.readLine.2.reply query = .ok reply) :
    ∃ body : Text, body.IsLine ∧ (reply = body ∨ reply = body ++ ['\n']) := by
  rw [Connection.readLine] at h
  cases hnext : nextLine? c.unread (c.ending == some .closed) with
  | none =>
    rw [hnext, reply_without] at h
    cases h
  | some found =>
    obtain ⟨line, rest⟩ := found
    rw [hnext] at h
    dsimp only [Arrival.reply] at h
    obtain ⟨front, hfront, hline⟩ := eq_of_nextLine? hnext
    cases hdecode : Utf8.decode? line with
    | none =>
      rw [hdecode] at h
      cases h
    | some text =>
      rw [hdecode] at h
      cases h
      have hwritten := Utf8.encode_of_decode? hdecode
      rcases hline with rfl | rfl
      · exact ⟨reply, Utf8.isLine_of_decode? hfront hdecode, .inl rfl⟩
      · obtain ⟨body, hbody, rfl⟩ := Utf8.eq_append_of_encode hfront hwritten
        exact ⟨body, hbody, .inr rfl⟩

/-- An exchange that does not fail gives one line if the command is a query, and nothing
otherwise. -/
theorem respond_ok_cases {peer : Peer σ} {c next : Connection σ} {command : Text}
    {reply : Option Text} (h : peer.respond c command = (next, .ok reply)) :
    (isQuery command = false ∧ reply = none) ∨
      (isQuery command = true ∧ ∃ text, reply = some text ∧
        ∃ body : Text, body.IsLine ∧ (text = body ∨ text = body ++ ['\n'])) := by
  rcases hwrite : peer.write c (commandBytes command) with ⟨written, delivery⟩
  have hcall : peer.respond c command = _ := call_eq hwrite .send
  rw [hcall, reads] at h
  cases hfault : delivery.fault? command with
  | some fault =>
    rw [hfault] at h
    cases h
  | none =>
    rw [hfault] at h
    dsimp only at h
    cases hquery : isQuery command with
    | false =>
      rw [hquery] at h
      cases h
      exact .inl ⟨rfl, rfl⟩
    | true =>
      rw [hquery, if_pos rfl] at h
      cases hreply : written.readLine.2.reply command with
      | error fault =>
        rw [hreply] at h
        cases h
      | ok text =>
        rw [hreply] at h
        cases h
        exact .inr ⟨rfl, text, rfl, isLine_of_reply hreply⟩

end Client

/-- Of a line, with a line feed or without, what is sent has one line feed, at its end. -/
theorem Line.terminated_of_isLine {text body : Text} (hbody : body.IsLine)
    (h : text = body ∨ text = body ++ ['\n']) : terminated text = body ++ ['\n'] := by
  rcases h with rfl | rfl
  · exact if_neg fun hlast => hbody (List.mem_of_getLast? hlast)
  · exact if_pos List.getLast?_concat

namespace Console

/-! ## Input -/

/-- The lines of an input. A last line need not end in a line feed. -/
def linesOf (input : Text) : List Text :=
  let pieces := Text.split '\n' input
  if pieces.getLast? = some [] then pieces.dropLast else pieces

theorem isLine_of_mem_linesOf {input line : Text} (h : line ∈ linesOf input) : line.IsLine := by
  rw [linesOf] at h
  split at h
  · exact Text.not_mem_of_mem_split (List.dropLast_subset _ h)
  · exact Text.not_mem_of_mem_split h

theorem encode_join (pieces : List Text) :
    Utf8.encode (Text.join '\n' pieces) =
      [Line.feed].intercalate (pieces.map Utf8.encode) := by
  induction pieces with
  | nil => rfl
  | cons piece rest ih =>
    cases rest with
    | nil => rw [Text.join_singleton, List.map_singleton, List.intercalate_singleton]
    | cons next more =>
      rw [Text.join_cons_cons, Utf8.encode_append, List.map_cons, List.map_cons,
        List.intercalate_cons_cons, ← List.map_cons, ← ih, List.append_assoc]
      rfl

/-- Cutting the bytes of a text is cutting the text. -/
theorem splitOn_encode (input : Text) :
    (Utf8.encode input).splitOn Line.feed = (Text.split '\n' input).map Utf8.encode := by
  have hpieces : ∀ line ∈ (Text.split '\n' input).map Utf8.encode, Line.feed ∉ line := by
    intro line hline
    obtain ⟨piece, hpiece, rfl⟩ := List.mem_map.mp hline
    exact Utf8.feed_not_mem_encode_iff.mpr (Text.not_mem_of_mem_split hpiece)
  conv_lhs => rw [← Text.join_split '\n' input, encode_join]
  exact List.splitOn_intercalate Line.feed hpieces
    (mt List.map_eq_nil_iff.mp (Text.split_ne_nil '\n' input))

/-- The input is read line by line. -/
theorem inputLines_encode (input : Text) :
    inputLines (Utf8.encode input) = (linesOf input).map some := by
  obtain ⟨front, last, hpieces⟩ := (List.eq_nil_or_concat (Text.split '\n' input)).resolve_left
    (Text.split_ne_nil '\n' input)
  rw [List.concat_eq_append] at hpieces
  have hsplit := splitOn_encode input
  rw [hpieces, List.map_append, List.map_singleton] at hsplit
  obtain ⟨hcomplete, hremainder⟩ := Line.complete_remainder_of_splitOn hsplit
  have hdecode : (Utf8.decode? ∘ Utf8.encode) = some := funext Utf8.decode?_encode
  rw [inputLines, Line.cut_eq, hcomplete, hremainder, linesOf, hpieces, List.getLast?_concat,
    List.dropLast_concat]
  cases last with
  | nil => simp [Utf8.encode, hdecode]
  | cons c rest =>
    have hlast := mt Utf8.eq_nil_of_encode (List.cons_ne_nil c rest)
    simp [hlast, hdecode, Utf8.decode?_encode]

/-! ## Commands -/

/-- What a line spells: its text in capital letters, without the blanks at its ends. -/
def spelled (line : Text) : Text := Text.upper (Text.trim line)

/-- The commands that lines ask for: what they spell, up to the first that spells the end of the
session, without the blank ones. -/
def asked (lines : List Text) : List Text :=
  ((lines.map spelled).takeWhile (· ≠ exitWord)).filter (· ≠ [])

theorem asked_of_exit {line : Text} (h : spelled line = exitWord) (rest : List Text) :
    asked (line :: rest) = [] := by
  simp [asked, h]

theorem asked_of_blank {line : Text} (h : spelled line = []) (rest : List Text) :
    asked (line :: rest) = asked rest := by
  simp [asked, h, exitWord]

theorem asked_of_command {line : Text} (hblank : spelled line ≠ [])
    (hexit : spelled line ≠ exitWord) (rest : List Text) :
    asked (line :: rest) = spelled line :: asked rest := by
  simp [asked, hblank, hexit]

theorem isLine_of_mem_asked {lines : List Text} (h : ∀ line ∈ lines, line.IsLine) {command : Text}
    (hcommand : command ∈ asked lines) : command.IsLine := by
  obtain ⟨line, hline, rfl⟩ := List.mem_map.mp
    ((List.takeWhile_sublist _).subset (List.mem_of_mem_filter hcommand))
  exact Text.isLine_upper_iff.mpr (h line hline).trim

/-! ## Turns -/

/-- One turn of a session. -/
structure Turn where
  /-- The line that was read. -/
  line : Text
  /-- How the exchange with the peer ended, if there was one. -/
  outcome : Option (Except ClientFault (Option Text))

namespace Turn

/-- What is printed of the exchange. -/
def reply (t : Turn) : Text :=
  match t.outcome with
  | some (.ok reply) => printed reply
  | _ => []

/-- All that is printed in a turn: the prompt, and then what is printed of the exchange. -/
def shown (t : Turn) : Text := prompt ++ t.reply

/-- Whether the session is over with this turn: the line says so, or the exchange failed. -/
def Ends (t : Turn) : Prop :=
  spelled t.line = exitWord ∨ ∃ fault, t.outcome = some (.error fault)

/-- How a session ends that is over with this turn. -/
def ending (t : Turn) : Except ConsoleFault Unit :=
  match t.outcome with
  | some (.error fault) => .error (.exchange fault)
  | _ => .ok ()

/-- What has to be so in a turn. -/
structure InOrder (t : Turn) : Prop where
  /-- There is an exchange if the line is neither blank nor the end of the session. -/
  exchanges : t.outcome.isSome = true ↔ spelled t.line ≠ [] ∧ spelled t.line ≠ exitWord
  /-- Queries are replied to, and nothing else is. -/
  replies : ∀ reply, t.outcome = some (.ok reply) →
    reply.isSome = Client.isQuery (spelled t.line)
  /-- A reply is printed as one line. -/
  prints : ∀ reply, t.outcome = some (.ok (some reply)) →
    ∃ body : Text, body.IsLine ∧ (reply = body ∨ reply = body ++ ['\n']) ∧
      t.reply = body ++ ['\n']

/-- Lines that ask for no command make turns without an exchange. -/
theorem inOrder_none {line : Text} (h : spelled line = [] ∨ spelled line = exitWord) :
    InOrder ⟨line, none⟩ where
  exchanges := by rcases h with h | h <;> simp [h]
  replies := fun _ h => nomatch h
  prints := fun _ h => nomatch h

/-- A line that asks for a command makes a turn that is in order, however the exchange ends. -/
theorem inOrder_send {σ : Type} {peer : Peer σ} {c next : Connection σ} {line : Text}
    {outcome : Except ClientFault (Option Text)} (hblank : spelled line ≠ [])
    (hexit : spelled line ≠ exitWord)
    (h : peer.respond c (spelled line) = (next, outcome)) :
    InOrder ⟨line, some outcome⟩ where
  exchanges := by simp [hblank, hexit]
  replies := by
    rintro reply hreply
    cases hreply
    rcases Client.respond_ok_cases h with ⟨hquery, rfl⟩ | ⟨hquery, text, rfl, -⟩
    · exact hquery.symm
    · exact hquery.symm
  prints := by
    rintro reply hreply
    cases hreply
    rcases Client.respond_ok_cases h with ⟨-, hnone⟩ | ⟨-, text, htext, body, hbody, hline⟩
    · cases hnone
    · cases htext
      exact ⟨body, hbody, hline, Line.terminated_of_isLine hbody hline⟩

theorem not_ends_blank {line : Text} (h : spelled line = []) : ¬ Ends ⟨line, none⟩ := by
  rintro (hexit | ⟨fault, hfault⟩)
  · exact List.cons_ne_nil _ _ (hexit.symm.trans h)
  · cases hfault

theorem not_ends_ok {line : Text} (h : spelled line ≠ exitWord) (reply : Option Text) :
    ¬ Ends ⟨line, some (.ok reply)⟩ := by
  rintro (hexit | ⟨fault, hfault⟩)
  · exact h hexit
  · cases hfault

end Turn

/-- The commands that were sent in turns. -/
def sent (turns : List Turn) : List Text :=
  (turns.filter (·.outcome.isSome)).map (spelled ·.line)

theorem sent_cons (t : Turn) (turns : List Turn) : sent (t :: turns) = sent [t] ++ sent turns := by
  rw [sent, ← List.singleton_append, List.filter_append, List.map_append]
  rfl

/-- What a turn sends is what its line asks for in front of the other lines. -/
theorem asked_cons {t : Turn} (horder : t.InOrder) (hexit : spelled t.line ≠ exitWord)
    (rest : List Text) : asked (t.line :: rest) = sent [t] ++ asked rest := by
  by_cases hblank : spelled t.line = []
  · have hnone : t.outcome.isSome = false :=
      Bool.eq_false_iff.mpr fun hsome => (horder.exchanges.mp hsome).1 hblank
    rw [asked_of_blank hblank, sent, List.filter_singleton, hnone]
    rfl
  · have hsome : t.outcome.isSome = true := horder.exchanges.mpr ⟨hblank, hexit⟩
    rw [asked_of_command hblank hexit, sent, List.filter_singleton, hsome]
    rfl

/-- A turn that leaves the session sends nothing. -/
theorem sent_of_exit {t : Turn} (horder : t.InOrder) (hexit : spelled t.line = exitWord) :
    sent [t] = [] := by
  have hnone : t.outcome.isSome = false :=
    Bool.eq_false_iff.mpr fun hsome => (horder.exchanges.mp hsome).2 hexit
  rw [sent, List.filter_singleton, hnone]
  rfl

/-- All that is printed in turns. -/
def transcript (turns : List Turn) : Text := turns.flatMap Turn.shown

/-! ## Accounts -/

/-- Turns account for a session with these lines, which printed this and ended like this. -/
structure Account (lines : List Text) (turns : List Turn) (output : Text)
    (ending : Except ConsoleFault Unit) : Prop where
  /-- The turns are those of the first lines. -/
  reads : turns.map Turn.line <+: lines
  inOrder : ∀ t ∈ turns, t.InOrder
  /-- Only with the last turn the session may be over. -/
  goesOn : ∀ t ∈ turns.dropLast, ¬ t.Ends
  /-- A session that is over with a turn prints nothing else. -/
  stops : (∃ t ∈ turns, t.Ends) → output = transcript turns
  /-- Otherwise all lines are read, and there is a prompt for the end of the input. -/
  exhausted : (∀ t ∈ turns, ¬ t.Ends) →
    turns.map Turn.line = lines ∧ output = transcript turns ++ prompt
  /-- The commands are those that the lines ask for, in their order. -/
  sends : sent turns <+: asked lines
  /-- They are all of these if no exchange fails. -/
  sendsAll : ending = .ok () → sent turns = asked lines
  /-- The session fails exactly if an exchange does. -/
  fails : ∀ fault, ending = .error fault ↔
    ∃ cause, fault = .exchange cause ∧ ∃ t ∈ turns, t.outcome = some (.error cause)

namespace Account

/-- At the end of the input there is a prompt. -/
theorem nil : Account [] [] prompt (.ok ()) where
  reads := List.nil_prefix
  inOrder := fun _ h => nomatch h
  goesOn := fun _ h => nomatch h
  stops := fun ⟨_, h, _⟩ => nomatch h
  exhausted := fun _ => ⟨rfl, rfl⟩
  sends := List.nil_prefix
  sendsAll := fun _ => rfl
  fails := by simp

variable {t : Turn}

/-- A turn with which the session is over is its last, whatever lines there are behind it. -/
theorem last (horder : t.InOrder) (hends : t.Ends) (rest : List Text) :
    Account (t.line :: rest) [t] t.shown t.ending where
  reads := List.prefix_append [t.line] rest
  inOrder := List.forall_mem_singleton.mpr horder
  goesOn := fun _ h => nomatch h
  stops := fun _ => (List.flatMap_singleton _ _).symm
  exhausted := fun h => absurd hends (h t (List.mem_singleton_self t))
  sends := by
    by_cases hexit : spelled t.line = exitWord
    · rw [sent_of_exit horder hexit]
      exact List.nil_prefix
    · rw [asked_cons horder hexit]
      exact List.prefix_append _ _
  sendsAll := by
    intro hending
    rcases hends with hexit | ⟨fault, hfault⟩
    · rw [sent_of_exit horder hexit, asked_of_exit hexit]
    · rw [Turn.ending, hfault] at hending
      cases hending
  fails := by
    intro fault
    rw [Turn.ending]
    rcases t with ⟨line, _ | cause | reply⟩ <;> simp [eq_comm]

/-- A turn with which the session is not over comes before those for the other lines. -/
theorem cons {rest : List Text} {turns : List Turn} {output : Text}
    {ending : Except ConsoleFault Unit} (horder : t.InOrder) (hgoes : ¬ t.Ends)
    (h : Account rest turns output ending) :
    Account (t.line :: rest) (t :: turns) (t.shown ++ output) ending where
  reads := (List.prefix_cons_inj t.line).mpr h.reads
  inOrder := List.forall_mem_cons.mpr ⟨horder, h.inOrder⟩
  goesOn := by
    intro u hu
    cases turns with
    | nil => cases hu
    | cons next more =>
      rcases List.mem_cons.mp hu with rfl | hmore
      · exact hgoes
      · exact h.goesOn u hmore
  stops := by
    rintro ⟨u, hu, hends⟩
    have hu := (List.mem_cons.mp hu).resolve_left fun heq => hgoes (heq ▸ hends)
    rw [h.stops ⟨u, hu, hends⟩]
    rfl
  exhausted := by
    intro hnone
    obtain ⟨hlines, houtput⟩ := h.exhausted (List.forall_mem_cons.mp hnone).2
    rw [houtput, List.map_cons, hlines, ← List.append_assoc]
    exact ⟨rfl, rfl⟩
  sends := by
    rw [sent_cons, asked_cons horder (mt .inl hgoes), List.prefix_append_right_inj]
    exact h.sends
  sendsAll := by
    intro hending
    rw [sent_cons, asked_cons horder (mt .inl hgoes), h.sendsAll hending]
  fails := by
    intro fault
    have ht (cause : ClientFault) : t.outcome ≠ some (.error cause) :=
      fun houtcome => hgoes (.inr ⟨cause, houtcome⟩)
    simp [h.fails, ht]

end Account

/-! ## Sessions -/

/-- A session takes one turn after the other. -/
theorem run_turn {δ : Type} (t : Terminal (StateM δ)) (peer : Respondent (StateM δ)) (d : δ) :
    (run t peer).run d =
      match (turn t peer).run d with
      | (.inl (), next) => (run t peer).run next
      | (.inr ending, last) => (ending, last) := by
  have : Nonempty δ := ⟨d⟩
  have hturn : run t peer = repeatM.body (fun () => turn t peer) (fun () => run t peer) () :=
    repeatM_eq_of_monadTail ()
  refine (congrArg (·.run d) hturn).trans ?_
  rw [repeatM.body, StateT.run_bind]
  rcases (turn t peer).run d with ⟨⟨⟩ | ending, next⟩ <;> rfl

namespace Desk

variable {σ : Type} {peer : Peer σ} {c next : Connection σ} {line : Text}

/-! What reading, printing and responding do at a desk. -/

theorem run_print (text : Text) (d : Desk σ) :
    (terminal.print text).run d = pure ((), { d with output := d.output ++ text }) := rfl

theorem run_readLine_nil (c : Connection σ) (output : Text) :
    terminal.readLine.run (⟨c, [], output⟩ : Desk σ) = pure (.ok none, ⟨c, [], output⟩) := rfl

theorem run_readLine_cons (c : Connection σ) (line : Text) (rest : List (Option Text))
    (output : Text) :
    terminal.readLine.run (⟨c, some line :: rest, output⟩ : Desk σ) =
      pure (.ok (some line), ⟨c, rest, output⟩) := rfl

theorem run_respondent (peer : Peer σ) (command : Text) (d : Desk σ) :
    (respondent peer command).run d =
      pure ((peer.respond d.connection command).2,
        { d with connection := (peer.respond d.connection command).1 }) := rfl

/-- A turn with a line that was read, by what the line asks for. -/
theorem turn_line (peer : Peer σ) (c : Connection σ) (line : Text) (rest : List (Option Text))
    (output : Text) :
    (turn terminal (respondent peer)).run ⟨c, some line :: rest, output⟩ =
      match action line with
      | .pass => (.inl (), ⟨c, rest, output ++ prompt⟩)
      | .leave => (.inr (.ok ()), ⟨c, rest, output ++ prompt⟩)
      | .send command =>
        match peer.respond c command with
        | (next, .error fault) => (.inr (.error (.exchange fault)), ⟨next, rest, output ++ prompt⟩)
        | (next, .ok reply) => (.inl (), ⟨next, rest, output ++ prompt ++ printed reply⟩) := by
  rw [turn, StateT.run_bind, run_print, pure_bind, StateT.run_bind, run_readLine_cons, pure_bind]
  dsimp only
  rcases action line with _ | _ | command
  · rfl
  · rfl
  · dsimp only
    rw [StateT.run_bind, run_respondent, pure_bind]
    rcases peer.respond c command with ⟨next, fault | reply⟩ <;> rfl

/-! How a session goes on from a desk, line by line. -/

theorem run_nil (peer : Peer σ) (c : Connection σ) (output : Text) :
    run peer ⟨c, [], output⟩ = (.ok (), ⟨c, [], output ++ prompt⟩) := by
  have hturn : (turn terminal (respondent peer)).run ⟨c, [], output⟩ =
      (.inr (.ok ()), ⟨c, [], output ++ prompt⟩) := by
    rw [turn, StateT.run_bind, run_print, pure_bind, StateT.run_bind, run_readLine_nil, pure_bind]
    rfl
  rw [run, run_turn, hturn]

variable {rest : List (Option Text)} {output : Text}

theorem run_of_blank (h : spelled line = []) :
    run peer ⟨c, some line :: rest, output⟩ = run peer ⟨c, rest, output ++ prompt⟩ := by
  have haction : action line = .pass := by
    rw [action, ← spelled, h]
    rfl
  rw [run, run_turn, turn_line, haction]
  rfl

theorem run_of_exit (h : spelled line = exitWord) :
    run peer ⟨c, some line :: rest, output⟩ = (.ok (), ⟨c, rest, output ++ prompt⟩) := by
  have haction : action line = .leave := by
    rw [action, ← spelled, h]
    rfl
  rw [run, run_turn, turn_line, haction]

theorem action_of_command (hblank : spelled line ≠ []) (hexit : spelled line ≠ exitWord) :
    action line = .send (spelled line) := by
  rw [action, ← spelled]
  simp [hblank, hexit]

theorem run_of_fault (hblank : spelled line ≠ []) (hexit : spelled line ≠ exitWord)
    {fault : ClientFault} (h : peer.respond c (spelled line) = (next, .error fault)) :
    run peer ⟨c, some line :: rest, output⟩ =
      (.error (.exchange fault), ⟨next, rest, output ++ prompt⟩) := by
  rw [run, run_turn, turn_line, action_of_command hblank hexit]
  dsimp only
  rw [h]

theorem run_of_reply (hblank : spelled line ≠ []) (hexit : spelled line ≠ exitWord)
    {reply : Option Text} (h : peer.respond c (spelled line) = (next, .ok reply)) :
    run peer ⟨c, some line :: rest, output⟩ =
      run peer ⟨next, rest, output ++ prompt ++ printed reply⟩ := by
  rw [run, run_turn, turn_line, action_of_command hblank hexit]
  dsimp only
  rw [h]
  rfl

/-- The session with the peer that keeps no record. -/
def plain (d : Desk (Recorded σ)) : Desk σ := ⟨Client.plain d.connection, d.input, d.output⟩

/-- Keeping a record changes nothing of a session. -/
theorem run_plain (peer : Peer σ) (lines : List Text) (c : Connection (Recorded σ))
    (output : Text) :
    run peer ⟨Client.plain c, lines.map some, output⟩ =
      ((run peer.recorded ⟨c, lines.map some, output⟩).1,
        (run peer.recorded ⟨c, lines.map some, output⟩).2.plain) := by
  induction lines generalizing c output with
  | nil =>
    rw [List.map_nil, run_nil, run_nil]
    rfl
  | cons line rest ih =>
    rw [List.map_cons]
    by_cases hblank : spelled line = []
    · rw [run_of_blank hblank, run_of_blank hblank, ih]
    by_cases hexit : spelled line = exitWord
    · rw [run_of_exit hexit, run_of_exit hexit]
      rfl
    have hplain : peer.respond (Client.plain c) (spelled line) =
        (Client.plain (peer.recorded.respond c (spelled line)).1,
          (peer.recorded.respond c (spelled line)).2) :=
      Client.call_plain peer c .send (spelled line)
    rcases hrespond : peer.recorded.respond c (spelled line) with ⟨next, fault | reply⟩
    · rw [hrespond] at hplain
      rw [run_of_fault hblank hexit hplain, run_of_fault hblank hexit hrespond]
      rfl
    · rw [hrespond] at hplain
      rw [run_of_reply hblank hexit hplain, run_of_reply hblank hexit hrespond, ih]

end Desk

variable {σ : Type}

/-- The calls for what the lines ask for. -/
def exchanges (lines : List Text) : List (Client.Call × Text) := (asked lines).map (.send, ·)

/-- **The invariant of a session**, from any connection on and whatever was printed before: there
are turns that account for it, and their exchanges are the calls for what the lines ask for, up to
the first that fails. -/
theorem exists_account (peer : Peer σ) (lines : List Text) (c : Connection σ) (before : Text) :
    let result := Desk.run peer ⟨c, lines.map some, before⟩
    ∃ turns output, result.2.output = before ++ output ∧ Account lines turns output result.1 ∧
      Client.calls peer c (exchanges lines) =
        (result.2.connection, turns.filterMap Turn.outcome) := by
  induction lines generalizing c before with
  | nil =>
    rw [List.map_nil, Desk.run_nil]
    exact ⟨[], prompt, rfl, Account.nil, rfl⟩
  | cons line rest ih =>
    rw [List.map_cons, exchanges]
    by_cases hblank : spelled line = []
    · obtain ⟨turns, output, hprinted, haccount, hcalls⟩ := ih c (before ++ prompt)
      have horder := Turn.inOrder_none (.inl hblank)
      rw [Desk.run_of_blank hblank, asked_of_blank hblank]
      refine ⟨_, _, ?_, haccount.cons horder (Turn.not_ends_blank hblank), hcalls⟩
      rw [hprinted, List.append_assoc, Turn.shown]
      rfl
    by_cases hexit : spelled line = exitWord
    · have horder := Turn.inOrder_none (.inr hexit)
      rw [Desk.run_of_exit hexit, asked_of_exit hexit]
      exact ⟨_, _, rfl, Account.last horder (.inl hexit) _, rfl⟩
    -- the first call is that of this line, and the lines behind it go on from where it leaves
    rw [asked_of_command hblank hexit, List.map_cons, Client.calls]
    rcases hrespond : peer.respond c (spelled line) with ⟨next, fault | reply⟩
    · have horder := Turn.inOrder_send hblank hexit hrespond
      have hcall : Client.call peer c .send (spelled line) = _ := hrespond
      rw [Desk.run_of_fault hblank hexit hrespond, hcall]
      exact ⟨_, _, rfl, Account.last horder (.inr ⟨fault, rfl⟩) _, rfl⟩
    · obtain ⟨turns, output, hprinted, haccount, hcalls⟩ :=
        ih next (before ++ prompt ++ printed reply)
      have horder := Turn.inOrder_send hblank hexit hrespond
      have hcall : Client.call peer c .send (spelled line) = _ := hrespond
      rw [exchanges] at hcalls
      rw [Desk.run_of_reply hblank hexit hrespond, hcall]
      refine ⟨_, _, ?_, haccount.cons horder (Turn.not_ends_ok hexit reply), ?_⟩
      · rw [hprinted, Turn.shown, List.append_assoc, List.append_assoc, List.append_assoc]
        rfl
      · dsimp only
        rw [hcalls]
        rfl

/-- There is an exchange for each command that is sent. -/
theorem length_sent (turns : List Turn) :
    (sent turns).length = (turns.filterMap Turn.outcome).length := by
  rw [sent, List.length_map, ← List.countP_eq_length_filter, List.length_filterMap_eq_countP]

/-- The commands sent are those of the calls that were made. -/
theorem Account.sent_eq {lines : List Text} {turns : List Turn} {output : Text}
    {ending : Except ConsoleFault Unit} (h : Account lines turns output ending) :
    sent turns = ((exchanges lines).take (turns.filterMap Turn.outcome).length).map Prod.snd := by
  have hall : (exchanges lines).map Prod.snd = asked lines := by
    rw [exchanges, List.map_map]
    exact List.map_id (asked lines)
  rw [List.map_take, hall, ← length_sent]
  exact List.prefix_iff_eq_take.mp h.sends

/-- **A session sends what is asked for, and prints the replies.** Whatever the input, and whatever
the peer does:

* there is a turn for each line that is read, in the order of the lines, and together they account
  for the commands that are sent, for all that is printed, and for how the session ends;
* the replies are the lines of what the peer sends, one for each query in their order, and an
  exchange fails for want of a line, or because its command cannot be sent;
* the commands are lines, and the peer receives them in their order. These are all that were sent,
  or, if the connection has ended, those that were sent while it was open; none of these fails in
  sending. -/
theorem run_sends_what_is_asked (peer : Peer σ) (c : Connection σ) (input : Text) :
    let lines := linesOf input
    let result := session peer.recorded c.recorded (Utf8.encode input)
    let last := result.2.connection
    session peer c (Utf8.encode input) = (result.1, result.2.plain) ∧
      ∃ turns, Account lines turns result.2.output result.1 ∧
        turns.filterMap Turn.outcome =
          Client.answers last.ending
            (Line.delivered (c.unread ++ last.state.sent) (last.ending == some .closed))
            last.state.deliveries (exchanges lines) ∧
        last.state.deliveries.length = (sent turns).length ∧
        (∀ command ∈ sent turns, command.IsLine) ∧
        ∃ heard : List Text, last.state.received = heard.flatMap Client.commandBytes ∧
          heard <+: sent turns ∧ (last.ending = none → heard = sent turns) ∧
          List.replicate heard.length .taken <+: last.state.deliveries := by
  intro lines result last
  have hlines := inputLines_encode input
  obtain ⟨turns, output, hprinted, haccount, hcalls⟩ :=
    exists_account peer.recorded lines c.recorded []
  have hplain := Desk.run_plain peer lines c.recorded []
  rw [← hlines] at haccount hcalls hplain hprinted
  obtain ⟨more, fates, hprogress, hlength, htaken, hanswers⟩ :=
    Client.calls_recorded peer (exchanges lines) c.recorded
  obtain ⟨hfront, hopen⟩ := Client.heard_made peer.recorded c.recorded (exchanges lines)
  rw [hcalls] at hprogress hlength hanswers hfront hopen
  rw [← haccount.sent_eq] at hfront hopen
  have hprinted : result.2.output = output := hprinted
  have hsent : last.state.sent = more := hprogress.sent
  have hdeliveries : last.state.deliveries = fates := hprogress.deliveries
  rw [hprinted, hsent, hdeliveries]
  refine ⟨hplain, turns, haccount, hanswers, hlength.trans (length_sent turns).symm, ?_, _,
    hprogress.received, hfront, hopen, htaken⟩
  intro command hcommand
  exact isLine_of_mem_asked (fun _ => isLine_of_mem_linesOf) (haccount.sends.subset hcommand)

end Console

end WaveGen
