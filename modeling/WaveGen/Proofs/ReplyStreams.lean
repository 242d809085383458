import WaveGen.Client.Scripted
import WaveGen.Proofs.Exchanges

/-!
# Replies are the lines of a stream (specification §10.8)

A peer answers what it receives with bytes, and nothing ties these to the queries: it may send no
reply, part of a line, or several lines at once. All that it sends is one stream. The calls of a
client that read take the lines of this stream in their order, one each, and whether and when they
read does not change how the stream is cut: what a call leaves unread is there for the next one. In
the other direction the peer receives the commands of the calls, one line each, for as long as the
connection is open. From then on what is written may be lost without a sign, or fail.

* `Line.delivered` — the lines of a stream, as they are read.
* `Peer.recorded` — a peer that keeps a record of all that it receives and sends, and of what becomes
  of each write. `Progress` is what goes on record between two points of a run.
* `Client.answers` — what calls give, by the lines of the stream and by what becomes of the commands.
* `Client.calls_take_lines` — any calls, over any connection.
-/

namespace WaveGen

/-! ## The lines of a stream -/

namespace Line

/-- The lines of a stream, each with its line feed. Once the stream has ended, what stands behind
the last line feed is a line too, if there is anything. -/
def delivered (stream : Bytes) (ended : Bool) : List Bytes :=
  (complete stream).map (· ++ [feed]) ++
    if ended && !(remainder stream).isEmpty then [remainder stream] else []

/-- The lines and what is left are the stream: nothing is lost, and nothing is there twice. -/
theorem flatten_complete_remainder (stream : Bytes) :
    ((complete stream).map (· ++ [feed])).flatten ++ remainder stream = stream := by
  induction stream with
  | nil => rfl
  | cons b rest ih =>
    by_cases hb : b = feed
    · obtain ⟨hlines, hrest⟩ := complete_remainder_feed rest
      rw [hb, hlines, hrest, List.map_cons, List.flatten_cons, List.append_assoc, ih]
      rfl
    · obtain ⟨hlines, hrest⟩ := complete_remainder_byte hb rest
      rw [hlines, hrest]
      cases hcomplete : complete rest with
      | nil =>
        rw [hcomplete] at ih
        exact congrArg (b :: ·) ih
      | cons line more =>
        rw [hcomplete] at ih
        exact congrArg (b :: ·) ih

theorem flatten_delivered (stream : Bytes) : (delivered stream true).flatten = stream := by
  rw [delivered, List.flatten_append]
  conv_rhs => rw [← flatten_complete_remainder stream]
  cases remainder stream <;> simp

theorem complete_remainder_of_not_mem {stream : Bytes} (h : feed ∉ stream) :
    complete stream = [] ∧ remainder stream = stream :=
  complete_remainder_of_splitOn (List.splitOn_eq_singleton h)

theorem delivered_line {line : Bytes} (h : feed ∉ line) (rest : Bytes) (ended : Bool) :
    delivered (line ++ feed :: rest) ended = (line ++ [feed]) :: delivered rest ended := by
  obtain ⟨hcomplete, hremainder⟩ := complete_remainder_line h rest
  rw [delivered, delivered, hcomplete, hremainder]
  rfl

end Line

/-! ## Peers that keep a record -/

/-- The state of a peer, with all that it has received and sent. -/
structure Recorded (σ : Type) where
  state : σ
  /-- The bytes received. -/
  received : Bytes
  /-- The bytes sent. -/
  sent : Bytes
  /-- What became of each write, those included that did not reach the peer. -/
  deliveries : List Delivery

/-- The peer, keeping a record. -/
def Peer.recorded {σ : Type} (peer : Peer σ) : Peer (Recorded σ) where
  receive r bytes :=
    let response := peer.receive r.state bytes
    ⟨⟨response.state, r.received ++ bytes, r.sent ++ response.sent, r.deliveries ++ [.taken]⟩,
      response.sent, response.ending⟩
  lose r bytes :=
    let (state, delivery) := peer.lose r.state bytes
    (⟨state, r.received, r.sent, r.deliveries ++ [delivery]⟩, delivery)

/-- The connection, where a record begins. -/
def Connection.recorded {σ : Type} (c : Connection σ) : Connection (Recorded σ) :=
  ⟨⟨c.state, [], [], []⟩, c.unread, c.ending⟩

/-- What is on record between two points of a run: the bytes that the peer receives and those that
it sends, and what becomes of the writes. -/
structure Progress {σ : Type} (c next : Connection (Recorded σ)) (bytes more : Bytes)
    (fates : List Delivery) : Prop where
  received : next.state.received = c.state.received ++ bytes
  sent : next.state.sent = c.state.sent ++ more
  deliveries : next.state.deliveries = c.state.deliveries ++ fates
  /-- A connection ends once, and the peer sends nothing from then on. -/
  ended : c.ending ≠ none → more = [] ∧ next.ending = c.ending

namespace Progress

variable {σ : Type} {c next last : Connection (Recorded σ)} {bytes bytes' more more' : Bytes}
  {fates fates' : List Delivery}

theorem refl (c : Connection (Recorded σ)) : Progress c c [] [] [] where
  received := (List.append_nil _).symm
  sent := (List.append_nil _).symm
  deliveries := (List.append_nil _).symm
  ended := fun _ => ⟨rfl, rfl⟩

theorem trans (h : Progress c next bytes more fates) (h' : Progress next last bytes' more' fates') :
    Progress c last (bytes ++ bytes') (more ++ more') (fates ++ fates') where
  received := by rw [h'.received, h.received, List.append_assoc]
  sent := by rw [h'.sent, h.sent, List.append_assoc]
  deliveries := by rw [h'.deliveries, h.deliveries, List.append_assoc]
  ended := by
    intro hended
    obtain ⟨rfl, hnext⟩ := h.ended hended
    obtain ⟨rfl, hlast⟩ := h'.ended (hnext ▸ hended)
    exact ⟨rfl, hlast.trans hnext⟩

/-- Reading changes nothing on record. -/
theorem readLine (h : Progress c next bytes more fates) :
    Progress c next.readLine.1 bytes more fates := by
  rw [Connection.readLine]
  cases Client.nextLine? next.unread (next.ending == some .closed) with
  | none => exact h
  | some found => exact ⟨h.received, h.sent, h.deliveries, h.ended⟩

end Progress

namespace Client

variable {σ : Type} {peer : Peer σ} {kind : Call} {command : Text}

/-! ## What calls give -/

/-- Why a call that reads fails when no line is left of the stream. -/
def lack (command : Text) : Option Ending → ClientFault
  | none => .timeout command
  | some .closed => .closed
  | some .broken => .unreadable

/-- What one call gives, and the lines that it leaves, by what becomes of its command and by the
lines that are left of the stream. A call whose command cannot be sent fails and takes no line. One
that reads takes the next line; it fails if there is none, or if the line is not UTF-8. -/
def answer (ending : Option Ending) (lines : List Bytes) (delivery : Delivery) (kind : Call)
    (command : Text) : List Bytes × Except ClientFault (Option Text) :=
  match delivery.fault? command with
  | some fault => (lines, .error fault)
  | none =>
    if reads kind command then
      match lines with
      | [] => ([], .error (lack command ending))
      | line :: more =>
        (more, match Utf8.decode? line with
          | some text => .ok (some (shown kind text))
          | none => .error .unreadable)
    else (lines, .ok none)

/-- What calls give, one after the other, up to the first that fails. -/
def answers (ending : Option Ending) (lines : List Bytes) :
    List Delivery → List (Call × Text) → List (Except ClientFault (Option Text))
  | delivery :: later, (kind, command) :: rest =>
    match answer ending lines delivery kind command with
    | (_, .error fault) => [.error fault]
    | (more, .ok reply) => .ok reply :: answers ending more later rest
  | _, _ => []

/-- The commands of the calls that are made while the connection is open. -/
def heard (peer : Peer σ) (c : Connection σ) : List (Call × Text) → List Text
  | [] => []
  | (kind, command) :: rest =>
    if c.ending.isSome then []
    else
      match call peer c kind command with
      | (_, .error _) => [command]
      | (next, .ok _) => command :: heard peer next rest

/-! ## Reading -/

/-- Without a line feed there is a line to be read only when no more bytes can come. -/
theorem nextLine?_of_not_mem {unread : Bytes} (h : Line.feed ∉ unread) (closed : Bool) :
    nextLine? unread closed = if closed && !unread.isEmpty then some (unread, []) else none := by
  have hpass : unread.dropWhile (· != Line.feed) = [] :=
    List.dropWhile_eq_nil_iff.mpr fun b hb => bne_iff_ne.mpr fun heq => h (heq ▸ hb)
  rw [nextLine?, hpass]

/-- What is read as a line is the first line of the stream, also when more bytes follow. -/
theorem delivered_of_nextLine? {unread line rest : Bytes} {closed : Bool}
    (h : nextLine? unread closed = some (line, rest)) {more : Bytes} {ended : Bool}
    (hclosed : closed = true → more = [] ∧ ended = true) :
    Line.delivered (unread ++ more) ended = line :: Line.delivered (rest ++ more) ended := by
  by_cases hfeed : Line.feed ∈ unread
  · obtain ⟨front, behind, rfl, hfront⟩ := List.eq_append_cons_of_mem hfeed
    rw [nextLine?_line hfront] at h
    cases h
    rw [List.append_assoc, List.cons_append, Line.delivered_line hfront]
  · rw [nextLine?_of_not_mem hfeed] at h
    obtain ⟨hlast, hline⟩ := Option.ite_none_right_eq_some.mp h
    rw [Bool.and_eq_true] at hlast
    obtain ⟨rfl, rfl⟩ := hclosed hlast.1
    cases hline
    obtain ⟨hcomplete, hremainder⟩ := Line.complete_remainder_of_not_mem hfeed
    rw [List.append_nil, List.append_nil, Line.delivered, hcomplete, hremainder, Bool.true_and,
      if_pos hlast.2]
    rfl

/-- Where there is no line to be read, the stream has none left. -/
theorem delivered_of_nextLine?_eq_none {unread : Bytes} {closed : Bool}
    (h : nextLine? unread closed = none) : Line.delivered unread closed = [] := by
  by_cases hfeed : Line.feed ∈ unread
  · obtain ⟨front, behind, rfl, hfront⟩ := List.eq_append_cons_of_mem hfeed
    rw [nextLine?_line hfront] at h
    cases h
  · rw [nextLine?_of_not_mem hfeed] at h
    obtain ⟨hcomplete, hremainder⟩ := Line.complete_remainder_of_not_mem hfeed
    rw [Line.delivered, hcomplete, hremainder]
    split at h
    · cases h
    · rename_i hnone
      rw [if_neg hnone]
      rfl

/-- Waiting for a line without a line fails for lack of one. -/
theorem reply_without (command : Text) (ending : Option Ending) :
    (Arrival.without ending).reply command = .error (lack command ending) := by
  rcases ending with _ | _ | _ <;> rfl

/-- **Reading** takes the first line of the stream, whatever the peer sends later, and fails where
there is none. -/
theorem answer_readLine {ending : Option Ending} {delivery : Delivery} {further : Bytes}
    (c : Connection (Recorded σ)) (hsent : delivery.fault? command = none)
    (hreads : reads kind command = true)
    (hended : c.ending ≠ none → further = [] ∧ ending = c.ending)
    (hlast : ∀ fault, c.readLine.2.reply command = .error fault → further = [] ∧ ending = c.ending) :
    answer ending (Line.delivered (c.unread ++ further) (ending == some .closed)) delivery kind
        command =
      (Line.delivered (c.readLine.1.unread ++ further) (ending == some .closed),
        (c.readLine.2.reply command).map fun line => some (shown kind line)) := by
  rw [answer.eq_def, hsent]
  dsimp only
  rw [if_pos hreads]
  rw [Connection.readLine] at hlast ⊢
  cases hnext : nextLine? c.unread (c.ending == some .closed) with
  | none =>
    rw [hnext] at hlast
    dsimp only at hlast ⊢
    -- the call fails for want of a line, so the stream ends here
    obtain ⟨rfl, rfl⟩ := hlast _ (reply_without command c.ending)
    rw [List.append_nil, delivered_of_nextLine?_eq_none hnext, reply_without]
    rfl
  | some found =>
    obtain ⟨line, rest⟩ := found
    dsimp only
    have hclosed : (c.ending == some .closed) = true →
        further = [] ∧ (ending == some .closed) = true := by
      intro hclosed
      have hclosed : c.ending = some .closed := beq_iff_eq.mp hclosed
      obtain ⟨rfl, rfl⟩ := hended (hclosed ▸ Option.some_ne_none _)
      exact ⟨rfl, beq_iff_eq.mpr hclosed⟩
    rw [delivered_of_nextLine? hnext hclosed, Arrival.reply]
    dsimp only
    cases Utf8.decode? line <;> rfl

/-! ## One call -/

/-- What is written goes on record, and reaches the peer unless the connection has ended. -/
theorem write_recorded (peer : Peer σ) (c : Connection (Recorded σ)) (bytes : Bytes) :
    ∃ next sent delivery, peer.recorded.write c bytes = (next, delivery) ∧
      Progress c next (if c.ending.isSome then [] else bytes) sent [delivery] ∧
      next.unread = c.unread ++ sent ∧ (c.ending = none → delivery = .taken) := by
  rw [Peer.write]
  cases hended : c.ending with
  | none =>
    refine ⟨_, (peer.receive c.state.state bytes).sent, .taken, rfl, ?_, rfl, fun _ => rfl⟩
    exact ⟨rfl, rfl, rfl, fun h => absurd hended h⟩
  | some ending =>
    refine ⟨_, [], _, rfl, ⟨?_, ?_, rfl, fun _ => ⟨rfl, hended.symm⟩⟩, ?_, fun h => nomatch h⟩
    · exact (List.append_nil _).symm
    · exact (List.append_nil _).symm
    · exact (List.append_nil _).symm

theorem ending_readLine (c : Connection σ) : c.readLine.1.ending = c.ending := by
  rw [Connection.readLine]
  cases nextLine? c.unread (c.ending == some .closed) with
  | none => rfl
  | some found => rfl

/-- **One call**: what is written goes on record, and what the call gives is what the lines of the
stream give it, whatever the peer sends later. -/
theorem call_recorded (peer : Peer σ) (c : Connection (Recorded σ)) (kind : Call)
    (command : Text) :
    let result := call peer.recorded c kind command
    ∃ more delivery,
      Progress c result.1 (if c.ending.isSome then [] else commandBytes command) more [delivery] ∧
      (c.ending = none → delivery = .taken) ∧
      ∀ further ending, (result.1.ending ≠ none → further = [] ∧ ending = result.1.ending) →
        (∀ fault, result.2 = .error fault → further = [] ∧ ending = result.1.ending) →
        answer ending (Line.delivered (c.unread ++ (more ++ further)) (ending == some .closed))
            delivery kind command =
          (Line.delivered (result.1.unread ++ further) (ending == some .closed), result.2) := by
  intro result
  obtain ⟨next, more, delivery, hwrite, hprogress, hunread, htaken⟩ :=
    write_recorded peer c (commandBytes command)
  have hresult : result = _ := call_eq hwrite kind
  cases hfault : delivery.fault? command with
  | some fault =>
    -- the command was not sent, so nothing is read
    rw [hfault] at hresult
    rw [hresult]
    refine ⟨more, delivery, hprogress, htaken, fun further ending _ _ => ?_⟩
    rw [answer.eq_def, hfault, ← List.append_assoc, ← hunread]
  | none =>
    rw [hfault] at hresult
    dsimp only at hresult
    cases hreads : reads kind command with
    | false =>
      rw [hreads] at hresult
      rw [hresult]
      refine ⟨more, delivery, hprogress, htaken, fun further ending _ _ => ?_⟩
      rw [answer.eq_def, hfault, hreads, ← List.append_assoc, ← hunread]
      rfl
    | true =>
      rw [if_pos hreads] at hresult
      rw [hresult, ending_readLine]
      refine ⟨more, delivery, hprogress.readLine, htaken, fun further ending hended hlast => ?_⟩
      rw [← List.append_assoc, ← hunread]
      refine answer_readLine next hfault hreads hended fun fault hreply => hlast fault ?_
      rw [hreply]
      rfl

/-! ## Runs of calls -/

/-- Nothing is heard on a connection that has ended. -/
theorem heard_of_ended {c : Connection σ} (h : c.ending ≠ none) (peer : Peer σ)
    (script : List (Call × Text)) : heard peer c script = [] := by
  cases script with
  | nil => rfl
  | cons step rest => exact if_pos (Option.isSome_iff_ne_none.mpr h)

/-- **The invariant of a run**, from any connection on: what calls give follows from the lines of
the bytes that were unread and of those that the peer sends meanwhile, and what it receives are the
commands of the calls that are made while the connection is open, none of which fails in sending. -/
theorem calls_recorded (peer : Peer σ) (script : List (Call × Text))
    (c : Connection (Recorded σ)) :
    let run := calls peer.recorded c script
    let commands := heard peer.recorded c script
    ∃ more fates, Progress c run.1 (commands.flatMap commandBytes) more fates ∧
      fates.length = run.2.length ∧ List.replicate commands.length .taken <+: fates ∧
      run.2 = answers run.1.ending
        (Line.delivered (c.unread ++ more) (run.1.ending == some .closed)) fates script := by
  induction script generalizing c with
  | nil => exact ⟨[], [], Progress.refl c, rfl, List.nil_prefix, rfl⟩
  | cons step rest ih =>
    obtain ⟨kind, command⟩ := step
    obtain ⟨more, delivery, hprogress, htaken, hanswer⟩ := call_recorded peer c kind command
    rcases hcall : call peer.recorded c kind command with ⟨next, fault | reply⟩
    · -- the run is over with this call, and no more bytes are sent behind it
      rw [hcall] at hprogress hanswer
      have hlast := hanswer [] next.ending (fun _ => ⟨rfl, rfl⟩) fun _ _ => ⟨rfl, rfl⟩
      rw [List.append_nil] at hlast
      rw [calls, hcall, heard, hcall]
      refine ⟨more, [delivery], ?_, rfl, ?_, ?_⟩
      · cases hended : c.ending <;> simpa [hended] using hprogress
      · cases hended : c.ending <;> simp [hended, htaken]
      · rw [answers, hlast]
    · -- what this call leaves of the stream is what the other calls begin with
      rw [hcall] at hprogress hanswer
      obtain ⟨further, fates, hprogress', hlength, hfates, hrest⟩ := ih next
      have hstep := hanswer further _ hprogress'.ended fun _ hfault => nomatch hfault
      rw [calls, hcall, heard, hcall]
      refine ⟨more ++ further, delivery :: fates, ?_, congrArg Nat.succ hlength, ?_, ?_⟩
      · have htrans := hprogress.trans hprogress'
        cases hended : c.ending with
        | none => simpa [hended] using htrans
        | some ending =>
          -- once the connection has ended it stays so, and nothing is heard any more
          have hnext : next.ending ≠ none := by
            rw [(hprogress.ended (hended ▸ Option.some_ne_none _)).2, hended]
            exact Option.some_ne_none _
          rw [heard_of_ended hnext] at htrans
          simpa [hended] using htrans
      · cases hended : c.ending with
        | none => simpa [hended, htaken hended, List.replicate_succ] using hfates
        | some ending => simp
      · rw [answers, hstep]
        dsimp only
        rw [hrest]

/-! ## What is heard -/

/-- Whatever the calls do, a connection that has ended stays as it is. -/
theorem ended_write {c : Connection σ} (h : c.ending ≠ none) (peer : Peer σ) (bytes : Bytes) :
    (peer.write c bytes).1.ending = c.ending := by
  rw [Peer.write]
  cases hended : c.ending with
  | none => exact absurd hended h
  | some ending => rfl

theorem ended_call {c : Connection σ} (h : c.ending ≠ none) (peer : Peer σ) (kind : Call)
    (command : Text) : (call peer c kind command).1.ending = c.ending := by
  have hwrite := ended_write h peer (commandBytes command)
  rw [call_eq rfl kind]
  split
  · exact hwrite
  · split
    · exact (ending_readLine _).trans hwrite
    · exact hwrite

theorem ended_calls {c : Connection σ} (h : c.ending ≠ none) (peer : Peer σ)
    (script : List (Call × Text)) : (calls peer c script).1.ending = c.ending := by
  induction script generalizing c with
  | nil => rfl
  | cons step rest ih =>
    have hnext := ended_call h peer step.1 step.2
    rw [calls]
    rcases hcall : call peer c step.1 step.2 with ⟨next, fault | reply⟩
    · rw [hcall] at hnext
      exact hnext
    · rw [hcall] at hnext
      exact (ih (hnext ▸ h)).trans hnext

/-- The commands that are heard are the first of those that are sent, and all of them if the
connection is open at the end. -/
theorem heard_made (peer : Peer σ) (c : Connection σ) (script : List (Call × Text)) :
    let made := (script.take (calls peer c script).2.length).map Prod.snd
    heard peer c script <+: made ∧
      ((calls peer c script).1.ending = none → heard peer c script = made) := by
  induction script generalizing c with
  | nil => exact ⟨List.prefix_refl _, fun _ => rfl⟩
  | cons step rest ih =>
    obtain ⟨kind, command⟩ := step
    by_cases hended : c.ending = none
    · rw [heard, if_neg (by simp [hended]), calls]
      rcases call peer c kind command with ⟨next, fault | reply⟩
      · exact ⟨List.prefix_refl _, fun _ => rfl⟩
      · obtain ⟨hfront, hopen⟩ := ih next
        exact ⟨(List.prefix_cons_inj command).mpr hfront, fun h => congrArg _ (hopen h)⟩
    · rw [heard_of_ended hended]
      refine ⟨List.nil_prefix, fun hopen => ?_⟩
      exact absurd ((ended_calls hended peer _).symm.trans hopen) hended

/-! ## Peers without a record -/

/-- The connection to the peer that keeps no record. -/
def plain (c : Connection (Recorded σ)) : Connection σ := ⟨c.state.state, c.unread, c.ending⟩

theorem write_plain (peer : Peer σ) (c : Connection (Recorded σ)) (bytes : Bytes) :
    peer.write (plain c) bytes =
      (plain (peer.recorded.write c bytes).1, (peer.recorded.write c bytes).2) := by
  obtain ⟨state, unread, _ | ending⟩ := c <;> rfl

theorem readLine_plain (c : Connection (Recorded σ)) :
    (plain c).readLine = (plain c.readLine.1, c.readLine.2) := by
  have hnext : nextLine? (plain c).unread ((plain c).ending == some .closed) =
      nextLine? c.unread (c.ending == some .closed) := rfl
  rw [Connection.readLine, Connection.readLine, hnext]
  cases nextLine? c.unread (c.ending == some .closed) with
  | none => rfl
  | some found => rfl

/-- Keeping a record changes nothing that a client can see of a call. -/
theorem call_plain (peer : Peer σ) (c : Connection (Recorded σ)) (kind : Call) (command : Text) :
    call peer (plain c) kind command =
      (plain (call peer.recorded c kind command).1, (call peer.recorded c kind command).2) := by
  rcases hwrite : peer.recorded.write c (commandBytes command) with ⟨next, delivery⟩
  have hplain : peer.write (plain c) (commandBytes command) = (plain next, delivery) := by
    rw [write_plain, hwrite]
  rw [call_eq hplain kind, call_eq hwrite kind, readLine_plain]
  split
  · rfl
  · split <;> rfl

theorem calls_plain (peer : Peer σ) (c : Connection (Recorded σ)) (script : List (Call × Text)) :
    calls peer (plain c) script =
      (plain (calls peer.recorded c script).1, (calls peer.recorded c script).2) := by
  induction script generalizing c with
  | nil => rfl
  | cons step rest ih =>
    obtain ⟨kind, command⟩ := step
    rw [calls, calls, call_plain]
    rcases call peer.recorded c kind command with ⟨next, fault | reply⟩
    · rfl
    · dsimp only
      rw [ih next]

/-- **Replies are the lines of the stream.** Over any connection, whatever the peer does with the
bytes that it receives and whatever calls a client makes, up to the first that fails:

* a call whose command can be sent, and that reads, takes the next line of the stream, which is what
  was unread and all that the peer sends, and gives it as it is, or without the blanks at its end if
  it is a `query`. The others take none. The first such call for which there is no line left fails:
  the peer has closed the connection, reading broke off, or no line came in time;
* together, the lines of a stream that has ended are the stream;
* the peer receives the commands of the calls in their order, one line each. These are all that were
  sent, or, if the connection has ended, those that were sent while it was open: none of their lines
  fails to be written, so a call that fails in sending is one behind these. -/
theorem calls_take_lines (peer : Peer σ) (c : Connection σ) (script : List (Call × Text)) :
    let run := calls peer.recorded c.recorded script
    let record := run.1.state
    let stream := c.unread ++ record.sent
    let commands := heard peer.recorded c.recorded script
    let made := (script.take run.2.length).map Prod.snd
    calls peer c script = (plain run.1, run.2) ∧
      run.2 = answers run.1.ending (Line.delivered stream (run.1.ending == some .closed))
        record.deliveries script ∧
      (Line.delivered stream true).flatten = stream ∧
      record.received = commands.flatMap commandBytes ∧
      commands <+: made ∧ (run.1.ending = none → commands = made) ∧
      record.deliveries.length = run.2.length ∧
      List.replicate commands.length .taken <+: record.deliveries := by
  intro run record stream commands made
  obtain ⟨more, fates, hprogress, hlength, hfates, hanswers⟩ :=
    calls_recorded peer script c.recorded
  obtain ⟨hfront, hopen⟩ := heard_made peer.recorded c.recorded script
  have hsent : record.sent = more := hprogress.sent
  have hdeliveries : record.deliveries = fates := hprogress.deliveries
  refine ⟨calls_plain peer c.recorded script, ?_, Line.flatten_delivered _, hprogress.received,
    hfront, hopen, ?_, ?_⟩
  · show run.2 = answers run.1.ending (Line.delivered (c.unread ++ record.sent) _) _ script
    rw [hsent, hdeliveries]
    exact hanswers
  · rw [hdeliveries]
    exact hlength
  · rw [hdeliveries]
    exact hfates

/-- One reply is two lines, and then the rest of the second one comes with a third. -/
example :
    let lines := ["A\nB", "", "\n C \n"].map fun text => some (Utf8.encode text.toList)
    (calls ScriptedPeer.peer (newConnection (.new lines false))
        [(.query, "P?".toList), (.send, "Q".toList), (.send, "R?".toList), (.query, "S?".toList),
          (.queryRaw, "T?".toList)]).2 =
      [.ok (some "A".toList), .ok none, .ok (some "B\n".toList), .ok (some " C".toList),
        .error .closed] := by
  decide +kernel

end Client

end WaveGen
