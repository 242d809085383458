import Mathlib.Logic.Function.Basic
import Mathlib.Logic.Relation
import WaveGen.Proofs.Exchanges

/-!
# What is written in a session (specification §6)

Framed commands are lines, so a server that is driven through its sessions alone stores no line
feed, and every reply is one line. So the line feeds written in a session are as many as its
commands that got a reply, and cut at them the output gives those replies back. This is so however
many sessions are under way at once, in whatever order their commands are processed, and wherever a
write is cut short.

* `Server.CarriesReplies` — bytes that are replies, one line for each that is not empty.
* `Service.Step` — what can happen next on a server with any number of sessions.
* `Service.Follows` — the invariant: what a session has received is answered or waiting, and what
  was answered is written or on its way.
* `Service.writes_one_line_per_reply` — the result, for sessions one after the other and for any
  number of them at once.
-/

namespace WaveGen

/-! ## Framed commands are lines -/

namespace Line

theorem feed_not_mem_of_mem_all {stream line : Bytes} (h : line ∈ all stream) : feed ∉ line := by
  rw [all] at h
  split at h
  · exact feed_not_mem_of_mem_complete h
  · rcases List.mem_append.mp h with hcomplete | hlast
    · exact feed_not_mem_of_mem_complete hcomplete
    · rw [List.mem_singleton.mp hlast]
      exact feed_not_mem_remainder stream

end Line

/-- What was read is what is written again. -/
theorem Utf8.encode_of_decode? {bytes : Bytes} {t : Text} (h : decode? bytes = some t) :
    encode t = bytes := by
  obtain ⟨chars, hchars, rfl⟩ := Option.map_eq_some_iff.mp h
  have hsome : bytes.toByteArray.utf8Decode?.isSome = true := by rw [hchars]; rfl
  have hread : bytes.toByteArray.utf8Decode?.get hsome = chars := Option.get_of_eq_some hsome hchars
  have hwritten := ByteArray.utf8Encode_get_utf8Decode? (h := hsome)
  rw [hread] at hwritten
  have hdata := congrArg (fun array => array.data.toList) hwritten
  simpa [List.utf8Encode, encode] using hdata

theorem Utf8.isLine_of_decode? {bytes : Bytes} {t : Text} (hfeed : Line.feed ∉ bytes)
    (h : decode? bytes = some t) : t.IsLine := by
  rw [← encode_of_decode? h] at hfeed
  exact feed_not_mem_encode_iff.mp hfeed

/-- The raw lines of a session are texts without a line feed. -/
theorem Line.isLine_of_mem_texts {limit : Nat} {stream : Bytes} {text : Text}
    (h : text ∈ texts limit stream) : text.IsLine := by
  obtain ⟨line, hline, hdecode⟩ := List.mem_filterMap.mp h
  exact Utf8.isLine_of_decode? (feed_not_mem_of_mem_all (List.mem_of_mem_filter hline)) hdecode

theorem Framer.isLine_of_spelled? {limit : Nat} {line : Bytes} {command : Text}
    (hfeed : Line.feed ∉ line) (h : spelled? limit line = some command) : command.IsLine := by
  rw [spelled?] at h
  split at h
  · cases h
  · cases hdecode : Utf8.decode? line with
    | none =>
      rw [hdecode] at h
      cases h
    | some text =>
      rw [hdecode] at h
      dsimp only at h
      split at h
      · cases h
      · cases h
        exact Text.isLine_upper_iff.mpr (Utf8.isLine_of_decode? hfeed hdecode).trim

/-! ## Replies as lines -/

namespace Server

/-- These bytes are the replies, one line for each that is not empty: there are as many line feeds
as such replies, the bytes between them are those replies in their order, and nothing is left behind
the last line feed. -/
def CarriesReplies (written : Bytes) (replies : List Text) : Prop :=
  written.count Line.feed = replies.countP (· ≠ []) ∧
    Line.cut written = ((replies.filter (· ≠ [])).map Utf8.encode, [])

instance (written : Bytes) (replies : List Text) : Decidable (CarriesReplies written replies) :=
  inferInstanceAs (Decidable (_ ∧ _))

/-- Replies of one line are sent as the lines that they are. -/
theorem flatMap_sent {replies : List Text} (h : ∀ reply ∈ replies, reply.IsLine) :
    replies.flatMap sent = (replies.filter (· ≠ [])).flatMap Client.commandBytes := by
  induction replies with
  | nil => rfl
  | cons reply rest ih =>
    obtain ⟨hreply, hrest⟩ := List.forall_mem_cons.mp h
    rw [List.flatMap_cons, sent_of_isLine hreply, ih hrest]
    by_cases hempty : reply = []
    · rw [if_pos hempty, List.nil_append, List.filter_cons_of_neg (by simpa using hempty)]
    · rw [if_neg hempty, List.filter_cons_of_pos (by simpa using hempty), List.flatMap_cons]

theorem carriesReplies_sent {replies : List Text} (h : ∀ reply ∈ replies, reply.IsLine) :
    CarriesReplies (replies.flatMap sent) replies := by
  obtain ⟨hcomplete, hremainder⟩ := Client.complete_remainder_written
    fun reply hreply => h reply (List.mem_of_mem_filter hreply)
  rw [CarriesReplies, flatMap_sent h, Line.cut_eq, ← Line.length_complete, hcomplete, hremainder,
    List.length_map, ← List.countP_eq_length_filter]
  exact ⟨rfl, rfl⟩

end Server

namespace Instrument

theorem HoldsLines.isLine_replies {i : Instrument} (h : i.HoldsLines) {commands : List Text}
    (hcommands : ∀ command ∈ commands, command.IsLine) :
    ∀ reply ∈ i.replies commands, reply.IsLine := by
  induction commands generalizing i with
  | nil => exact fun reply hreply => absurd hreply List.not_mem_nil
  | cons command rest ih =>
    obtain ⟨hcommand, hrest⟩ := List.forall_mem_cons.mp hcommands
    rw [replies_cons]
    exact List.forall_mem_cons.mpr ⟨h.isLine_reply command, ih (h.process hcommand) hrest⟩

end Instrument

namespace Server

/-- Sessions store nothing but lines. -/
theorem holdsLines_exchanges {s : Server} (h : s.instrument.HoldsLines)
    (sessions : List (List Bytes)) : (s.exchanges .up sessions).1.instrument.HoldsLines := by
  induction sessions generalizing s with
  | nil => exact h
  | cons chunks rest ih =>
    rw [exchanges, exchange, session_eq]
    exact ih (h.after fun text htext => Line.isLine_of_mem_texts htext)

theorem lineLimit_exchanges (s : Server) (sessions : List (List Bytes)) :
    (s.exchanges .up sessions).1.lineLimit = s.lineLimit := by
  rw [exchanges_eq_plainRun]

/-- What is written in a session carries the replies to its lines. -/
theorem carriesReplies_session {s : Server} (h : s.instrument.HoldsLines) (chunks : List Bytes) :
    CarriesReplies (s.session chunks).2
      (s.instrument.replies (Line.texts s.lineLimit chunks.flatten)) := by
  rw [session_eq]
  exact carriesReplies_sent (h.isLine_replies fun text htext => Line.isLine_of_mem_texts htext)

end Server

/-! ## Sessions at once -/

/-- A command that was processed for one of the sessions, and its reply. -/
structure Processed where
  /-- The session. -/
  session : Nat
  /-- The command. -/
  command : Text
  /-- The reply of the instrument. -/
  reply : Text
deriving DecidableEq, Repr

/-- A session among others with the same instrument. -/
structure Visit where
  /-- What was received of the client's lines. -/
  framer : Framer
  /-- The commands that were received and not processed yet. -/
  waiting : List Text
  /-- The bytes of the last reply that are not written yet. -/
  unsent : Bytes
  /-- Whether the client sends no more. -/
  closed : Bool
  /-- All that the client has sent so far. -/
  received : Bytes
  /-- All that was written so far. -/
  written : Bytes
deriving DecidableEq, Repr

namespace Visit

/-- A session in which nothing was sent yet. -/
def start (limit : Nat) : Visit := ⟨.new limit, [], [], false, [], []⟩

/-- A session reads only when there is nothing more to do about what it has read. -/
def Reads (v : Visit) : Prop := v.waiting = [] ∧ v.unsent = [] ∧ v.closed = false

/-- The session receives a chunk. -/
def receive (v : Visit) (chunk : Bytes) : Visit :=
  { v with
    framer := (v.framer.push chunk).1
    waiting := (v.framer.push chunk).2
    received := v.received ++ chunk }

/-- The client sends no more, which ends a last line without a line feed. -/
def close (v : Visit) : Visit :=
  { v with
    framer := v.framer.finish.1
    waiting := v.framer.finish.2.toList
    closed := true }

/-- The session has a reply to its next command; `rest` are the commands behind it. -/
def process (v : Visit) (rest : List Text) (reply : Text) : Visit :=
  { v with waiting := rest, unsent := Session.replyBytes reply }

/-- The session writes the first part of what it has to write; `rest` are the bytes behind it. -/
def write (v : Visit) (part rest : Bytes) : Visit :=
  { v with written := v.written ++ part, unsent := rest }

/-- The lines that a session has received. -/
def lines (v : Visit) : List Bytes :=
  if v.closed then Line.all v.received else Line.complete v.received

theorem feed_not_mem_of_mem_lines {v : Visit} {line : Bytes} (h : line ∈ v.lines) :
    Line.feed ∉ line := by
  rw [lines] at h
  split at h
  · exact Line.feed_not_mem_of_mem_all h
  · exact Line.feed_not_mem_of_mem_complete h

/-! ## The invariant of a session -/

/-- A session for which this was processed. Its lines come to the commands that were processed or
wait, and the replies are written or on their way. -/
structure Follows (limit : Nat) (done : List Processed) (v : Visit) : Prop where
  framer : v.closed = false → v.framer = .ofStream limit v.received
  commands : done.map Processed.command ++ v.waiting = v.lines.filterMap (Framer.spelled? limit)
  output : v.written ++ v.unsent = (done.map Processed.reply).flatMap Server.sent

theorem follows_start (limit : Nat) : (start limit).Follows limit [] where
  framer _ := (Framer.ofStream_nil limit).symm
  commands := rfl
  output := rfl

namespace Follows

variable {limit : Nat} {done : List Processed} {v : Visit}

/-- A command that waits is a line. -/
theorem isLine_of_mem_waiting (h : v.Follows limit done) {command : Text}
    (hcommand : command ∈ v.waiting) : command.IsLine := by
  have hspelled : command ∈ v.lines.filterMap (Framer.spelled? limit) := by
    rw [← h.commands]
    exact List.mem_append_right _ hcommand
  obtain ⟨line, hline, heq⟩ := List.mem_filterMap.mp hspelled
  exact Framer.isLine_of_spelled? (feed_not_mem_of_mem_lines hline) heq

/-- In a session that reads, the complete lines have all been processed. -/
theorem commands_of_reads (h : v.Follows limit done) (hreads : v.Reads) :
    done.map Processed.command =
      (Line.complete v.received).filterMap (Framer.spelled? limit) := by
  obtain ⟨hwaiting, -, hopen⟩ := hreads
  have hcommands := h.commands
  rw [hwaiting, List.append_nil, lines, hopen, if_neg Bool.false_ne_true] at hcommands
  exact hcommands

/-- A chunk adds the lines that it completes. -/
theorem receive (h : v.Follows limit done) (hreads : v.Reads) (chunk : Bytes) :
    (v.receive chunk).Follows limit done := by
  have hopen : v.closed = false := hreads.2.2
  have hpush := Framer.push_ofStream limit v.received chunk
  rw [← h.framer hopen] at hpush
  exact {
    framer := fun _ => congrArg Prod.fst hpush
    commands := by
      rw [lines, Visit.receive, hpush]
      dsimp only
      rw [hopen, if_neg Bool.false_ne_true, (Line.complete_remainder_append v.received chunk).1,
        List.filterMap_append, h.commands_of_reads hreads]
    output := h.output }

/-- The end of the stream adds its remainder, which is a line then. -/
theorem close (h : v.Follows limit done) (hreads : v.Reads) : v.close.Follows limit done := by
  have hopen : v.closed = false := hreads.2.2
  have hfinish := Framer.finish_ofStream limit v.received
  rw [← h.framer hopen] at hfinish
  exact {
    framer := fun hclosed => absurd hclosed.symm Bool.false_ne_true
    commands := by
      rw [lines, Visit.close, hfinish]
      dsimp only
      rw [if_pos rfl, ← Session.spelled_all, h.commands_of_reads hreads]
    output := h.output }

/-- The first of the commands that wait is the next to be processed. -/
theorem process (h : v.Follows limit done) {command : Text} {rest : List Text}
    (hwaiting : v.waiting = command :: rest) (hsent : v.unsent = []) (n : Nat) (reply : Text) :
    (v.process rest reply).Follows limit (done ++ [⟨n, command, reply⟩]) where
  framer := h.framer
  commands := by
    rw [List.map_append, List.append_assoc]
    exact (congrArg _ hwaiting.symm).trans h.commands
  output := by
    have houtput := h.output
    rw [hsent, List.append_nil] at houtput
    rw [List.map_append, List.flatMap_append, ← houtput, Visit.process,
      Session.replyBytes_eq_sent, List.map_singleton, List.flatMap_singleton]

/-- However much of a reply is written at once, the bytes stay in their order. -/
theorem write (h : v.Follows limit done) {part rest : Bytes} (hunsent : v.unsent = part ++ rest) :
    (v.write part rest).Follows limit done where
  framer := h.framer
  commands := h.commands
  output := by
    rw [← h.output, hunsent]
    exact List.append_assoc _ _ _

end Follows

end Visit

/-- A server in the middle of its sessions. -/
structure Service where
  /-- The instrument, on which all sessions act. -/
  instrument : Instrument
  /-- The sessions. -/
  visit : Nat → Visit
  /-- What was processed so far, in this order. -/
  processed : List Processed

namespace Service

/-- A server to which nobody has sent anything. -/
def start (i : Instrument) (limit : Nat) : Service := ⟨i, fun _ => .start limit, []⟩

/-- What was processed for one session, in this order. -/
def processedFor (s : Service) (n : Nat) : List Processed := s.processed.filter (·.session = n)

section

variable (s : Service) {changed : Instrument} {visit : Nat → Visit} {n m : Nat}
  {command reply : Text}

theorem processedFor_concat_self :
    processedFor ⟨changed, visit, s.processed ++ [⟨n, command, reply⟩]⟩ n =
      s.processedFor n ++ [⟨n, command, reply⟩] := by
  simp [processedFor]

theorem processedFor_concat_of_ne (h : n ≠ m) :
    processedFor ⟨changed, visit, s.processed ++ [⟨n, command, reply⟩]⟩ m = s.processedFor m := by
  simp [processedFor, h]

end

/-- What can happen next, in any of the sessions. A command is processed as a whole, while its reply
is written in as many parts as the connection takes. -/
inductive Step (s : Service) : Service → Prop where
  /-- A session receives a chunk. -/
  | receive {n : Nat} (chunk : Bytes) (hreads : (s.visit n).Reads) :
      Step s { s with visit := Function.update s.visit n ((s.visit n).receive chunk) }
  /-- The client of a session sends no more. -/
  | close {n : Nat} (hreads : (s.visit n).Reads) :
      Step s { s with visit := Function.update s.visit n (s.visit n).close }
  /-- The next command of a session is processed. -/
  | process {n : Nat} {command : Text} {rest : List Text}
      (hwaiting : (s.visit n).waiting = command :: rest) (hsent : (s.visit n).unsent = []) :
      Step s
        { instrument := (s.instrument.process command).1
          visit := Function.update s.visit n
            ((s.visit n).process rest (s.instrument.process command).2)
          processed := s.processed ++ [⟨n, command, (s.instrument.process command).2⟩] }
  /-- A part of a reply is written. -/
  | write {n : Nat} {part rest : Bytes} (hunsent : (s.visit n).unsent = part ++ rest) :
      Step s { s with visit := Function.update s.visit n ((s.visit n).write part rest) }

/-! ## The invariant of a server -/

/-- A server whose sessions have had these commands processed, by what was this instrument at
first. -/
structure Follows (i : Instrument) (limit : Nat) (s : Service) : Prop where
  visit : ∀ n, (s.visit n).Follows limit (s.processedFor n)
  instrument : s.instrument = i.after (s.processed.map Processed.command)
  replies : s.processed.map Processed.reply = i.replies (s.processed.map Processed.command)
  lines : ∀ command ∈ s.processed.map Processed.command, command.IsLine

theorem follows_start (i : Instrument) (limit : Nat) : (start i limit).Follows i limit where
  visit _ := Visit.follows_start limit
  instrument := rfl
  replies := rfl
  lines _ hcommand := absurd hcommand List.not_mem_nil

namespace Follows

variable {i : Instrument} {limit : Nat} {s next : Service}

/-- What one session does about its own bytes is no matter of the others. -/
theorem update (h : s.Follows i limit) {n : Nat} {v : Visit}
    (hv : v.Follows limit (s.processedFor n)) :
    Follows i limit { s with visit := Function.update s.visit n v } where
  visit := (Function.forall_update_iff s.visit fun m v => v.Follows limit (s.processedFor m)).mpr
    ⟨hv, fun m _ => h.visit m⟩
  instrument := h.instrument
  replies := h.replies
  lines := h.lines

/-- Whatever happens next, the server goes on as it did. -/
theorem step (h : s.Follows i limit) (hstep : Step s next) : next.Follows i limit := by
  cases hstep with
  | @receive n chunk hreads => exact h.update ((h.visit n).receive hreads chunk)
  | @close n hreads => exact h.update ((h.visit n).close hreads)
  | @write n part rest hunsent => exact h.update ((h.visit n).write hunsent)
  | @process n command rest hwaiting hsent =>
    have hcommand : command.IsLine :=
      (h.visit n).isLine_of_mem_waiting (hwaiting ▸ List.mem_cons_self)
    exact {
      visit := (Function.forall_update_iff s.visit fun m v => v.Follows limit _).mpr
        ⟨by
          rw [processedFor_concat_self]
          exact (h.visit n).process hwaiting hsent n _,
        fun m hm => by
          rw [processedFor_concat_of_ne _ hm.symm]
          exact h.visit m⟩
      instrument := by
        rw [List.map_append, Instrument.after_append, ← h.instrument]
        rfl
      replies := by
        rw [List.map_append, List.map_append, Instrument.replies_append, ← h.instrument, h.replies]
        rfl
      lines := by
        rw [List.map_append]
        exact List.forall_mem_append.mpr ⟨h.lines, List.forall_mem_singleton.mpr hcommand⟩ }

theorem of_reaches (hreach : Relation.ReflTransGen Step (start i limit) s) :
    s.Follows i limit := by
  induction hreach with
  | refl => exact follows_start i limit
  | tail _ hstep ih => exact ih.step hstep

/-- What was written in a session, once nothing is on its way, carries the replies to its
commands. -/
theorem carriesReplies (h : s.Follows i limit) (hi : i.HoldsLines) {n : Nat}
    (hsent : (s.visit n).unsent = []) :
    Server.CarriesReplies (s.visit n).written ((s.processedFor n).map Processed.reply) := by
  have houtput := (h.visit n).output
  rw [hsent, List.append_nil] at houtput
  rw [houtput]
  refine Server.carriesReplies_sent fun reply hreply => ?_
  have hmem : reply ∈ i.replies (s.processed.map Processed.command) := by
    rw [← h.replies]
    exact List.map_subset _ (List.filter_subset_self _) hreply
  exact hi.isLine_replies h.lines reply hmem

end Follows

/-! ## The result -/

/-- **One reply is one line.** An instrument that has processed lines replies with a line to every
command. So what a server for it writes in a session carries the replies to the lines of this
session: when sessions come one after the other, and when any number of them are under way at once,
their commands processed in some common order. -/
theorem writes_one_line_per_reply (model : Model) (limit : Nat) (history : List Text)
    (hhistory : ∀ command ∈ history, command.IsLine) :
    let i := (Instrument.new model).after history
    (∀ command, (i.process command).2.IsLine) ∧
      (∀ (earlier : List (List Bytes)) (chunks : List Bytes),
        let server := (Server.exchanges ⟨i, limit⟩ .up earlier).1
        Server.CarriesReplies (server.session chunks).2
          (server.instrument.replies (Line.texts limit chunks.flatten))) ∧
      ∀ s, Relation.ReflTransGen Step (start i limit) s →
        s.processed.map Processed.reply = i.replies (s.processed.map Processed.command) ∧
          ∀ n,
            (s.processedFor n).map Processed.command ++ (s.visit n).waiting =
                (s.visit n).lines.filterMap (Framer.spelled? limit) ∧
              ((s.visit n).unsent = [] →
                Server.CarriesReplies (s.visit n).written
                  ((s.processedFor n).map Processed.reply)) := by
  intro i
  have hi : i.HoldsLines := (Instrument.holdsLines_new model).after hhistory
  refine ⟨hi.isLine_reply, fun earlier chunks => ?_, fun s hreach => ?_⟩
  · have hserver : ((Server.exchanges ⟨i, limit⟩ .up earlier).1).instrument.HoldsLines :=
      Server.holdsLines_exchanges hi earlier
    have hsession := Server.carriesReplies_session hserver chunks
    rw [Server.lineLimit_exchanges] at hsession
    exact hsession
  · have h := Follows.of_reaches hreach
    exact ⟨h.replies, fun n => ⟨(h.visit n).commands, h.carriesReplies hi⟩⟩

/-- A stored text that makes no sense is copied to the other channel, and reported in a session
behind one that has turned long headers on. The last line has no line feed of its own. -/
theorem writes_one_line_per_reply_copied :
    let history : List Text := ["C1:BSWV PHSE,V;µ".toList, "PACP C2,C1".toList]
    let i := (Instrument.new .sdg1032x).after history
    let server := (Server.exchanges ⟨i, 64⟩ .up [[Utf8.encode "chdr long\n".toList]]).1
    let written :=
      (server.session [Utf8.encode "c2:bs".toList, Utf8.encode "wv?\nbuzz on\n\nbuzz?".toList]).2
    (∀ command ∈ history, command.IsLine) ∧ written.count Line.feed = 2 ∧
      Line.cut written =
        ([Utf8.encode
            ("C2:BASIC_WAVE WVTP,SINE,FRQ,1000HZ,PERI,0.001S,AMP,4V,AMPVRMS,1.414Vrms,".toList ++
              "OFST,0V,HLEV,2V,LLEV,-2V,PHSE,V;µ".toList),
          Utf8.encode "BUZZER ON".toList], []) := by
  intro history i server written
  have hhistory : ∀ command ∈ history, command.IsLine := by decide
  have hcarries := (writes_one_line_per_reply .sdg1032x 64 history hhistory).2.1
    [[Utf8.encode "chdr long\n".toList]]
    [Utf8.encode "c2:bs".toList, Utf8.encode "wv?\nbuzz on\n\nbuzz?".toList]
  refine ⟨hhistory, hcarries.1.trans ?_, hcarries.2.trans ?_⟩
  · decide +kernel
  · decide +kernel

end Service

end WaveGen
