import WaveGen.Server
import WaveGen.Proofs.Framing
import WaveGen.Proofs.NormalForm

/-!
# Serving is a plain run (specification §10.7)

A session frames its bytes, and the framer trims and raises what it gives out. None of that can be
seen from outside: what goes back in a session is what the instrument replies to the raw lines of
the stream, one after the other, wherever the chunks were cut.

* `Line.texts` — the texts of a stream's lines.
* `Server.plainRun` — the instrument on those texts, session by session.
* `Server.exchanges_eq_plainRun` — a server does just that.
-/

namespace WaveGen

/-! ## Plain runs -/

/-- The lines of a stream; bytes behind the last line feed are a line too, if there are any. -/
def Line.all (stream : Bytes) : List Bytes :=
  if remainder stream = [] then complete stream else complete stream ++ [remainder stream]

/-- The texts of the lines of a stream that are within the limit and UTF-8, exactly as they stand
there. -/
def Line.texts (limit : Nat) (stream : Bytes) : List Text :=
  ((all stream).filter (·.length ≤ limit)).filterMap Utf8.decode?

namespace Server

/-- The bytes for a reply: none for an empty one, else the reply and one line feed, unless the reply
ends in one. -/
def sent (reply : Text) : Bytes :=
  if reply = [] then []
  else if reply.getLast? = some '\n' then Utf8.encode reply
  else Utf8.encode reply ++ [Line.feed]

/-- Sessions without framing: the instrument processes the texts of each session's lines as they
are. Gives the instrument afterwards, and what is sent in each session. -/
def plainRun (limit : Nat) (i : Instrument) : List (List Bytes) → Instrument × List Bytes
  | [] => (i, [])
  | chunks :: rest =>
    let texts := Line.texts limit chunks.flatten
    let (last, outputs) := plainRun limit (i.after texts) rest
    (last, (i.replies texts).flatMap sent :: outputs)

end Server

/-! ## Sessions -/

namespace Session

theorem replyBytes_eq_sent (reply : Text) : replyBytes reply = Server.sent reply := by
  have hfeed : Utf8.encode ['\n'] = [Line.feed] := rfl
  cases reply with
  | nil => rfl
  | cons c rest =>
    rw [Server.sent, if_neg (List.cons_ne_nil c rest)]
    show Utf8.encode (Line.terminated (c :: rest)) = _
    rw [Line.terminated]
    split
    · rfl
    · rw [Utf8.encode_append, hfeed]

theorem answer_append (i : Instrument) (commands more : List Text) :
    answer i (commands ++ more) =
      ((answer (answer i commands).1 more).1,
        (answer i commands).2 ++ (answer (answer i commands).1 more).2) := by
  induction commands generalizing i with
  | nil => rfl
  | cons command rest ih =>
    rw [List.cons_append, answer, answer]
    dsimp only
    rw [ih, List.append_assoc]

/-- Answers to commands are the replies of the instrument, as they are sent. -/
theorem answer_eq (i : Instrument) (commands : List Text) :
    answer i commands = (i.after commands, (i.replies commands).flatMap Server.sent) := by
  induction commands generalizing i with
  | nil => rfl
  | cons command rest ih =>
    rw [answer]
    dsimp only
    rw [ih, replyBytes_eq_sent]
    rfl

/-- A session that receives a chunk answers the commands of the lines that it completes. -/
theorem receive_ofStream (i : Instrument) (limit : Nat) (received chunk : Bytes) :
    receive ⟨i, .ofStream limit received⟩ chunk =
      let commands := (Line.completedBy received chunk).filterMap (Framer.spelled? limit)
      (⟨(answer i commands).1, .ofStream limit (received ++ chunk)⟩, (answer i commands).2) := by
  rw [receive, Framer.push_ofStream]

theorem receiveAll_ofStream (i : Instrument) (limit : Nat) (received : Bytes)
    (chunks : List Bytes) :
    receiveAll ⟨i, .ofStream limit received⟩ chunks =
      let commands :=
        (Line.completedBy received chunks.flatten).filterMap (Framer.spelled? limit)
      (⟨(answer i commands).1, .ofStream limit (received ++ chunks.flatten)⟩,
        (answer i commands).2) := by
  induction chunks generalizing i received with
  | nil =>
    rw [List.flatten_nil, List.append_nil]
    rfl
  | cons chunk rest ih =>
    rw [receiveAll, receive_ofStream]
    dsimp only
    rw [ih, List.flatten_cons, Line.completedBy_append, List.filterMap_append, answer_append,
      List.append_assoc]

/-- Lines that come to nothing make no difference, and the others may as well be processed raw. -/
theorem answer_spelled (i : Instrument) (limit : Nat) (lines : List Bytes) :
    answer i (lines.filterMap (Framer.spelled? limit)) =
      answer i ((lines.filter (·.length ≤ limit)).filterMap Utf8.decode?) := by
  induction lines generalizing i with
  | nil => rfl
  | cons line rest ih =>
    by_cases hfits : line.length ≤ limit
    · rw [List.filter_cons_of_pos (by simpa using hfits), List.filterMap_cons, List.filterMap_cons,
        Framer.spelled?, if_neg (Nat.not_lt.mpr hfits)]
      cases Utf8.decode? line with
      | none => exact ih i
      | some text =>
        dsimp only
        by_cases hblank : Text.trim text = []
        · -- the framer drops the line; processing it changes nothing and gets no reply
          rw [if_pos hblank, answer, Instrument.process_blank i hblank]
          exact ih i
        · -- the framer gives out another text of the same normal form
          rw [if_neg hblank, answer, answer, Instrument.process_upper_trim]
          dsimp only
          rw [ih]
    · rw [List.filter_cons_of_neg (by simpa using hfits), List.filterMap_cons, Framer.spelled?,
        if_pos (Nat.lt_of_not_le hfits)]
      exact ih i

/-- The end of the stream adds its remainder to the lines; an empty one would come to nothing. -/
theorem spelled_all (limit : Nat) (stream : Bytes) :
    (Line.complete stream).filterMap (Framer.spelled? limit) ++
        (Framer.spelled? limit (Line.remainder stream)).toList =
      (Line.all stream).filterMap (Framer.spelled? limit) := by
  rw [Line.all]
  split
  · rename_i hempty
    have hnone : Framer.spelled? limit [] = none := rfl
    rw [hempty, hnone, Option.toList_none, List.append_nil]
  · rw [List.filterMap_append]
    cases h : Framer.spelled? limit (Line.remainder stream) <;> simp [h]

/-- Answers to all that a stream comes to are the plain replies to its lines. -/
theorem answer_stream (i : Instrument) (limit : Nat) (stream : Bytes) :
    answer i ((Line.complete stream).filterMap (Framer.spelled? limit) ++
        (Framer.spelled? limit (Line.remainder stream)).toList) =
      (i.after (Line.texts limit stream),
        (i.replies (Line.texts limit stream)).flatMap Server.sent) := by
  rw [spelled_all, answer_spelled, answer_eq]
  rfl

end Session

/-! ## Servers -/

namespace Server

/-- A session is the plain run of its stream. -/
theorem session_eq (s : Server) (chunks : List Bytes) :
    s.session chunks =
      let texts := Line.texts s.lineLimit chunks.flatten
      ({ s with instrument := s.instrument.after texts },
        (s.instrument.replies texts).flatMap sent) := by
  have hstart : Session.start s.instrument s.lineLimit =
      ⟨s.instrument, .ofStream s.lineLimit []⟩ := by
    rw [Framer.ofStream_nil]
    rfl
  rw [session, hstart, Session.receiveAll_ofStream, Line.completedBy_nil_left, List.nil_append]
  dsimp only
  rw [Session.finish, Framer.finish_ofStream]
  dsimp only
  -- the answers at the end of the stream follow those to the complete lines
  have hanswers := Session.answer_stream s.instrument s.lineLimit chunks.flatten
  rw [Session.answer_append] at hanswers
  obtain ⟨hinstrument, hbytes⟩ := Prod.mk.inj hanswers
  rw [hinstrument, hbytes]

/-- **Serving is a plain run.** Sessions one after the other, each in whatever chunks, send what the
instrument replies to the raw lines, and leave the instrument that has processed them. -/
theorem exchanges_eq_plainRun (s : Server) (sessions : List (List Bytes)) :
    s.exchanges .up sessions =
      let (last, outputs) := plainRun s.lineLimit s.instrument sessions
      ({ s with instrument := last }, outputs.map .ok) := by
  induction sessions generalizing s with
  | nil => rfl
  | cons chunks rest ih =>
    rw [exchanges, exchange, session_eq]
    dsimp only
    rw [ih, plainRun]
    rfl

end Server

end WaveGen
