import WaveGen.Line.Framer
import WaveGen.Proofs.Text

/-!
# What a framer gives out (specification §10.7)

A framer sees chunks and gives out commands. This module says which ones, by the received bytes
alone: cut the stream that was received since the last `finish` at every line feed, and treat each
line on its own.

* `Line.complete`, `Line.remainder` — the lines of a stream that are ended by a line feed, and what
  stands behind the last line feed.
* `Framer.spelled?` — what a line comes to.
* `Framer.ofStream` — the framer as a function of the stream. It is the invariant: a framer that has
  received a stream, in whatever chunks, is the framer of that stream (`push_ofStream`).
* `Framer.transcript`, `Framer.expected` — all that a sequence of calls gives, by the framer and by
  the stream.
-/

namespace WaveGen

namespace Line

/-! ## The lines of a stream -/

/-- The lines that are ended by a line feed, without it. -/
def complete (stream : Bytes) : List Bytes := (stream.splitOn feed).dropLast

/-- The bytes behind the last line feed. -/
def remainder (stream : Bytes) : Bytes :=
  (stream.splitOn feed).getLast (List.splitOn_ne_nil feed stream)

theorem complete_append_remainder (stream : Bytes) :
    complete stream ++ [remainder stream] = stream.splitOn feed :=
  List.dropLast_concat_getLast (List.splitOn_ne_nil feed stream)

/-- The pieces of a stream determine its complete lines and its remainder. -/
theorem complete_remainder_of_splitOn {stream : Bytes} {lines : List Bytes} {rest : Bytes}
    (h : stream.splitOn feed = lines ++ [rest]) :
    complete stream = lines ∧ remainder stream = rest := by
  rw [← complete_append_remainder] at h
  exact List.append_singleton_inj.mp h

theorem feed_not_mem_of_mem_complete {stream line : Bytes} (h : line ∈ complete stream) :
    feed ∉ line :=
  Text.not_mem_of_mem_splitOn (List.dropLast_subset _ h)

theorem feed_not_mem_remainder (stream : Bytes) : feed ∉ remainder stream :=
  Text.not_mem_of_mem_splitOn (List.getLast_mem _)

/-- Every line feed ends one line. -/
theorem length_complete (stream : Bytes) : (complete stream).length = stream.count feed := by
  -- the pieces are one more than the line feeds, since the remainder is a piece too
  suffices h : (stream.splitOn feed).length = stream.count feed + 1 by
    rw [complete, List.length_dropLast, h, Nat.add_sub_cancel]
  induction stream with
  | nil => rfl
  | cons b rest ih =>
    rw [List.splitOn_cons_eq_if_modifyHead, List.count_cons]
    split
    · rw [List.length_cons, ih]
    · rw [List.length_modifyHead, ih, Nat.add_zero]

/-- A line feed in front ends an empty line. -/
theorem complete_remainder_feed (rest : Bytes) :
    complete (feed :: rest) = [] :: complete rest ∧ remainder (feed :: rest) = remainder rest := by
  apply complete_remainder_of_splitOn
  rw [List.splitOn_cons_eq_if_modifyHead, if_pos (beq_self_eq_true feed),
    ← complete_append_remainder rest, List.cons_append]

/-- Any other byte in front belongs to the first line, which may be the incomplete one. -/
theorem complete_remainder_byte {b : UInt8} (hb : b ≠ feed) (rest : Bytes) :
    complete (b :: rest) = (complete rest).modifyHead (b :: ·) ∧
      remainder (b :: rest) =
        if complete rest = [] then b :: remainder rest else remainder rest := by
  apply complete_remainder_of_splitOn
  rw [List.splitOn_cons_eq_if_modifyHead, if_neg (mt beq_iff_eq.mp hb),
    ← complete_append_remainder rest]
  cases complete rest with
  | nil => rfl
  | cons line more => rfl

/-- `cut` finds the complete lines and the remainder. -/
theorem cut_eq (stream : Bytes) : cut stream = (complete stream, remainder stream) := by
  induction stream with
  | nil => rfl
  | cons b rest ih =>
    have hcut : cut (b :: rest) = addByte b (complete rest, remainder rest) := by rw [← ih]; rfl
    rw [hcut]
    by_cases hb : b = feed
    · subst hb
      obtain ⟨hlines, hrest⟩ := complete_remainder_feed rest
      rw [hlines, hrest]
      rfl
    · obtain ⟨hlines, hrest⟩ := complete_remainder_byte hb rest
      rw [hlines, hrest, addByte.eq_def]
      cases complete rest with
      | nil => exact if_neg hb
      | cons line more => exact if_neg hb

/-! ## Streams that grow -/

/-- The lines that are completed when further bytes follow those received: the first of them
continues the remainder. -/
def completedBy (received more : Bytes) : List Bytes :=
  (complete more).modifyHead (remainder received ++ ·)

/-- Further bytes complete further lines and leave a remainder of their own. Without a line feed
among them they lengthen the remainder that is there. -/
theorem complete_remainder_append (received more : Bytes) :
    complete (received ++ more) = complete received ++ completedBy received more ∧
      remainder (received ++ more) =
        if complete more = [] then remainder received ++ remainder more else remainder more := by
  induction received with
  | nil =>
    have hid : completedBy [] more = complete more := by
      rw [completedBy]
      cases complete more with
      | nil => rfl
      | cons line lines => rfl
    rw [hid]
    exact ⟨rfl, (ite_self _).symm⟩
  | cons b rest ih =>
    obtain ⟨hlines, hrest⟩ := ih
    rw [List.cons_append]
    by_cases hb : b = feed
    · subst hb
      obtain ⟨hl, hr⟩ := complete_remainder_feed (rest ++ more)
      obtain ⟨hl', hr'⟩ := complete_remainder_feed rest
      rw [hl, hr, hl', hr', hlines, hrest, completedBy, completedBy, hr']
      exact ⟨rfl, rfl⟩
    · obtain ⟨hl, hr⟩ := complete_remainder_byte hb (rest ++ more)
      obtain ⟨hl', hr'⟩ := complete_remainder_byte hb rest
      rw [hl, hr, hl', hr', hlines, hrest, completedBy, completedBy, hr']
      -- the byte belongs to the remainder only if nothing behind it ends its line
      cases complete rest with
      | nil =>
        cases complete more with
        | nil => exact ⟨rfl, rfl⟩
        | cons line lines => exact ⟨rfl, rfl⟩
      | cons first others => exact ⟨rfl, rfl⟩

/-- The completed lines are those of the longer stream whose line feed was not there before. -/
theorem completedBy_eq_drop (received more : Bytes) :
    completedBy received more = (complete (received ++ more)).drop (received.count feed) := by
  rw [(complete_remainder_append received more).1, ← length_complete, List.drop_left]

/-- Bytes that come in two parts complete the lines of both, in their order. -/
theorem completedBy_append (received more further : Bytes) :
    completedBy received (more ++ further) =
      completedBy received more ++ completedBy (received ++ more) further := by
  -- what was complete before stands in front on both sides
  have hwhole : complete received ++ completedBy received (more ++ further) =
      complete received ++
        (completedBy received more ++ completedBy (received ++ more) further) := by
    rw [← (complete_remainder_append received (more ++ further)).1, ← List.append_assoc,
      (complete_remainder_append (received ++ more) further).1,
      (complete_remainder_append received more).1, List.append_assoc]
  exact List.append_cancel_left hwhole

@[simp] theorem completedBy_nil_left (more : Bytes) : completedBy [] more = complete more := by
  rw [completedBy_eq_drop, List.nil_append, List.count_nil, List.drop_zero]

end Line

namespace Framer

/-! ## The framer of a stream -/

/-- What a line comes to: its text without blanks at both ends and in capital letters. A line with
more bytes than the limit comes to nothing, nor does one that is not UTF-8 or is blank. -/
def spelled? (limit : Nat) (line : Bytes) : Option Text :=
  if limit < line.length then none
  else
    match Utf8.decode? line with
    | none => none
    | some text => if Text.trim text = [] then none else some (Text.upper (Text.trim text))

/-- The number of bytes that are held for an incomplete line: all of them, or none if they are more
than a line may have. -/
def heldLength (limit : Nat) (line : Bytes) : Nat := if line.length ≤ limit then line.length else 0

/-- The framer that has received a stream since it was new. -/
def ofStream (limit : Nat) (stream : Bytes) : Framer :=
  ⟨limit, withinLimit limit [] (Line.remainder stream)⟩

theorem ofStream_nil (limit : Nat) : ofStream limit [] = new limit :=
  congrArg (Framer.mk limit) (if_pos (Nat.zero_le limit))

/-- A framer that has the beginning of a line has the longer line next. If the beginning was dropped
already, the longer line is too long as well. -/
theorem hold_withinLimit (limit : Nat) (line more : Bytes) :
    hold ⟨limit, withinLimit limit [] line⟩ more =
      ⟨limit, withinLimit limit [] (line ++ more)⟩ := by
  refine congrArg (Framer.mk limit) ?_
  show (withinLimit limit [] line).bind (withinLimit limit · more) = _
  by_cases hfits : line.length ≤ limit
  · rw [withinLimit, List.nil_append, if_pos hfits]
    rfl
  · -- nothing is held any more, and nothing is held again before the line ends
    have hlong : ¬ (line ++ more).length ≤ limit := by
      rw [List.length_append]
      omega
    rw [withinLimit, List.nil_append, if_neg hfits, withinLimit, List.nil_append, if_neg hlong]
    rfl

/-- The end of a line gives what the line comes to, and a framer that is as new. -/
theorem finish_withinLimit (limit : Nat) (line : Bytes) :
    finish ⟨limit, withinLimit limit [] line⟩ = (new limit, spelled? limit line) := by
  refine congrArg (Prod.mk (new limit)) ?_
  show (withinLimit limit [] line).bind Line.command? = spelled? limit line
  rw [withinLimit, List.nil_append, spelled?]
  by_cases hfits : line.length ≤ limit
  · rw [if_pos hfits, if_neg (Nat.not_lt.mpr hfits)]
    show Line.command? line = _
    rw [Line.command?]
    cases Utf8.decode? line with
    | none => rfl
    | some text => cases htrim : Text.trim text <;> simp [htrim, Text.upper]
  · rw [if_neg hfits, if_pos (Nat.lt_of_not_le hfits)]
    rfl

/-- Complete lines that follow an incomplete one are given out, and leave nothing behind. -/
theorem pushLines_withinLimit (limit : Nat) (line : Bytes) (lines : List Bytes) :
    pushLines ⟨limit, withinLimit limit [] line⟩ lines =
      (if lines = [] then ⟨limit, withinLimit limit [] line⟩ else new limit,
        (lines.modifyHead (line ++ ·)).filterMap (spelled? limit)) := by
  induction lines generalizing line with
  | nil => rfl
  | cons next rest ih =>
    have hnew : new limit = ⟨limit, withinLimit limit [] []⟩ := (ofStream_nil limit).symm
    rw [pushLines, hold_withinLimit, finish_withinLimit]
    -- the first line is given out; the others find a new framer
    show (((new limit).pushLines rest).1, _ ++ ((new limit).pushLines rest).2) = _
    have hrest := ih []
    rw [← hnew] at hrest
    rw [hrest]
    have hid : rest.modifyHead (([] : Bytes) ++ ·) = rest := by cases rest <;> rfl
    rw [hid, ite_self, if_neg (List.cons_ne_nil next rest), List.modifyHead_cons,
      List.filterMap_cons]
    cases spelled? limit (line ++ next) <;> rfl

/-- **A push takes the framer of a stream to the framer of the longer stream**, and gives out what
the lines come to that the push completes. -/
theorem push_ofStream (limit : Nat) (received chunk : Bytes) :
    (ofStream limit received).push chunk =
      (ofStream limit (received ++ chunk),
        (Line.completedBy received chunk).filterMap (spelled? limit)) := by
  have hrest := (Line.complete_remainder_append received chunk).2
  rw [push, Line.cut_eq]
  dsimp only
  rw [ofStream, pushLines_withinLimit]
  refine Prod.ext ?_ rfl
  show hold (if Line.complete chunk = [] then _ else _) _ = ofStream limit (received ++ chunk)
  rw [ofStream, hrest]
  split
  · -- no line feed in the chunk: it goes on with the line that is there
    exact hold_withinLimit limit _ _
  · -- what is behind the last line feed of the chunk is the beginning of a line
    rw [← ofStream_nil, ofStream, hold_withinLimit]
    rfl

/-- The end of the stream gives what its remainder comes to. -/
theorem finish_ofStream (limit : Nat) (stream : Bytes) :
    (ofStream limit stream).finish = (new limit, spelled? limit (Line.remainder stream)) :=
  finish_withinLimit limit (Line.remainder stream)

theorem pending_ofStream (limit : Nat) (stream : Bytes) :
    (ofStream limit stream).pending = heldLength limit (Line.remainder stream) := by
  rw [pending, ofStream, withinLimit, heldLength, List.nil_append]
  split <;> rfl

/-! ## Sequences of calls -/

/-- A call to a framer: a chunk of bytes is received, or the stream ends. -/
inductive Call where
  | push (chunk : Bytes)
  | finish

/-- What a call gives. -/
structure Answer where
  /-- The commands that the call gives out. -/
  commands : List Text
  /-- The number of bytes that are held after the call. -/
  pending : Nat
deriving DecidableEq, Repr

/-- Makes a call. -/
def call (f : Framer) : Call → Framer × Answer
  | .push chunk =>
    let (next, commands) := f.push chunk
    (next, ⟨commands, next.pending⟩)
  | .finish =>
    let (next, command) := f.finish
    (next, ⟨command.toList, next.pending⟩)

/-- The framer after a sequence of calls. -/
def after (f : Framer) (calls : List Call) : Framer := calls.foldl (fun f c => (f.call c).1) f

/-- What each call of a sequence gives. -/
def transcript (f : Framer) : List Call → List Answer
  | [] => []
  | c :: rest => (f.call c).2 :: (f.call c).1.transcript rest

/-- What each call of a sequence has to give, by the bytes received since the last `finish`. A push
gives what the lines come to whose line feed is among its own bytes, and `finish` what the remainder
comes to; the stream is a new one then. -/
def expected (limit : Nat) (received : Bytes) : List Call → List Answer
  | [] => []
  | .push chunk :: rest =>
    let stream := received ++ chunk
    ⟨((Line.complete stream).drop (received.count Line.feed)).filterMap (spelled? limit),
      heldLength limit (Line.remainder stream)⟩ :: expected limit stream rest
  | .finish :: rest =>
    ⟨(spelled? limit (Line.remainder received)).toList, 0⟩ :: expected limit [] rest

theorem call_push_ofStream (limit : Nat) (received chunk : Bytes) :
    (ofStream limit received).call (.push chunk) =
      (ofStream limit (received ++ chunk),
        ⟨(Line.completedBy received chunk).filterMap (spelled? limit),
          heldLength limit (Line.remainder (received ++ chunk))⟩) := by
  rw [call, push_ofStream]
  dsimp only
  rw [pending_ofStream]

theorem call_finish_ofStream (limit : Nat) (received : Bytes) :
    (ofStream limit received).call .finish =
      (ofStream limit [], ⟨(spelled? limit (Line.remainder received)).toList, 0⟩) := by
  rw [call, finish_ofStream, ofStream_nil]
  rfl

/-- **All that a sequence of calls gives** follows from the stream, call by call. -/
theorem transcript_ofStream (limit : Nat) (received : Bytes) (calls : List Call) :
    (ofStream limit received).transcript calls = expected limit received calls := by
  induction calls generalizing received with
  | nil => rfl
  | cons c rest ih =>
    rw [transcript]
    cases c with
    | push chunk =>
      rw [call_push_ofStream, Line.completedBy_eq_drop, ih]
      rfl
    | finish =>
      rw [call_finish_ofStream, ih]
      rfl

/-- A line feed may come in another chunk than its line. -/
example :
    (new 4).transcript [.push [97, 98], .push [10, 99], .finish] =
      [⟨[], 2⟩, ⟨["AB".toList], 1⟩, ⟨["C".toList], 0⟩] := by
  decide

/-- The chunks that a stream comes in do not matter to the framer. -/
theorem after_pushes (limit : Nat) (received : Bytes) (chunks : List Bytes) :
    (ofStream limit received).after (chunks.map .push) =
      ofStream limit (received ++ chunks.flatten) := by
  induction chunks generalizing received with
  | nil => rw [List.flatten_nil, List.append_nil]; rfl
  | cons chunk rest ih =>
    rw [List.map_cons, after, List.foldl_cons, call_push_ofStream]
    refine (ih (received ++ chunk)).trans ?_
    rw [List.flatten_cons, List.append_assoc]

/-- Nor do they matter to the commands that come out, taken together. -/
theorem commands_pushes (limit : Nat) (received : Bytes) (chunks : List Bytes) :
    ((ofStream limit received).transcript (chunks.map .push)).flatMap Answer.commands =
      (Line.completedBy received chunks.flatten).filterMap (spelled? limit) := by
  induction chunks generalizing received with
  | nil => rfl
  | cons chunk rest ih =>
    rw [List.map_cons, transcript, call_push_ofStream, List.flatMap_cons, ih, List.flatten_cons,
      Line.completedBy_append, List.filterMap_append]

theorem limit_pushLines (f : Framer) (lines : List Bytes) :
    (f.pushLines lines).1.limit = f.limit := by
  induction lines generalizing f with
  | nil => rfl
  | cons line rest ih => exact ih (f.hold line).finish.1

/-- No call changes the limit. -/
theorem limit_after (f : Framer) (calls : List Call) : (f.after calls).limit = f.limit := by
  induction calls generalizing f with
  | nil => rfl
  | cons c rest ih =>
    have hcall : (f.call c).1.limit = f.limit := by
      cases c with
      | push chunk => exact limit_pushLines f (Line.cut chunk).1
      | finish => rfl
    exact (ih (f.call c).1).trans hcall

/-- `finish` leaves the framer as it was at first. -/
theorem after_finish (limit : Nat) (calls : List Call) :
    (new limit).after (calls ++ [.finish]) = new limit := by
  rw [after, List.foldl_append]
  exact congrArg new (limit_after (new limit) calls)

/-- **A framer gives out the lines of the stream.** Each call gives what the bytes received since
the last `finish` ask for. In particular the pushes of a segment, which begins at the start or
behind a `finish`, give together what the complete lines of its bytes come to, and the `finish`
behind them gives what their remainder comes to and leaves a new framer. -/
theorem gives_lines_of_stream (limit : Nat) :
    (new limit).pending = 0 ∧
      (∀ calls : List Call, (new limit).transcript calls = expected limit [] calls) ∧
      ∀ (before : List Call) (chunks : List Bytes),
        (before = [] ∨ ∃ earlier, before = earlier ++ [.finish]) →
          (((new limit).after before).transcript (chunks.map .push)).flatMap Answer.commands =
              (Line.complete chunks.flatten).filterMap (spelled? limit) ∧
            (((new limit).after before).after (chunks.map .push)).finish =
              (new limit, spelled? limit (Line.remainder chunks.flatten)) := by
  refine ⟨rfl, fun calls => ?_, fun before chunks hbefore => ?_⟩
  · rw [← ofStream_nil]
    exact transcript_ofStream limit [] calls
  · -- a segment begins with a framer that is as new, whatever came before
    have hstart : (new limit).after before = ofStream limit [] := by
      rw [ofStream_nil]
      rcases hbefore with rfl | ⟨earlier, rfl⟩
      · rfl
      · exact after_finish limit earlier
    rw [hstart]
    constructor
    · rw [commands_pushes, Line.completedBy_nil_left]
    · rw [after_pushes, List.nil_append]
      exact finish_ofStream limit chunks.flatten

end Framer

end WaveGen
