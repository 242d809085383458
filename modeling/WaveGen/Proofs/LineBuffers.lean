import WaveGen.Line.Buffer
import WaveGen.Proofs.Framing

/-!
# Line buffers are framers (specification §10.7)

A `LineBuffer` and a `Framer` take the same calls and give the same answers. The buffer stands for
the framer that holds nothing while the flag is set (`LineBuffer.framer`). What carries the proof is
`LineBuffer.Sound`: between two pieces the buffer fits the limit, and it is empty while the flag is
set. A piece with a line feed leaves a new buffer in each of its three branches (`take_line`), so
that the flag never outlives the line it was set for; a piece without one holds on (`take_rest`).
-/

namespace WaveGen

namespace Line

/-! ## Pieces -/

/-- The piece of an incomplete line; there is none of an empty one. -/
def lastPiece (rest : Bytes) : List Bytes := if rest = [] then [] else [rest]

/-- The pieces are the complete lines, each with its line feed, and the incomplete one. -/
theorem pieces_eq (bytes : Bytes) :
    pieces bytes = (cut bytes).1.map (· ++ [feed]) ++ lastPiece (cut bytes).2 := by
  induction bytes with
  | nil => rfl
  | cons b rest ih =>
    have hpieces : pieces (b :: rest) = pieceByte b (pieces rest) := rfl
    have hcut : cut (b :: rest) = addByte b (cut rest) := rfl
    rw [hpieces, hcut, ih]
    obtain ⟨lines, last⟩ := cut rest
    by_cases hb : b = feed
    · subst hb
      cases lines with
      | nil => cases last <;> rfl
      | cons line more => rfl
    · cases lines with
      | nil => cases last <;> simp [pieceByte, addByte, lastPiece, hb]
      | cons line more => simp [pieceByte, addByte, hb]

end Line

namespace LineBuffer

variable {b : LineBuffer}

/-- The framer that a buffer stands for. -/
def framer (b : LineBuffer) : Framer := ⟨b.limit, if b.discarding then none else some b.buffer⟩

/-- What holds of a buffer between two pieces. -/
structure Sound (b : LineBuffer) : Prop where
  /-- What is held is no more than a line may have. -/
  fits : b.buffer.length ≤ b.limit
  /-- Nothing is held of a line that is skipped. -/
  skipped : b.discarding = true → b.buffer = []

theorem sound_new (limit : Nat) : (new limit).Sound := ⟨Nat.zero_le limit, fun _ => rfl⟩

theorem framer_new (limit : Nat) : (new limit).framer = Framer.new limit := rfl

theorem pending_framer (hb : b.Sound) : b.framer.pending = b.pending := by
  obtain ⟨limit, buffer, discarding⟩ := b
  cases discarding with
  | false => rfl
  | true =>
    have hempty : buffer = [] := hb.skipped rfl
    rw [hempty]
    rfl

/-! ## One piece -/

/-- **The end of a line leaves a new buffer**, whether the line was being skipped, is found too long
at its end, or is given out; and gives the command that the framer gives. -/
theorem take_line (hb : b.Sound) (line : Bytes) :
    b.take (line ++ [Line.feed]) = (new b.limit, (b.framer.hold line).finish.2) := by
  obtain ⟨limit, buffer, discarding⟩ := b
  have hlast : (line ++ [Line.feed]).getLast? = some Line.feed := List.getLast?_concat
  simp only [take, hlast, beq_self_eq_true, if_true, List.dropLast_concat]
  cases discarding with
  | true =>
    -- the flag is taken back here, and the buffer was empty all along
    have hempty : buffer = [] := hb.skipped rfl
    rw [hempty]
    rfl
  | false =>
    show _ = (new limit, (Framer.withinLimit limit buffer line).bind Line.command?)
    rw [Framer.withinLimit]
    by_cases hlong : limit < (buffer ++ line).length
    · rw [if_neg (Nat.not_le.mpr hlong), if_pos hlong]
      rfl
    · rw [if_pos (Nat.not_lt.mp hlong), if_neg hlong]
      rfl

/-- The incomplete line grows, or is skipped from here on. -/
theorem take_rest (hb : b.Sound) {rest : Bytes} (hrest : Line.feed ∉ rest) :
    (b.take rest).1.Sound ∧ (b.take rest).1.framer = b.framer.hold rest ∧
      (b.take rest).2 = none := by
  obtain ⟨limit, buffer, discarding⟩ := b
  have hlast : (rest.getLast? == some Line.feed) = false :=
    beq_eq_false_iff_ne.mpr fun h => hrest (List.mem_of_getLast? h)
  simp only [take, hlast, Bool.false_eq_true, if_false]
  cases discarding with
  | true => exact ⟨hb, rfl, rfl⟩
  | false =>
    have hhold : (framer ⟨limit, buffer, false⟩).hold rest =
        ⟨limit, Framer.withinLimit limit buffer rest⟩ := rfl
    rw [hhold, Framer.withinLimit]
    by_cases hlong : limit < (buffer ++ rest).length
    · rw [if_neg (Nat.not_le.mpr hlong), if_pos hlong]
      exact ⟨⟨Nat.zero_le limit, fun _ => rfl⟩, rfl, rfl⟩
    · rw [if_pos (Nat.not_lt.mp hlong), if_neg hlong]
      exact ⟨⟨Nat.not_lt.mp hlong, fun h => absurd h Bool.false_ne_true⟩, rfl, rfl⟩

/-! ## Whole chunks -/

/-- Holding nothing more changes nothing, since what is held fits already. -/
theorem hold_nil (hb : b.Sound) : b.framer.hold [] = b.framer := by
  obtain ⟨limit, buffer, discarding⟩ := b
  cases discarding with
  | true => rfl
  | false =>
    show Framer.mk limit (Framer.withinLimit limit buffer []) = ⟨limit, some buffer⟩
    rw [Framer.withinLimit, List.append_nil, if_pos hb.fits]

/-- The pieces of a chunk do to the buffer what its lines and its rest do to the framer. -/
theorem takeAll_pieces (hb : b.Sound) (lines : List Bytes) {rest : Bytes}
    (hrest : Line.feed ∉ rest) :
    let taken := b.takeAll (lines.map (· ++ [Line.feed]) ++ Line.lastPiece rest)
    taken.1.Sound ∧ taken.1.framer = (b.framer.pushLines lines).1.hold rest ∧
      taken.2 = (b.framer.pushLines lines).2 := by
  induction lines generalizing b with
  | nil =>
    by_cases hempty : rest = []
    · subst hempty
      exact ⟨hb, (hold_nil hb).symm, rfl⟩
    · obtain ⟨hsound, hframer, hnone⟩ := take_rest hb hrest
      rw [List.map_nil, List.nil_append, Line.lastPiece, if_neg hempty]
      refine ⟨hsound, hframer, ?_⟩
      show (b.take rest).2.toList ++ [] = []
      rw [hnone]
      rfl
  | cons line more ih =>
    -- whatever the first line finds, the others find a new buffer, and the framer a new one too
    obtain ⟨hsound, hframer, hcommands⟩ := ih (sound_new b.limit)
    rw [List.map_cons, List.cons_append, takeAll, take_line hb]
    refine ⟨hsound, hframer, ?_⟩
    exact congrArg ((b.framer.hold line).finish.2.toList ++ ·) hcommands

/-- A chunk takes the buffer to the framer that it takes the buffer's framer to. -/
theorem push_framer (hb : b.Sound) (chunk : Bytes) :
    (b.push chunk).1.Sound ∧ (b.push chunk).1.framer = (b.framer.push chunk).1 ∧
      (b.push chunk).2 = (b.framer.push chunk).2 := by
  rw [push, Line.pieces_eq, Framer.push, Line.cut_eq]
  exact takeAll_pieces hb (Line.complete chunk) (Line.feed_not_mem_remainder chunk)

/-- The end of the stream leaves a new buffer, and gives what the framer gives. -/
theorem finish_framer (b : LineBuffer) : b.finish = (new b.limit, b.framer.finish.2) := by
  obtain ⟨limit, buffer, discarding⟩ := b
  cases discarding <;> rfl

/-! ## Sequences of calls -/

/-- Makes a call. -/
def call (b : LineBuffer) : Framer.Call → LineBuffer × Framer.Answer
  | .push chunk =>
    let (next, commands) := b.push chunk
    (next, ⟨commands, next.pending⟩)
  | .finish =>
    let (next, command) := b.finish
    (next, ⟨command.toList, next.pending⟩)

/-- What each call of a sequence gives. -/
def transcript (b : LineBuffer) : List Framer.Call → List Framer.Answer
  | [] => []
  | c :: rest => (b.call c).2 :: (b.call c).1.transcript rest

/-- **One call to a buffer is one call to its framer.** -/
theorem call_framer (hb : b.Sound) (c : Framer.Call) :
    (b.call c).1.Sound ∧ (b.call c).1.framer = (b.framer.call c).1 ∧
      (b.call c).2 = (b.framer.call c).2 := by
  cases c with
  | push chunk =>
    obtain ⟨hsound, hframer, hcommands⟩ := push_framer hb chunk
    refine ⟨hsound, hframer, Framer.Answer.mk.injEq .. |>.mpr ⟨hcommands, ?_⟩⟩
    exact (pending_framer hsound).symm.trans (congrArg Framer.pending hframer)
  | finish =>
    rw [call, finish_framer]
    exact ⟨sound_new b.limit, framer_new b.limit, rfl⟩

/-- **A buffer and its framer give the same answers**, whatever calls are made. -/
theorem transcript_framer (hb : b.Sound) (calls : List Framer.Call) :
    b.transcript calls = b.framer.transcript calls := by
  induction calls generalizing b with
  | nil => rfl
  | cons c rest ih =>
    obtain ⟨hsound, hframer, hanswer⟩ := call_framer hb c
    rw [transcript, Framer.transcript, hanswer, ih hsound, hframer]

/-- A new buffer gives out the lines of the stream, as a new framer does. -/
theorem transcript_new (limit : Nat) (calls : List Framer.Call) :
    (new limit).transcript calls = Framer.expected limit [] calls := by
  rw [transcript_framer (sound_new limit), framer_new, ← Framer.ofStream_nil]
  exact Framer.transcript_ofStream limit [] calls

/-- A line that is too long is skipped over the end of its chunk, and no further. -/
example :
    (new 2).transcript [.push [97, 98, 99], .push [100, 10, 101, 10], .finish] =
      [⟨[], 0⟩, ⟨["E".toList], 0⟩, ⟨[], 0⟩] := by
  decide

end LineBuffer

end WaveGen
