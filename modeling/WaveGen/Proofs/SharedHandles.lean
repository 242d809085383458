import WaveGen.Bench
import WaveGen.Proofs.CommandEffects

/-!
# Sharing instruments through handles (specification §5)

The users of a bench make handles, copy them, and send commands through them, in any order. What a
user sees through a handle is what an instrument of one's own would show that is sent the commands
of this handle's family alone: the handles that descend from the one that came with the instrument.

* `Bench.Step`, `Bench.answers` — what users may do with a bench, and what they are answered.
* `Bench.Record` — what was done: how each handle was made, and what was sent through which.
* `Bench.Record.answer` — what has to be answered, by the record and an instrument of one's own.
* `Bench.Follows` — the bench holds what the record says. Every step preserves it (`Follows.step`).
* `Bench.answers_eq_private` — a bench answers just that.
-/

namespace WaveGen

namespace Bench

/-! ## Steps -/

/-- What a user may do with a bench. -/
inductive Step where
  /-- Makes another handle on the instrument of a handle. -/
  | clone (handle : Nat)
  /-- Adds an instrument of the model with this name, and a handle on it. -/
  | add (id : Text)
  /-- Sends a command through a handle. -/
  | process (handle : Nat) (command : Text)
  /-- Asks for the model of a handle's instrument. -/
  | model (handle : Nat)
deriving DecidableEq, Repr

/-- What a user is answered. -/
inductive Answer where
  /-- A handle with this number was made. -/
  | made (handle : Nat)
  | reply (text : Text)
  | model (model : Model)
  /-- There is no such model. -/
  | fault (fault : ModelFault)
  /-- The handle was not made yet. -/
  | noHandle
deriving DecidableEq, Repr

/-- A step: the bench afterwards and the answer. -/
def step (b : Bench) : Step → Bench × Answer
  | .clone handle =>
    match b.clone? handle with
    | some (next, number) => (next, .made number)
    | none => (b, .noHandle)
  | .add id =>
    match b.addModel id with
    | .ok (next, number) => (next, .made number)
    | .error fault => (b, .fault fault)
  | .process handle command =>
    match b.process? handle command with
    | some (next, reply) => (next, .reply reply)
    | none => (b, .noHandle)
  | .model handle =>
    match b.model? handle with
    | some model => (b, .model model)
    | none => (b, .noHandle)

/-- The bench after several steps. -/
def after (b : Bench) (steps : List Step) : Bench := steps.foldl (fun b s => (b.step s).1) b

/-- The answers to several steps, in their order. -/
def answers (b : Bench) : List Step → List Answer
  | [] => []
  | s :: rest => (b.step s).2 :: (b.step s).1.answers rest

/-! ## Records -/

/-- How a handle was made. -/
inductive Origin where
  /-- With a new instrument of this model. -/
  | instrument (model : Model)
  /-- As another handle on the instrument of this one. -/
  | copy (handle : Nat)

/-- What a handle descends from, if it was made: the handle that came with the instrument, and the
model of the instrument. The origins of all handles are given with the latest first. -/
def root? : List Origin → Nat → Option (Nat × Model)
  | [], _ => none
  | .instrument model :: older, handle =>
    if handle = older.length then some (handle, model) else root? older handle
  | .copy source :: older, handle =>
    if handle = older.length then root? older source else root? older handle

/-- What was done with a bench. -/
structure Record where
  /-- How the handles were made, the latest first. -/
  made : List Origin
  /-- The commands that were sent and the handles that they were sent through, in their order. -/
  sent : List (Nat × Text)

namespace Record

/-- Nothing was done yet. -/
def empty : Record := ⟨[], []⟩

/-- The commands that were sent through the handles that descend from `root`. -/
def commandsTo (r : Record) (root : Nat) : List Text :=
  (r.sent.filter fun send => (root? r.made send.1).map Prod.fst = some root).map Prod.snd

/-- The record with one more step. A handle that was not made and a model that there is not add
nothing. -/
def note (r : Record) : Step → Record
  | .clone handle =>
    if handle < r.made.length then { r with made := .copy handle :: r.made } else r
  | .add id =>
    match Model.parse id with
    | .ok model => { r with made := .instrument model :: r.made }
    | .error _ => r
  | .process handle command =>
    if handle < r.made.length then { r with sent := r.sent ++ [(handle, command)] } else r
  | .model _ => r

/-- The record of several steps. -/
def after (r : Record) (steps : List Step) : Record := steps.foldl note r

/-- What has to be answered to a step. A command is processed by an instrument of one's own, which
was sent the commands of the handle's family and no others. -/
def answer (r : Record) : Step → Answer
  | .clone handle => if handle < r.made.length then .made r.made.length else .noHandle
  | .add id =>
    match Model.parse id with
    | .ok _ => .made r.made.length
    | .error fault => .fault fault
  | .process handle command =>
    match root? r.made handle with
    | some (root, model) =>
      .reply (((Instrument.new model).after (r.commandsTo root)).process command).2
    | none => .noHandle
  | .model handle =>
    match root? r.made handle with
    | some (_, model) => .model model
    | none => .noHandle

/-- What has to be answered to several steps. -/
def answers (r : Record) : List Step → List Answer
  | [] => []
  | s :: rest => r.answer s :: (r.note s).answers rest

end Record

/-! ## Families of handles -/

/-- A handle descends for good from what it descends from when it is made. -/
theorem root?_cons_of_ne {made : List Origin} {handle : Nat} (h : handle ≠ made.length)
    (origin : Origin) : root? (origin :: made) handle = root? made handle := by
  cases origin with
  | instrument model => rw [root?, if_neg h]
  | copy source => rw [root?, if_neg h]

theorem root?_eq_none {made : List Origin} {handle : Nat} (h : made.length ≤ handle) :
    root? made handle = none := by
  induction made with
  | nil => rfl
  | cons origin older ih =>
    rw [List.length_cons] at h
    rw [root?_cons_of_ne (by omega), ih (by omega)]

theorem root?_instrument (made : List Origin) (model : Model) :
    root? (.instrument model :: made) made.length = some (made.length, model) := by
  rw [root?, if_pos rfl]

/-- A copy belongs to the family of the handle it was made from. -/
theorem root?_copy (made : List Origin) (source : Nat) :
    root? (.copy source :: made) made.length = root? made source := by
  rw [root?, if_pos rfl]

namespace Record

/-- The commands of a record were sent through handles that had been made. -/
def Valid (r : Record) : Prop := ∀ send ∈ r.sent, send.1 < r.made.length

/-- Another handle makes no difference to the commands that were sent before. -/
theorem Valid.commandsTo_cons {r : Record} (h : r.Valid) (origin : Origin) (root : Nat) :
    commandsTo { r with made := origin :: r.made } root = r.commandsTo root := by
  refine congrArg (List.map Prod.snd) (List.filter_congr fun send hsend => ?_)
  rw [root?_cons_of_ne (Nat.ne_of_lt (h send hsend))]

/-- A command is one more for the family of its handle, and for no other one. -/
theorem commandsTo_sent (r : Record) (handle : Nat) (command : Text) (root : Nat) :
    commandsTo { r with sent := r.sent ++ [(handle, command)] } root =
      if (root? r.made handle).map Prod.fst = some root then r.commandsTo root ++ [command]
      else r.commandsTo root := by
  rw [commandsTo, List.filter_append, List.map_append]
  by_cases hroot : (root? r.made handle).map Prod.fst = some root <;> simp [hroot, commandsTo]

theorem Valid.note {r : Record} (h : r.Valid) (s : Step) : (r.note s).Valid := by
  cases s with
  | clone handle =>
    rw [Record.note]
    split
    · exact fun send hsend => Nat.lt_succ_of_lt (h send hsend)
    · exact h
  | add id =>
    rw [Record.note]
    split
    · exact fun send hsend => Nat.lt_succ_of_lt (h send hsend)
    · exact h
  | process handle command =>
    rw [Record.note]
    split
    · rename_i hhandle
      intro send hsend
      rcases List.mem_append.mp hsend with hold | hnew
      · exact h send hold
      · rw [List.mem_singleton.mp hnew]
        exact hhandle
    · exact h
  | model handle => exact h

end Record

/-! ## The bench of a record -/

theorem getElem?_append_of_eq_some {α : Type} {xs : List α} {n : Nat} {x : α}
    (h : xs[n]? = some x) (more : List α) : (xs ++ more)[n]? = some x := by
  rw [List.getElem?_append_left (List.getElem?_eq_some_iff.mp h).1, h]

/-- A bench holds what was recorded. -/
structure Follows (b : Bench) (r : Record) : Prop where
  handles : b.handles.length = r.made.length
  valid : r.Valid
  /-- A handle's instrument has processed the commands of the handle's family. -/
  instrument : ∀ {handle place}, b.place? handle = some place →
    ∃ root model, root? r.made handle = some (root, model) ∧ b.place? root = some place ∧
      b.instruments[place]? = some ((Instrument.new model).after (r.commandsTo root))
  /-- Handles on one instrument are of one family. -/
  family : ∀ {handle other place}, b.place? handle = some place → b.place? other = some place →
    root? r.made handle = root? r.made other

namespace Follows

variable {b : Bench} {r : Record}

theorem empty : Follows Bench.empty Record.empty where
  handles := rfl
  valid send hsend := by cases hsend
  instrument h := by cases h
  family h := by cases h

theorem place?_isSome_iff (h : Follows b r) {handle : Nat} :
    (b.place? handle).isSome = true ↔ handle < r.made.length := by
  rw [place?, ← h.handles, isSome_getElem?]

/-- The handles of one family are on one instrument. -/
theorem place?_eq_of_root (h : Follows b r) {handle other place place' : Nat}
    (hplace : b.place? handle = some place) (hother : b.place? other = some place')
    (hroot : (root? r.made handle).map Prod.fst = (root? r.made other).map Prod.fst) :
    place = place' := by
  obtain ⟨root, model, hfound, hhome, -⟩ := h.instrument hplace
  obtain ⟨root', model', hfound', hhome', -⟩ := h.instrument hother
  rw [hfound, hfound'] at hroot
  cases hroot
  rw [hhome] at hhome'
  exact Option.some.inj hhome'

theorem place_lt (h : Follows b r) {handle place : Nat} (hplace : b.place? handle = some place) :
    place < b.instruments.length := by
  obtain ⟨root, model, -, -, hinstrument⟩ := h.instrument hplace
  exact (List.getElem?_eq_some_iff.mp hinstrument).1

theorem handle_lt (h : Follows b r) {handle place : Nat} (hplace : b.place? handle = some place) :
    handle < r.made.length :=
  h.place?_isSome_iff.mp (Option.isSome_of_eq_some hplace)

/-- The first handle on an instrument was not sent anything before it was made. -/
theorem commandsTo_fresh (h : Follows b r) : r.commandsTo r.made.length = [] := by
  rw [Record.commandsTo, List.map_eq_nil_iff, List.filter_eq_nil_iff]
  intro send hsend hroot
  obtain ⟨place, hplace⟩ :=
    Option.isSome_iff_exists.mp (h.place?_isSome_iff.mpr (h.valid send hsend))
  obtain ⟨root, model, hfound, hhome, -⟩ := h.instrument hplace
  have hself : root = r.made.length := by simpa [hfound] using hroot
  exact Nat.lt_irrefl _ (hself ▸ h.handle_lt hhome)

/-- **Another handle**, on an instrument that is there or on one that is added with it. -/
theorem made (h : Follows b r) (origin : Origin) (more : List Instrument) (place : Nat)
    (hnew : ∃ root model, root? (origin :: r.made) r.made.length = some (root, model) ∧
      (b.handles ++ [place])[root]? = some place ∧
      (b.instruments ++ more)[place]? =
        some ((Instrument.new model).after (r.commandsTo root)))
    (hfamily : ∀ {other}, b.place? other = some place →
      root? r.made other = root? (origin :: r.made) r.made.length) :
    Follows ⟨b.instruments ++ more, b.handles ++ [place]⟩
      { r with made := origin :: r.made } := by
  -- a handle of the longer list is an old one, or the one that was made
  have hcases : ∀ {handle found : Nat}, (b.handles ++ [place])[handle]? = some found →
      handle ≠ r.made.length ∧ b.place? handle = some found ∨
        handle = r.made.length ∧ found = place := by
    intro handle found hfound
    rw [List.getElem?_append, h.handles] at hfound
    split at hfound
    · exact .inl ⟨by omega, hfound⟩
    · obtain ⟨hzero, hlast⟩ := List.getElem?_eq_some_iff.mp hfound
      rw [List.length_singleton] at hzero
      exact .inr ⟨by omega, by simpa using hlast.symm⟩
  refine ⟨?_, ?_, ?_, ?_⟩
  · rw [List.length_append, h.handles]
    rfl
  · exact fun send hsend => Nat.lt_succ_of_lt (h.valid send hsend)
  · intro handle found hfound
    obtain ⟨hold, hplace⟩ | ⟨rfl, rfl⟩ := hcases hfound
    · obtain ⟨root, model, hroot, hhome, hinstrument⟩ := h.instrument hplace
      refine ⟨root, model, ?_, ?_, ?_⟩
      · rw [root?_cons_of_ne hold, hroot]
      · exact getElem?_append_of_eq_some hhome _
      · rw [h.valid.commandsTo_cons]
        exact getElem?_append_of_eq_some hinstrument _
    · obtain ⟨root, model, hroot, hhome, hinstrument⟩ := hnew
      refine ⟨root, model, hroot, hhome, ?_⟩
      rw [h.valid.commandsTo_cons]
      exact hinstrument
  · intro handle other found hfound hfound'
    obtain ⟨hold, hplace⟩ | ⟨rfl, rfl⟩ := hcases hfound
    · obtain ⟨hold', hplace'⟩ | ⟨rfl, rfl⟩ := hcases hfound'
      · rw [root?_cons_of_ne hold, root?_cons_of_ne hold', h.family hplace hplace']
      · rw [root?_cons_of_ne hold, hfamily hplace]
    · obtain ⟨hold', hplace'⟩ | ⟨rfl, -⟩ := hcases hfound'
      · rw [root?_cons_of_ne hold', hfamily hplace']
      · rfl

/-- A command to an instrument is one more for the handles of its family. -/
theorem processed (h : Follows b r) {handle place root : Nat} {model : Model} {command : Text}
    (hplace : b.place? handle = some place) (hroot : root? r.made handle = some (root, model)) :
    Follows
      { b with
        instruments := b.instruments.set place
          ((((Instrument.new model).after (r.commandsTo root)).process command).1) }
      { r with sent := r.sent ++ [(handle, command)] } := by
  have hvalid := h.valid.note (.process handle command)
  rw [Record.note, if_pos (h.handle_lt hplace)] at hvalid
  refine ⟨h.handles, hvalid, ?_, h.family⟩
  · intro other found hfound
    obtain ⟨root', model', hroot', hhome, hinstrument⟩ := h.instrument hfound
    refine ⟨root', model', hroot', hhome, ?_⟩
    rw [Record.commandsTo_sent, hroot]
    by_cases hsame : place = found
    · -- the handle that was used is of the same family
      subst hsame
      have hfamily := h.family hplace hfound
      rw [hroot, hroot'] at hfamily
      cases hfamily
      rw [Option.map_some, if_pos rfl, Instrument.after_append]
      exact List.getElem?_set_self (h.place_lt hplace)
    · rw [if_neg, List.getElem?_set_ne hsame, hinstrument]
      intro hother
      exact hsame (h.place?_eq_of_root hplace hfound (by rw [hroot, hroot', hother]; rfl))

/-- The model of a handle's instrument is that of its family. -/
theorem model?_eq (h : Follows b r) (handle : Nat) :
    b.model? handle = (root? r.made handle).map Prod.snd := by
  rw [model?, instrument?]
  cases hplace : b.place? handle with
  | none =>
    have hnot : ¬ handle < r.made.length := by
      rw [← h.place?_isSome_iff, hplace]
      exact Bool.false_ne_true
    rw [root?_eq_none (Nat.le_of_not_lt hnot)]
    rfl
  | some place =>
    obtain ⟨root, model, hroot, -, hinstrument⟩ := h.instrument hplace
    rw [hroot, Option.bind_some, hinstrument, Option.map_some, Instrument.model_after]
    rfl

/-- **Every step** is answered as the record asks, and the bench goes on to hold what is
recorded. -/
theorem step (h : Follows b r) (s : Step) :
    (b.step s).2 = r.answer s ∧ Follows (b.step s).1 (r.note s) := by
  cases s with
  | clone handle =>
    rw [Bench.step, clone?, Record.answer, Record.note]
    cases hplace : b.place? handle with
    | none =>
      have hnot : ¬ handle < r.made.length := by
        rw [← h.place?_isSome_iff, hplace]
        exact Bool.false_ne_true
      rw [if_neg hnot, if_neg hnot]
      exact ⟨rfl, h⟩
    | some place =>
      rw [if_pos (h.handle_lt hplace), if_pos (h.handle_lt hplace)]
      refine ⟨congrArg Answer.made h.handles, ?_⟩
      have hmade := h.made (.copy handle) [] place
      rw [List.append_nil, root?_copy] at hmade
      obtain ⟨root, model, hroot, hhome, hinstrument⟩ := h.instrument hplace
      exact hmade ⟨root, model, hroot, getElem?_append_of_eq_some hhome _, hinstrument⟩
        fun hother => h.family hother hplace
  | add id =>
    rw [Bench.step, addModel, Instrument.ofModelName, Record.answer, Record.note]
    cases Model.parse id with
    | error fault => exact ⟨rfl, h⟩
    | ok model =>
      refine ⟨congrArg Answer.made h.handles, ?_⟩
      refine h.made (.instrument model) [Instrument.new model] b.instruments.length
        ⟨r.made.length, model, root?_instrument r.made model, ?_, ?_⟩ ?_
      · rw [← h.handles, List.getElem?_concat_length]
      · rw [h.commandsTo_fresh, Instrument.after_nil, List.getElem?_concat_length]
      · -- no handle can be on an instrument that was not there
        intro other hother
        exact absurd (h.place_lt hother) (Nat.lt_irrefl _)
  | process handle command =>
    rw [Bench.step, process?, Record.answer, Record.note]
    cases hplace : b.place? handle with
    | none =>
      have hnot : ¬ handle < r.made.length := by
        rw [← h.place?_isSome_iff, hplace]
        exact Bool.false_ne_true
      rw [if_neg hnot, root?_eq_none (Nat.le_of_not_lt hnot)]
      exact ⟨rfl, h⟩
    | some place =>
      obtain ⟨root, model, hroot, -, hinstrument⟩ := h.instrument hplace
      rw [if_pos (h.handle_lt hplace), hroot]
      simp only [Option.bind_eq_bind, Option.bind_some, hinstrument]
      exact ⟨rfl, h.processed hplace hroot⟩
  | model handle =>
    rw [Bench.step, h.model?_eq, Record.answer, Record.note]
    cases root? r.made handle with
    | none => exact ⟨rfl, h⟩
    | some found => exact ⟨rfl, h⟩

/-- All steps are answered as the record asks. -/
theorem answers_eq (h : Follows b r) (steps : List Step) : b.answers steps = r.answers steps := by
  induction steps generalizing b r with
  | nil => rfl
  | cons s rest ih =>
    obtain ⟨hanswer, hnext⟩ := h.step s
    rw [answers, Record.answers, hanswer, ih hnext]

theorem after (h : Follows b r) (steps : List Step) : Follows (b.after steps) (r.after steps) := by
  induction steps generalizing b r with
  | nil => exact h
  | cons s rest ih => exact ih (h.step s).2

end Follows

/-! ## Other families -/

/-- Whether a step may concern the family of `root`: it is no command, or a command through one of
its handles. -/
def concerns (made : List Origin) (root : Nat) : Step → Bool
  | .process handle _ => (root? made handle).map Prod.fst = some root
  | _ => true

theorem made_note_suffix (r : Record) (s : Step) : r.made <:+ (r.note s).made := by
  unfold Record.note
  split
  · split
    · exact List.suffix_cons _ _
    · exact List.suffix_rfl
  · split
    · exact List.suffix_cons _ _
    · exact List.suffix_rfl
  · split <;> exact List.suffix_rfl
  · exact List.suffix_rfl

theorem Record.after_append (r : Record) (steps more : List Step) :
    r.after (steps ++ more) = (r.after steps).after more := List.foldl_append

theorem made_after_suffix (r : Record) (steps : List Step) : r.made <:+ (r.after steps).made := by
  induction steps generalizing r with
  | nil => exact List.suffix_rfl
  | cons s rest ih => exact (made_note_suffix r s).trans (ih (r.note s))

/-- Families only grow: a handle stays in the one that it was made in. -/
theorem root?_of_suffix {made later : List Origin} (hsuffix : made <:+ later) {handle : Nat}
    (h : handle < made.length) : root? later handle = root? made handle := by
  obtain ⟨front, rfl⟩ := hsuffix
  induction front with
  | nil => rfl
  | cons origin rest ih =>
    rw [List.cons_append, root?_cons_of_ne, ih]
    rw [List.length_append]
    omega

/-- Two records that tell the same of one family. -/
structure SameFamily (root : Nat) (r r' : Record) : Prop where
  made : r.made = r'.made
  commands : r.commandsTo root = r'.commandsTo root
  valid : r.Valid
  valid' : r'.Valid

namespace SameFamily

variable {root : Nat} {r r' : Record}

/-- A family is answered by what is recorded of it. -/
theorem answer (h : SameFamily root r r') {handle : Nat} {model : Model}
    (hroot : root? r.made handle = some (root, model)) (command : Text) :
    r.answer (.process handle command) = r'.answer (.process handle command) := by
  rw [Record.answer, Record.answer, ← h.made, hroot]
  dsimp only
  rw [h.commands]

theorem cons (h : SameFamily root r r') (origin : Origin) :
    SameFamily root { r with made := origin :: r.made } { r' with made := origin :: r'.made } where
  made := congrArg (List.cons origin) h.made
  commands := by rw [h.valid.commandsTo_cons, h.valid'.commandsTo_cons, h.commands]
  valid send hsend := Nat.lt_succ_of_lt (h.valid send hsend)
  valid' send hsend := Nat.lt_succ_of_lt (h.valid' send hsend)

theorem note (h : SameFamily root r r') (s : Step) : SameFamily root (r.note s) (r'.note s) := by
  have hvalid := h.valid.note s
  have hvalid' := h.valid'.note s
  cases s with
  | clone handle =>
    rw [Record.note, Record.note]
    by_cases hhandle : handle < r.made.length
    · rw [if_pos hhandle, if_pos (h.made ▸ hhandle)]
      exact h.cons (.copy handle)
    · rw [if_neg hhandle, if_neg (h.made ▸ hhandle)]
      exact h
  | add id =>
    rw [Record.note, Record.note]
    cases Model.parse id with
    | ok model => exact h.cons (.instrument model)
    | error fault => exact h
  | process handle command =>
    rw [Record.note] at hvalid hvalid' ⊢
    rw [Record.note]
    by_cases hhandle : handle < r.made.length
    · have hhandle' : handle < r'.made.length := h.made ▸ hhandle
      rw [if_pos hhandle] at hvalid
      rw [if_pos hhandle'] at hvalid'
      rw [if_pos hhandle, if_pos hhandle']
      refine ⟨h.made, ?_, hvalid, hvalid'⟩
      rw [Record.commandsTo_sent, Record.commandsTo_sent, h.made, h.commands]
    · rw [if_neg hhandle, if_neg (h.made ▸ hhandle)]
      exact h
  | model handle => exact h

/-- Commands to other families need not be recorded. -/
theorem note_other (h : SameFamily root r r') {handle : Nat}
    (hother : (root? r.made handle).map Prod.fst ≠ some root) (command : Text) :
    SameFamily root (r.note (.process handle command)) r' := by
  have hvalid := h.valid.note (.process handle command)
  rw [Record.note] at hvalid ⊢
  split
  · rename_i hhandle
    rw [if_pos hhandle] at hvalid
    refine ⟨h.made, ?_, hvalid, h.valid'⟩
    rw [Record.commandsTo_sent, if_neg hother, h.commands]
  · exact h

/-- A family is recorded in the same way without the commands to all others. -/
theorem after (h : SameFamily root r r') (steps : List Step) :
    SameFamily root (r.after steps)
      (r'.after (steps.filter (concerns (r.after steps).made root))) := by
  induction steps generalizing r r' with
  | nil => exact h
  | cons s rest ih =>
    show SameFamily root ((r.note s).after rest) _
    rw [List.filter_cons]
    have hlater : (r.after (s :: rest)).made = ((r.note s).after rest).made := rfl
    rw [hlater]
    split
    · exact ih (h.note s)
    · rename_i hs
      -- what is left out is a command to another family, also as the families were at the time
      cases s with
      | process handle command =>
        refine ih (h.note_other (fun hroot => hs ?_) command)
        by_cases hhandle : handle < r.made.length
        · have hsuffix := (made_note_suffix r (.process handle command)).trans
            (made_after_suffix _ rest)
          rw [concerns, root?_of_suffix hsuffix hhandle, hroot]
          exact decide_eq_true rfl
        · rw [root?_eq_none (Nat.le_of_not_lt hhandle)] at hroot
          cases hroot
      | clone handle => exact absurd rfl hs
      | add id => exact absurd rfl hs
      | model handle => exact absurd rfl hs

end SameFamily

/-! ## The main result -/

/-- **Handles on shared instruments.** Whatever is done with a bench, in whatever order,

* each handle answers as an instrument of one's own would that was sent the commands of the handle's
  family, in their order, and nothing else;
* so it replies the same if the commands to all other families are left out;
* the model of its instrument stays what it is. -/
theorem answers_eq_private (steps : List Step) :
    Bench.empty.answers steps = Record.empty.answers steps ∧
      (∀ handle root model, root? (Record.empty.after steps).made handle = some (root, model) →
        ∀ command,
          ((Bench.empty.after
              (steps.filter (concerns (Record.empty.after steps).made root))).step
            (.process handle command)).2 =
          ((Bench.empty.after steps).step (.process handle command)).2) ∧
      ∀ more handle model, (Bench.empty.after steps).model? handle = some model →
        (Bench.empty.after (steps ++ more)).model? handle = some model := by
  have hempty : Record.empty.Valid := Follows.empty.valid
  refine ⟨Follows.empty.answers_eq steps, fun handle root model hroot command => ?_,
    fun more handle model hmodel => ?_⟩
  · have hfamily : SameFamily root Record.empty Record.empty := ⟨rfl, rfl, hempty, hempty⟩
    rw [((Follows.empty.after _).step _).1, ((Follows.empty.after _).step _).1]
    exact ((hfamily.after steps).answer hroot command).symm
  · have hfollows := Follows.empty.after steps
    rw [hfollows.model?_eq] at hmodel
    rw [(Follows.empty.after (steps ++ more)).model?_eq, ← hmodel, Record.after_append]
    have hhandle : handle < (Record.empty.after steps).made.length := by
      by_contra hnot
      rw [root?_eq_none (Nat.le_of_not_lt hnot)] at hmodel
      cases hmodel
    rw [root?_of_suffix (made_after_suffix _ more) hhandle]

end Bench

end WaveGen
