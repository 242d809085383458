import WaveGen.Proofs.Reports

/-!
# Header modes (specification §4.2)

The header mode says how the header of a reply is written, and it says nothing else: no command but
the one that asks for the mode looks at it. So an instrument can be run in all three modes side by
side. The three stay alike but for the mode, and what they reply to a command is one reply with its
header in short verbs, in long verbs, or left out.

* `Instrument.withHeader` — the instrument with another header mode.
* `Instrument.route_withHeader` — a command is carried out alike in all modes.
* `Instrument.HasSwitches` — the header mode and the buzzer always hold one of their values.
* `Instrument.Answer.headed_form` — every reply but the identification is a short verb path, a
  space, and parameters.
* `Instrument.replies_differ_in_header` — the three replies to a command.
-/

namespace WaveGen

/-! ## Headers of replies -/

namespace Header

/-- A verb path in its short spelling, which is found again from the long one. -/
def IsShort (path : Text) : Prop :=
  ' ' ∉ path ∧ shorten path = path ∧ shorten (lengthen path) = path

instance (path : Text) : Decidable (IsShort path) :=
  inferInstanceAs (Decidable (' ' ∉ path ∧ shorten path = path ∧ shorten (lengthen path) = path))

end Header

/-- A reply with a short verb path in each of the modes. -/
theorem HeaderMode.format_append {path : Text} (hpath : Header.IsShort path) (parameters : Text) :
    short.format (path ++ ' ' :: parameters) = path ++ ' ' :: parameters ∧
      long.format (path ++ ' ' :: parameters) = Header.lengthen path ++ ' ' :: parameters ∧
      off.format (path ++ ' ' :: parameters) = parameters := by
  obtain ⟨hspace, hshort, -⟩ := hpath
  refine ⟨?_, Header.respell_append hspace parameters, ?_⟩
  · exact (Header.respell_append hspace parameters).trans (by rw [← Header.shorten, hshort])
  · show (Header.parameters? (path ++ ' ' :: parameters)).getD [] = parameters
    rw [Header.parameters?, Text.after?_append_cons hspace]
    rfl

theorem HeaderMode.ofSetting_name (mode : HeaderMode) : ofSetting mode.name = mode := by
  cases mode <;> rfl

namespace Instrument

/-! ## Instruments in another mode -/

/-- The instrument with another header mode. -/
def withHeader (i : Instrument) (mode : HeaderMode) : Instrument :=
  { i with settings := i.settings.set Key.header mode.name }

@[simp] theorem withHeader_withHeader (i : Instrument) (mode other : HeaderMode) :
    (i.withHeader mode).withHeader other = i.withHeader other :=
  congrArg (fun settings => { i with settings }) (Settings.set_set ..)

theorem withHeader_eq_self {i : Instrument} {mode : HeaderMode}
    (h : i.settings.value Key.header = mode.name) : i.withHeader mode = i := by
  rw [withHeader, ← h, Settings.set_value]

@[simp] theorem channel_withHeader (i : Instrument) (mode : HeaderMode) (id : ChannelId) :
    (i.withHeader mode).channel id = i.channel id := by cases id <;> rfl

theorem withChannel_withHeader (i : Instrument) (mode : HeaderMode) (id : ChannelId)
    (s : Settings) :
    (i.withHeader mode).withChannel id s = (i.withChannel id s).withHeader mode := by
  cases id <;> rfl

theorem value_withHeader (i : Instrument) (mode : HeaderMode) {key : Text} (h : key ≠ Key.header) :
    (i.withHeader mode).settings.value key = i.settings.value key :=
  Settings.value_set_of_ne h i.settings mode.name

theorem headerMode_withHeader {i : Instrument} (h : i.HasKeys) (mode : HeaderMode) :
    (i.withHeader mode).headerMode = mode := by
  have hcontains : i.settings.contains Key.header = true := by
    rw [Settings.contains_iff_mem_keys, h.device]
    decide
  rw [headerMode, withHeader, Settings.value_set_self hcontains, HeaderMode.ofSetting_name]

/-! ## Commands in another mode -/

theorem commHeader_withHeader (i : Instrument) (mode : HeaderMode) (command : Text) :
    (∃ held, ((i.withHeader mode).commHeader command).1 =
        (i.commHeader command).1.withHeader held) ∧
      (command ≠ "CHDR?".toList →
        ((i.withHeader mode).commHeader command).2 = (i.commHeader command).2) := by
  rw [commHeader, commHeader]
  by_cases hquery : command = "CHDR?".toList
  · rw [if_pos hquery, if_pos hquery]
    exact ⟨⟨mode, rfl⟩, fun hother => absurd hquery hother⟩
  · rw [if_neg hquery, if_neg hquery]
    cases soleParameter command with
    | error fault => exact ⟨⟨mode, rfl⟩, fun _ => rfl⟩
    | ok name =>
      dsimp only
      cases HeaderMode.parse name with
      | error fault => exact ⟨⟨mode, rfl⟩, fun _ => rfl⟩
      | ok wanted =>
        -- the mode that was there before is gone either way
        refine ⟨⟨wanted, ?_⟩, fun _ => rfl⟩
        exact (withHeader_withHeader i mode wanted).trans
          (withHeader_withHeader i wanted wanted).symm

theorem buzzer_withHeader (i : Instrument) (mode : HeaderMode) (command : Text) :
    (i.withHeader mode).buzzer command =
      ((i.buzzer command).1.withHeader mode, (i.buzzer command).2) := by
  rw [buzzer, buzzer, value_withHeader i mode (by decide)]
  split
  · rfl
  · cases soleParameter command with
    | error fault => rfl
    | ok value =>
      dsimp only
      split
      · have hkeys : Key.header ≠ Key.buzzer := by decide
        rw [withHeader, withHeader, Settings.set_comm hkeys]
      · rfl

theorem storeList_withHeader (i : Instrument) (mode : HeaderMode) (command : Text) :
    (i.withHeader mode).storeList command = i.storeList command := by
  rw [storeList, storeList, value_withHeader i mode (by decide),
    value_withHeader i mode (by decide)]

theorem parameterCopy_withHeader (i : Instrument) (mode : HeaderMode) (command : Text) :
    (i.withHeader mode).parameterCopy command =
      ((i.parameterCopy command).1.withHeader mode, (i.parameterCopy command).2) := by
  rw [parameterCopy, parameterCopy]
  cases copyParameters command with
  | error fault => rfl
  | ok pair =>
    dsimp only
    rw [channel_withHeader, channel_withHeader, withChannel_withHeader]

theorem channelCommand_withHeader (i : Instrument) (mode : HeaderMode) (index : Nat)
    (command : Text) :
    (i.withHeader mode).channelCommand index command =
      ((i.channelCommand index command).1.withHeader mode, (i.channelCommand index command).2) := by
  rw [channelCommand, channelCommand]
  cases ChannelId.ofIndex? index with
  | none => rfl
  | some id =>
    dsimp only
    rw [channel_withHeader, withChannel_withHeader]

/-- **Carrying out a command does not look at the header mode**, unless it is asked for. -/
theorem route_withHeader (i : Instrument) (mode : HeaderMode) (command : Text) :
    (∃ held, ((i.withHeader mode).route command).1 = (i.route command).1.withHeader held) ∧
      (command ≠ "CHDR?".toList →
        ((i.withHeader mode).route command).2 = (i.route command).2) := by
  rw [route, route]
  cases Route.ofCommand command with
  | identification => exact ⟨⟨mode, rfl⟩, fun _ => rfl⟩
  | operationComplete => exact ⟨⟨mode, rfl⟩, fun _ => rfl⟩
  | parameterCopy =>
    dsimp only
    rw [parameterCopy_withHeader]
    exact ⟨⟨mode, rfl⟩, fun _ => rfl⟩
  | reset =>
    -- the mode is the first one again
    have hmode : i.reset.settings.value Key.header = HeaderMode.short.name := rfl
    exact ⟨⟨.short, (withHeader_eq_self hmode).symm⟩, fun _ => rfl⟩
  | commHeader => exact commHeader_withHeader i mode command
  | buzzer =>
    dsimp only
    rw [buzzer_withHeader]
    exact ⟨⟨mode, rfl⟩, fun _ => rfl⟩
  | storeList =>
    dsimp only
    rw [storeList_withHeader]
    exact ⟨⟨mode, rfl⟩, fun _ => rfl⟩
  | channel index =>
    dsimp only
    rw [channelCommand_withHeader]
    exact ⟨⟨mode, rfl⟩, fun _ => rfl⟩
  | nowhere => exact ⟨⟨mode, rfl⟩, fun _ => rfl⟩

/-- Instruments that differ in their mode only differ in it only after a command. -/
theorem process_withHeader (i : Instrument) (mode other : HeaderMode) (command : Text) :
    ∃ held, ((i.withHeader other).process command).1 =
      ((i.withHeader mode).process command).1.withHeader held := by
  obtain ⟨⟨held, hheld⟩, -⟩ := route_withHeader i mode (normalize command)
  obtain ⟨⟨held', hheld'⟩, -⟩ := route_withHeader i other (normalize command)
  refine ⟨held', ?_⟩
  rw [process_fst, process_fst, hheld, hheld', withHeader_withHeader]

/-! ## Switches -/

/-- The header mode and the buzzer hold one of their values. -/
structure HasSwitches (i : Instrument) : Prop where
  header : ∃ mode : HeaderMode, i.settings.value Key.header = mode.name
  buzzer : i.settings.value Key.buzzer = "ON".toList ∨ i.settings.value Key.buzzer = "OFF".toList

theorem hasSwitches_new (model : Model) : (new model).HasSwitches where
  header := ⟨.short, rfl⟩
  buzzer := .inl rfl

theorem HasSwitches.process {i : Instrument} (h : i.HasSwitches) (command : Text) :
    (i.process command).1.HasSwitches := by
  have heffect := process_effect i command
  generalize (i.process command).1 = changed at heffect ⊢
  cases heffect with
  | none => exact h
  | header tail name mode =>
    constructor
    · rcases i.settings.value_set_cases Key.header mode.name Key.header with hnew | hold
      · exact ⟨mode, hnew⟩
      · obtain ⟨held, hheld⟩ := h.header
        exact ⟨held, hold.trans hheld⟩
    · dsimp only
      rw [Settings.value_set_of_ne (by decide)]
      exact h.buzzer
  | buzzer tail value hcommand hvalue hstate =>
    constructor
    · dsimp only
      rw [Settings.value_set_of_ne (by decide)]
      exact h.header
    · dsimp only
      rcases i.settings.value_set_cases Key.buzzer value Key.buzzer with hnew | hold
      · rw [hnew]
        exact hstate
      · rw [hold]
        exact h.buzzer
  | copy tail target source => exact ⟨by simpa using h.header, by simpa using h.buzzer⟩
  | reset => exact hasSwitches_new i.model
  | channel id settings => exact ⟨by simpa using h.header, by simpa using h.buzzer⟩

theorem hasSwitches_after (model : Model) (commands : List Text) :
    ((new model).after commands).HasSwitches :=
  after_preserves (fun _ command h => h.process command) (hasSwitches_new model) commands

/-! ## The form of replies -/

theorem isShort_address (id : ChannelId) :
    Header.IsShort (id.address ++ "OUTP".toList) ∧
      Header.IsShort (id.address ++ "BSWV".toList) := by
  cases id <;> decide +kernel

/-- Every reply but the identification is a short verb path, a space, and parameters. -/
theorem Answer.headed_form {i : Instrument} (hlists : i.HasStoreLists) (hswitches : i.HasSwitches)
    {command : Text} {reply : Reply} (h : Answer i command reply) :
    command = "*IDN?".toList ∧ reply = i.identification ∨
      command ≠ "*IDN?".toList ∧ ∃ path parameters, Header.IsShort path ∧ parameters ≠ [] ∧
        reply = .headed (path ++ ' ' :: parameters) := by
  have hbuiltIn : i.settings.value Key.builtIn = "STL".toList ++ ' ' :: StoreList.builtIn.drop 4 :=
    hlists.builtIn
  have huser : i.settings.value Key.user = "STL".toList ++ ' ' :: "WVNM".toList := hlists.user
  cases h with
  | identification => exact .inl ⟨rfl, rfl⟩
  | complete => exact .inr ⟨by decide, "*OPC".toList, "1".toList, by decide +kernel, by decide, rfl⟩
  | header =>
    obtain ⟨mode, hmode⟩ := hswitches.header
    refine .inr ⟨by decide, "CHDR".toList, mode.name, by decide +kernel,
      by cases mode <;> decide, ?_⟩
    rw [hmode]
    rfl
  | buzzer =>
    refine .inr ⟨by decide, "BUZZ".toList, i.settings.value Key.buzzer, by decide +kernel, ?_, rfl⟩
    rcases hswitches.buzzer with hstate | hstate <;> rw [hstate] <;> decide
  | storeList =>
    rw [hbuiltIn]
    exact .inr ⟨by decide, _, _, by decide +kernel, by decide +kernel, rfl⟩
  | builtIn tail htail =>
    rw [hbuiltIn]
    exact .inr ⟨Text.append_space_ne (by decide) _ _, _, _, by decide +kernel,
      by decide +kernel, rfl⟩
  | user tail htail =>
    rw [huser]
    exact .inr ⟨Text.append_space_ne (by decide) _ _, _, _, by decide +kernel, by decide, rfl⟩
  | output id =>
    rw [Channel.outputReport_eq, address_channel]
    refine .inr ⟨by cases id <;> decide, _, _, (isShort_address id).1, ?_, rfl⟩
    exact Channel.join_outputFields_ne_nil _
  | wave id =>
    rw [Channel.basicWaveReport_eq, address_channel]
    refine .inr ⟨by cases id <;> decide, _, _, (isShort_address id).2, ?_, rfl⟩
    exact Channel.join_waveFields_ne_nil _

/-- A command that does not ask for the mode gets the same answer in all modes, or none in any. -/
theorem answer_withHeader (i : Instrument) (mode : HeaderMode) {command : Text} {reply : Reply}
    (hcommand : command ≠ "CHDR?".toList) :
    Answer (i.withHeader mode) command reply ↔ Answer i command reply := by
  rw [answer_iff_route, answer_iff_route, (route_withHeader i mode command).2 hcommand]

/-- The replies in all modes to a command that asks neither for the mode nor for the
identification. -/
theorem process_snd_withHeader {i : Instrument} (hkeys : i.HasKeys) (hlists : i.HasStoreLists)
    (hswitches : i.HasSwitches) {command : Text} (hcommand : normalize command ≠ "CHDR?".toList)
    (hother : normalize command ≠ "*IDN?".toList) :
    (∀ mode, ((i.withHeader mode).process command).2 = []) ∨
      ∃ path parameters, Header.IsShort path ∧ parameters ≠ [] ∧
        ∀ mode, ((i.withHeader mode).process command).2 =
          mode.format (path ++ ' ' :: parameters) := by
  by_cases hanswer : ∃ reply, Answer i (normalize command) reply
  · obtain ⟨reply, hanswer⟩ := hanswer
    obtain ⟨hidentify, -⟩ | ⟨-, path, parameters, hpath, hparameters, rfl⟩ :=
      hanswer.headed_form hlists hswitches
    · exact absurd hidentify hother
    · refine .inr ⟨path, parameters, hpath, hparameters, fun mode => ?_⟩
      rw [((answer_withHeader i mode hcommand).mpr hanswer).process]
      show (i.withHeader mode).headerMode.format _ = _
      rw [headerMode_withHeader hkeys]
  · refine .inl fun mode => ?_
    have hnone := process_snd_eq_nil_or_answer (i.withHeader mode) command
    refine hnone.resolve_right fun ⟨reply, h⟩ => hanswer ⟨reply, ?_⟩
    exact (answer_withHeader i mode hcommand).mp h

/-- **Replies differ in their header only.** Whatever an instrument has been through, its header
mode is one of the three, and in whichever of them it is run,

* a command leaves it in states that differ at most in the mode;
* a command other than `CHDR?` gets no reply in all modes, or the same identification, or one reply
  of which the modes write the verb path in short verbs, in long verbs, or not at all. -/
theorem replies_differ_in_header (model : Model) (history : List Text) (command : Text) :
    let i := (new model).after history
    let reply := fun mode => ((i.withHeader mode).process command).2
    (∃ mode : HeaderMode, i.settings.value Key.header = mode.name ∧ i.withHeader mode = i) ∧
      (∀ mode other, ∃ held, ((i.withHeader other).process command).1 =
        ((i.withHeader mode).process command).1.withHeader held) ∧
      (normalize command ≠ "CHDR?".toList →
        (reply .short = [] → ∀ mode, reply mode = []) ∧
        (normalize command = "*IDN?".toList → ∀ mode, reply mode = model.identification) ∧
        (reply .short ≠ [] → normalize command ≠ "*IDN?".toList →
          ∃ path parameters, ' ' ∉ path ∧ parameters ≠ [] ∧
            reply .short = path ++ ' ' :: parameters ∧
            reply .long = Header.lengthen path ++ ' ' :: parameters ∧
            reply .off = parameters ∧
            Header.shorten (Header.lengthen path) = path)) := by
  intro i reply
  have hkeys : i.HasKeys := hasKeys_after model history
  have hlists : i.HasStoreLists := hasStoreLists_after model history
  have hswitches : i.HasSwitches := hasSwitches_after model history
  obtain ⟨mode, hmode⟩ := hswitches.header
  refine ⟨⟨mode, hmode, withHeader_eq_self hmode⟩, fun mode other => ?_, fun hcommand => ?_⟩
  · exact process_withHeader i mode other command
  by_cases hidentify : normalize command = "*IDN?".toList
  · have hall : ∀ mode, reply mode = model.identification := by
      intro mode
      have hmodel : i.model = model := model_after (new model) history
      rw [← hmodel]
      exact process_identification hidentify
    refine ⟨fun hnone mode => ?_, fun _ => hall, fun _ hother => absurd hidentify hother⟩
    rw [hall mode, ← hall .short, hnone]
  · obtain hsilent | ⟨path, parameters, hpath, hparameters, hreply⟩ :=
      process_snd_withHeader hkeys hlists hswitches hcommand hidentify
    · exact ⟨fun _ => hsilent, fun h => absurd h hidentify,
        fun hsome => absurd (hsilent .short) hsome⟩
    · obtain ⟨hshort, hlong, hoff⟩ := HeaderMode.format_append hpath parameters
      have hshown : reply .short = path ++ ' ' :: parameters := (hreply .short).trans hshort
      refine ⟨fun hnone => ?_, fun h => absurd h hidentify, fun _ _ => ?_⟩
      · rw [hshown] at hnone
        exact absurd hnone (List.append_ne_nil_of_right_ne_nil _ (List.cons_ne_nil _ _))
      · exact ⟨path, parameters, hpath.1, hparameters, hshown, (hreply .long).trans hlong,
          (hreply .off).trans hoff, hpath.2.2⟩

/-- The report of a channel in all three modes, of an instrument that has them off. -/
theorem replies_differ_in_header_report :
    let i := (new .sdg1032x).after ["C2:OUTP ON,LOAD,50".toList, "COMM_HEADER off".toList]
    let reply := fun mode => ((i.withHeader mode).process "c2:output?".toList).2
    reply .short ≠ [] ∧ normalize "c2:output?".toList ≠ "*IDN?".toList ∧
      normalize "c2:output?".toList ≠ "CHDR?".toList ∧
      ∃ path parameters, reply .short = path ++ ' ' :: parameters ∧
        reply .long = Header.lengthen path ++ ' ' :: parameters ∧ reply .off = parameters := by
  intro i reply
  have hcommand : normalize "c2:output?".toList = "C2:OUTP?".toList := by decide +kernel
  have hreply : reply .short ≠ [] := by decide +kernel
  have hmode : normalize "c2:output?".toList ≠ "CHDR?".toList := by rw [hcommand]; decide
  have hother : normalize "c2:output?".toList ≠ "*IDN?".toList := by rw [hcommand]; decide
  obtain ⟨path, parameters, -, -, hshort, hlong, hoff, -⟩ :=
    ((replies_differ_in_header .sdg1032x _ "c2:output?".toList).2.2 hmode).2.2 hreply hother
  exact ⟨hreply, hother, hmode, path, parameters, hshort, hlong, hoff⟩

end Instrument

end WaveGen
