import WaveGen.Proofs.CommandEffects
import WaveGen.Proofs.Header

/-!
# Which commands are answered

An instrument answers nine forms of commands and is silent on all others (`Instrument.Answer`,
`Instrument.answer_iff_route`). Seven of them are queries, whatever the command was before it was
brought to its normal form. The other two list stored waveforms: their handler looks at the
parameter alone, so the list is sent for any command that begins with the verb, question mark or
not. A client does not wait for a reply to a command that is no query, so these are the commands
whose replies nobody reads.

* `Instrument.answer_iff_route` — the nine forms, and what is replied to each.
* `Instrument.answers_only_queries_iff` — a command that gets a reply is a query, unless it is one
  of these.
-/

namespace WaveGen

/-! ## Replies of a channel -/

namespace Channel

theorem output_reply {c : Channel} {body : Text} {reply : Reply}
    (h : (c.output body).2 = .ok reply) :
    reply = .silent ∨ body = "OUTP?".toList ∧ reply = .headed c.outputReport := by
  rw [output] at h
  split at h
  · cases h
    exact .inr ⟨‹_›, rfl⟩
  · cases hword : parameterWord outputVerb body with
    | error fault =>
      rw [hword] at h
      cases h
    | ok word =>
      rw [hword] at h
      dsimp only at h
      cases houtcome : (outputStream body (Text.split ',' word) c.settings).2 with
      | error fault =>
        rw [houtcome] at h
        cases h
      | ok done =>
        rw [houtcome] at h
        cases h
        exact .inl rfl

theorem basicWave_reply {c : Channel} {body : Text} {reply : Reply}
    (h : (c.basicWave body).2 = .ok reply) :
    reply = .silent ∨ body = "BSWV?".toList ∧ reply = .headed c.basicWaveReport := by
  rw [basicWave] at h
  split at h
  · cases h
    exact .inr ⟨‹_›, rfl⟩
  · cases hword : parameterWord basicWaveVerb body with
    | error fault =>
      rw [hword] at h
      cases h
    | ok word =>
      rw [hword] at h
      dsimp only at h
      split at h
      · cases h
      · cases h
        exact .inl rfl

/-- A channel answers its two queries and is silent on all that it accepts besides. -/
theorem process_reply {c : Channel} {command : Text} {reply : Reply}
    (h : (c.process command).2 = .ok reply) :
    reply = .silent ∨
      command = c.address ++ "OUTP?".toList ∧ reply = .headed c.outputReport ∨
      command = c.address ++ "BSWV?".toList ∧ reply = .headed c.basicWaveReport := by
  rw [process] at h
  cases hbody : Text.dropHead? c.address command with
  | none =>
    rw [hbody] at h
    cases h
  | some body =>
    have hcommand := Text.dropHead?_eq_some_iff.mp hbody
    rw [hbody] at h
    dsimp only at h
    split at h
    · rcases output_reply h with hsilent | ⟨hquery, hreply⟩
      · exact .inl hsilent
      · exact .inr (.inl ⟨hquery ▸ hcommand, hreply⟩)
    · split at h
      · rcases basicWave_reply h with hsilent | ⟨hquery, hreply⟩
        · exact .inl hsilent
        · exact .inr (.inr ⟨hquery ▸ hcommand, hreply⟩)
      · cases h

theorem process_outputQuery (c : Channel) :
    c.process (c.address ++ "OUTP?".toList) = (c, .ok (.headed c.outputReport)) := by
  rw [process, Text.dropHead?_eq_some_iff.mpr rfl]
  rfl

theorem process_waveQuery (c : Channel) :
    c.process (c.address ++ "BSWV?".toList) = (c, .ok (.headed c.basicWaveReport)) := by
  rw [process, Text.dropHead?_eq_some_iff.mpr rfl]
  rfl

end Channel

namespace Instrument

/-! ## Answers -/

/-- The commands in normal form that are answered, and their answers. -/
inductive Answer (i : Instrument) : Text → Reply → Prop where
  | identification : Answer i "*IDN?".toList i.identification
  | complete : Answer i "*OPC?".toList (.headed "*OPC 1".toList)
  | header : Answer i "CHDR?".toList (.headed ("CHDR ".toList ++ i.settings.value Key.header))
  | buzzer : Answer i "BUZZ?".toList (.headed ("BUZZ ".toList ++ i.settings.value Key.buzzer))
  | storeList : Answer i "STL?".toList (.headed (i.settings.value Key.builtIn))
  /-- A list of waveforms by name. Anything may follow the verb up to the space. -/
  | builtIn (tail : Text) (htail : ' ' ∉ tail) :
      Answer i ("STL".toList ++ tail ++ ' ' :: "BUILDIN".toList)
        (.headed (i.settings.value Key.builtIn))
  | user (tail : Text) (htail : ' ' ∉ tail) :
      Answer i ("STL".toList ++ tail ++ ' ' :: "USER".toList) (.headed (i.settings.value Key.user))
  | output (id : ChannelId) :
      Answer i (id.address ++ "OUTP?".toList) (.headed (i.channel id).outputReport)
  | wave (id : ChannelId) :
      Answer i (id.address ++ "BSWV?".toList) (.headed (i.channel id).basicWaveReport)

/-- An instrument never answers with silence. -/
theorem Answer.ne_silent {i : Instrument} {command : Text} {reply : Reply}
    (h : Answer i command reply) : reply ≠ .silent := by
  cases h <;> exact Reply.noConfusion

theorem operationComplete_reply (command : Text) :
    operationComplete command = .silent ∨
      command = "*OPC?".toList ∧ operationComplete command = .headed "*OPC 1".toList := by
  rw [operationComplete]
  split
  · exact .inr ⟨‹_›, rfl⟩
  · exact .inl rfl

theorem commHeader_reply {i : Instrument} {command : Text} {reply : Reply}
    (h : (i.commHeader command).2 = .ok reply) : reply = .silent ∨ Answer i command reply := by
  rw [commHeader] at h
  split at h
  · rename_i hquery
    cases h
    exact .inr (hquery ▸ .header)
  · cases hname : soleParameter command with
    | error fault =>
      rw [hname] at h
      cases h
    | ok name =>
      rw [hname] at h
      dsimp only at h
      cases hmode : HeaderMode.parse name with
      | error fault =>
        rw [hmode] at h
        cases h
      | ok mode =>
        rw [hmode] at h
        cases h
        exact .inl rfl

theorem buzzer_reply {i : Instrument} {command : Text} {reply : Reply}
    (h : (i.buzzer command).2 = .ok reply) : reply = .silent ∨ Answer i command reply := by
  rw [buzzer] at h
  split at h
  · rename_i hquery
    cases h
    exact .inr (hquery ▸ .buzzer)
  · cases hvalue : soleParameter command with
    | error fault =>
      rw [hvalue] at h
      cases h
    | ok value =>
      rw [hvalue] at h
      dsimp only at h
      split at h
      · cases h
        exact .inl rfl
      · cases h

theorem parameterCopy_reply {i : Instrument} {command : Text} {reply : Reply}
    (h : (i.parameterCopy command).2 = .ok reply) : reply = .silent := by
  rw [parameterCopy] at h
  cases hchannels : copyParameters command with
  | error fault =>
    rw [hchannels] at h
    cases h
  | ok pair =>
    rw [hchannels] at h
    cases h
    rfl

theorem storeList_reply {i : Instrument} {command tail : Text} {reply : Reply}
    (hcommand : command = "STL".toList ++ tail) (h : i.storeList command = .ok reply) :
    Answer i command reply := by
  rw [storeList] at h
  split at h
  · rename_i hquery
    cases h
    exact hquery ▸ .storeList
  · cases hname : soleParameter command with
    | error fault =>
      rw [hname] at h
      cases h
    | ok name =>
      -- the verb is all in front of the only space, and nothing is asked of its end
      obtain ⟨verb, hverb, hspace, -⟩ := soleParameter_eq_ok_iff.mp hname
      obtain ⟨more, rfl⟩ := Text.eq_append_of_prefix (by decide) (hcommand.symm.trans hverb)
      have hmore : ' ' ∉ more := fun hmem => hspace (List.mem_append_right _ hmem)
      rw [hname] at h
      dsimp only at h
      split at h
      · rename_i hbuiltIn
        cases h
        rw [hverb, hbuiltIn]
        exact .builtIn more hmore
      · split at h
        · rename_i huser
          cases h
          rw [hverb, huser]
          exact .user more hmore
        · cases h

theorem channelCommand_reply {i : Instrument} {index : Nat} {command : Text} {reply : Reply}
    (h : (i.channelCommand index command).2 = .ok reply) :
    reply = .silent ∨ Answer i command reply := by
  rw [channelCommand] at h
  cases hid : ChannelId.ofIndex? index with
  | none =>
    rw [hid] at h
    cases h
  | some id =>
    rw [hid] at h
    rcases Channel.process_reply h with hsilent | ⟨hcommand, hreply⟩ | ⟨hcommand, hreply⟩
    · exact .inl hsilent
    · rw [hcommand, hreply, address_channel]
      exact .inr (.output id)
    · rw [hcommand, hreply, address_channel]
      exact .inr (.wave id)

/-- A command that is accepted is answered or passed over in silence. -/
theorem route_reply {i : Instrument} {command : Text} {reply : Reply}
    (h : (i.route command).2 = .ok reply) : reply = .silent ∨ Answer i command reply := by
  have hspec := Route.ofCommand_spec command
  rw [route] at h
  cases hroute : Route.ofCommand command with
  | identification =>
    rw [hroute] at h hspec
    cases h
    exact .inr (hspec ▸ .identification)
  | operationComplete =>
    rw [hroute] at h
    cases h
    rcases operationComplete_reply command with hsilent | ⟨hquery, hreply⟩
    · exact .inl hsilent
    · rw [hreply, hquery]
      exact .inr .complete
  | parameterCopy =>
    rw [hroute] at h
    exact .inl (parameterCopy_reply h)
  | reset =>
    rw [hroute] at h
    cases h
    exact .inl rfl
  | commHeader =>
    rw [hroute] at h
    exact commHeader_reply h
  | buzzer =>
    rw [hroute] at h
    exact buzzer_reply h
  | storeList =>
    rw [hroute] at h hspec
    obtain ⟨tail, htail⟩ := hspec
    exact .inr (storeList_reply htail h)
  | channel index =>
    rw [hroute] at h
    exact channelCommand_reply h
  | nowhere =>
    rw [hroute] at h
    cases h
    exact .inl rfl

theorem route_storeList (i : Instrument) {tail name : Text} (htail : ' ' ∉ tail)
    (hname : ' ' ∉ name) :
    i.route ("STL".toList ++ tail ++ ' ' :: name) =
      (i, if name = "BUILDIN".toList then .ok (.headed (i.settings.value Key.builtIn))
        else if name = "USER".toList then .ok (.headed (i.settings.value Key.user))
        else .error (.invalidValue Key.builtIn name)) := by
  have hverb : ' ' ∉ "STL".toList ++ tail := by simpa using htail
  show (i, i.storeList ("STL".toList ++ tail ++ ' ' :: name)) = _
  rw [storeList, if_neg (Text.append_space_ne (by decide) _ _), soleParameter_append hverb hname]

/-- Answering leaves an instrument as it is. -/
theorem Answer.route {i : Instrument} {command : Text} {reply : Reply} (h : Answer i command reply) :
    i.route command = (i, .ok reply) := by
  cases h with
  | identification => rfl
  | complete => rfl
  | header => rfl
  | buzzer => rfl
  | storeList => rfl
  | builtIn tail htail => exact route_storeList i htail (by decide)
  | user tail htail => exact route_storeList i htail (by decide)
  | output id =>
    rw [route_channel, ← address_channel i, Channel.process_outputQuery]
    dsimp only
    rw [withChannel_channel]
  | wave id =>
    rw [route_channel, ← address_channel i, Channel.process_waveQuery]
    dsimp only
    rw [withChannel_channel]

/-- **All that is answered**: a command in one of nine forms. -/
theorem answer_iff_route {i : Instrument} {command : Text} {reply : Reply} :
    Answer i command reply ↔ (i.route command).2 = .ok reply ∧ reply ≠ .silent := by
  constructor
  · intro h
    exact ⟨by rw [h.route], h.ne_silent⟩
  · rintro ⟨hroute, hreply⟩
    exact (route_reply hroute).resolve_left hreply

/-- A command that is answered leaves the instrument as it is, and the reply is the answer's text. -/
theorem Answer.process {i : Instrument} {command : Text} {reply : Reply}
    (h : Answer i (normalize command) reply) : i.process command = (i, i.replyText reply) := by
  rw [Instrument.process, dispatch, h.route]

theorem process_identification {i : Instrument} {command : Text}
    (h : normalize command = "*IDN?".toList) :
    (i.process command).2 = i.model.identification := by
  have hanswer : Answer i (normalize command) i.identification := h ▸ .identification
  rw [hanswer.process]
  rfl

/-- A command that is turned down, or passed over in silence, gets the empty reply. -/
theorem process_snd_eq_nil {i : Instrument} {command : Text}
    (h : ∀ reply, (i.route (normalize command)).2 = .ok reply → reply = .silent) :
    (i.process command).2 = [] := by
  rw [process, dispatch]
  rcases hroute : i.route (normalize command) with ⟨changed, fault | reply⟩
  · rfl
  · rw [hroute] at h
    rw [h reply rfl]
    rfl

/-- Every command gets the empty reply or is answered. -/
theorem process_snd_eq_nil_or_answer (i : Instrument) (command : Text) :
    (i.process command).2 = [] ∨ ∃ reply, Answer i (normalize command) reply := by
  by_cases hanswer : ∃ reply, Answer i (normalize command) reply
  · exact .inr hanswer
  · left
    apply process_snd_eq_nil
    intro reply hreply
    exact (route_reply hreply).resolve_right fun h => hanswer ⟨reply, h⟩

/-! ## The lists of waveforms -/

/-- The lists of waveforms are as they were at first. -/
structure HasStoreLists (i : Instrument) : Prop where
  builtIn : i.settings.value Key.builtIn = StoreList.builtIn
  user : i.settings.value Key.user = StoreList.user

theorem hasStoreLists_new (model : Model) : (new model).HasStoreLists where
  builtIn := rfl
  user := rfl

/-- No command writes the lists of waveforms. -/
theorem HasStoreLists.process {i : Instrument} (h : i.HasStoreLists) (command : Text) :
    (i.process command).1.HasStoreLists := by
  have heffect := process_effect i command
  generalize (i.process command).1 = changed at heffect ⊢
  cases heffect with
  | none => exact h
  | header tail name mode =>
    exact ⟨(Settings.value_set_of_ne (by decide) ..).trans h.builtIn,
      (Settings.value_set_of_ne (by decide) ..).trans h.user⟩
  | buzzer tail value =>
    exact ⟨(Settings.value_set_of_ne (by decide) ..).trans h.builtIn,
      (Settings.value_set_of_ne (by decide) ..).trans h.user⟩
  | copy tail target source =>
    constructor
    · rw [settings_withChannel, h.builtIn]
    · rw [settings_withChannel, h.user]
  | reset => exact hasStoreLists_new i.model
  | channel id settings =>
    constructor
    · rw [settings_withChannel, h.builtIn]
    · rw [settings_withChannel, h.user]

theorem hasStoreLists_after (model : Model) (commands : List Text) :
    ((new model).after commands).HasStoreLists :=
  after_preserves (fun _ command h => h.process command) (hasStoreLists_new model) commands

/-- A reply with parameters is not empty in any header mode. -/
theorem format_ne_nil (mode : HeaderMode) {verb parameters : Text} (hverb : ' ' ∉ verb)
    (hparameters : parameters ≠ []) : mode.format (verb ++ ' ' :: parameters) ≠ [] := by
  cases mode with
  | short =>
    show Header.respell Verb.short? _ ≠ []
    rw [Header.respell_append hverb]
    simp
  | long =>
    show Header.respell Verb.long? _ ≠ []
    rw [Header.respell_append hverb]
    simp
  | off =>
    show (Header.parameters? _).getD [] ≠ []
    rw [Header.parameters?, Text.after?_append_cons hverb]
    exact hparameters

theorem HasStoreLists.replyText_builtIn_ne_nil {i : Instrument} (h : i.HasStoreLists) :
    i.replyText (.headed (i.settings.value Key.builtIn)) ≠ [] := by
  have hheading : StoreList.builtIn = "STL".toList ++ ' ' :: StoreList.builtIn.drop 4 := rfl
  rw [h.builtIn, hheading]
  exact format_ne_nil i.headerMode (by decide) (by decide +kernel)

theorem HasStoreLists.replyText_user_ne_nil {i : Instrument} (h : i.HasStoreLists) :
    i.replyText (.headed (i.settings.value Key.user)) ≠ [] := by
  have hheading : StoreList.user = "STL".toList ++ ' ' :: "WVNM".toList := rfl
  rw [h.user, hheading]
  exact format_ne_nil i.headerMode (by decide) (by decide)

/-! ## Answers to commands that are no queries -/

/-- A command in normal form that names a list of waveforms, behind a verb at whose end no question
mark stands. -/
def NamesListUnasked (command : Text) : Prop :=
  ∃ tail name, command = "STL".toList ++ tail ++ ' ' :: name ∧ ' ' ∉ tail ∧
    tail.getLast? ≠ some '?' ∧ (name = "BUILDIN".toList ∨ name = "USER".toList)

/-- The normal form of a trimmed command is a query if and only if the command is one. -/
theorem isQuery_normalize {command : Text} (htrim : Text.trim command = command) :
    Client.isQuery (normalize command) = Client.isQuery command := by
  rw [normalize, htrim]
  exact (Client.isQuery_respell (fun _ _ => Verb.isPlain_short?) _).trans
    (Client.isQuery_upper command)

/-- The test for queries looks at the end of the verb. -/
theorem isQuery_storeList {tail : Text} (htail : ' ' ∉ tail) (name : Text) :
    Client.isQuery ("STL".toList ++ tail ++ ' ' :: name) = true ↔ tail.getLast? = some '?' := by
  have hverb : ' ' ∉ "STL".toList ++ tail := by simpa using htail
  rw [Client.isQuery_iff, Header.path, Text.before_append_cons hverb]
  cases tail with
  | nil => decide
  | cons c rest => rw [List.getLast?_append_of_ne_nil _ (List.cons_ne_nil c rest)]

/-- An answer to a command that is no query is a list of waveforms. -/
theorem Answer.namesListUnasked {i : Instrument} {command : Text} {reply : Reply}
    (h : Answer i command reply) (hquery : Client.isQuery command = false) :
    NamesListUnasked command := by
  cases h with
  | identification => cases hquery
  | complete => cases hquery
  | header => cases hquery
  | buzzer => cases hquery
  | storeList => cases hquery
  | builtIn tail htail =>
    refine ⟨tail, _, rfl, htail, fun hlast => ?_, .inl rfl⟩
    rw [(isQuery_storeList htail _).mpr hlast] at hquery
    cases hquery
  | user tail htail =>
    refine ⟨tail, _, rfl, htail, fun hlast => ?_, .inr rfl⟩
    rw [(isQuery_storeList htail _).mpr hlast] at hquery
    cases hquery
  | output id => cases id <;> cases hquery
  | wave id => cases id <;> cases hquery

/-- A list of waveforms is named by the parameters alone. -/
theorem NamesListUnasked.parameters {command : Text} (h : NamesListUnasked command) :
    Header.parameters? command = some "BUILDIN".toList ∨
      Header.parameters? command = some "USER".toList := by
  obtain ⟨tail, name, rfl, htail, -, hname⟩ := h
  have hverb : ' ' ∉ "STL".toList ++ tail := by simpa using htail
  rw [Header.parameters?, Text.after?_append_cons hverb]
  simpa using hname

/-- An instrument sends the list all the same, whatever the header mode is. -/
theorem NamesListUnasked.process_ne_nil {i : Instrument} (hlists : i.HasStoreLists) {command : Text}
    (h : NamesListUnasked (normalize command)) : (i.process command).2 ≠ [] := by
  obtain ⟨tail, name, hcommand, htail, -, rfl | rfl⟩ := h
  · have hanswer := Answer.builtIn (i := i) tail htail
    rw [← hcommand] at hanswer
    rw [hanswer.process]
    exact hlists.replyText_builtIn_ne_nil
  · have hanswer := Answer.user (i := i) tail htail
    rw [← hcommand] at hanswer
    rw [hanswer.process]
    exact hlists.replyText_user_ne_nil

/-- **Replies nobody waits for.** Whatever an instrument has been through, a command without blanks
at its ends gets a reply only if a client takes it for a query, unless the command names a list of
waveforms behind a verb without a question mark. Then it gets one without being a query. -/
theorem answers_only_queries_iff (model : Model) (history : List Text) (command : Text)
    (htrim : Text.trim command = command) :
    ((((new model).after history).process command).2 ≠ [] → Client.isQuery command = true) ↔
      ¬ NamesListUnasked (normalize command) := by
  have hquery : Client.isQuery (normalize command) = Client.isQuery command := by
    rw [normalize, htrim]
    exact (Client.isQuery_respell (fun _ _ => Verb.isPlain_short?) _).trans
      (Client.isQuery_upper command)
  constructor
  · intro hreplies hnames
    have hasked := hreplies (hnames.process_ne_nil (hasStoreLists_after model history))
    obtain ⟨tail, name, hcommand, htail, hlast, -⟩ := hnames
    rw [← hquery, hcommand, isQuery_storeList htail] at hasked
    exact hlast hasked
  · intro hnames hreply
    obtain ⟨reply, hanswer⟩ := (process_snd_eq_nil_or_answer _ command).resolve_left hreply
    rw [← hquery]
    by_contra hother
    exact hnames (hanswer.namesListUnasked (Bool.eq_false_iff.mpr hother))

/-- With the headers of replies off, a list is sent without being asked for, in long verbs too. -/
theorem answers_only_queries_iff_storelist :
    Text.trim "StoreList user".toList = "StoreList user".toList ∧
      ¬ ((((new .sdg1062x).after ["CHDR OFF".toList]).process "StoreList user".toList).2 ≠ [] →
        Client.isQuery "StoreList user".toList = true) := by
  have htrim : Text.trim "StoreList user".toList = "StoreList user".toList := by decide +kernel
  refine ⟨htrim, fun hreplies => ?_⟩
  refine (answers_only_queries_iff .sdg1062x ["CHDR OFF".toList] "StoreList user".toList
    htrim).mp hreplies ⟨[], "USER".toList, ?_, by decide, by decide, .inr rfl⟩
  decide +kernel

/-- A command that is no query is answered. -/
theorem replies_to_nonquery :
    Text.trim "STL USER".toList = "STL USER".toList ∧
      ((new .sdg1032x).process "STL USER".toList).2 = "STL WVNM".toList ∧
        Client.isQuery "STL USER".toList = false := by
  decide +kernel

end Instrument

end WaveGen
