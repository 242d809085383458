import WaveGen.Instrument
import WaveGen.Proofs.ChannelWrites

/-!
# What a command changes

An instrument carries out a command in a few ways, and only a few of them change anything. This
module says once what each of them does to the instrument, and what the command says in each case
(`Instrument.Effect`, `Instrument.process_effect`); every invariant of an instrument follows by
cases on it.

* `Route.ofCommand_spec` — how a command reads that takes a given route.
* `Instrument.soleParameter_eq_ok_iff`, `HeaderMode.parse_eq_ok_iff` — how parameters read.
-/

namespace WaveGen

/-! ## Channels -/

/-- What a command for a channel begins with. -/
def ChannelId.address : ChannelId → Text
  | first => "C1:".toList
  | second => "C2:".toList

/-- The digit that names a channel. -/
def ChannelId.digit : ChannelId → Char
  | first => '1'
  | second => '2'

/-- The place of a channel, counted from zero. -/
def ChannelId.index : ChannelId → Nat
  | first => 0
  | second => 1

theorem ChannelId.ofIndex?_eq_some_iff {index : Nat} {id : ChannelId} :
    ofIndex? index = some id ↔ index = id.index := by
  match index with
  | 0 => cases id <;> simp [ofIndex?, ChannelId.index]
  | 1 => cases id <;> simp [ofIndex?, ChannelId.index]
  | n + 2 => cases id <;> simp [ofIndex?, ChannelId.index]

/-- The digit of a channel is the one at its place among the digits from `1` on. -/
theorem ChannelId.digit_eq_of_index {digit : Char} {id : ChannelId} (hdigit : digit.isDigit = true)
    (hzero : digit ≠ '0') (hplace : digit.toNat - '1'.toNat = id.index) : digit = id.digit := by
  -- differences of codes are cut off at zero, where the digit `0` would pass for a `1`
  have hleast : 48 ≤ digit.toNat := by
    simp [Char.isDigit] at hdigit
    exact hdigit.1
  have hnonzero : digit.toNat ≠ 48 := fun h => hzero (Char.toNat_inj.mp h)
  apply Char.toNat_inj.mp
  cases id with
  | first =>
    have hone : digit.toNat - 49 = 0 := hplace
    show digit.toNat = 49
    omega
  | second =>
    have htwo : digit.toNat - 49 = 1 := hplace
    show digit.toNat = 50
    omega

namespace Instrument

@[simp] theorem address_channel (i : Instrument) (id : ChannelId) :
    (i.channel id).address = id.address := by
  cases id with
  | first =>
    show 'C' :: Text.ofNat 1 ++ [':'] = "C1:".toList
    decide
  | second =>
    show 'C' :: Text.ofNat 2 ++ [':'] = "C2:".toList
    decide

@[simp] theorem settings_withChannel_self (i : Instrument) (id : ChannelId) (s : Settings) :
    ((i.withChannel id s).channel id).settings = s := by cases id <;> rfl

theorem channel_withChannel_of_ne {id other : ChannelId} (h : other ≠ id) (i : Instrument)
    (s : Settings) : (i.withChannel id s).channel other = i.channel other := by
  cases id <;> cases other <;> first | rfl | exact absurd rfl h

/-- Writing back what is there changes nothing. -/
theorem withChannel_channel (i : Instrument) (id : ChannelId) :
    i.withChannel id (i.channel id).settings = i := by cases id <;> rfl

/-- Of two writes to one channel the second one counts. -/
theorem withChannel_withChannel (i : Instrument) (id : ChannelId) (s t : Settings) :
    (i.withChannel id s).withChannel id t = i.withChannel id t := by cases id <;> rfl

@[simp] theorem settings_withChannel (i : Instrument) (id : ChannelId) (s : Settings) :
    (i.withChannel id s).settings = i.settings := by cases id <;> rfl

@[simp] theorem model_withChannel (i : Instrument) (id : ChannelId) (s : Settings) :
    (i.withChannel id s).model = i.model := by cases id <;> rfl

end Instrument

/-! ## Routes -/

namespace Route

/-- The route of a command says what the command begins with. -/
theorem ofCommand_spec (command : Text) :
    match ofCommand command with
    | identification => command = "*IDN?".toList
    | operationComplete => ∃ tail, command = "*OPC".toList ++ tail
    | parameterCopy => ∃ tail, command = "PACP".toList ++ tail
    | reset => command = "*RST".toList
    | commHeader => ∃ tail, command = "CHDR".toList ++ tail
    | buzzer => ∃ tail, command = "BUZZ".toList ++ tail
    | storeList => ∃ tail, command = "STL".toList ++ tail
    | channel index => channelIndex? command = some index
    | nowhere => channelIndex? command = none := by
  rw [ofCommand]
  cases hfind : deviceVerbs.find? _ with
  | some found =>
    have hmem := List.mem_of_find?_eq_some hfind
    have hfits := List.find?_some hfind
    simp only [deviceVerbs, List.mem_cons, List.not_mem_nil, or_false] at hmem
    -- one goal for each verb of the table, in its order
    rcases hmem with rfl | rfl | rfl | rfl | rfl | rfl | rfl
    · simpa using hfits
    · exact Text.startsWith_iff.mp hfits
    · exact Text.startsWith_iff.mp hfits
    · simpa using hfits
    · exact Text.startsWith_iff.mp hfits
    · exact Text.startsWith_iff.mp hfits
    · exact Text.startsWith_iff.mp hfits
  | none =>
    cases channelIndex? command with
    | none => rfl
    | some index => rfl

/-- Commands for a channel are carried out there. -/
theorem ofCommand_address (id : ChannelId) (body : Text) :
    ofCommand (id.address ++ body) = channel id.index := by cases id <;> rfl

end Route

/-! ## Parameters -/

/-- A text is a mode when it is the mode's name in any letter case. -/
theorem HeaderMode.parse_eq_ok_iff {value : Text} {mode : HeaderMode} :
    HeaderMode.parse value = .ok mode ↔ Text.upper value = mode.name := by
  rw [HeaderMode.parse]
  constructor
  · intro h
    split at h
    · cases h
      assumption
    split at h
    · cases h
      assumption
    split at h
    · cases h
      assumption
    · cases h
  · intro h
    rw [h]
    cases mode <;> rfl

namespace Instrument

/-- A command has a sole parameter when it has exactly one space. -/
theorem soleParameter_eq_ok_iff {command parameter : Text} :
    soleParameter command = .ok parameter ↔
      ∃ verb, command = verb ++ ' ' :: parameter ∧ ' ' ∉ verb ∧ ' ' ∉ parameter := by
  rw [soleParameter]
  constructor
  · intro h
    split at h
    · rename_i verb found hpieces
      cases h
      exact ⟨verb, Text.split_eq_pair_iff.mp hpieces⟩
    · cases h
  · rintro ⟨verb, hverb⟩
    rw [Text.split_eq_pair_iff.mpr hverb]

theorem soleParameter_append {verb parameter : Text} (hverb : ' ' ∉ verb)
    (hparameter : ' ' ∉ parameter) :
    soleParameter (verb ++ ' ' :: parameter) = .ok parameter :=
  soleParameter_eq_ok_iff.mpr ⟨verb, rfl, hverb, hparameter⟩

/-- A token names a channel by its second character alone. -/
theorem channelOfToken_eq_ok_iff {token : Text} {id : ChannelId} :
    channelOfToken token = .ok id ↔ ∃ lead rest, token = lead :: id.digit :: rest := by
  constructor
  · intro h
    rw [channelOfToken] at h
    split at h
    · rename_i found hfound
      cases h
      obtain ⟨index, hindex, hid⟩ := Option.bind_eq_some_iff.mp hfound
      rw [Channel.tokenIndex?.eq_def] at hindex
      split at hindex
      · rename_i lead digit rest
        refine ⟨lead, rest, ?_⟩
        rw [Option.ite_none_right_eq_some, Bool.and_eq_true, bne_iff_ne] at hindex
        obtain ⟨⟨hdigit, hzero⟩, hplace⟩ := hindex
        rw [ChannelId.ofIndex?_eq_some_iff.mp hid, Option.some.injEq] at hplace
        rw [ChannelId.digit_eq_of_index hdigit hzero hplace]
      · cases hindex
    · cases h
  · rintro ⟨lead, rest, rfl⟩
    cases id <;> rfl

/-- A copy names its two channels in a sole parameter, with one comma between them. -/
theorem copyParameters_eq_ok_iff {command : Text} {target source : ChannelId} :
    copyParameters command = .ok (target, source) ↔
      ∃ first second, soleParameter command = .ok (first ++ ',' :: second) ∧
        ',' ∉ first ∧ ',' ∉ second ∧
        channelOfToken first = .ok target ∧ channelOfToken second = .ok source := by
  rw [copyParameters]
  constructor
  · intro h
    obtain ⟨pair, hpair, h⟩ := bind_eq_ok_iff.mp h
    split at h
    · rename_i first second hpieces
      obtain ⟨found, hfirst, h⟩ := bind_eq_ok_iff.mp h
      obtain ⟨found', hsecond, h⟩ := bind_eq_ok_iff.mp h
      cases h
      obtain ⟨rfl, hcomma, hcomma'⟩ := Text.split_eq_pair_iff.mp hpieces
      exact ⟨first, second, hpair, hcomma, hcomma', hfirst, hsecond⟩
    · cases h
  · rintro ⟨first, second, hpair, hcomma, hcomma', hfirst, hsecond⟩
    have hpieces : Text.split ',' (first ++ ',' :: second) = [first, second] :=
      Text.split_eq_pair_iff.mpr ⟨rfl, hcomma, hcomma'⟩
    refine bind_eq_ok_iff.mpr ⟨_, hpair, ?_⟩
    rw [hpieces]
    exact bind_eq_ok_iff.mpr ⟨target, hfirst, bind_eq_ok_iff.mpr ⟨source, hsecond, rfl⟩⟩

/-! ## Effects -/

/-- What a command in normal form may do to an instrument, and what the command says in each
case. -/
inductive Effect (i : Instrument) (command : Text) : Instrument → Prop where
  /-- Nothing changes. -/
  | none : Effect i command i
  /-- A header mode is set. -/
  | header (tail name : Text) (mode : HeaderMode) (hcommand : command = "CHDR".toList ++ tail)
      (hname : soleParameter command = .ok name) (hmode : HeaderMode.parse name = .ok mode) :
      Effect i command { i with settings := i.settings.set Key.header mode.name }
  /-- The buzzer is switched. -/
  | buzzer (tail value : Text) (hcommand : command = "BUZZ".toList ++ tail)
      (hvalue : soleParameter command = .ok value)
      (hstate : value = "ON".toList ∨ value = "OFF".toList) :
      Effect i command { i with settings := i.settings.set Key.buzzer value }
  /-- The settings of a channel are copied. -/
  | copy (tail : Text) (target source : ChannelId) (hcommand : command = "PACP".toList ++ tail)
      (hchannels : copyParameters command = .ok (target, source)) :
      Effect i command (i.withChannel target (i.channel source).settings)
  /-- Everything is as it was at first. -/
  | reset (hcommand : command = "*RST".toList) : Effect i command i.reset
  /-- One channel carries out the command. -/
  | channel (id : ChannelId) (settings : Settings)
      (heffect : Channel.Effect (i.channel id) command settings) :
      Effect i command (i.withChannel id settings)

theorem commHeader_effect (i : Instrument) {command tail : Text}
    (hcommand : command = "CHDR".toList ++ tail) : Effect i command (i.commHeader command).1 := by
  rw [commHeader]
  split
  · exact .none
  · cases hname : soleParameter command with
    | error fault => exact .none
    | ok name =>
      dsimp only
      cases hmode : HeaderMode.parse name with
      | error fault => exact .none
      | ok mode => exact .header tail name mode hcommand hname hmode

theorem buzzer_effect (i : Instrument) {command tail : Text}
    (hcommand : command = "BUZZ".toList ++ tail) : Effect i command (i.buzzer command).1 := by
  rw [buzzer]
  split
  · exact .none
  · cases hvalue : soleParameter command with
    | error fault => exact .none
    | ok value =>
      dsimp only
      split
      · exact .buzzer tail value hcommand hvalue ‹_›
      · exact .none

theorem parameterCopy_effect (i : Instrument) {command tail : Text}
    (hcommand : command = "PACP".toList ++ tail) :
    Effect i command (i.parameterCopy command).1 := by
  rw [parameterCopy]
  cases hchannels : copyParameters command with
  | error fault => exact .none
  | ok pair => exact .copy tail pair.1 pair.2 hcommand hchannels

theorem channelCommand_effect (i : Instrument) (index : Nat) (command : Text) :
    Effect i command (i.channelCommand index command).1 := by
  rw [channelCommand]
  cases ChannelId.ofIndex? index with
  | none => exact .none
  | some id => exact .channel id _ (Channel.process_effect (i.channel id) command)

/-- All that a command in normal form does to an instrument. -/
theorem route_effect (i : Instrument) (command : Text) : Effect i command (i.route command).1 := by
  have hroute := Route.ofCommand_spec command
  rw [route]
  cases hcase : Route.ofCommand command with
  | identification => exact .none
  | operationComplete => exact .none
  | parameterCopy =>
    rw [hcase] at hroute
    obtain ⟨tail, htail⟩ := hroute
    exact parameterCopy_effect i htail
  | reset =>
    rw [hcase] at hroute
    exact .reset hroute
  | commHeader =>
    rw [hcase] at hroute
    obtain ⟨tail, htail⟩ := hroute
    exact commHeader_effect i htail
  | buzzer =>
    rw [hcase] at hroute
    obtain ⟨tail, htail⟩ := hroute
    exact buzzer_effect i htail
  | storeList => exact .none
  | channel index => exact channelCommand_effect i index command
  | nowhere => exact .none

/-- A command for a channel is carried out by that channel. -/
theorem route_channel (i : Instrument) (id : ChannelId) (body : Text) :
    i.route (id.address ++ body) =
      let (changed, outcome) := (i.channel id).process (id.address ++ body)
      (i.withChannel id changed.settings, outcome) := by
  rw [route, Route.ofCommand_address]
  show i.channelCommand id.index (id.address ++ body) = _
  rw [channelCommand, ChannelId.ofIndex?_eq_some_iff.mpr rfl]

theorem process_fst (i : Instrument) (command : Text) :
    (i.process command).1 = (i.route (normalize command)).1 := by
  rw [process, dispatch]
  rcases i.route (normalize command) with ⟨changed, fault | reply⟩ <;> rfl

/-- The text that is sent is that of the reply, by the header mode afterwards; a command that is
turned down gets none. -/
theorem process_snd (i : Instrument) (command : Text) :
    (i.process command).2 =
      match (i.route (normalize command)).2 with
      | .ok reply => (i.process command).1.replyText reply
      | .error _ => [] := by
  rw [process_fst, process, dispatch]
  rcases i.route (normalize command) with ⟨changed, fault | reply⟩ <;> rfl

/-- **All that processing a command does to an instrument.** -/
theorem process_effect (i : Instrument) (command : Text) :
    Effect i (normalize command) (i.process command).1 := by
  rw [process_fst]
  exact route_effect i (normalize command)

/-! ## Runs -/

@[simp] theorem after_nil (i : Instrument) : i.after [] = i := rfl

@[simp] theorem after_cons (i : Instrument) (command : Text) (rest : List Text) :
    i.after (command :: rest) = (i.process command).1.after rest := rfl

theorem after_append (i : Instrument) (commands more : List Text) :
    i.after (commands ++ more) = (i.after commands).after more := List.foldl_append

@[simp] theorem replies_nil (i : Instrument) : i.replies [] = [] := rfl

@[simp] theorem replies_cons (i : Instrument) (command : Text) (rest : List Text) :
    i.replies (command :: rest) = (i.process command).2 :: (i.process command).1.replies rest := rfl

theorem replies_append (i : Instrument) (commands more : List Text) :
    i.replies (commands ++ more) = i.replies commands ++ (i.after commands).replies more := by
  induction commands generalizing i with
  | nil => rfl
  | cons command rest ih => rw [List.cons_append, replies_cons, replies_cons, ih]; rfl

@[simp] theorem length_replies (i : Instrument) (commands : List Text) :
    (i.replies commands).length = commands.length := by
  induction commands generalizing i with
  | nil => rfl
  | cons command rest ih => rw [replies_cons, List.length_cons, ih, List.length_cons]

/-- What every command of a run preserves holds in all that an instrument comes to. -/
theorem after_preserves_of_mem {P : Instrument → Prop} {commands : List Text}
    (hstep : ∀ i, ∀ command ∈ commands, P i → P (i.process command).1) {i : Instrument}
    (hi : P i) : P (i.after commands) := by
  induction commands generalizing i with
  | nil =>
    rw [after_nil]
    exact hi
  | cons command rest ih =>
    rw [after_cons]
    exact ih (fun i next hnext => hstep i next (.tail _ hnext)) (hstep i command (.head _) hi)

theorem after_preserves {P : Instrument → Prop} (hstep : ∀ i command, P i → P (i.process command).1)
    {i : Instrument} (hi : P i) (commands : List Text) : P (i.after commands) :=
  after_preserves_of_mem (fun i command _ => hstep i command) hi

/-- No command makes another model of an instrument. -/
theorem model_process (i : Instrument) (command : Text) : (i.process command).1.model = i.model := by
  have heffect := process_effect i command
  generalize (i.process command).1 = changed at heffect ⊢
  cases heffect with
  | none => rfl
  | header tail name mode => rfl
  | buzzer tail value => rfl
  | copy tail target source => exact model_withChannel i target _
  | reset => rfl
  | channel id settings => exact model_withChannel i id settings

@[simp] theorem model_after (i : Instrument) (commands : List Text) :
    (i.after commands).model = i.model :=
  after_preserves (P := fun changed => changed.model = i.model)
    (fun changed command h => (model_process changed command).trans h) rfl commands

/-! ## Keys -/

/-- The keys of all settings are those of an instrument that was just switched on. -/
structure HasKeys (i : Instrument) : Prop where
  device : i.settings.keys = defaultSettings.keys
  channel : ∀ id, (i.channel id).settings.keys = Channel.defaultSettings.keys

theorem hasKeys_new (model : Model) : (new model).HasKeys where
  device := rfl
  channel id := by cases id <;> rfl

theorem HasKeys.withChannel {i : Instrument} (h : i.HasKeys) {id : ChannelId} {s : Settings}
    (hs : s.keys = Channel.defaultSettings.keys) : (i.withChannel id s).HasKeys where
  device := by
    rw [settings_withChannel]
    exact h.device
  channel other := by
    by_cases hother : other = id
    · rw [hother, settings_withChannel_self]
      exact hs
    · rw [channel_withChannel_of_ne hother]
      exact h.channel other

/-- No command changes the keys. -/
theorem HasKeys.process {i : Instrument} (h : i.HasKeys) (command : Text) :
    (i.process command).1.HasKeys := by
  have heffect := process_effect i command
  generalize (i.process command).1 = changed at heffect ⊢
  cases heffect with
  | none => exact h
  | header tail name mode => exact ⟨(Settings.keys_set ..).trans h.device, h.channel⟩
  | buzzer tail value => exact ⟨(Settings.keys_set ..).trans h.device, h.channel⟩
  | copy tail target source => exact h.withChannel (h.channel source)
  | reset => exact hasKeys_new i.model
  | channel id settings heffect => exact h.withChannel (heffect.keys_eq.trans (h.channel id))

theorem hasKeys_after (model : Model) (commands : List Text) :
    ((new model).after commands).HasKeys :=
  after_preserves (fun _ command h => h.process command) (hasKeys_new model) commands

end Instrument

end WaveGen
