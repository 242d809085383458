import WaveGen.Proofs.LoadChanges
import WaveGen.Proofs.OutputStreams
import WaveGen.Proofs.Resets

/-!
# Sending a command again

A client that does not know whether a command arrived can send it again: the second one finds what
the first one left, writes the same over it, and is answered, turned down or stopped half-way as
before. A change of load is the only command that computes with what is there, and the load that is
there already is not changed again. This fails for one kind of command: a stream that stores a
setting that is scaled with the load, and changes the load behind it. The second time it stores the
value without scaling it.

* `Channel.CarriedOut.exists_writes` — parameters in front of a load write the same in any state.
* `Channel.outputStream_idem` — a stream that is sent again, however it ends.
* `Instrument.process_process` — all commands.
-/

namespace WaveGen

namespace Channel

/-! ## Streams -/

variable {s t u : Settings} {front rest tokens : List Text}

/-- Parameters that are carried out come to writes that do not depend on the state: the keys are
those of the stream, and of the output. -/
theorem CarriedOut.exists_writes (h : CarriedOut front s t)
    (hkeys : s.keys = defaultSettings.keys) (rest : List Text) :
    ∃ writes : List (Text × Text), t = s.setAll writes ∧
      (∀ u : Settings, u.keys = defaultSettings.keys → CarriedOut front u (u.setAll writes)) ∧
      ∀ key ∈ writes.map Prod.fst, key = Key.output ∨ key ∈ storedKeys (front ++ rest) := by
  induction h with
  | nil s => exact ⟨[], rfl, fun u _ => .nil u, fun key hkey => nomatch hkey⟩
  | @state token more s t htoken hmore ih =>
    obtain ⟨writes, rfl, hagain, hstored⟩ := ih ((Settings.keys_set s _ _).trans hkeys)
    refine ⟨(Key.output, token) :: writes, rfl, fun u hu => ?_, ?_⟩
    · exact .state htoken (hagain _ ((Settings.keys_set u _ _).trans hu))
    · rw [List.cons_append, storedKeys_state htoken]
      exact List.forall_mem_cons.mpr ⟨.inl rfl, hstored⟩
  | @set key value more s t hstate hload hkey hvalue hmore ih =>
    obtain ⟨writes, rfl, hagain, hstored⟩ := ih ((Settings.keys_set s _ _).trans hkeys)
    have hmem : key ∈ defaultSettings.keys := hkeys ▸ Settings.contains_iff_mem_keys.mp hkey
    refine ⟨(key, value) :: writes, rfl, fun u hu => ?_, ?_⟩
    · have hcontains : u.contains key = true := Settings.contains_iff_mem_keys.mpr (hu ▸ hmem)
      exact .set hstate hload hcontains hvalue (hagain _ ((Settings.keys_set u _ _).trans hu))
    · rw [List.cons_append, List.cons_append, storedKeys_set hstate hload hmem hvalue]
      refine List.forall_mem_cons.mpr ⟨.inr (.head _), fun other hother => ?_⟩
      exact (hstored other hother).imp_right (.tail key)

/-- Parameters that were carried out can be carried out again, and change nothing then. -/
theorem CarriedOut.again (h : CarriedOut front s t) (hkeys : s.keys = defaultSettings.keys) :
    CarriedOut front t t := by
  obtain ⟨writes, rfl, hagain, -⟩ := h.exists_writes hkeys []
  have hcarried := hagain (s.setAll writes) ((Settings.keys_setAll s writes).trans hkeys)
  rw [Settings.setAll_setAll_self] at hcarried
  exact hcarried

/-- The stream stores a setting that is scaled with the load, and comes to a load behind it. -/
def StoresBeforeLoad (tokens : List Text) (s : Settings) : Prop :=
  ReachesLoad tokens s ∧ ∃ key ∈ storedKeys tokens, key ∈ loadScaled

/-- Parameters that write neither the load nor what is scaled with it can be carried out again on
the settings that a change of load has left behind them. -/
theorem CarriedOut.again_changeLoad {load : Text} (h : CarriedOut front s t)
    (hkeys : s.keys = defaultSettings.keys)
    (hscaled : ∀ key ∈ storedKeys (front ++ Key.load :: load :: rest), key ∉ loadScaled)
    (hchange : changeLoad t load = .ok u) : CarriedOut front u u ∧ changeLoad u load = .ok u := by
  rcases changeLoad_eq_ok_iff.mp hchange with ⟨-, rfl⟩ | ⟨-, scale, scaledWrites, -, hscale, hnew⟩
  · exact ⟨h.again hkeys, hchange⟩
  obtain ⟨writes, rfl, hagain, hstored⟩ := h.exists_writes hkeys (Key.load :: load :: rest)
  have hu : u = (s.setAll writes).setAll ((Key.load, load) :: scaledWrites) := hnew
  have hwritten : ((Key.load, load) :: scaledWrites).map Prod.fst = Key.load :: loadScaled := by
    rw [List.map_cons, scaled_keys hscale]
  have hapart : ∀ key ∈ writes.map Prod.fst,
      key ∉ ((Key.load, load) :: scaledWrites).map Prod.fst := by
    intro key hkey
    rw [hwritten, List.mem_cons, not_or]
    rcases hstored key hkey with rfl | hmem
    · decide
    · exact ⟨load_not_mem_storedKeys hmem, hscaled key hmem⟩
  have hkeys_u : u.keys = defaultSettings.keys := by
    rw [hu, Settings.keys_setAll, Settings.keys_setAll, hkeys]
  have hsame : u.setAll writes = u := by
    rw [hu, ← Settings.setAll_comm hapart, Settings.setAll_setAll_self]
  have hload : u.value Key.load = load := by
    have hcontains : (s.setAll writes).contains Key.load = true := by
      rw [Settings.contains_iff_mem_keys, Settings.keys_setAll, hkeys]
      decide
    refine hu ▸ Settings.value_setAll_of_mem ?_ (.head _) hcontains
    rw [hwritten]
    decide
  have hcarried := hagain u hkeys_u
  rw [hsame] at hcarried
  exact ⟨hcarried, changeLoad_eq_ok_iff.mpr (.inl ⟨hload, rfl⟩)⟩

/-- **A stream that is sent again** ends as it did before, and leaves what it left before. -/
theorem outputStream_idem (hkeys : s.keys = defaultSettings.keys) (h : ¬StoresBeforeLoad tokens s)
    (command : Text) :
    outputStream command tokens (outputStream command tokens s).1 =
      outputStream command tokens s := by
  rcases hstream : outputStream command tokens s with ⟨u, fault | ⟨⟨⟩⟩⟩
  · obtain ⟨front, rest, rfl, hfront, -⟩ := outputStream_of_error hstream
    rw [outputStream_append hfront] at hstream
    rw [outputStream_append (hfront.again hkeys), hstream]
  · rcases outputStream_of_ok hstream with hall | ⟨front, load, rest, t, rfl, hfront, hchange⟩
    · have hend := outputStream_append (hall.again hkeys) command []
      rw [List.append_nil] at hend
      exact hend
    · have hscaled : ∀ key ∈ storedKeys (front ++ Key.load :: load :: rest), key ∉ loadScaled :=
        fun key hkey hmem => h ⟨⟨front, load :: rest, t, rfl, hfront⟩, key, hkey, hmem⟩
      obtain ⟨hagain, hsame⟩ := hfront.again_changeLoad hkeys hscaled hchange
      rw [outputStream_append hagain, outputStream_of_load hsame]

/-! ## Commands for a channel -/

/-- The writes of a basic wave command do not depend on the values that are there. -/
theorem waveWrites_congr (h : s.keys = t.keys) (command key : Text) (value? : Option Text) :
    waveWrites s command key value? = waveWrites t command key value? := by
  have hcontains : s.contains key = t.contains key := by
    rw [Settings.contains, Settings.contains, h]
  rw [waveWrites.eq_def, waveWrites.eq_def, hcontains]

theorem output_idem {c : Channel} {body : Text} (hkeys : c.settings.keys = defaultSettings.keys)
    (h : ∀ parameters, body = "OUTP ".toList ++ parameters →
      ¬StoresBeforeLoad (Text.split ',' (Text.before ' ' parameters)) c.settings) :
    (c.output body).1.output body = c.output body := by
  by_cases hquery : body = "OUTP?".toList
  · have hsame : (c.output body).1 = c := by rw [output, if_pos hquery]
    rw [hsame]
  cases hword : parameterWord outputVerb body with
  | error fault =>
    have hsame : (c.output body).1 = c := by rw [output, if_neg hquery, hword]
    rw [hsame]
  | ok word =>
    obtain ⟨parameters, hbody, -⟩ := parameterWord_eq_ok hword
    have hbody : body = "OUTP ".toList ++ parameters := hbody
    have hagain := outputStream_idem hkeys (h parameters hbody) body
    rw [hbody] at hagain ⊢
    rw [output_parameters c]
    show output { c with settings := (outputStream _ _ c.settings).1 } _ = _
    rw [output_parameters, hagain]

theorem basicWave_idem (c : Channel) (body : Text) :
    (c.basicWave body).1.basicWave body = c.basicWave body := by
  by_cases hquery : body = "BSWV?".toList
  · have hsame : (c.basicWave body).1 = c := by rw [basicWave, if_pos hquery]
    rw [hsame]
  cases hword : parameterWord basicWaveVerb body with
  | error fault =>
    have hsame : (c.basicWave body).1 = c := by rw [basicWave, if_neg hquery, hword]
    rw [hsame]
  | ok word =>
    cases hwrites : waveWrites c.settings body (Text.before ',' word)
        ((Text.after? ',' word).map (Text.before ',')) with
    | error fault =>
      have hsame : (c.basicWave body).1 = c := by
        rw [basicWave, if_neg hquery, hword]
        dsimp only
        rw [hwrites]
      rw [hsame]
    | ok writes =>
      have hwave : ∀ d : Channel, d.settings.keys = c.settings.keys →
          d.basicWave body = ({ d with settings := d.settings.setAll writes }, .ok .silent) := by
        intro d hd
        rw [basicWave, if_neg hquery, hword]
        dsimp only
        rw [waveWrites_congr hd, hwrites]
      rw [hwave c rfl, hwave _ (Settings.keys_setAll c.settings writes)]
      dsimp only
      rw [Settings.setAll_setAll_self]

/-- A command for a channel that is sent again does what it did before. -/
theorem process_idem {c : Channel} {command : Text}
    (hkeys : c.settings.keys = defaultSettings.keys)
    (h : ∀ parameters, command = c.address ++ "OUTP ".toList ++ parameters →
      ¬StoresBeforeLoad (Text.split ',' (Text.before ' ' parameters)) c.settings) :
    (c.process command).1.process command = c.process command := by
  cases hbody : Text.dropHead? c.address command with
  | none =>
    have hsame : (c.process command).1 = c := by rw [process, hbody]
    rw [hsame]
  | some body =>
    -- the number stays, so the command is for this channel the second time too
    have hprocess : ∀ d : Channel, d.number = c.number → d.process command =
        if Text.startsWith outputVerb body then d.output body
        else if Text.startsWith basicWaveVerb body then d.basicWave body
        else (d, .error (.unsupportedForm command)) := by
      intro d hd
      rw [process, address, hd, ← address, hbody]
    rw [hprocess c rfl]
    by_cases houtput : Text.startsWith outputVerb body = true
    · rw [if_pos houtput, hprocess _ (number_output c body), if_pos houtput]
      refine output_idem hkeys fun parameters hparameters => h parameters ?_
      rw [Text.dropHead?_eq_some_iff.mp hbody, hparameters, List.append_assoc]
    by_cases hwave : Text.startsWith basicWaveVerb body = true
    · rw [if_neg houtput, if_pos hwave, hprocess _ (number_basicWave c body), if_neg houtput,
        if_pos hwave, basicWave_idem]
    · rw [if_neg houtput, if_neg hwave, hprocess c rfl, if_neg houtput, if_neg hwave]

end Channel

namespace Instrument

/-! ## Commands -/

variable {i : Instrument} {command : Text}

theorem commHeader_idem (i : Instrument) (command : Text) :
    (i.commHeader command).1.commHeader command = i.commHeader command := by
  by_cases hquery : command = "CHDR?".toList
  · have hsame : (i.commHeader command).1 = i := by rw [commHeader, if_pos hquery]
    rw [hsame]
  cases hname : soleParameter command with
  | error fault =>
    have hsame : (i.commHeader command).1 = i := by rw [commHeader, if_neg hquery, hname]
    rw [hsame]
  | ok name =>
    cases hmode : HeaderMode.parse name with
    | error fault =>
      have hsame : (i.commHeader command).1 = i := by
        rw [commHeader, if_neg hquery, hname]
        dsimp only
        rw [hmode]
      rw [hsame]
    | ok mode =>
      have hset : ∀ j : Instrument, j.commHeader command =
          ({ j with settings := j.settings.set Key.header mode.name }, .ok .silent) := by
        intro j
        rw [commHeader, if_neg hquery, hname]
        dsimp only
        rw [hmode]
      rw [hset i, hset]
      dsimp only
      rw [Settings.set_set]

theorem buzzer_idem (i : Instrument) (command : Text) :
    (i.buzzer command).1.buzzer command = i.buzzer command := by
  by_cases hquery : command = "BUZZ?".toList
  · have hsame : (i.buzzer command).1 = i := by rw [buzzer, if_pos hquery]
    rw [hsame]
  cases hvalue : soleParameter command with
  | error fault =>
    have hsame : (i.buzzer command).1 = i := by rw [buzzer, if_neg hquery, hvalue]
    rw [hsame]
  | ok value =>
    have hset : ∀ j : Instrument, j.buzzer command =
        if value = "ON".toList ∨ value = "OFF".toList then
          ({ j with settings := j.settings.set Key.buzzer value }, .ok .silent)
        else (j, .error (.invalidValue Key.buzzer value)) := by
      intro j
      rw [buzzer, if_neg hquery, hvalue]
    by_cases hstate : value = "ON".toList ∨ value = "OFF".toList
    · rw [hset i, if_pos hstate, hset, if_pos hstate, Settings.set_set]
    · have hsame : (i.buzzer command).1 = i := by rw [hset i, if_neg hstate]
      rw [hsame]

theorem parameterCopy_idem (i : Instrument) (command : Text) :
    (i.parameterCopy command).1.parameterCopy command = i.parameterCopy command := by
  cases hchannels : copyParameters command with
  | error fault =>
    have hsame : (i.parameterCopy command).1 = i := by rw [parameterCopy, hchannels]
    rw [hsame]
  | ok pair =>
    obtain ⟨target, source⟩ := pair
    have hcopy : ∀ j : Instrument, j.parameterCopy command =
        (j.withChannel target (j.channel source).settings, .ok .silent) := by
      intro j
      rw [parameterCopy, hchannels]
      rfl
    have hsource : ((i.withChannel target (i.channel source).settings).channel source).settings =
        (i.channel source).settings := by
      by_cases hself : source = target
      · rw [hself, settings_withChannel_self]
      · rw [channel_withChannel_of_ne hself]
    rw [hcopy i, hcopy]
    dsimp only
    rw [hsource, withChannel_withChannel]

/-- The command is a stream for the output of a channel that stores a setting that is scaled with
the load, and comes to a load behind it. -/
def StoresBeforeLoad (i : Instrument) (command : Text) : Prop :=
  ∃ (id : ChannelId) (parameters : Text), command = id.address ++ "OUTP ".toList ++ parameters ∧
    Channel.StoresBeforeLoad (Text.split ',' (Text.before ' ' parameters)) (i.channel id).settings

theorem channelCommand_idem (hkeys : i.HasKeys) (h : ¬StoresBeforeLoad i command) (index : Nat) :
    (i.channelCommand index command).1.channelCommand index command =
      i.channelCommand index command := by
  cases hid : ChannelId.ofIndex? index with
  | none =>
    have hsame : (i.channelCommand index command).1 = i := by rw [channelCommand, hid]
    rw [hsame]
  | some id =>
    have hchannel : ∀ j : Instrument, j.channelCommand index command =
        (j.withChannel id ((j.channel id).process command).1.settings,
          ((j.channel id).process command).2) := by
      intro j
      rw [channelCommand, hid]
    have hprocess : ((i.channel id).process command).1.process command =
        (i.channel id).process command := by
      refine Channel.process_idem (hkeys.channel id) fun parameters hparameters hstores => ?_
      rw [address_channel] at hparameters
      exact h ⟨id, parameters, hparameters, hstores⟩
    have hwritten : (i.withChannel id ((i.channel id).process command).1.settings).channel id =
        ((i.channel id).process command).1 :=
      channel_withChannel_eq (Channel.number_process (i.channel id) command)
    rw [hchannel i, hchannel]
    dsimp only
    rw [hwritten, hprocess, withChannel_withChannel]

/-- Carrying out a command again comes to what it came to before, the fault included. -/
theorem route_idem (hkeys : i.HasKeys) (h : ¬StoresBeforeLoad i command) :
    (i.route command).1.route command = i.route command := by
  cases hroute : Route.ofCommand command with
  | identification | operationComplete | storeList | nowhere =>
    have hsame : (i.route command).1 = i := by rw [route, hroute]
    rw [hsame]
  | parameterCopy =>
    have hcopy : ∀ j : Instrument, j.route command = j.parameterCopy command := by
      intro j
      rw [route, hroute]
    rw [hcopy i, hcopy, parameterCopy_idem]
  | reset =>
    have hreset : ∀ j : Instrument, j.route command = (j.reset, .ok .silent) := by
      intro j
      rw [route, hroute]
    rw [hreset i, hreset]
    rfl
  | commHeader =>
    have hheader : ∀ j : Instrument, j.route command = j.commHeader command := by
      intro j
      rw [route, hroute]
    rw [hheader i, hheader, commHeader_idem]
  | buzzer =>
    have hbuzzer : ∀ j : Instrument, j.route command = j.buzzer command := by
      intro j
      rw [route, hroute]
    rw [hbuzzer i, hbuzzer, buzzer_idem]
  | channel index =>
    have hchannel : ∀ j : Instrument, j.route command = j.channelCommand index command := by
      intro j
      rw [route, hroute]
    rw [hchannel i, hchannel, channelCommand_idem hkeys h]

/-- **Sending a command again is harmless.** In every state that an instrument can come to, a
command that is sent a second time leaves the instrument as the first one left it, and is answered
as the first one was. It may have been turned down, have stopped half-way or have changed the load;
it only must not store a setting that is scaled with the load in front of a load. -/
theorem process_process (hkeys : i.HasKeys) (h : ¬StoresBeforeLoad i (normalize command)) :
    (i.process command).1.process command = i.process command := by
  rw [process_fst, process, dispatch, route_idem hkeys h]
  rfl

/-- A change of load behind a value that looks like the name of an amplitude. -/
theorem process_process_changeLoad :
    let i := (new .sdg1032x).after ["C1:BSWV AMP,7".toList]
    let command := "c1:output off,wvtp,amp,load,50,bogus".toList
    i.HasKeys ∧ ¬StoresBeforeLoad i (normalize command) ∧
      (i.process command).1.process command = i.process command := by
  intro i command
  have hkeys : i.HasKeys := hasKeys_after .sdg1032x _
  have hstores : ¬StoresBeforeLoad i (normalize command) := by
    rintro ⟨id, parameters, hcommand, -, key, hkey, hscaled⟩
    have hparameters : parameters = (normalize command).drop 8 := by
      rw [hcommand]
      cases id <;> rfl
    have hstored : Channel.storedKeys (Text.split ',' (Text.before ' '
        ((normalize command).drop 8))) = ["WVTP".toList] := by
      decide +kernel
    rw [hparameters, hstored, List.mem_singleton] at hkey
    rw [hkey] at hscaled
    revert hscaled
    decide
  exact ⟨hkeys, hstores, process_process hkeys hstores⟩

/-- The exception: the second time the amplitude is stored without being scaled. -/
example :
    let command := "C1:OUTP AMP,4,LOAD,50".toList
    let i := ((new .sdg1032x).process command).1
    (i.channel .first).settings.value Channel.Key.amplitude = "2".toList ∧
      ((i.process command).1.channel .first).settings.value Channel.Key.amplitude = "4".toList := by
  decide +kernel

end Instrument

end WaveGen
