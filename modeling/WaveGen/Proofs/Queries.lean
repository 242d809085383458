import WaveGen.Client
import WaveGen.Proofs.CommandEffects

/-!
# Queries and the state (specification §4.4)

A query is a command whose first word ends in a question mark. Queries for a channel never change
anything: behind the verb of a set form stands a space. The verbs of the instrument as a whole are
recognised by what the command begins with, and their handlers look at the parameter alone, so a
query with a parameter is carried out as if the question mark were not there.

* `Instrument.SetsDevice` — the commands, with a parameter, that give the header mode, the buzzer or
  the settings of a channel a new value.
* `Instrument.process_query_eq_self_iff` — a query changes the instrument exactly if it is one of
  these.
-/

namespace WaveGen

namespace Instrument

/-! ## Commands that set something -/

/-- A command in normal form that gives something of the instrument a new value, by one of the verbs
of the instrument as a whole and a parameter behind the only space. The verb may be followed by
anything up to the space. -/
inductive SetsDevice (i : Instrument) (command : Text) : Prop where
  /-- The header mode. -/
  | header (tail name : Text) (mode : HeaderMode)
      (hcommand : command = "CHDR".toList ++ tail ++ ' ' :: name) (htail : ' ' ∉ tail)
      (hname : Text.upper name = mode.name) (hnew : i.settings.value Key.header ≠ mode.name)
  /-- The buzzer. -/
  | buzzer (tail value : Text)
      (hcommand : command = "BUZZ".toList ++ tail ++ ' ' :: value) (htail : ' ' ∉ tail)
      (hvalue : value = "ON".toList ∨ value = "OFF".toList)
      (hnew : i.settings.value Key.buzzer ≠ value)
  /-- The settings of a channel, which are copied from another one. A token names a channel by its
  second character. -/
  | copy (tail first second : Text) (target source : ChannelId)
      (hcommand : command = "PACP".toList ++ tail ++ ' ' :: (first ++ ',' :: second))
      (htail : ' ' ∉ tail) (hspace : ' ' ∉ first ++ second) (hcomma : ',' ∉ first ++ second)
      (hfirst : ∃ lead rest, first = lead :: target.digit :: rest)
      (hsecond : ∃ lead rest, second = lead :: source.digit :: rest)
      (hnew : (i.channel target).settings ≠ (i.channel source).settings)

/-- The name of a mode has no space, in whatever letter case it is written. -/
theorem not_mem_of_upper_eq_name {name : Text} {mode : HeaderMode}
    (h : Text.upper name = mode.name) : ' ' ∉ name := by
  intro hmem
  have hupper : ' ' ∈ Text.upper name := List.mem_map.mpr ⟨' ', hmem, rfl⟩
  rw [h] at hupper
  revert hupper
  cases mode <;> decide

theorem route_header (i : Instrument) {tail name : Text} {mode : HeaderMode} (htail : ' ' ∉ tail)
    (hname : Text.upper name = mode.name) :
    i.route ("CHDR".toList ++ tail ++ ' ' :: name) =
      ({ i with settings := i.settings.set Key.header mode.name }, .ok .silent) := by
  have hverb : ' ' ∉ "CHDR".toList ++ tail := by simpa using htail
  have hform : "CHDR".toList ++ tail ++ ' ' :: name ≠ "CHDR?".toList :=
    Text.append_space_ne (by decide) _ _
  show i.commHeader ("CHDR".toList ++ tail ++ ' ' :: name) = _
  rw [commHeader, if_neg hform, soleParameter_append hverb (not_mem_of_upper_eq_name hname)]
  dsimp only
  rw [HeaderMode.parse_eq_ok_iff.mpr hname]

theorem route_buzzer (i : Instrument) {tail value : Text} (htail : ' ' ∉ tail)
    (hvalue : value = "ON".toList ∨ value = "OFF".toList) :
    i.route ("BUZZ".toList ++ tail ++ ' ' :: value) =
      ({ i with settings := i.settings.set Key.buzzer value }, .ok .silent) := by
  have hverb : ' ' ∉ "BUZZ".toList ++ tail := by simpa using htail
  have hparameter : ' ' ∉ value := by rcases hvalue with rfl | rfl <;> decide
  have hform : "BUZZ".toList ++ tail ++ ' ' :: value ≠ "BUZZ?".toList :=
    Text.append_space_ne (by decide) _ _
  show i.buzzer ("BUZZ".toList ++ tail ++ ' ' :: value) = _
  rw [buzzer, if_neg hform, soleParameter_append hverb hparameter]
  dsimp only
  rw [if_pos hvalue]

theorem route_copy (i : Instrument) {tail first second : Text} {target source : ChannelId}
    (htail : ' ' ∉ tail) (hspace : ' ' ∉ first ++ second) (hcomma : ',' ∉ first ++ second)
    (hfirst : ∃ lead rest, first = lead :: target.digit :: rest)
    (hsecond : ∃ lead rest, second = lead :: source.digit :: rest) :
    i.route ("PACP".toList ++ tail ++ ' ' :: (first ++ ',' :: second)) =
      (i.withChannel target (i.channel source).settings, .ok .silent) := by
  have hverb : ' ' ∉ "PACP".toList ++ tail := by simpa using htail
  rw [List.mem_append, not_or] at hspace hcomma
  have hparameter : ' ' ∉ first ++ ',' :: second := by simpa using hspace
  have hchannels : copyParameters ("PACP".toList ++ tail ++ ' ' :: (first ++ ',' :: second)) =
      .ok (target, source) :=
    copyParameters_eq_ok_iff.mpr ⟨first, second, soleParameter_append hverb hparameter, hcomma.1,
      hcomma.2, channelOfToken_eq_ok_iff.mpr hfirst, channelOfToken_eq_ok_iff.mpr hsecond⟩
  show i.parameterCopy ("PACP".toList ++ tail ++ ' ' :: (first ++ ',' :: second)) = _
  rw [parameterCopy, hchannels]
  rfl

/-- A command that gives something a new value changes the instrument. -/
theorem SetsDevice.route_ne {i : Instrument} (hkeys : i.HasKeys) {command : Text}
    (h : SetsDevice i command) : (i.route command).1 ≠ i := by
  intro hsame
  cases h with
  | header tail name mode hcommand htail hname hnew =>
    have hcontains : i.settings.contains Key.header = true := by
      rw [Settings.contains_iff_mem_keys, hkeys.device]
      decide
    rw [hcommand, route_header i htail hname] at hsame
    exact Settings.set_ne_self hcontains hnew (congrArg Instrument.settings hsame)
  | buzzer tail value hcommand htail hvalue hnew =>
    have hcontains : i.settings.contains Key.buzzer = true := by
      rw [Settings.contains_iff_mem_keys, hkeys.device]
      decide
    rw [hcommand, route_buzzer i htail hvalue] at hsame
    exact Settings.set_ne_self hcontains hnew (congrArg Instrument.settings hsame)
  | copy tail first second target source hcommand htail hspace hcomma hfirst hsecond hnew =>
    rw [hcommand, route_copy i htail hspace hcomma hfirst hsecond] at hsame
    have hstored := congrArg (fun changed => (changed.channel target).settings) hsame
    dsimp only at hstored
    rw [settings_withChannel_self] at hstored
    exact hnew hstored.symm

/-! ## Queries -/

/-- A set form for a channel is no query: its verb is cut off by the space behind it. -/
theorem isQuery_address (id : ChannelId) (parameters : Text) :
    Client.isQuery (id.address ++ "OUTP ".toList ++ parameters) = false ∧
      Client.isQuery (id.address ++ "BSWV ".toList ++ parameters) = false := by
  cases id <;> exact ⟨rfl, rfl⟩

/-- What a query does to an instrument, if it does anything, is to set something of the instrument
as a whole. -/
theorem Effect.eq_self_or_setsDevice {i changed : Instrument} {command : Text}
    (heffect : Effect i command changed) (hquery : Client.isQuery command = true) :
    changed = i ∨ SetsDevice i command := by
  cases heffect with
  | none => exact .inl rfl
  | header tail name mode hcommand hname hmode =>
    -- the handler looks at the parameter alone, so the question mark may stand in `more`
    by_cases hnew : i.settings.value Key.header = mode.name
    · left
      rw [← hnew, Settings.set_value]
    · right
      obtain ⟨verb, hverb, hspace, -⟩ := soleParameter_eq_ok_iff.mp hname
      obtain ⟨more, rfl⟩ := Text.eq_append_of_prefix (by decide) (hcommand.symm.trans hverb)
      exact .header more name mode hverb (fun h => hspace (List.mem_append_right _ h))
        (HeaderMode.parse_eq_ok_iff.mp hmode) hnew
  | buzzer tail value hcommand hvalue hstate =>
    by_cases hnew : i.settings.value Key.buzzer = value
    · left
      rw [← hnew, Settings.set_value]
    · right
      obtain ⟨verb, hverb, hspace, -⟩ := soleParameter_eq_ok_iff.mp hvalue
      obtain ⟨more, rfl⟩ := Text.eq_append_of_prefix (by decide) (hcommand.symm.trans hverb)
      exact .buzzer more value hverb (fun h => hspace (List.mem_append_right _ h)) hstate hnew
  | copy tail target source hcommand hchannels =>
    by_cases hnew : (i.channel target).settings = (i.channel source).settings
    · left
      rw [← hnew, withChannel_channel]
    · right
      obtain ⟨first, second, hpair, hcomma, hcomma', hfirst, hsecond⟩ :=
        copyParameters_eq_ok_iff.mp hchannels
      obtain ⟨verb, hverb, hspace, hspace'⟩ := soleParameter_eq_ok_iff.mp hpair
      obtain ⟨more, rfl⟩ := Text.eq_append_of_prefix (by decide) (hcommand.symm.trans hverb)
      refine .copy more first second target source hverb
        (fun h => hspace (List.mem_append_right _ h)) ?_ ?_ (channelOfToken_eq_ok_iff.mp hfirst)
        (channelOfToken_eq_ok_iff.mp hsecond) hnew
      · simpa using hspace'
      · rw [List.mem_append, not_or]
        exact ⟨hcomma, hcomma'⟩
  | reset hcommand =>
    -- the only verb of these that is matched as a whole
    have hnone : Client.isQuery "*RST".toList = false := rfl
    rw [hcommand, hnone] at hquery
    cases hquery
  | channel id settings heffect =>
    cases heffect with
    | none => exact .inl (withChannel_channel i id)
    | output parameters hcommand =>
      rw [hcommand, address_channel, (isQuery_address id parameters).1] at hquery
      cases hquery
    | wave parameters key value more writes hcommand =>
      rw [hcommand, address_channel, (isQuery_address id parameters).2] at hquery
      cases hquery

/-- **Queries and the state.** A query leaves an instrument, whatever it has been through, as it is,
unless it reads `CHDR`, `BUZZ` or `PACP` with anything behind the verb and a parameter that would
set something to a new value. Then it does set it. -/
theorem process_query_eq_self_iff (model : Model) (history : List Text) (command : Text)
    (hquery : Client.isQuery (normalize command) = true) :
    (((new model).after history).process command).1 = (new model).after history ↔
      ¬ SetsDevice ((new model).after history) (normalize command) := by
  constructor
  · intro hsame hsets
    rw [process_fst] at hsame
    exact hsets.route_ne (hasKeys_after model history) hsame
  · intro hsets
    have heffect := process_effect ((new model).after history) command
    exact (heffect.eq_self_or_setsDevice hquery).resolve_right hsets

/-- A copy is made although it is asked for as a query, with tokens that only look like channels. -/
theorem process_query_ne_self_copy :
    Client.isQuery (normalize "paracopy? X2,C1Y".toList) = true ∧
      (((new .sdg1032x).after ["C1:OUTP ON".toList]).process "paracopy? X2,C1Y".toList).1 ≠
        (new .sdg1032x).after ["C1:OUTP ON".toList] := by
  have hquery : Client.isQuery (normalize "paracopy? X2,C1Y".toList) = true := by decide +kernel
  refine ⟨hquery, fun hsame => ?_⟩
  refine (process_query_eq_self_iff .sdg1032x ["C1:OUTP ON".toList] "paracopy? X2,C1Y".toList
    hquery).mp hsame ?_
  have hnormal : normalize "paracopy? X2,C1Y".toList =
      "PACP".toList ++ "?".toList ++ ' ' :: ("X2".toList ++ ',' :: "C1Y".toList) := by
    decide +kernel
  exact .copy "?".toList "X2".toList "C1Y".toList .second .first hnormal (by decide) (by decide)
    (by decide) ⟨'X', [], rfl⟩ ⟨'C', ['Y'], rfl⟩ (by decide +kernel)

/-- A query sets the header mode. -/
theorem headerQuery_sets_mode :
    Client.isQuery (normalize "CHDR? LONG".toList) = true ∧
      ((new .sdg1032x).process "CHDR? LONG".toList).1 ≠ new .sdg1032x := by
  refine ⟨by decide +kernel, fun hsame => ?_⟩
  have hmode := congrArg (fun i => i.settings.value Key.header) hsame
  revert hmode
  decide +kernel

end Instrument

end WaveGen
