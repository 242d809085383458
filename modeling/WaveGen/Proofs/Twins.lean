import WaveGen.Proofs.ChannelClients
import WaveGen.Proofs.Copies

/-!
# Twin channels

The channels of an instrument differ in nothing but their number, and the number is used in the
header of a reply and nowhere else. So once one channel is copied to the other, they are twins: as
long as each is sent what the other is sent, whatever that is and whether it is carried out, turned
down or fails half-way, their settings stay equal and their replies differ at most in the address
that they begin with. And they share nothing: what is sent to one of them does not reach the other.

* `Channel.process_congr`, `Channel.process_reply_cases` — a command for two channels with equal
  settings.
* `Instrument.Twins.process_pair` — one command that is sent to both channels.
* `Instrument.copies_are_twins` — runs of any length.
-/

namespace WaveGen

/-- The channel that is not this one. -/
def ChannelId.other : ChannelId → ChannelId
  | first => second
  | second => first

theorem ChannelId.other_ne (id : ChannelId) : id.other ≠ id := by cases id <;> decide

theorem ChannelId.other_other (id : ChannelId) : id.other.other = id := by cases id <;> rfl

theorem ChannelId.eq_or_eq_other (id channel : ChannelId) : id = channel ∨ id = channel.other := by
  cases id <;> cases channel <;> decide

/-! ## Commands and replies with an address -/

theorem trim_address (id : ChannelId) (body : Text) :
    Text.trim (id.address ++ body) = id.address ++ Text.trimEnd body := by
  have hstart : Text.trimStart (id.address ++ body) = id.address ++ body := by cases id <;> rfl
  rw [Text.trim, hstart]
  cases id with
  | first => exact Text.trimEnd_append_cons rfl ['C', '1'] body
  | second => exact Text.trimEnd_append_cons rfl ['C', '2'] body

/-- The token of a channel is no verb. -/
theorem Verb.short?_token (id : ChannelId) : Verb.short? id.token = none := by
  cases id <;> decide +kernel

theorem Verb.long?_token (id : ChannelId) : Verb.long? id.token = none := by
  cases id <;> decide +kernel

/-- Respelling leaves an address as it is. -/
theorem respell_address {table : Text → Option Text} {id : ChannelId}
    (htable : table id.token = none) (rest : Text) :
    Header.respell table (id.address ++ rest) = id.address ++ Header.respell table rest := by
  have htoken : Verb.respell table id.token = id.token := by
    have hstem : Verb.cutQuery (Text.upper id.token) = (id.token, []) := by cases id <;> rfl
    rw [Verb.respell, hstem]
    dsimp only
    rw [htable]
    cases id <;> rfl
  have haddress : ∀ rest : Text, id.address ++ rest = id.token ++ ':' :: rest := by
    intro rest
    cases id <;> rfl
  have hplain : ' ' ∉ id.token ∧ ':' ∉ id.token := by cases id <;> decide
  rw [haddress, Header.respell_verb hplain.1 hplain.2, htoken, haddress]

/-- What the instrument makes of the part of a command behind the address. -/
def normalBody (body : Text) : Text := Header.shorten (Text.upper (Text.trimEnd body))

theorem Instrument.normalize_address (id : ChannelId) (body : Text) :
    normalize (id.address ++ body) = id.address ++ normalBody body := by
  have hupper : ∀ rest : Text, Text.upper (id.address ++ rest) = id.address ++ Text.upper rest := by
    intro rest
    cases id <;> rfl
  rw [normalize, trim_address, hupper, Header.shorten, respell_address (Verb.short?_token id)]
  rfl

/-- What a header mode makes of a reply behind its address. Without headers nothing of the address
is left. -/
theorem HeaderMode.format_address (mode : HeaderMode) (text : Text) :
    mode ≠ .off ∧
        (∃ rest, ∀ id : ChannelId, mode.format (id.address ++ text) = id.address ++ rest) ∨
      mode = .off ∧ ∀ id : ChannelId, mode.format (id.address ++ text) = Header.strip text := by
  cases mode with
  | short =>
    exact .inl ⟨by decide, _, fun id => respell_address (Verb.short?_token id) text⟩
  | long =>
    exact .inl ⟨by decide, _, fun id => respell_address (Verb.long?_token id) text⟩
  | off =>
    refine .inr ⟨rfl, fun id => ?_⟩
    cases id <;> rfl

/-! ## Two channels with equal settings -/

namespace Channel

variable {c d : Channel}

theorem output_congr (h : c.settings = d.settings) (body : Text) :
    (c.output body).1.settings = (d.output body).1.settings := by
  rw [output, output, h]
  split
  · exact h
  · cases parameterWord outputVerb body with
    | error fault => exact h
    | ok word => rfl

theorem basicWave_congr (h : c.settings = d.settings) (body : Text) :
    (c.basicWave body).1.settings = (d.basicWave body).1.settings := by
  rw [basicWave, basicWave, h]
  split
  · exact h
  · cases parameterWord basicWaveVerb body with
    | error fault => exact h
    | ok word =>
      dsimp only
      split
      · exact h
      · rfl

/-- A command does the same to channels with equal settings. -/
theorem process_congr (h : c.settings = d.settings) (body : Text) :
    (c.process (c.address ++ body)).1.settings = (d.process (d.address ++ body)).1.settings := by
  rw [process, process, Text.dropHead?_eq_some_iff.mpr rfl, Text.dropHead?_eq_some_iff.mpr rfl]
  dsimp only
  split
  · exact output_congr h body
  · split
    · exact basicWave_congr h body
    · exact h

/-- Channels with equal settings are both silent, or report the same behind their addresses. -/
theorem process_reply_cases (h : c.settings = d.settings) (body : Text) :
    (∀ channel ∈ [c, d], ∀ reply, (channel.process (channel.address ++ body)).2 = .ok reply →
        reply = .silent) ∨
      ∃ text, ∀ channel ∈ [c, d],
        (channel.process (channel.address ++ body)).2 = .ok (.headed (channel.address ++ text)) := by
  have hsettings : ∀ channel ∈ [c, d], channel.settings = d.settings := by simp [h]
  by_cases houtput : body = "OUTP?".toList
  · refine .inr ⟨"OUTP".toList ++ ' ' :: Text.join ',' (outputFields d.settings), ?_⟩
    intro channel hchannel
    rw [houtput, process_outputQuery, outputReport_eq, hsettings channel hchannel,
      List.append_assoc]
  by_cases hwave : body = "BSWV?".toList
  · refine .inr ⟨"BSWV".toList ++ ' ' :: Text.join ',' (waveFields d.settings), ?_⟩
    intro channel hchannel
    rw [hwave, process_waveQuery, basicWaveReport_eq, hsettings channel hchannel,
      List.append_assoc]
  · left
    intro channel _ reply hreply
    rcases process_reply hreply with hsilent | ⟨hquery, -⟩ | ⟨hquery, -⟩
    · exact hsilent
    · exact absurd (List.append_cancel_left hquery) houtput
    · exact absurd (List.append_cancel_left hquery) hwave

end Channel

namespace Instrument

/-! ## Twins -/

/-- The channels have equal settings. -/
def Twins (i : Instrument) : Prop := ∀ id, (i.channel id).settings = (i.channel id.other).settings

theorem twins_of {i : Instrument} (id : ChannelId)
    (h : (i.channel id).settings = (i.channel id.other).settings) : i.Twins := by
  intro channel
  rcases channel.eq_or_eq_other id with rfl | rfl
  · exact h
  · rw [ChannelId.other_other]
    exact h.symm

/-- The replies of a channel and of the other one to the same command: they differ at most in the
address that they begin with, and without headers not at all. -/
def AlikeReplies (mode : HeaderMode) (id : ChannelId) (reply reply' : Text) : Prop :=
  if mode = .off then reply = reply'
  else reply = [] ∧ reply' = [] ∨
    ∃ rest, reply = id.address ++ rest ∧ reply' = id.other.address ++ rest

theorem alikeReplies_nil (mode : HeaderMode) (id : ChannelId) : AlikeReplies mode id [] [] := by
  rw [AlikeReplies]
  split
  · rfl
  · exact .inl ⟨rfl, rfl⟩

theorem alikeReplies_format (mode : HeaderMode) (id : ChannelId) (text : Text) :
    AlikeReplies mode id (mode.format (id.address ++ text))
      (mode.format (id.other.address ++ text)) := by
  rcases mode.format_address text with ⟨hmode, rest, hrest⟩ | ⟨hmode, hstrip⟩
  · rw [AlikeReplies, if_neg hmode, hrest id, hrest id.other]
    exact .inr ⟨rest, rfl, rfl⟩
  · rw [AlikeReplies, if_pos hmode, hstrip id, hstrip id.other]

theorem isFor_normalize (id : ChannelId) (body : Text) :
    IsFor id (normalize (id.address ++ body)) := by
  rw [normalize_address]
  exact List.prefix_append _ _

/-- A command for a channel, by what the channel makes of it. -/
theorem process_address_fst (i : Instrument) (id : ChannelId) (body : Text) :
    (i.process (id.address ++ body)).1 =
      i.withChannel id
        ((i.channel id).process ((i.channel id).address ++ normalBody body)).1.settings := by
  rw [process_isFor i (isFor_normalize id body), normalize_address, address_channel]

/-- What is sent when a command has come to this. -/
def outcomeText (i : Instrument) : Except CommandFault Reply → Text
  | .ok reply => i.replyText reply
  | .error _ => []

theorem outcomeText_of_silent (i : Instrument) {outcome : Except CommandFault Reply}
    (h : ∀ reply, outcome = .ok reply → reply = .silent) : i.outcomeText outcome = [] := by
  cases outcome with
  | error fault => rfl
  | ok reply =>
    rw [h reply rfl]
    rfl

theorem process_address_snd (i : Instrument) (id : ChannelId) (body : Text) :
    (i.process (id.address ++ body)).2 =
      i.outcomeText ((i.channel id).process ((i.channel id).address ++ normalBody body)).2 := by
  have hsettings : (i.process (id.address ++ body)).1.settings = i.settings := by
    rw [process_address_fst, settings_withChannel]
  rw [process_snd, normalize_address, route_channel, address_channel]
  dsimp only
  cases ((i.channel id).process (id.address ++ normalBody body)).2 with
  | error fault => rfl
  | ok reply =>
    cases reply with
    | silent => rfl
    | headed text =>
      show (i.process (id.address ++ body)).1.headerMode.format text = i.headerMode.format text
      rw [headerMode, hsettings, headerMode]
    | bare text => rfl

/-- **One command that twins are both sent**: they are twins afterwards, and they reply alike. -/
theorem Twins.process_pair {i : Instrument} (h : i.Twins) (id : ChannelId) (body : Text) :
    let j := (i.process (id.address ++ body)).1
    let k := (j.process (id.other.address ++ body)).1
    k.Twins ∧ k.settings = i.settings ∧
      AlikeReplies i.headerMode id (i.process (id.address ++ body)).2
        (j.process (id.other.address ++ body)).2 := by
  intro j k
  have hfirst : SameFor id.other j i :=
    process_sameFor_other i id.other_ne (isFor_normalize id body)
  have hsecond : SameFor id k j :=
    process_sameFor_other j id.other_ne.symm (isFor_normalize id.other body)
  refine ⟨twins_of id ?_, hsecond.settings.trans hfirst.settings, ?_⟩
  · -- each channel has carried out its own command, and neither of them the other one's
    have hlead : (k.channel id).settings =
        ((i.channel id).process ((i.channel id).address ++ normalBody body)).1.settings := by
      rw [hsecond.channel]
      show ((i.process (id.address ++ body)).1.channel id).settings = _
      rw [process_address_fst, settings_withChannel_self]
    have hother : (k.channel id.other).settings = ((i.channel id.other).process
        ((i.channel id.other).address ++ normalBody body)).1.settings := by
      show ((j.process (id.other.address ++ body)).1.channel id.other).settings = _
      rw [process_address_fst, settings_withChannel_self, hfirst.channel]
    rw [hlead, hother]
    exact Channel.process_congr (h id) (normalBody body)
  · rw [process_address_snd, process_address_snd, hfirst.channel]
    rcases Channel.process_reply_cases (h id) (normalBody body) with hsilent | ⟨text, htext⟩
    · rw [outcomeText_of_silent i (hsilent _ (.head _)),
        outcomeText_of_silent j (hsilent _ (.tail _ (.head _)))]
      exact alikeReplies_nil i.headerMode id
    · rw [htext _ (.head _), htext _ (.tail _ (.head _)), address_channel, address_channel]
      show AlikeReplies _ id (i.replyText (.headed _)) (j.replyText (.headed _))
      rw [hfirst.replyText_eq]
      exact alikeReplies_format i.headerMode id text

/-! ## Runs -/

/-- The commands that send each of these to both channels, to this one first. -/
def toBoth (id : ChannelId) (bodies : List Text) : List Text :=
  bodies.flatMap fun body => [id.address ++ body, id.other.address ++ body]

/-- Twins stay twins as long as both are sent the same. -/
theorem Twins.after_toBoth {i : Instrument} (h : i.Twins) (id : ChannelId) (bodies : List Text) :
    (i.after (toBoth id bodies)).Twins ∧ (i.after (toBoth id bodies)).settings = i.settings := by
  induction bodies generalizing i with
  | nil => exact ⟨h, rfl⟩
  | cons body rest ih =>
    obtain ⟨htwins, hsettings, -⟩ := h.process_pair id body
    obtain ⟨hrest, hrest_settings⟩ := ih htwins
    exact ⟨hrest, hrest_settings.trans hsettings⟩

/-- What is sent to one channel does not reach the other one. -/
theorem sameFor_after_other (i : Instrument) (id : ChannelId) (bodies : List Text) :
    SameFor id.other (i.after (bodies.map (id.address ++ ·))) i := by
  refine after_preserves_of_mem (P := fun j => SameFor id.other j i) ?_ (SameFor.refl id.other i)
  intro j command hcommand hj
  obtain ⟨body, -, rfl⟩ := List.mem_map.mp hcommand
  exact (process_sameFor_other j id.other_ne (isFor_normalize id body)).trans hj

theorem process_copyCommand (i : Instrument) (id : ChannelId) :
    (i.process (copyCommand id.token id.other.token)).1 =
      i.withChannel id (i.channel id.other).settings := by
  have hnormal : normalize (copyCommand id.token id.other.token) =
      copyCommand id.token id.other.token := by
    cases id <;> decide +kernel
  have htoken : ∀ id : ChannelId, IsToken id.token := by
    intro id
    cases id <;> decide
  rw [process, hnormal, dispatch_copy_of_reads i (htoken id) (htoken id.other)
    (names_token id).reads (names_token id.other).reads]

/-- **A copy makes twins.** Whatever an instrument has been through, once one of its channels is
copied to the other:

* as long as each channel is sent what the other is sent, one right after the other, their settings
  are equal after every pair of commands, and the two replies differ at most in the address that
  they begin with;
* whatever is sent to one channel only, the other one keeps the settings that were copied. -/
theorem copies_are_twins (model : Model) (history : List Text) (target : ChannelId) :
    let source := ((new model).after history).channel target.other
    let i := (((new model).after history).process (copyCommand target.token target.other.token)).1
    (∀ (id : ChannelId) (bodies : List Text) (body : Text),
      let j := i.after (toBoth id bodies)
      j.Twins ∧ AlikeReplies j.headerMode id (j.process (id.address ++ body)).2
        ((j.process (id.address ++ body)).1.process (id.other.address ++ body)).2) ∧
      ∀ (id : ChannelId) (bodies : List Text),
        ((i.after (bodies.map (id.address ++ ·))).channel id.other).settings = source.settings := by
  intro source i
  have hcopy : i = ((new model).after history).withChannel target source.settings :=
    process_copyCommand _ target
  have hchannel : ∀ id, (i.channel id).settings = source.settings := by
    intro id
    rw [hcopy]
    by_cases hid : id = target
    · rw [hid, settings_withChannel_self]
    · rw [channel_withChannel_of_ne hid, (id.eq_or_eq_other target).resolve_left hid]
  have htwins : i.Twins := fun id => (hchannel id).trans (hchannel id.other).symm
  constructor
  · intro id bodies body j
    have hj : j.Twins := (htwins.after_toBoth id bodies).1
    exact ⟨hj, (hj.process_pair id body).2.2⟩
  · intro id bodies
    rw [(sameFor_after_other i id bodies).channel]
    exact hchannel id.other

end Instrument

end WaveGen
