import WaveGen.Proofs.ChannelClients
import WaveGen.Proofs.Models

/-!
# Resets (specification §4.4)

What a reset does not rebuild is what no command can change: the model, and the numbers of the
channels. So a reset leaves nothing of what an instrument has been through, and from there on the
instrument and a new one cannot be told apart. A channel stays as new behind a reset for as long as
no command is for it and no other channel is copied to it.

* `Channel.number_process`, `Channel.number_copyFrom`, `Channel.number_reset` — a channel keeps its
  number, whatever it carries out. So an instrument that keeps the settings in the place of a channel
  keeps the channel (`Instrument.channel_route`).
* `Instrument.MayWrite` — the commands that may change a channel.
* `Instrument.reset_forgets` — nothing is left behind a reset.
-/

namespace WaveGen

/-! ## Numbers -/

namespace Channel

theorem number_output (c : Channel) (body : Text) : (c.output body).1.number = c.number := by
  rw [output]
  split
  · rfl
  · cases parameterWord outputVerb body with
    | error fault => rfl
    | ok word => rfl

theorem number_basicWave (c : Channel) (body : Text) : (c.basicWave body).1.number = c.number := by
  rw [basicWave]
  split
  · rfl
  · cases parameterWord basicWaveVerb body with
    | error fault => rfl
    | ok word =>
      dsimp only
      split <;> rfl

/-- **A channel keeps its number**, whatever it carries out and whether that fails or not. -/
theorem number_process (c : Channel) (command : Text) :
    (c.process command).1.number = c.number := by
  rw [process]
  cases Text.dropHead? c.address command with
  | none => rfl
  | some body =>
    dsimp only
    split
    · exact number_output c body
    · split
      · exact number_basicWave c body
      · rfl

theorem number_copyFrom (c source : Channel) : (c.copyFrom source).number = c.number := rfl

theorem number_reset (c : Channel) : c.reset.number = c.number := rfl

end Channel

namespace Instrument

@[simp] theorem number_channel (i : Instrument) (id : ChannelId) :
    (i.channel id).number = id.number := by cases id <;> rfl

/-- To keep the settings of a channel with its number is to keep the channel. -/
theorem channel_withChannel_eq {i : Instrument} {id : ChannelId} {c : Channel}
    (h : c.number = (i.channel id).number) : (i.withChannel id c.settings).channel id = c := by
  rw [channel_withChannel_self]
  show Channel.mk (i.channel id).number c.settings = c
  rw [← h]

theorem channel_channelCommand (i : Instrument) {index : Nat} {id : ChannelId}
    (hindex : ChannelId.ofIndex? index = some id) (command : Text) :
    (i.channelCommand index command).1.channel id = ((i.channel id).process command).1 := by
  rw [channelCommand, hindex]
  exact channel_withChannel_eq (Channel.number_process (i.channel id) command)

theorem channel_parameterCopy (i : Instrument) {command : Text} {target source : ChannelId}
    (hchannels : copyParameters command = .ok (target, source)) :
    (i.parameterCopy command).1.channel target =
      (i.channel target).copyFrom (i.channel source) := by
  rw [parameterCopy, hchannels]
  exact channel_withChannel_eq (Channel.number_copyFrom (i.channel target) (i.channel source))

theorem channel_reset (i : Instrument) (id : ChannelId) :
    i.reset.channel id = (i.channel id).reset := by
  have hkept : i.reset.channel id = ⟨(i.channel id).number, (i.channel id).reset.settings⟩ := by
    cases id <;> rfl
  rw [hkept, ← Channel.number_reset]

theorem channel_commHeader (i : Instrument) (command : Text) (id : ChannelId) :
    (i.commHeader command).1.channel id = i.channel id := by
  rw [commHeader]
  split
  · rfl
  · cases soleParameter command with
    | error fault => rfl
    | ok value =>
      dsimp only
      cases HeaderMode.parse value with
      | error fault => rfl
      | ok mode => cases id <;> rfl

theorem channel_buzzer (i : Instrument) (command : Text) (id : ChannelId) :
    (i.buzzer command).1.channel id = i.channel id := by
  rw [buzzer]
  split
  · rfl
  · cases soleParameter command with
    | error fault => rfl
    | ok value =>
      dsimp only
      split
      · cases id <;> rfl
      · rfl

/-- What becomes of a channel under a command. -/
def channelBehind (i : Instrument) (command : Text) (id : ChannelId) : Channel :=
  match Route.ofCommand command with
  | .channel index =>
    if ChannelId.ofIndex? index = some id then ((i.channel id).process command).1
    else i.channel id
  | .parameterCopy =>
    match copyParameters command with
    | .ok (target, source) =>
      if id = target then (i.channel id).copyFrom (i.channel source) else i.channel id
    | .error _ => i.channel id
  | .reset => (i.channel id).reset
  | _ => i.channel id

/-- **An instrument keeps its channels whole.** What it has in the place of a channel behind a command
is the channel that carried it out, that was copied to or that was reset, its number included. -/
theorem channel_route (i : Instrument) (command : Text) (id : ChannelId) :
    (i.route command).1.channel id = i.channelBehind command id := by
  rw [route, channelBehind]
  cases Route.ofCommand command with
  | identification | operationComplete | storeList | nowhere => rfl
  | reset => exact channel_reset i id
  | commHeader => exact channel_commHeader i command id
  | buzzer => exact channel_buzzer i command id
  | parameterCopy =>
    dsimp only
    cases hchannels : copyParameters command with
    | error fault =>
      rw [parameterCopy, hchannels]
    | ok pair =>
      obtain ⟨target, source⟩ := pair
      dsimp only
      by_cases hid : id = target
      · rw [if_pos hid, hid, channel_parameterCopy i hchannels]
      · rw [if_neg hid, parameterCopy, hchannels]
        exact channel_withChannel_of_ne hid i _
  | channel index =>
    dsimp only
    by_cases hid : ChannelId.ofIndex? index = some id
    · rw [if_pos hid, channel_channelCommand i hid]
    · rw [if_neg hid, channelCommand]
      cases hother : ChannelId.ofIndex? index with
      | none => rfl
      | some other =>
        have hne : id ≠ other := fun heq => hid (heq ▸ hother)
        exact channel_withChannel_of_ne hne i _

theorem channel_new (model : Model) (id : ChannelId) :
    (new model).channel id = .new id.number := by cases id <;> rfl

/-! ## What may change a channel -/

/-- A command in normal form that may change the settings of a channel, and is no reset: one that is
for this channel, or one that copies the settings of some channel to it. -/
def MayWrite (id : ChannelId) (command : Text) : Prop :=
  IsFor id command ∨ ∃ source, copyParameters command = .ok (id, source)

theorem copiesTo_iff {id : ChannelId} {command : Text} :
    (copyParameters command).toOption.map Prod.fst = some id ↔
      ∃ source, copyParameters command = .ok (id, source) := by
  cases copyParameters command with
  | error fault => simp [Except.toOption]
  | ok pair =>
    obtain ⟨target, source⟩ := pair
    simp [Except.toOption]

instance (id : ChannelId) (command : Text) : Decidable (MayWrite id command) :=
  decidable_of_iff (IsFor id command ∨ (copyParameters command).toOption.map Prod.fst = some id)
    (or_congr_right copiesTo_iff)

theorem isFor_append (id : ChannelId) (verb parameters : Text) :
    IsFor id (id.address ++ verb ++ parameters) :=
  ⟨verb ++ parameters, (List.append_assoc ..).symm⟩

/-- A channel that a command may not change is as before or, behind a reset, as new. -/
theorem Effect.channel_eq {i changed : Instrument} {command : Text}
    (heffect : Effect i command changed) {id : ChannelId} (h : ¬ MayWrite id command) :
    changed.channel id = i.channel id ∨ changed.channel id = .new id.number := by
  cases heffect with
  | none => exact .inl rfl
  | header tail name mode => exact .inl (by cases id <;> rfl)
  | buzzer tail value => exact .inl (by cases id <;> rfl)
  | copy tail target source hcommand hchannels =>
    have hother : id ≠ target := by
      rintro rfl
      exact h (.inr ⟨source, hchannels⟩)
    exact .inl (channel_withChannel_of_ne hother i _)
  | reset hcommand => exact .inr (channel_new i.model id)
  | channel target settings heffect =>
    by_cases hid : id = target
    · subst hid
      left
      -- a channel that stores something was addressed
      cases heffect with
      | none => rw [withChannel_channel]
      | output parameters hcommand =>
        rw [address_channel] at hcommand
        exact absurd (.inl (hcommand ▸ isFor_append id _ parameters)) h
      | wave parameters key value more writes hcommand =>
        rw [address_channel] at hcommand
        exact absurd (.inl (hcommand ▸ isFor_append id _ parameters)) h
    · exact .inl (channel_withChannel_of_ne hid i _)

/-- A channel that is as new stays so, as long as no command may change it. -/
theorem channel_after_eq_new {i : Instrument} {id : ChannelId} (hi : i.channel id = .new id.number)
    {commands : List Text} (h : ∀ command ∈ commands, ¬ MayWrite id (normalize command)) :
    (i.after commands).channel id = .new id.number := by
  refine after_preserves_of_mem (P := fun i => i.channel id = .new id.number) ?_ hi
  intro i command hmem hi
  rcases (process_effect i command).channel_eq (h command hmem) with hsame | hnew
  · rw [hsame, hi]
  · exact hnew

/-! ## Behind a reset -/

/-- **A reset forgets everything.** Whatever an instrument has been through, behind a reset

* it is a new instrument of its model, in its settings as a whole, in its header mode and in both
  channels with their numbers, which no command for them could have changed;
* to any further commands it replies as a new instrument does, and comes to the same state;
* a channel that none of these commands may change is still as new, whatever becomes of the other
  one. -/
theorem reset_forgets (model : Model) (history further : List Text) :
    let used := (new model).after history
    let fresh := used.after ["*RST".toList]
    (∀ id command, ((used.channel id).process command).1.number = id.number) ∧
      fresh = new model ∧ fresh.headerMode = .short ∧ (∀ id, fresh.channel id = .new id.number) ∧
      fresh.replies further = (new model).replies further ∧
      fresh.after further = (new model).after further ∧
      ∀ id, (∀ command ∈ further, ¬ MayWrite id (normalize command)) →
        (fresh.after further).channel id = .new id.number := by
  intro used fresh
  have hfresh : fresh = new model := by
    show used.after ["*RST".toList] = new model
    rw [after_cons, after_nil, process_reset, model_after]
    rfl
  rw [hfresh]
  refine ⟨fun id command => ?_, rfl, rfl, channel_new model, rfl, rfl, fun id hother => ?_⟩
  · rw [Channel.number_process, number_channel]
  · exact channel_after_eq_new (channel_new model id) hother

/-- A channel is changed, copied and changed again; behind the reset, commands for the first channel
and a copy from the second one to the first leave the second one as new. -/
theorem reset_forgets_copied :
    let history := ["C1:BSWV AMP,7".toList, "PACP C2,C1".toList, "CHDR OFF".toList,
      "C2:OUTP ON,LOAD,50".toList]
    let further := ["C1:OUTP LOAD,50".toList, "PACP C1,C2".toList, "c1:bswv frq,5".toList]
    (∀ command ∈ further, ¬ MayWrite .second (normalize command)) ∧
      ((((new .sdg1032x).after history).after ["*RST".toList]).after further).channel .second =
        .new 2 := by
  intro history further
  have hother : ∀ command ∈ further, ¬ MayWrite .second (normalize command) := by decide +kernel
  obtain ⟨-, -, -, -, -, -, hchannel⟩ := reset_forgets .sdg1032x history further
  exact ⟨hother, hchannel .second hother⟩

end Instrument

end WaveGen
