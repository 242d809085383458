import WaveGen.Proofs.CommandEffects

/-!
# What a model shows (specification §4.4)

Instruments of different models work alike. The model shows in the reply to the identification
query and in nothing else, and a reset leaves nothing of an instrument's past but its model.

* `Instrument.process_reset` — after a reset an instrument is as new.
* `Instrument.reply_of_models` — after the same commands, two models reply alike to any command that
  does not ask for the identification.
-/

namespace WaveGen

namespace Instrument

/-! ## Resets -/

/-- **A reset** leaves a new instrument of the same model, and gets no reply. -/
theorem process_reset (i : Instrument) : i.process "*RST".toList = (new i.model, []) := by
  have hnormal : normalize "*RST".toList = "*RST".toList := by decide +kernel
  rw [process, hnormal]
  rfl

/-! ## Other models -/

/-- The instrument as one of another model. -/
def ofModel (i : Instrument) (model : Model) : Instrument := { i with model }

@[simp] theorem ofModel_new (model other : Model) : (new model).ofModel other = new other := rfl

@[simp] theorem settings_ofModel (i : Instrument) (model : Model) :
    (i.ofModel model).settings = i.settings := rfl

@[simp] theorem channel_ofModel (i : Instrument) (model : Model) (id : ChannelId) :
    (i.ofModel model).channel id = i.channel id := by cases id <;> rfl

theorem withChannel_ofModel (i : Instrument) (model : Model) (id : ChannelId) (s : Settings) :
    (i.ofModel model).withChannel id s = (i.withChannel id s).ofModel model := by
  cases id <;> rfl

theorem commHeader_ofModel (i : Instrument) (model : Model) (command : Text) :
    (i.ofModel model).commHeader command =
      ((i.commHeader command).1.ofModel model, (i.commHeader command).2) := by
  rw [commHeader, commHeader, settings_ofModel]
  split
  · rfl
  · cases soleParameter command with
    | error fault => rfl
    | ok name =>
      dsimp only
      cases HeaderMode.parse name with
      | error fault => rfl
      | ok mode => rfl

theorem buzzer_ofModel (i : Instrument) (model : Model) (command : Text) :
    (i.ofModel model).buzzer command =
      ((i.buzzer command).1.ofModel model, (i.buzzer command).2) := by
  rw [buzzer, buzzer, settings_ofModel]
  split
  · rfl
  · cases soleParameter command with
    | error fault => rfl
    | ok value =>
      dsimp only
      split <;> rfl

theorem parameterCopy_ofModel (i : Instrument) (model : Model) (command : Text) :
    (i.ofModel model).parameterCopy command =
      ((i.parameterCopy command).1.ofModel model, (i.parameterCopy command).2) := by
  rw [parameterCopy, parameterCopy]
  cases copyParameters command with
  | error fault => rfl
  | ok pair =>
    dsimp only
    rw [channel_ofModel, channel_ofModel, withChannel_ofModel]

theorem channelCommand_ofModel (i : Instrument) (model : Model) (index : Nat) (command : Text) :
    (i.ofModel model).channelCommand index command =
      ((i.channelCommand index command).1.ofModel model, (i.channelCommand index command).2) := by
  rw [channelCommand, channelCommand]
  cases ChannelId.ofIndex? index with
  | none => rfl
  | some id =>
    dsimp only
    rw [channel_ofModel, withChannel_ofModel]

/-- Carrying out a command does not look at the model, unless it is asked for. -/
theorem route_ofModel (i : Instrument) (model : Model) (command : Text) :
    ((i.ofModel model).route command).1 = (i.route command).1.ofModel model ∧
      (command ≠ "*IDN?".toList →
        ((i.ofModel model).route command).2 = (i.route command).2) := by
  have hspec := Route.ofCommand_spec command
  rw [route, route]
  cases hroute : Route.ofCommand command with
  | identification =>
    rw [hroute] at hspec
    exact ⟨rfl, fun hother => absurd hspec hother⟩
  | operationComplete => exact ⟨rfl, fun _ => rfl⟩
  | parameterCopy =>
    dsimp only
    rw [parameterCopy_ofModel]
    exact ⟨rfl, fun _ => rfl⟩
  | reset => exact ⟨rfl, fun _ => rfl⟩
  | commHeader =>
    dsimp only
    rw [commHeader_ofModel]
    exact ⟨rfl, fun _ => rfl⟩
  | buzzer =>
    dsimp only
    rw [buzzer_ofModel]
    exact ⟨rfl, fun _ => rfl⟩
  | storeList => exact ⟨rfl, fun _ => rfl⟩
  | channel index =>
    dsimp only
    rw [channelCommand_ofModel]
    exact ⟨rfl, fun _ => rfl⟩
  | nowhere => exact ⟨rfl, fun _ => rfl⟩

theorem process_ofModel (i : Instrument) (model : Model) (command : Text) :
    ((i.ofModel model).process command).1 = (i.process command).1.ofModel model ∧
      (normalize command ≠ "*IDN?".toList →
        ((i.ofModel model).process command).2 = (i.process command).2) := by
  obtain ⟨hchanged, hreply⟩ := route_ofModel i model (normalize command)
  have hfirst : ((i.ofModel model).process command).1 = (i.process command).1.ofModel model := by
    rw [process_fst, process_fst, hchanged]
  refine ⟨hfirst, fun hother => ?_⟩
  rw [process_snd, process_snd, hreply hother, hfirst]
  -- the text of a reply depends on the header mode alone
  cases (i.route (normalize command)).2 with
  | error fault => rfl
  | ok reply => cases reply <;> rfl

theorem after_ofModel (i : Instrument) (model : Model) (commands : List Text) :
    (i.ofModel model).after commands = (i.after commands).ofModel model := by
  induction commands generalizing i with
  | nil => rfl
  | cons command rest ih => rw [after_cons, (process_ofModel i model command).1, ih, after_cons]

/-- **Models reply alike** to all commands but the identification query. -/
theorem reply_of_models (model other : Model) (history : List Text) {command : Text}
    (h : normalize command ≠ "*IDN?".toList) :
    (((new other).after history).process command).2 =
      (((new model).after history).process command).2 := by
  rw [← ofModel_new model other, after_ofModel]
  exact (process_ofModel _ other command).2 h

end Instrument

end WaveGen
