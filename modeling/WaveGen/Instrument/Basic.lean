import WaveGen.Channel
import WaveGen.Header
import WaveGen.Model
import WaveGen.Instrument.StoreList

/-!
# Instruments (specification §3)

An instrument is of a model, has settings of its own and two output channels. The channels differ in
nothing but their number, so an instrument holds the settings of each, and `Instrument.channel`
joins them with the number.
-/

namespace WaveGen

/-! ## The channels of an instrument -/

/-- The two output channels of an instrument. -/
inductive ChannelId where
  | first
  | second
deriving DecidableEq, Repr

namespace ChannelId

/-- The number of a channel. -/
def number : ChannelId → Nat
  | first => 1
  | second => 2

/-- The channel at this place, counted from zero. -/
def ofIndex? : Nat → Option ChannelId
  | 0 => some first
  | 1 => some second
  | _ => none

end ChannelId

/-- The place, counted from zero, of the channel that a token such as `C2` names. Only the digit
behind the leading letter counts, so `C29` names the same channel. -/
def Channel.tokenIndex? : Text → Option Nat
  | _ :: digit :: _ =>
    if digit.isDigit && digit != '0' then some (digit.toNat - '1'.toNat) else none
  | _ => none

/-! ## Instruments -/

/-- An instrument. -/
structure Instrument where
  /-- The model, which never changes. -/
  model : Model
  /-- The settings of the instrument as a whole. -/
  settings : Settings
  /-- The settings of the first channel. -/
  first : Settings
  /-- The settings of the second channel. -/
  second : Settings
deriving DecidableEq, Repr

namespace Instrument

namespace Key

/-- The header mode. -/
abbrev header : Text := "CHDR".toList
/-- Whether the buzzer is on: `ON` or `OFF`. -/
abbrev buzzer : Text := "BUZZ".toList
/-- The list of the built-in waveforms. -/
abbrev builtIn : Text := "STL".toList
/-- The list of the user's waveforms. -/
abbrev user : Text := "STL USER".toList

end Key

/-- The settings of an instrument that was just switched on. -/
def defaults : List (Text × Text) :=
  [(Key.header, "SHORT".toList), (Key.buzzer, "ON".toList), (Key.builtIn, StoreList.builtIn),
    (Key.user, StoreList.user)]

/-- The settings of an instrument that was just switched on, as a store. -/
def defaultSettings : Settings := .ofDefaults defaults

/-- An instrument that was just switched on. -/
def new (model : Model) : Instrument :=
  ⟨model, defaultSettings, Channel.defaultSettings, Channel.defaultSettings⟩

/-- An instrument that was just switched on, of the model with this name. -/
def ofModelName (id : Text) : Except ModelFault Instrument := (Model.parse id).map new

/-- One of the channels. -/
def channel (i : Instrument) : ChannelId → Channel
  | .first => ⟨1, i.first⟩
  | .second => ⟨2, i.second⟩

/-- The instrument with other settings on one of its channels. They are all that is kept of a channel
on which something was carried out: neither a command nor a copy or a reset changes its number
(`Channel.number_process`, `Channel.number_copyFrom`, `Channel.number_reset`). -/
def withChannel (i : Instrument) (id : ChannelId) (settings : Settings) : Instrument :=
  match id with
  | .first => { i with first := settings }
  | .second => { i with second := settings }

/-- How the headers of replies are written at present. -/
def headerMode (i : Instrument) : HeaderMode := .ofSetting (i.settings.value Key.header)

/-- The instrument with everything as it was when it was switched on. -/
def reset (i : Instrument) : Instrument :=
  { i with
    settings := defaultSettings
    first := (i.channel .first).reset.settings
    second := (i.channel .second).reset.settings }

/-! ## What a command changes -/

/-- The settings whose value differs between two states of an instrument, with the new value. Those
of the channels are named after their channel (`C1.FRQ`). -/
def changes (old new : Instrument) : List (Text × Text) :=
  old.settings.changes new.settings ++ ofChannel .first ++ ofChannel .second
where
  /-- The settings of one channel that differ. -/
  ofChannel (id : ChannelId) : List (Text × Text) :=
    ((old.channel id).settings.changes (new.channel id).settings).map fun (key, value) =>
      ('C' :: Text.ofNat id.number ++ '.' :: key, value)

end Instrument

end WaveGen
