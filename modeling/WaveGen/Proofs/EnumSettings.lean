import WaveGen.Proofs.CommandEffects
import WaveGen.Proofs.NormalForm

/-!
# Settings with fixed values (specification §3)

Three settings of a channel take fixed values only: the output state, the polarity and the load. The
output command never gives them any other value, and neither do copies and resets. A basic wave
command stores the value of any setting as it stands, these three included. That is the only way to
a foreign value, and every such command takes it.

* `Channel.EnumsHold`, `Instrument.EnumsHold` — all such settings hold one of their values.
* `StoresForeignValue` — how the commands read that store another value.
* `Instrument.enumsHold_process_iff` — one command.
* `Instrument.enumsHold_along_iff` — any run.
-/

namespace WaveGen

namespace Channel

/-! ## The settings of a channel -/

/-- The settings that take fixed values only, each with its values. -/
def enumValues : List (Text × List Text) :=
  [(Key.output, ["ON".toList, "OFF".toList]), (Key.polarity, ["NOR".toList, "INVT".toList]),
    (Key.load, ["HZ".toList, "50".toList])]

/-- Whether a setting takes a value. One without fixed values takes any. -/
def Takes (key value : Text) : Prop := ∀ entry ∈ enumValues, entry.1 = key → value ∈ entry.2

instance (key value : Text) : Decidable (Takes key value) :=
  inferInstanceAs (Decidable (∀ entry ∈ enumValues, entry.1 = key → value ∈ entry.2))

/-- Every setting with fixed values holds one of them. -/
def EnumsHold (s : Settings) : Prop := ∀ entry ∈ enumValues, s.value entry.1 ∈ entry.2

theorem enumsHold_defaultSettings : EnumsHold defaultSettings := by
  unfold EnumsHold
  decide

/-- No text is both a value and empty, so a setting with a value is there. -/
theorem EnumsHold.contains {s : Settings} (h : EnumsHold s) {entry : Text × List Text}
    (hentry : entry ∈ enumValues) : s.contains entry.1 = true := by
  apply Settings.contains_of_value_ne_nil
  intro hempty
  have hvalue : [] ∈ entry.2 := by
    rw [← hempty]
    exact h entry hentry
  have hnot : ∀ entry ∈ enumValues, [] ∉ entry.2 := by decide
  exact hnot entry hentry hvalue

/-- A write of a value that the setting takes keeps the fixed values. -/
theorem EnumsHold.set {s : Settings} (h : EnumsHold s) {key value : Text}
    (htakes : Takes key value) : EnumsHold (s.set key value) := by
  intro entry hentry
  by_cases hkey : entry.1 = key
  · subst hkey
    rw [Settings.value_set_self (h.contains hentry)]
    exact htakes entry hentry rfl
  · rw [Settings.value_set_of_ne hkey]
    exact h entry hentry

/-- Writes elsewhere keep the fixed values. -/
theorem EnumsHold.setAll {s : Settings} (h : EnumsHold s) {writes : List (Text × Text)}
    (hkeys : ∀ entry ∈ enumValues, entry.1 ∉ writes.map Prod.fst) :
    EnumsHold (s.setAll writes) := by
  intro entry hentry
  rw [Settings.value_setAll_of_forall_ne (hkeys entry hentry)]
  exact h entry hentry

/-- The output command gives each setting a value that it takes. -/
theorem takes_of_admits {key value : Text} (hload : key ≠ Key.load)
    (hadmits : admits key value = true) : Takes key value := by
  intro entry hentry hkey
  simp only [enumValues, List.mem_cons, List.not_mem_nil, or_false] at hentry
  -- the output state and the polarity are in the command's own table, the load is not
  rcases hentry with rfl | rfl | rfl
  · subst hkey
    exact List.contains_iff_mem.mp hadmits
  · subst hkey
    exact List.contains_iff_mem.mp hadmits
  · exact absurd hkey.symm hload

/-- A change of load writes a load and settings that take any value. -/
theorem EnumsHold.changeLoad {s changed : Settings} {load : Text} (h : EnumsHold s)
    (hchange : Channel.changeLoad s load = .ok changed) : EnumsHold changed := by
  rcases changeLoad_cases hchange with rfl | ⟨writes, hload, hkeys, rfl⟩
  · exact h
  · have htakes : Takes Key.load load := by rcases hload with rfl | rfl <;> decide
    apply (h.set htakes).setAll
    rw [hkeys]
    decide

/-- **An output command keeps the fixed values**, whatever its parameters are. -/
theorem EnumsHold.outputStream {s : Settings} (h : EnumsHold s) (command : Text)
    (tokens : List Text) : EnumsHold (outputStream command tokens s).1 := by
  refine outputStream_preserves command ?_ ?_ ?_ tokens s h
  · intro s token hs htoken
    exact hs.set (by rcases htoken with rfl | rfl <;> decide)
  · intro s load changed hs hchange
    exact hs.changeLoad hchange
  · intro s key value hs hload _ hadmits
    exact hs.set (takes_of_admits hload hadmits)

/-- The writes of a basic wave command that succeeds keep the fixed values if the setting that it
names takes its value. -/
theorem EnumsHold.waveWrites {s : Settings} (h : EnumsHold s) {command key value : Text}
    {writes : List (Text × Text)}
    (hwrites : Channel.waveWrites s command key (some value) = .ok writes)
    (htakes : Takes key value) : EnumsHold (s.setAll writes) := by
  obtain ⟨-, ⟨-, hfound⟩ | ⟨-, hfound⟩ | ⟨-, -, rfl⟩⟩ := waveWrites_cases hwrites
  · apply h.setAll
    rw [frequencyWrites_keys hfound]
    decide
  · apply h.setAll
    rw [amplitudeWrites_keys hfound]
    decide
  · exact h.set htakes

/-- If it does not take the value, the value is stored all the same. -/
theorem not_enumsHold_waveWrites {s : Settings} (h : EnumsHold s) {key value : Text}
    (hforeign : ¬ Takes key value) (command : Text) :
    ∃ writes, Channel.waveWrites s command key (some value) = .ok writes ∧
      ¬ EnumsHold (s.setAll writes) := by
  have hentry : ∃ entry ∈ enumValues, entry.1 = key ∧ value ∉ entry.2 := by
    simpa [Takes] using hforeign
  obtain ⟨entry, hentry, rfl, hvalue⟩ := hentry
  have hcontains := h.contains hentry
  have hderived : ∀ entry ∈ enumValues, entry.1 ≠ Key.frequency ∧ entry.1 ≠ Key.amplitude := by
    decide
  obtain ⟨hfrequency, hamplitude⟩ := hderived entry hentry
  refine ⟨[(entry.1, value)], ?_, fun hhold => ?_⟩
  · rw [Channel.waveWrites, if_pos hcontains]
    exact (if_neg hfrequency).trans (if_neg hamplitude)
  · have hstored := hhold entry hentry
    rw [show s.setAll [(entry.1, value)] = s.set entry.1 value from rfl,
      Settings.value_set_self hcontains] at hstored
    exact hvalue hstored

end Channel

/-! ## The channels of an instrument -/

/-- A command, in normal form, that stores a value which its setting does not take: a basic wave
command for one of the channels, with the setting and the value as the first two parameters. -/
def StoresForeignValue (command : Text) : Prop :=
  ∃ (id : ChannelId) (parameters key value : Text) (more : List Text),
    command = id.address ++ "BSWV ".toList ++ parameters ∧
      Text.split ',' (Text.before ' ' parameters) = key :: value :: more ∧
      ¬ Channel.Takes key value

namespace Instrument

/-- In both channels, every setting with fixed values holds one of them. -/
def EnumsHold (i : Instrument) : Prop := ∀ id, Channel.EnumsHold (i.channel id).settings

theorem enumsHold_new (model : Model) : (new model).EnumsHold := by
  intro id
  cases id with
  | first => exact Channel.enumsHold_defaultSettings
  | second => exact Channel.enumsHold_defaultSettings

theorem EnumsHold.withChannel {i : Instrument} (h : i.EnumsHold) {id : ChannelId} {s : Settings}
    (hs : Channel.EnumsHold s) : (i.withChannel id s).EnumsHold := by
  intro other
  by_cases hother : other = id
  · subst hother
    rw [settings_withChannel_self]
    exact hs
  · rw [channel_withChannel_of_ne hother]
    exact h other

/-- All commands but those that store a foreign value keep the fixed values. -/
theorem EnumsHold.effect {i changed : Instrument} {command : Text} (h : i.EnumsHold)
    (heffect : Effect i command changed) (hcommand : ¬ StoresForeignValue command) :
    changed.EnumsHold := by
  cases heffect with
  | none => exact h
  | header => exact h
  | buzzer => exact h
  | copy tail target source => exact h.withChannel (h source)
  | reset => exact enumsHold_new i.model
  | channel id settings heffect =>
    apply h.withChannel
    cases heffect with
    | none => exact h id
    | output parameters => exact (h id).outputStream _ _
    | wave parameters key value more writes hform hpieces hwrites =>
      rw [address_channel] at hform
      refine (h id).waveWrites hwrites ?_
      by_contra hforeign
      exact hcommand ⟨id, parameters, key, value, more, hform, hpieces, hforeign⟩

/-- **One command.** Settings with fixed values keep to them unless the command is one that stores a
foreign value; then they do not. -/
theorem enumsHold_process_iff {i : Instrument} (h : i.EnumsHold) (command : Text) :
    (i.process command).1.EnumsHold ↔ ¬ StoresForeignValue (normalize command) := by
  constructor
  · rintro hhold ⟨id, parameters, key, value, more, hform, hpieces, hforeign⟩
    -- the value is stored, and nothing that happens to the command on the way stops it
    obtain ⟨writes, hwrites, hbroken⟩ :=
      Channel.not_enumsHold_waveWrites (h id) hforeign ("BSWV ".toList ++ parameters)
    have hcarried := Channel.process_basicWave (i.channel id) hpieces
    rw [address_channel, hwrites] at hcarried
    have hid := hhold id
    rw [process_fst, hform, List.append_assoc, route_channel, hcarried] at hid
    rw [settings_withChannel_self] at hid
    exact hbroken hid
  · exact h.effect (process_effect i command)

/-- The settings with fixed values keep to them along a run, after each of its commands, exactly if
no command of the run stores a foreign value. -/
theorem enumsHold_along_iff {i : Instrument} (h : i.EnumsHold) (commands : List Text) :
    (∀ reached, reached <+: commands → (i.after reached).EnumsHold) ↔
      ∀ command ∈ commands, ¬ StoresForeignValue (normalize command) := by
  induction commands generalizing i with
  | nil =>
    refine ⟨fun _ command hmem => absurd hmem List.not_mem_nil, fun _ reached hreached => ?_⟩
    rw [List.prefix_nil.mp hreached, after_nil]
    exact h
  | cons command rest ih =>
    -- a longer run has the first command behind it, and goes on from where that led
    rw [List.forall_mem_cons, ← enumsHold_process_iff h]
    constructor
    · intro hall
      have hfirst : (i.process command).1.EnumsHold :=
        hall [command] (List.prefix_append [command] rest)
      refine ⟨hfirst, (ih hfirst).mp fun reached hreached => ?_⟩
      exact hall (command :: reached) (List.cons_prefix_cons.mpr ⟨rfl, hreached⟩)
    · rintro ⟨hfirst, hrest⟩ reached hreached
      rcases List.prefix_cons_iff.mp hreached with rfl | ⟨tail, rfl, htail⟩
      · exact h
      · exact (ih hfirst).mpr hrest tail htail

/-- **Fixed values along a run from power-on.** In every state that a run reaches, the output state,
the polarity and the load of both channels hold one of their values, exactly if no command of the
run is a basic wave command that stores another one. -/
theorem enumsHold_reached_iff (model : Model) (commands : List Text) :
    (∀ reached, reached <+: commands → ((new model).after reached).EnumsHold) ↔
      ∀ command ∈ commands, ¬ StoresForeignValue (normalize command) :=
  enumsHold_along_iff (enumsHold_new model) commands

/-- The basic wave command stores a polarity that there is not. -/
theorem not_enumsHold_of_basicWave :
    ¬ ((new .sdg1032x).after ["C1:BSWV PLRT,SIDEWAYS".toList]).EnumsHold := by
  intro h
  have hpolarity := h .first (Channel.Key.polarity, ["NOR".toList, "INVT".toList]) (by decide)
  revert hpolarity
  decide

end Instrument

end WaveGen
