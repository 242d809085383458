import WaveGen.Proofs.CommandEffects
import WaveGen.Proofs.DecimalText

/-!
# What a channel stores

A channel stores texts of three kinds: the tokens between the commas of a command, displayed numbers,
and the texts it has from the start. So what holds of all of these holds of every value that a
channel ever stores (`Channel.Effect.values`, `Instrument.values_process`).

* `Quantity.divide_eq_ok_iff` and its like — results are displayed doubles.
* `Channel.amplitudeWrites_eq_ok` — what a new amplitude writes.
-/

namespace WaveGen

/-! ## Results of arithmetic -/

namespace Quantity

theorem subtract_eq_ok_iff {a b t : Text} :
    subtract a b = .ok t ↔ ∃ x y, parse a = .ok x ∧ parse b = .ok y ∧ t = display (x.sub y) := by
  simp only [subtract, bind_eq_ok_iff]
  constructor
  · rintro ⟨x, hx, y, hy, h⟩
    cases h
    exact ⟨x, y, hx, hy, rfl⟩
  · rintro ⟨x, y, hx, hy, rfl⟩
    exact ⟨x, hx, y, hy, rfl⟩

theorem multiply_eq_ok_iff {a b t : Text} :
    multiply a b = .ok t ↔ ∃ x y, parse a = .ok x ∧ parse b = .ok y ∧ t = display (x.mul y) := by
  simp only [multiply, bind_eq_ok_iff]
  constructor
  · rintro ⟨x, hx, y, hy, h⟩
    cases h
    exact ⟨x, y, hx, hy, rfl⟩
  · rintro ⟨x, y, hx, hy, rfl⟩
    exact ⟨x, hx, y, hy, rfl⟩

/-- The double that a quotient is displayed from. -/
def quotient (x y : Binary64) : Binary64 :=
  if y.isZero then .infinite false else (x.mul quotientScale).div (y.mul quotientScale)

/-- A quotient is a displayed double, also when the denominator is zero. -/
theorem divide_eq_ok_iff {n d t : Text} :
    divide n d = .ok t ↔
      ∃ x y, parse n = .ok x ∧ parse d = .ok y ∧ t = display (quotient x y) := by
  simp only [divide, bind_eq_ok_iff, quotient]
  constructor
  · rintro ⟨x, hx, y, hy, h⟩
    refine ⟨x, y, hx, hy, ?_⟩
    split at h
    · rename_i hzero
      cases h
      rw [if_pos hzero]
      rfl
    · rename_i hzero
      cases h
      rw [if_neg hzero]
  · rintro ⟨x, y, hx, hy, rfl⟩
    refine ⟨x, hx, y, hy, ?_⟩
    by_cases hzero : y.isZero = true
    · rw [if_pos hzero, if_pos hzero]
      rfl
    · rw [if_neg hzero, if_neg hzero]
      rfl

end Quantity

namespace Channel

theorem scaled_values {s : Settings} {load : Text} {scale : Text → Except QuantityFault Text}
    (hscale : loadScale? load = some scale) {keys : List Text} {writes : List (Text × Text)}
    (h : scaled s scale keys = .ok writes) : ∀ write ∈ writes, ∃ x, write.2 = Quantity.display x := by
  induction keys generalizing writes with
  | nil =>
    cases h
    simp
  | cons key rest ih =>
    obtain ⟨value, hvalue, h⟩ := bind_eq_ok_iff.mp h
    obtain ⟨others, hothers, h⟩ := bind_eq_ok_iff.mp h
    cases h
    refine List.forall_mem_cons.mpr ⟨?_, ih hothers⟩
    rw [loadScale?] at hscale
    split at hscale
    · cases hscale
      obtain ⟨x, y, -, -, hquotient⟩ := Quantity.divide_eq_ok_iff.mp hvalue
      exact ⟨_, hquotient⟩
    · split at hscale
      · cases hscale
        obtain ⟨x, y, -, -, hproduct⟩ := Quantity.multiply_eq_ok_iff.mp hvalue
        exact ⟨_, hproduct⟩
      · cases hscale

theorem frequencyWrites_values {value : Text} {writes : List (Text × Text)}
    (h : frequencyWrites value = .ok writes) : ∀ write ∈ writes, ∃ x, write.2 = Quantity.display x := by
  obtain ⟨frequency, -, h⟩ := bind_eq_ok_iff.mp h
  obtain ⟨period, hperiod, h⟩ := bind_eq_ok_iff.mp h
  cases h
  simp only [List.forall_mem_cons, List.not_mem_nil, false_implies, implies_true, and_true]
  obtain ⟨x, y, -, -, hquotient⟩ := Quantity.divide_eq_ok_iff.mp hperiod
  exact ⟨⟨frequency, rfl⟩, ⟨_, hquotient⟩⟩

/-- What a new amplitude writes, and from what it is computed. -/
theorem amplitudeWrites_eq_ok {value : Text} {writes : List (Text × Text)}
    (h : amplitudeWrites value = .ok writes) :
    ∃ wanted effective high low, Quantity.parse value = .ok wanted ∧
      Quantity.multiply (Quantity.display (wanted.clamp leastAmplitude greatestAmplitude))
        effectiveFactor = .ok effective ∧
      Quantity.divide (Quantity.display (wanted.clamp leastAmplitude greatestAmplitude)) ['2'] =
        .ok high ∧
      Quantity.subtract high (Quantity.display (wanted.clamp leastAmplitude greatestAmplitude)) =
        .ok low ∧
      writes = [(Key.amplitude, Quantity.display (wanted.clamp leastAmplitude greatestAmplitude)),
        (Key.effective, effective), (Key.high, high), (Key.low, low)] := by
  obtain ⟨wanted, hwanted, h⟩ := bind_eq_ok_iff.mp h
  obtain ⟨effective, heffective, h⟩ := bind_eq_ok_iff.mp h
  obtain ⟨high, hhigh, h⟩ := bind_eq_ok_iff.mp h
  obtain ⟨low, hlow, h⟩ := bind_eq_ok_iff.mp h
  cases h
  exact ⟨wanted, effective, high, low, hwanted, heffective, hhigh, hlow, rfl⟩

theorem amplitudeWrites_values {value : Text} {writes : List (Text × Text)}
    (h : amplitudeWrites value = .ok writes) : ∀ write ∈ writes, ∃ x, write.2 = Quantity.display x := by
  obtain ⟨wanted, effective, high, low, -, heffective, hhigh, hlow, rfl⟩ := amplitudeWrites_eq_ok h
  obtain ⟨x, y, -, -, hproduct⟩ := Quantity.multiply_eq_ok_iff.mp heffective
  obtain ⟨x', y', -, -, hquotient⟩ := Quantity.divide_eq_ok_iff.mp hhigh
  obtain ⟨x'', y'', -, -, hdifference⟩ := Quantity.subtract_eq_ok_iff.mp hlow
  simp only [List.forall_mem_cons, List.not_mem_nil, false_implies, implies_true, and_true]
  exact ⟨⟨_, rfl⟩, ⟨_, hproduct⟩, ⟨_, hquotient⟩, ⟨_, hdifference⟩⟩

/-! ## Channels -/

variable {P : Text → Prop}

theorem changeLoad_values (hnumber : ∀ x, P (Quantity.display x)) {s changed : Settings}
    {load : Text} (hload : P load) (hs : ∀ key, P (s.value key))
    (h : changeLoad s load = .ok changed) (key : Text) : P (changed.value key) := by
  rcases changeLoad_eq_ok_iff.mp h with ⟨-, rfl⟩ | ⟨-, scale, writes, hscale, hwrites, rfl⟩
  · exact hs key
  · refine Settings.values_setAll (Settings.values_set hs hload Key.load) ?_ key
    intro write hwrite
    obtain ⟨x, hx⟩ := scaled_values hscale hwrites write hwrite
    rw [hx]
    exact hnumber x

/-- **All that a channel stores**: what holds of displayed numbers and of the tokens of a command
holds of every value of the channel after the command, if it held before. -/
theorem Effect.values {c : Channel} {command : Text} {settings : Settings}
    (h : Effect c command settings) (hnumber : ∀ x, P (Quantity.display x))
    (htoken : ∀ front parameters, command = front ++ parameters →
      ∀ token ∈ Text.split ',' (Text.before ' ' parameters), P token)
    (hc : ∀ key, P (c.settings.value key)) (key : Text) : P (settings.value key) := by
  cases h with
  | none => exact hc key
  | output parameters hcommand =>
    have htokens := htoken _ parameters hcommand
    -- each kind of parameter stores tokens and displayed numbers only
    refine outputStream_preserves_of_mem (P := fun s => ∀ key, P (s.value key)) _ _ ?_ ?_ ?_
      c.settings hc key
    · intro s token hmem hs _
      exact Settings.values_set hs (htokens token hmem) Key.output
    · intro s load hmem changed hs hchange
      exact changeLoad_values hnumber (htokens load hmem) hs hchange
    · intro s key value hmem hs _ _ _
      exact Settings.values_set hs (htokens value hmem) key
  | wave parameters name value more writes hcommand hpieces hwrites =>
    refine Settings.values_setAll hc (fun write hwrite => ?_) key
    obtain ⟨-, ⟨-, hfound⟩ | ⟨-, hfound⟩ | ⟨-, -, rfl⟩⟩ := waveWrites_cases hwrites
    · obtain ⟨x, hx⟩ := frequencyWrites_values hfound write hwrite
      exact hx ▸ hnumber x
    · obtain ⟨x, hx⟩ := amplitudeWrites_values hfound write hwrite
      exact hx ▸ hnumber x
    · rw [List.mem_singleton.mp hwrite]
      exact htoken _ parameters hcommand value (hpieces ▸ List.mem_cons_of_mem _ List.mem_cons_self)

end Channel

namespace Instrument

variable {P : Text → Prop}

/-- What holds of all that one command can store, and of the values that the channels have, holds of
their values after the command. -/
theorem values_process (hnumber : ∀ x, P (Quantity.display x))
    (hdefault : ∀ key, P (Channel.defaultSettings.value key)) {i : Instrument} {command : Text}
    (htoken : ∀ front parameters, normalize command = front ++ parameters →
      ∀ token ∈ Text.split ',' (Text.before ' ' parameters), P token)
    (hi : ∀ id key, P ((i.channel id).settings.value key)) (id : ChannelId) (key : Text) :
    P (((i.process command).1.channel id).settings.value key) := by
  have hwritten : ∀ (target : ChannelId) (settings : Settings), (∀ key, P (settings.value key)) →
      P (((i.withChannel target settings).channel id).settings.value key) := by
    intro target settings hsettings
    by_cases hid : id = target
    · rw [hid, settings_withChannel_self]
      exact hsettings key
    · rw [channel_withChannel_of_ne hid]
      exact hi id key
  have heffect := process_effect i command
  generalize (i.process command).1 = changed at heffect ⊢
  cases heffect with
  | none => exact hi id key
  | header => exact hi id key
  | buzzer => exact hi id key
  | copy tail target source => exact hwritten target _ (hi source)
  | reset => cases id <;> exact hdefault key
  | channel target settings heffect =>
    exact hwritten target settings (heffect.values hnumber htoken (hi target))

end Instrument

end WaveGen
