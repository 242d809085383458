import WaveGen.Proofs.CommandEffects
import WaveGen.Proofs.QuantityOrder

/-!
# Changes of load stay in range (specification §4.3)

A change of load halves or doubles five settings where they stand, as displayed numbers that are
rounded anew each time. They do not drift, because the two loads have bounds of their own: halving
takes the bounds of high impedance to those of 50 ohms, doubling takes them back, and both keep
order. A new amplitude is within the bounds of either load.

* `Channel.Bounds`, `Channel.InRange` — the bounds of a load, and the invariant.
* `Channel.InRange.changeLoad` — every change of load succeeds and keeps it.
* `Channel.storedKeys` — the settings that a stream of parameters stores by name.
* `Instrument.scaled_settings_in_range` — the invariant along every run that stores none of the
  settings as a client wrote them.
-/

namespace WaveGen

namespace Channel

/-! ## Bounds -/

/-- Bounds of the settings that a change of load rescales. -/
structure Bounds where
  /-- The least amplitude. -/
  least : Text
  /-- The greatest amplitude. -/
  greatest : Text
  /-- What the other four do not exceed, signs aside. -/
  other : Text
  /-- The upper bounds are numbers. -/
  reads : (Decimal.read? greatest).isSome = true ∧ (Decimal.read? other).isSome = true

/-- The bounds for a load of high impedance. -/
def boundsHighZ : Bounds := ⟨"0.002".toList, "40".toList, "60".toList, by decide⟩

/-- The bounds for a load of 50 ohms. -/
def bounds50 : Bounds := ⟨"0.001".toList, "20".toList, "30".toList, by decide⟩

/-- The settings besides the amplitude that a change of load rescales. -/
def otherScaled : List Text := [Key.effective, Key.powerLevel, Key.high, Key.low]

/-- The settings are within bounds. -/
structure Within (b : Bounds) (s : Settings) : Prop where
  positive : Quantity.NonNeg (s.value Key.amplitude)
  least : Quantity.AtMost b.least (s.value Key.amplitude)
  greatest : Quantity.AtMost (s.value Key.amplitude) b.greatest
  other : ∀ key ∈ otherScaled, Quantity.AtMost (s.value key) b.other

/-- The load is one of the two, and the settings are within its bounds. -/
structure InRange (s : Settings) : Prop where
  keys : s.keys = defaultSettings.keys
  within : s.value Key.load = loadHighZ ∧ Within boundsHighZ s ∨
    s.value Key.load = load50 ∧ Within bounds50 s

theorem inRange_defaultSettings : InRange defaultSettings where
  keys := rfl
  within := .inl ⟨rfl, {
    positive := by decide +kernel
    least := by decide +kernel
    greatest := by decide +kernel
    other := by decide +kernel }⟩

/-- Channels have all the settings that are scaled. -/
theorem mem_keys_of_scaled {key : Text} (h : key ∈ loadScaled) : key ∈ defaultSettings.keys := by
  revert key
  decide

/-- Only the load and the settings that are scaled with it count. -/
theorem Within.congr {b : Bounds} {s t : Settings} (h : Within b s)
    (hvalues : ∀ key ∈ loadScaled, t.value key = s.value key) : Within b t := by
  have hamplitude : t.value Key.amplitude = s.value Key.amplitude := hvalues _ (by decide)
  refine ⟨hamplitude ▸ h.positive, hamplitude ▸ h.least, hamplitude ▸ h.greatest, ?_⟩
  intro key hkey
  rw [hvalues key (List.mem_cons_of_mem _ hkey)]
  exact h.other key hkey

/-- Writes to other keys do not count. -/
theorem InRange.setAll {s : Settings} (h : InRange s) (writes : List (Text × Text))
    (hkeys : ∀ key ∈ Key.load :: loadScaled, key ∉ writes.map Prod.fst) :
    InRange (s.setAll writes) := by
  have hsame : ∀ key ∈ Key.load :: loadScaled, (s.setAll writes).value key = s.value key :=
    fun key hkey => Settings.value_setAll_of_forall_ne (hkeys key hkey) s
  refine ⟨(Settings.keys_setAll s writes).trans h.keys, ?_⟩
  rw [hsame Key.load (.head _)]
  have hvalues : ∀ key ∈ loadScaled, (s.setAll writes).value key = s.value key :=
    fun key hkey => hsame key (.tail _ hkey)
  exact h.within.imp (fun h => ⟨h.1, h.2.congr hvalues⟩) (fun h => ⟨h.1, h.2.congr hvalues⟩)

theorem InRange.set {s : Settings} (h : InRange s) {key : Text}
    (hkey : key ∉ Key.load :: loadScaled) (value : Text) : InRange (s.set key value) := by
  refine h.setAll [(key, value)] fun other hother hmem => hkey ?_
  have hsame : other = key := List.mem_singleton.mp hmem
  exact hsame ▸ hother

/-! ## Changes of load -/

/-- The scale takes these bounds to those ones, keeps order on the way and adds no minus sign. -/
structure Scales (scale : Text → Except QuantityFault Text) (b b' : Bounds) : Prop where
  least : scale b.least = .ok b'.least
  greatest : scale b.greatest = .ok b'.greatest
  other : scale b.other = .ok b'.other
  keepsOrder : ∀ {t u w : Text}, Quantity.AtMost t u → scale u = .ok w →
    (Decimal.read? w).isSome = true → ∃ v, scale t = .ok v ∧ Quantity.AtMost v w ∧
      (Quantity.NonNeg t → Quantity.NonNeg v)

theorem scales_half : Scales (fun value => Quantity.divide value ['2']) boundsHighZ bounds50 where
  least := eq_ok_of_toOption (by decide +kernel)
  greatest := eq_ok_of_toOption (by decide +kernel)
  other := eq_ok_of_toOption (by decide +kernel)
  keepsOrder h hw hread := by
    obtain ⟨v, hv, hbound, hsign⟩ := Quantity.divide_atMost h hw hread
    exact ⟨v, hv, hbound, fun ht => hsign ht (by decide +kernel)⟩

theorem scales_double :
    Scales (fun value => Quantity.multiply value ['2']) bounds50 boundsHighZ where
  least := eq_ok_of_toOption (by decide +kernel)
  greatest := eq_ok_of_toOption (by decide +kernel)
  other := eq_ok_of_toOption (by decide +kernel)
  keepsOrder h hw hread := by
    obtain ⟨v, hv, hbound, hsign⟩ := Quantity.multiply_atMost h hw hread
    exact ⟨v, hv, hbound, fun ht => hsign ht (by decide +kernel)⟩

/-- Scaling succeeds when every value can be scaled. -/
theorem scaled_eq_ok {s : Settings} {scale : Text → Except QuantityFault Text} {f : Text → Text}
    {keys : List Text} (h : ∀ key ∈ keys, scale (s.value key) = .ok (f key)) :
    scaled s scale keys = .ok (keys.map fun key => (key, f key)) := by
  induction keys with
  | nil => rfl
  | cons key rest ih =>
    obtain ⟨hkey, hrest⟩ := List.forall_mem_cons.mp h
    rw [scaled, hkey, ih hrest]
    rfl

/-- Settings within bounds can be scaled, and are within the scaled bounds then. -/
theorem Within.scaled {scale : Text → Except QuantityFault Text} {b b' : Bounds} {s : Settings}
    (hscale : Scales scale b b') (h : Within b s) (hkeys : s.keys = defaultSettings.keys)
    (load : Text) :
    ∃ writes, Channel.scaled s scale loadScaled = .ok writes ∧
      Within b' ((s.set Key.load load).setAll writes) := by
  obtain ⟨amplitude, hamplitude, hgreatest, hsign⟩ :=
    hscale.keepsOrder h.greatest hscale.greatest b'.reads.1
  have hother : ∀ key ∈ otherScaled, ∃ v, scale (s.value key) = .ok v ∧
      Quantity.AtMost v b'.other := by
    intro key hkey
    obtain ⟨v, hv, hbound, -⟩ := hscale.keepsOrder (h.other key hkey) hscale.other b'.reads.2
    exact ⟨v, hv, hbound⟩
  have hall : ∀ key ∈ loadScaled, ∃ v, scale (s.value key) = .ok v := by
    refine List.forall_mem_cons.mpr ⟨⟨amplitude, hamplitude⟩, fun key hkey => ?_⟩
    obtain ⟨v, hv, -⟩ := hother key hkey
    exact ⟨v, hv⟩
  choose! f hf using hall
  have hwrites := scaled_eq_ok hf
  refine ⟨_, hwrites, ?_⟩
  have hvalue : ∀ key ∈ loadScaled, ((s.set Key.load load).setAll
      (loadScaled.map fun key => (key, f key))).value key = f key := by
    intro key hkey
    refine Settings.value_setAll_of_mem ?_ (List.mem_map_of_mem hkey) ?_
    · rw [scaled_keys hwrites]
      decide
    · rw [Settings.contains_iff_mem_keys, Settings.keys_set, hkeys]
      exact mem_keys_of_scaled hkey
  have hf_amplitude : f Key.amplitude = amplitude :=
    Except.ok.inj ((hf Key.amplitude (.head _)).symm.trans hamplitude)
  have hvalue_amplitude := (hvalue Key.amplitude (.head _)).trans hf_amplitude
  constructor
  · rw [hvalue_amplitude]
    exact hsign h.positive
  · -- the least amplitude is scaled like the others, and is then not above the scaled amplitude
    obtain ⟨d, e, hd, -, -⟩ := hgreatest
    obtain ⟨least, hleast, hbound, -⟩ :=
      hscale.keepsOrder h.least hamplitude (Option.isSome_iff_exists.mpr ⟨d, hd.2⟩)
    rw [hvalue_amplitude, ← Except.ok.inj (hleast.symm.trans hscale.least)]
    exact hbound
  · rw [hvalue_amplitude]
    exact hgreatest
  · intro key hkey
    obtain ⟨v, hv, hbound⟩ := hother key hkey
    have hmem : key ∈ loadScaled := .tail _ hkey
    rw [hvalue key hmem, Except.ok.inj ((hf key hmem).symm.trans hv)]
    exact hbound

/-- **Every change of load succeeds**, and what was within the bounds of the old load is within those
of the new one. -/
theorem InRange.changeLoad {s : Settings} (h : InRange s) {load : Text}
    (hload : load = load50 ∨ load = loadHighZ) :
    ∃ changed, Channel.changeLoad s load = .ok changed ∧ InRange changed ∧
      changed.value Key.load = load := by
  by_cases hsame : s.value Key.load = load
  · exact ⟨s, changeLoad_eq_ok_iff.mpr (.inl ⟨hsame, rfl⟩), h, hsame⟩
  · have hcontains : s.contains Key.load = true := by
      rw [Settings.contains_iff_mem_keys, h.keys]
      decide
    have hnew : ∀ {scale : Text → Except QuantityFault Text} {b b' : Bounds},
        loadScale? load = some scale → Scales scale b b' → Within b s →
        (load = loadHighZ ∧ b' = boundsHighZ ∨ load = load50 ∧ b' = bounds50) →
        ∃ changed, Channel.changeLoad s load = .ok changed ∧ InRange changed ∧
          changed.value Key.load = load := by
      intro scale b b' hscale hscales hwithin hbounds
      obtain ⟨writes, hwrites, hscaled⟩ := hwithin.scaled hscales h.keys load
      have hvalue : ((s.set Key.load load).setAll writes).value Key.load = load := by
        rw [Settings.value_setAll_of_forall_ne]
        · exact Settings.value_set_self hcontains load
        · rw [scaled_keys hwrites]
          decide
      refine ⟨_, changeLoad_eq_ok_iff.mpr (.inr ⟨hsame, scale, writes, hscale, hwrites, rfl⟩),
        ⟨?_, ?_⟩, hvalue⟩
      · rw [Settings.keys_setAll, Settings.keys_set, h.keys]
      · rw [hvalue]
        rcases hbounds with ⟨hload, rfl⟩ | ⟨hload, rfl⟩
        · exact .inl ⟨hload, hscaled⟩
        · exact .inr ⟨hload, hscaled⟩
    -- the load is the other one, so what is scaled goes from the one range to the other
    rcases h.within with ⟨hpresent, hwithin⟩ | ⟨hpresent, hwithin⟩
    · have h50 : load = load50 := hload.resolve_right fun hz => hsame (hpresent.trans hz.symm)
      exact hnew (by rw [h50]; rfl) scales_half hwithin (.inr ⟨h50, rfl⟩)
    · have hz : load = loadHighZ := hload.resolve_left fun h50 => hsame (hpresent.trans h50.symm)
      exact hnew (by rw [hz]; rfl) scales_double hwithin (.inl ⟨hz, rfl⟩)

/-! ## Amplitudes -/

/-- A number that is moved into the range of the output stage is displayed within the range. -/
theorem display_clamp_bounds {wanted : Binary64} (h : wanted.isFinite = true) :
    let amplitude := Quantity.display (wanted.clamp leastAmplitude greatestAmplitude)
    Quantity.NonNeg amplitude ∧ Quantity.AtMost "0.002".toList amplitude ∧
      Quantity.AtMost amplitude "20".toList := by
  have hleast : Quantity.display leastAmplitude = "0.002".toList := by decide +kernel
  have hgreatest : Quantity.display greatestAmplitude = "20".toList := by decide +kernel
  have hfinite : greatestAmplitude.isFinite = true := by decide +kernel
  have hrange : leastAmplitude.AtMost greatestAmplitude := by
    refine Decimal.toBinary64_atMost ?_ hfinite
    norm_num [Decimal.magnitude]
  obtain ⟨hpositive, hbelow, habove⟩ := Binary64.clamp_atMost h
    (Decimal.toBinary64_nonNeg rfl hrange.isFinite.1) (by decide +kernel)
    (Decimal.toBinary64_nonNeg rfl hfinite) hrange
  refine ⟨Quantity.display_nonNeg hpositive, ?_, ?_⟩
  · rw [← hleast]
    exact Quantity.display_atMost hbelow
  · rw [← hgreatest]
    exact Quantity.display_atMost habove

/-- A new amplitude and what follows from it. -/
theorem amplitudeWrites_bounds {value : Text} {writes : List (Text × Text)}
    (h : amplitudeWrites value = .ok writes) :
    ∃ amplitude effective high low, writes = [(Key.amplitude, amplitude),
        (Key.effective, effective), (Key.high, high), (Key.low, low)] ∧
      Quantity.NonNeg amplitude ∧ Quantity.AtMost "0.002".toList amplitude ∧
      Quantity.AtMost amplitude "20".toList ∧
      ∀ t ∈ [effective, high, low], Quantity.AtMost t "30".toList := by
  obtain ⟨wanted, effective, high, low, hwanted, heffective, hhigh, hlow, hwrites⟩ :=
    amplitudeWrites_eq_ok h
  obtain ⟨hpositive, hleast, hgreatest⟩ :=
    display_clamp_bounds (Quantity.isFinite_of_parse hwanted)
  generalize Quantity.display (wanted.clamp leastAmplitude greatestAmplitude) = amplitude at *
  refine ⟨amplitude, effective, high, low, hwrites, hpositive, hleast, hgreatest, ?_⟩
  have hproduct : Quantity.multiply "20".toList effectiveFactor = .ok "7.07".toList :=
    eq_ok_of_toOption (by decide +kernel)
  obtain ⟨v, hv, heffective_le, -⟩ := Quantity.multiply_atMost hgreatest hproduct (by decide)
  rw [← Except.ok.inj (heffective.symm.trans hv)] at heffective_le
  have hquotient : Quantity.divide "20".toList ['2'] = .ok "10".toList :=
    eq_ok_of_toOption (by decide +kernel)
  obtain ⟨v, hv, hhigh_le, -⟩ := Quantity.divide_atMost hgreatest hquotient (by decide)
  rw [← Except.ok.inj (hhigh.symm.trans hv)] at hhigh_le
  have hsum : Quantity.display ((Decimal.toBinary64 ⟨false, 10, 0⟩).add
      (Decimal.toBinary64 ⟨false, 20, 0⟩)) = "30".toList := by decide +kernel
  obtain ⟨v, hv, hlow_le⟩ := Quantity.subtract_atMost hhigh_le hgreatest
    (eq_ok_of_toOption (by decide +kernel)) (eq_ok_of_toOption (by decide +kernel))
    (by decide +kernel) (by decide +kernel)
    (Binary64.isFinite_of_read?_toText (x := (Decimal.toBinary64 ⟨false, 10, 0⟩).add
      (Decimal.toBinary64 ⟨false, 20, 0⟩)) (by decide +kernel))
  rw [← Except.ok.inj (hlow.symm.trans hv), hsum] at hlow_le
  simp only [List.forall_mem_cons, List.not_mem_nil, false_implies, implies_true, and_true]
  exact ⟨heffective_le.trans (by decide +kernel), hhigh_le.trans (by decide +kernel), hlow_le⟩

/-- The bounds of both loads take in a new amplitude and what follows from it. -/
theorem Within.amplitude {b : Bounds} {s : Settings} (h : Within b s)
    (hkeys : s.keys = defaultSettings.keys) (hleast : Quantity.AtMost b.least "0.002".toList)
    (hgreatest : Quantity.AtMost "20".toList b.greatest)
    (hother : Quantity.AtMost "30".toList b.other) {value : Text} {writes : List (Text × Text)}
    (hwrites : amplitudeWrites value = .ok writes) : Within b (s.setAll writes) := by
  obtain ⟨amplitude, effective, high, low, hall, hpositive, hlower, hupper, hbounds⟩ :=
    amplitudeWrites_bounds hwrites
  simp only [List.forall_mem_cons, List.not_mem_nil, false_implies, implies_true, and_true]
    at hbounds
  obtain ⟨heffective, hhigh, hlow⟩ := hbounds
  have hvalue : ∀ key ∈ loadScaled, ∀ t, (key, t) ∈ writes → (s.setAll writes).value key = t := by
    intro key hkey t hmem
    refine Settings.value_setAll_of_mem ?_ hmem ?_
    · rw [amplitudeWrites_keys hwrites]
      decide
    · rw [Settings.contains_iff_mem_keys, hkeys]
      exact mem_keys_of_scaled hkey
  have hnew := hvalue Key.amplitude (by decide) amplitude (by rw [hall]; simp)
  have hpower : (s.setAll writes).value Key.powerLevel = s.value Key.powerLevel := by
    apply Settings.value_setAll_of_forall_ne
    rw [amplitudeWrites_keys hwrites]
    decide
  refine ⟨hnew ▸ hpositive, hnew ▸ hleast.trans hlower, hnew ▸ hupper.trans hgreatest, ?_⟩
  simp only [otherScaled, List.forall_mem_cons, List.not_mem_nil, false_implies, implies_true,
    and_true]
  refine ⟨?_, ?_, ?_, ?_⟩
  · rw [hvalue Key.effective (by decide) effective (by rw [hall]; simp)]
    exact heffective.trans hother
  · rw [hpower]
    exact h.other _ (by decide)
  · rw [hvalue Key.high (by decide) high (by rw [hall]; simp)]
    exact hhigh.trans hother
  · rw [hvalue Key.low (by decide) low (by rw [hall]; simp)]
    exact hlow.trans hother

theorem InRange.amplitude {s : Settings} (h : InRange s) {value : Text}
    {writes : List (Text × Text)} (hwrites : amplitudeWrites value = .ok writes) :
    InRange (s.setAll writes) := by
  refine ⟨(Settings.keys_setAll s writes).trans h.keys, ?_⟩
  have hload : (s.setAll writes).value Key.load = s.value Key.load := by
    apply Settings.value_setAll_of_forall_ne
    rw [amplitudeWrites_keys hwrites]
    decide
  rw [hload]
  refine h.within.imp (fun hz => ⟨hz.1, ?_⟩) (fun h50 => ⟨h50.1, ?_⟩)
  · exact hz.2.amplitude h.keys (by decide +kernel) (by decide +kernel) (by decide +kernel) hwrites
  · exact h50.2.amplitude h.keys (by decide +kernel) (by decide +kernel) (by decide +kernel) hwrites

/-! ## What the bounds say -/

/-- An amplitude within bounds, as a number. -/
theorem Within.amplitude_mem {b : Bounds} {s : Settings} (h : Within b s) {least greatest : Decimal}
    (hleast : Quantity.Reads b.least least) (hgreatest : Quantity.Reads b.greatest greatest) :
    ∃ d, Decimal.read? (s.value Key.amplitude) = some d ∧ least.magnitude ≤ d.value ∧
      d.value ≤ greatest.magnitude := by
  obtain ⟨d, hd, hsign⟩ := h.positive
  have hvalue : d.value = d.magnitude := Decimal.value_of_plus hsign
  refine ⟨d, hd.2, ?_, ?_⟩
  · obtain ⟨e, f, he, hf, hle⟩ := h.least
    rw [hvalue, hleast.unique he, hd.unique hf]
    exact hle
  · obtain ⟨e, f, he, hf, hle⟩ := h.greatest
    rw [hvalue, hd.unique he, hgreatest.unique hf]
    exact hle

/-- All settings that are scaled can be read and computed with. -/
theorem InRange.reads {s : Settings} (h : InRange s) {key : Text} (hkey : key ∈ loadScaled) :
    ∃ d, Decimal.read? (s.value key) = some d ∧ Quantity.parse (s.value key) = .ok d.toBinary64 := by
  have hbound : Quantity.AtMost (s.value key) "60".toList := by
    rcases List.mem_cons.mp hkey with rfl | hother
    · rcases h.within with ⟨-, hwithin⟩ | ⟨-, hwithin⟩
      · exact hwithin.greatest.trans (by decide +kernel)
      · exact hwithin.greatest.trans (by decide +kernel)
    · rcases h.within with ⟨-, hwithin⟩ | ⟨-, hwithin⟩
      · exact hwithin.other key hother
      · exact (hwithin.other key hother).trans (by decide +kernel)
  obtain ⟨d, -, hd, -, -⟩ := id hbound
  have hsixty : Quantity.parse "60".toList = .ok (Decimal.toBinary64 ⟨false, 60, 0⟩) :=
    eq_ok_of_toOption (by decide +kernel)
  obtain ⟨x, hx, -⟩ := hbound.parse hsixty
  obtain ⟨rfl, -⟩ := hd.parse_eq_ok_iff.mp hx
  exact ⟨d, hd.2, hx⟩

/-! ## Commands for a channel -/

/-- The settings that a stream of parameters stores by name. A stream ends at a load, and at the
first parameter that is faulty. -/
def storedKeys : List Text → List Text
  | [] => []
  | token :: rest =>
    if token = "ON".toList ∨ token = "OFF".toList then storedKeys rest
    else if token = Key.load ∨ token ∉ defaultSettings.keys then []
    else
      match rest with
      | [] => []
      | value :: rest => if admits token value then token :: storedKeys rest else []

theorem storedKeys_state {token : Text} (h : token = "ON".toList ∨ token = "OFF".toList)
    (rest : List Text) : storedKeys (token :: rest) = storedKeys rest := by
  rw [storedKeys.eq_def]
  exact if_pos h

theorem storedKeys_set {token value : Text} (hstate : ¬(token = "ON".toList ∨ token = "OFF".toList))
    (hload : token ≠ Key.load) (hkey : token ∈ defaultSettings.keys)
    (hadmits : admits token value = true) (rest : List Text) :
    storedKeys (token :: value :: rest) = token :: storedKeys rest := by
  rw [storedKeys, if_neg hstate, if_neg (by simp [hload, hkey]), if_pos hadmits]

/-- A stream ends at a load, so it is not stored by name. -/
theorem load_not_mem_storedKeys {tokens : List Text} {key : Text} (h : key ∈ storedKeys tokens) :
    key ≠ Key.load := by
  fun_induction storedKeys tokens with
  | case1 => cases h
  | case2 token rest hstate ih => exact ih h
  | case3 token rest => cases h
  | case4 token => cases h
  | case5 token hstate hload value rest hadmits ih =>
    rcases List.mem_cons.mp h with rfl | hrest
    · exact fun heq => hload (.inl heq)
    · exact ih hrest
  | case6 token => cases h

/-- What a stream of parameters preserves when the settings are told that it stores by name. -/
theorem outputStream_preserves_of_stored {P : Settings → Prop} (command : Text) (tokens : List Text)
    (hkeys : ∀ s, P s → s.keys = defaultSettings.keys)
    (hstate : ∀ s token, P s → token = "ON".toList ∨ token = "OFF".toList →
      P (s.set Key.output token))
    (hload : ∀ s load changed, P s → changeLoad s load = .ok changed → P changed)
    (hset : ∀ s, ∀ key ∈ storedKeys tokens, ∀ value, P s → P (s.set key value))
    (s : Settings) (hs : P s) : P (outputStream command tokens s).1 := by
  fun_induction outputStream command tokens s with
  | case1 s => exact hs
  | case2 token rest s htoken ih =>
    rw [storedKeys_state htoken] at hset
    exact ih hset (hstate s token hs htoken)
  | case3 s => exact hs
  | case4 s load rest changed hchange => exact hload s load changed hs hchange
  | case5 s => exact hs
  | case6 token s => exact hs
  | case7 token s hstates hkey hcontains value rest hadmits ih =>
    have hmem : token ∈ defaultSettings.keys :=
      hkeys s hs ▸ Settings.contains_iff_mem_keys.mp hcontains
    rw [storedKeys_set hstates hkey hmem hadmits] at hset
    exact ih (fun s key hstored => hset s key (.tail _ hstored)) (hset s token (.head _) value hs)
  | case8 token s => exact hs
  | case9 token rest s => exact hs

theorem InRange.of_changeLoad {s changed : Settings} (h : InRange s) {load : Text}
    (hchange : Channel.changeLoad s load = .ok changed) : InRange changed := by
  rcases changeLoad_cases hchange with rfl | ⟨writes, hload, -, -⟩
  · exact h
  · obtain ⟨changed', hchange', hrange, -⟩ := h.changeLoad hload
    rw [Except.ok.inj (hchange.symm.trans hchange')]
    exact hrange

/-- A command keeps the settings in range unless it stores one of them as it was written. -/
theorem Effect.inRange {c : Channel} {command : Text} {settings : Settings}
    (h : Effect c command settings) (hc : InRange c.settings)
    (hwave : ∀ parameters key value more, command = c.address ++ "BSWV ".toList ++ parameters →
      Text.split ',' (Text.before ' ' parameters) = key :: value :: more →
      key ∉ Key.load :: otherScaled)
    (hstream : ∀ parameters, command = c.address ++ "OUTP ".toList ++ parameters →
      ∀ key ∈ storedKeys (Text.split ',' (Text.before ' ' parameters)), key ∉ loadScaled) :
    InRange settings := by
  cases h with
  | none => exact hc
  | output parameters hcommand =>
    -- a load comes in by a change of load only, and ends the stream
    refine outputStream_preserves_of_stored _ _ (fun s hs => hs.keys) ?_ ?_ ?_ _ hc
    · intro s token hs _
      exact hs.set (by decide) token
    · intro s load changed hs hchange
      exact hs.of_changeLoad hchange
    · intro s key hstored value hs
      have hload : key ≠ Key.load := load_not_mem_storedKeys hstored
      exact hs.set (by simpa [hload] using hstream parameters hcommand key hstored) value
  | wave parameters key value more writes hcommand hpieces hwrites =>
    have hkey := hwave parameters key value more hcommand hpieces
    -- a frequency does not count, an amplitude suits either load, and the rest is as it was written
    obtain ⟨-, ⟨-, hfound⟩ | ⟨-, hfound⟩ | ⟨-, hamplitude, rfl⟩⟩ := waveWrites_cases hwrites
    · refine hc.setAll writes ?_
      rw [frequencyWrites_keys hfound]
      decide
    · exact hc.amplitude hfound
    · refine hc.set (fun hmem => ?_) value
      rcases List.mem_cons.mp hmem with hload | hmem
      · exact hkey (hload ▸ .head _)
      · exact hkey (.tail _ ((List.mem_cons.mp hmem).resolve_left hamplitude))

/-- What a command for a new load comes to when the load can be changed. -/
theorem process_load (c : Channel) {load : Text} (hload : load = load50 ∨ load = loadHighZ)
    {changed : Settings} (h : Channel.changeLoad c.settings load = .ok changed) :
    c.process (c.address ++ ("OUTP LOAD,".toList ++ load)) =
      ({ c with settings := changed }, .ok .silent) := by
  have hstream : ∀ command, outputStream command [Key.load, load] c.settings = (changed, .ok ()) := by
    intro command
    rw [outputStream, if_neg (by decide), if_pos rfl, h]
  have hword : parameterWord outputVerb ("OUTP LOAD,".toList ++ load) =
      .ok (Text.before ' ' ("LOAD,".toList ++ load)) := rfl
  have hpieces : Text.split ',' (Text.before ' ' ("LOAD,".toList ++ load)) = [Key.load, load] := by
    rcases hload with rfl | rfl <;> decide
  have hquery : "OUTP LOAD,".toList ++ load ≠ "OUTP?".toList := by
    rcases hload with rfl | rfl <;> decide
  have hverb : Text.startsWith outputVerb ("OUTP LOAD,".toList ++ load) = true := rfl
  rw [process, Text.dropHead?_eq_some_iff.mpr rfl]
  dsimp only
  rw [if_pos hverb, output, if_neg hquery, hword]
  dsimp only
  rw [hpieces, hstream]
  rfl

end Channel

namespace Instrument

/-- A command in normal form that stores the load, or a setting that is scaled with it, as the client
wrote it. A new amplitude is not stored so by the basic wave command. -/
inductive StoresScaled : Text → Prop where
  | wave (id : ChannelId) (parameters key value : Text) (more : List Text)
      (hpieces : Text.split ',' (Text.before ' ' parameters) = key :: value :: more)
      (hkey : key ∈ Channel.Key.load :: Channel.otherScaled) :
      StoresScaled (id.address ++ "BSWV ".toList ++ parameters)
  | stream (id : ChannelId) (parameters key : Text)
      (hstored : key ∈ Channel.storedKeys (Text.split ',' (Text.before ' ' parameters)))
      (hkey : key ∈ Channel.loadScaled) : StoresScaled (id.address ++ "OUTP ".toList ++ parameters)

theorem storesScaled_iff {command : Text} :
    StoresScaled command ↔ ∃ id ∈ [ChannelId.first, ChannelId.second],
      (∃ parameters ∈ Text.dropHead? (id.address ++ "BSWV ".toList) command,
          1 < (Text.split ',' (Text.before ' ' parameters)).length ∧
            ∃ key ∈ (Text.split ',' (Text.before ' ' parameters)).head?,
              key ∈ Channel.Key.load :: Channel.otherScaled) ∨
        ∃ parameters ∈ Text.dropHead? (id.address ++ "OUTP ".toList) command,
          ∃ key ∈ Channel.storedKeys (Text.split ',' (Text.before ' ' parameters)),
            key ∈ Channel.loadScaled := by
  have hall : ∀ id : ChannelId, id ∈ [ChannelId.first, ChannelId.second] := by
    intro id
    cases id <;> decide
  constructor
  · intro h
    cases h with
    | wave id parameters key value more hpieces hkey =>
      refine ⟨id, hall id, .inl ⟨parameters, Text.dropHead?_eq_some_iff.mpr rfl, ?_⟩⟩
      rw [hpieces]
      exact ⟨by simp, key, rfl, hkey⟩
    | stream id parameters key hstored hkey =>
      exact ⟨id, hall id,
        .inr ⟨parameters, Text.dropHead?_eq_some_iff.mpr rfl, key, hstored, hkey⟩⟩
  · rintro ⟨id, -, ⟨parameters, hcommand, hlength, key, hhead, hkey⟩ |
      ⟨parameters, hcommand, key, hstored, hkey⟩⟩
    · rw [Text.dropHead?_eq_some_iff.mp hcommand]
      cases hpieces : Text.split ',' (Text.before ' ' parameters) with
      | nil =>
        rw [hpieces] at hlength
        cases hlength
      | cons first rest =>
        cases rest with
        | nil =>
          rw [hpieces] at hlength
          exact absurd hlength (lt_irrefl 1)
        | cons value more =>
          rw [hpieces] at hhead
          cases hhead
          exact .wave id parameters _ value more hpieces hkey
    · rw [Text.dropHead?_eq_some_iff.mp hcommand]
      exact .stream id parameters key hstored hkey

instance (command : Text) : Decidable (StoresScaled command) :=
  decidable_of_iff _ storesScaled_iff.symm

/-- What one command preserves. -/
theorem inRange_process {i : Instrument} {command : Text}
    (h : ¬ StoresScaled (normalize command))
    (hi : ∀ id, Channel.InRange (i.channel id).settings) (id : ChannelId) :
    Channel.InRange ((i.process command).1.channel id).settings := by
  have hwritten : ∀ (target : ChannelId) (settings : Settings), Channel.InRange settings →
      Channel.InRange ((i.withChannel target settings).channel id).settings := by
    intro target settings hsettings
    by_cases hid : id = target
    · rw [hid, settings_withChannel_self]
      exact hsettings
    · rw [channel_withChannel_of_ne hid]
      exact hi id
  have heffect := process_effect i command
  generalize (i.process command).1 = changed at heffect ⊢
  cases heffect with
  | none => exact hi id
  | header => exact hi id
  | buzzer => exact hi id
  | copy tail target source => exact hwritten target _ (hi source)
  | reset => cases id <;> exact Channel.inRange_defaultSettings
  | channel target settings heffect =>
    refine hwritten target settings (heffect.inRange (hi target) ?_ ?_)
    · intro parameters key value more hcommand hpieces hkey
      rw [address_channel] at hcommand
      exact h (hcommand ▸ .wave target parameters key value more hpieces hkey)
    · intro parameters hcommand key hstored hkey
      rw [address_channel] at hcommand
      exact h (hcommand ▸ .stream target parameters key hstored hkey)

theorem inRange_after (model : Model) {history : List Text}
    (h : ∀ command ∈ history, ¬ StoresScaled (normalize command)) (id : ChannelId) :
    Channel.InRange (((new model).after history).channel id).settings := by
  have hnew : ∀ id, Channel.InRange ((new model).channel id).settings := by
    intro id
    cases id <;> exact Channel.inRange_defaultSettings
  exact after_preserves_of_mem (P := fun i => ∀ id, Channel.InRange (i.channel id).settings)
    (fun i command hcommand hi => inRange_process (h command hcommand) hi) hnew id

theorem route_load (i : Instrument) (id : ChannelId) {load : Text}
    (hload : load = Channel.load50 ∨ load = Channel.loadHighZ)
    (h : Channel.InRange (i.channel id).settings) :
    ∃ changed, i.route (normalize (id.address ++ ("OUTP LOAD,".toList ++ load))) =
        (changed, .ok .silent) ∧
      (changed.channel id).settings.value Channel.Key.load = load := by
  obtain ⟨settings, hchange, -, hvalue⟩ := h.changeLoad hload
  have hnormal : normalize (id.address ++ ("OUTP LOAD,".toList ++ load)) =
      id.address ++ ("OUTP LOAD,".toList ++ load) := by
    rcases hload with rfl | rfl <;> cases id <;> decide +kernel
  refine ⟨i.withChannel id settings, ?_, ?_⟩
  · rw [hnormal, route_channel, ← address_channel i, Channel.process_load _ hload hchange]
  · rw [settings_withChannel_self]
    exact hvalue

/-- **No drift.** Take any run in which no command stores the load, or a setting that is scaled with
it, as it was written. Then each channel has one of the two loads and an amplitude in the range of
this load, all that a change of load scales is a finite number, and both changes of load succeed. -/
theorem scaled_settings_in_range (model : Model) (history : List Text)
    (h : ∀ command ∈ history, ¬ StoresScaled (normalize command)) (id : ChannelId) :
    let i := (new model).after history
    let s := (i.channel id).settings
    (∃ amplitude, Decimal.read? (s.value Channel.Key.amplitude) = some amplitude ∧
        (s.value Channel.Key.load = Channel.loadHighZ ∧
            0.002 ≤ amplitude.value ∧ amplitude.value ≤ 40 ∨
          s.value Channel.Key.load = Channel.load50 ∧
            0.001 ≤ amplitude.value ∧ amplitude.value ≤ 20)) ∧
      (∀ key ∈ Channel.loadScaled, ∃ d, Decimal.read? (s.value key) = some d ∧
        Quantity.parse (s.value key) = .ok d.toBinary64) ∧
      ∀ load ∈ [Channel.load50, Channel.loadHighZ], ∃ changed,
        i.route (normalize (id.address ++ ("OUTP LOAD,".toList ++ load))) =
            (changed, .ok .silent) ∧
          (changed.channel id).settings.value Channel.Key.load = load := by
  intro i s
  have hrange : Channel.InRange s := inRange_after model h id
  refine ⟨?_, fun key hkey => hrange.reads hkey, ?_⟩
  · rcases hrange.within with ⟨hload, hwithin⟩ | ⟨hload, hwithin⟩
    · have hleast : Quantity.Reads Channel.boundsHighZ.least ⟨false, 2, -3⟩ := by decide
      have hgreatest : Quantity.Reads Channel.boundsHighZ.greatest ⟨false, 40, 0⟩ := by decide
      obtain ⟨amplitude, hread, hlower, hupper⟩ := hwithin.amplitude_mem hleast hgreatest
      refine ⟨amplitude, hread, .inl ⟨hload, ?_, ?_⟩⟩
      · exact le_trans (by norm_num [Decimal.magnitude]) hlower
      · exact hupper.trans (by norm_num [Decimal.magnitude])
    · have hleast : Quantity.Reads Channel.bounds50.least ⟨false, 1, -3⟩ := by decide
      have hgreatest : Quantity.Reads Channel.bounds50.greatest ⟨false, 20, 0⟩ := by decide
      obtain ⟨amplitude, hread, hlower, hupper⟩ := hwithin.amplitude_mem hleast hgreatest
      refine ⟨amplitude, hread, .inr ⟨hload, ?_, ?_⟩⟩
      · exact le_trans (by norm_num [Decimal.magnitude]) hlower
      · exact hupper.trans (by norm_num [Decimal.magnitude])
  · intro load hload
    exact route_load i id (by simpa using hload) hrange

/-- A run with amplitudes out of range, a copy and changes of load, and a stream that names a scaled
setting only behind the load that ends it. -/
theorem scaled_settings_in_range_copied :
    (∀ command ∈ ["C1:BSWV AMP,1e9".toList, "C1:OUTP LOAD,50,AMP,7".toList, "PACP C2,C1".toList,
        "C2:OUTP WVTP,AMP".toList], ¬ StoresScaled (normalize command)) ∧
      ∃ changed, ((new .sdg1032x).after ["C1:BSWV AMP,1e9".toList,
            "C1:OUTP LOAD,50,AMP,7".toList, "PACP C2,C1".toList, "C2:OUTP WVTP,AMP".toList]).route
          (normalize (ChannelId.second.address ++ ("OUTP LOAD,".toList ++ Channel.loadHighZ))) =
            (changed, .ok .silent) ∧
        (changed.channel .second).settings.value Channel.Key.load = Channel.loadHighZ := by
  have hstores : ∀ command ∈ ["C1:BSWV AMP,1e9".toList, "C1:OUTP LOAD,50,AMP,7".toList,
      "PACP C2,C1".toList, "C2:OUTP WVTP,AMP".toList], ¬ StoresScaled (normalize command) := by
    decide +kernel
  refine ⟨hstores, ?_⟩
  exact (scaled_settings_in_range .sdg1032x _ hstores .second).2.2 Channel.loadHighZ (by decide)

end Instrument

end WaveGen
