import WaveGen.Proofs.CommandEffects
import WaveGen.Proofs.Halves

/-!
# New amplitudes (specification §4.3)

A new amplitude is moved into the range of the output stage and rounded to six digits. The effective
amplitude and the two levels are computed from what is displayed, each rounded again. Still the
levels are exactly the amplitude apart: the high level is a half of it or, where the half needs a
seventh digit, one of the two numbers next to the half; and what is left for the low level has six
digits, too.

* `Binary64.value_clamp` — moving a double into a range.
* `Quantity.exists_levels` — the two levels of an amplitude.
* `Channel.process_amplitude` — what a command for a new amplitude stores.
-/

namespace WaveGen

namespace Binary64

/-! ## Order -/

theorem signedUnits_eq (negative : Bool) (rank : Fin finiteRanks) :
    (signedUnits negative rank : ℚ) = (finite negative rank).value * unitsPerOne := by
  cases negative with
  | false => rw [signedUnits, if_neg (by decide), value_false, Int.cast_natCast, rankUnits_eq]
  | true =>
    rw [signedUnits, if_pos rfl, value_true, Int.cast_neg, Int.cast_natCast, rankUnits_eq, neg_mul]

theorem lt_iff_value_lt {x y : Binary64} (hx : x.isFinite = true) (hy : y.isFinite = true) :
    lt x y = true ↔ x.value < y.value := by
  cases x with
  | infinite n => cases hx
  | nan => cases hx
  | finite n a =>
    cases y with
    | infinite m => cases hy
    | nan => cases hy
    | finite m b =>
      rw [lt, decide_eq_true_eq, ← @Int.cast_lt ℚ, signedUnits_eq, signedUnits_eq]
      exact mul_lt_mul_iff_of_pos_right unitsPerOne_cast_pos

/-- **Moving a double into a range** does to its value what it says. -/
theorem value_clamp {x low high : Binary64} (hx : x.isFinite = true) (hlow : low.isFinite = true)
    (hhigh : high.isFinite = true) (hrange : low.value ≤ high.value) :
    (x.clamp low high).value = max low.value (min x.value high.value) := by
  unfold clamp
  by_cases hbelow : lt x low = true
  · have hlt := (lt_iff_value_lt hx hlow).mp hbelow
    rw [if_pos hbelow, max_eq_left ((min_le_left _ _).trans hlt.le)]
  · have hge := not_lt.mp (mt (lt_iff_value_lt hx hlow).mpr hbelow)
    rw [if_neg hbelow]
    by_cases habove : lt high x = true
    · have hlt := (lt_iff_value_lt hhigh hx).mp habove
      rw [if_pos habove, min_eq_right hlt.le, max_eq_right hrange]
    · have hle := not_lt.mp (mt (lt_iff_value_lt hhigh hx).mpr habove)
      rw [if_neg habove, min_eq_left hle, max_eq_right hge]

theorem eq_finite_of_value_pos {x : Binary64} (h : 0 < x.value) :
    ∃ rank, x = .finite false rank ∧ rank.val ≠ 0 := by
  cases x with
  | infinite n => exact absurd h (lt_irrefl 0)
  | nan => exact absurd h (lt_irrefl 0)
  | finite n rank =>
    have hnonneg := rankMagnitude_nonneg rank
    cases n with
    | true =>
      rw [value_true] at h
      linarith
    | false =>
      refine ⟨rank, rfl, fun hzero => ?_⟩
      rw [value_false, hzero, rankMagnitude_zero] at h
      exact lt_irrefl _ h

/-- Texts other than decimal numbers are names, and those of numbers that are not finite. -/
theorem exists_decimal {t : Text} {x : Binary64} (h : read? t = some x)
    (hx : x.isFinite = true) : ∃ d, Decimal.read? t = some d := by
  cases hread : Decimal.read? t with
  | some d => exact ⟨d, rfl⟩
  | none =>
    rw [read?, hread] at h
    dsimp only at h
    split at h
    · cases h
      cases hx
    · split at h
      · cases h
        cases hx
      · cases h

theorem Approximates.value_near {x : Binary64} {k : ℕ} {v : ℚ} (h : Approximates x k false v) :
    Near k x.value v := by
  obtain ⟨rank, rfl, hnear⟩ := h
  exact hnear

end Binary64

/-- What lies between a number and one that is close to it is close to it. -/
theorem Near.of_mem {k : ℕ} {v w x : ℚ} (h : Near k w v) (hleast : min w v ≤ x)
    (hgreatest : x ≤ max w v) : Near k x v := by
  obtain ⟨hlower, hupper⟩ := abs_le.mp h
  have hnonneg : 0 ≤ k * v / 10 ^ 15 := (abs_nonneg _).trans h
  refine abs_le.mpr ⟨?_, ?_⟩
  · rcases min_le_iff.mp hleast with hw | hv <;> linarith
  · rcases le_max_iff.mp hgreatest with hw | hv <;> linarith

/-- Two ranges whose ends are close to each other make the same of a number, or move it to the same
end. -/
theorem clamp_cases {k : ℕ} {low high low' high' : ℚ} (hlow : Near k low low')
    (hhigh : Near k high high') (hrange : max low low' < min high high') (v : ℚ) :
    max low (min v high) = max low' (min v high') ∨
      Near k (max low (min v high)) low' ∧ Near k (max low' (min v high')) low' ∨
      Near k (max low (min v high)) high' ∧ Near k (max low' (min v high')) high' := by
  obtain ⟨hlow_high, hlow_high'⟩ := lt_min_iff.mp hrange
  rcases le_or_gt v (max low low') with hbelow | hinside
  · right; left
    have hv : min v high = v ∧ min v high' = v :=
      ⟨min_eq_left (hbelow.trans hlow_high.le), min_eq_left (hbelow.trans hlow_high'.le)⟩
    rw [hv.1, hv.2]
    constructor
    · apply hlow.of_mem
      · exact (min_le_left _ _).trans (le_max_left _ _)
      · exact max_le (le_max_left _ _) hbelow
    · apply hlow.of_mem
      · exact (min_le_right _ _).trans (le_max_left _ _)
      · exact max_le (le_max_right _ _) hbelow
  · obtain ⟨hv, hv'⟩ := max_lt_iff.mp hinside
    rcases le_or_gt (min high high') v with habove | hinside'
    · right; right
      obtain ⟨hhigh_low, -⟩ := max_lt_iff.mp hlow_high
      obtain ⟨-, hhigh_low'⟩ := max_lt_iff.mp hlow_high'
      rw [max_eq_right (le_min hv.le hhigh_low.le), max_eq_right (le_min hv'.le hhigh_low'.le)]
      constructor
      · apply hhigh.of_mem
        · exact le_min habove (min_le_left _ _)
        · exact (min_le_right _ _).trans (le_max_left _ _)
      · apply hhigh.of_mem
        · exact le_min habove (min_le_right _ _)
        · exact (min_le_right _ _).trans (le_max_right _ _)
    · left
      obtain ⟨hv_high, hv_high'⟩ := lt_min_iff.mp hinside'
      rw [min_eq_left hv_high.le, min_eq_left hv_high'.le, max_eq_right hv.le, max_eq_right hv'.le]

namespace Quantity

open Binary64 (Ordinary Moderate)

variable {d e f : Decimal}

/-! ## Levels -/

/-- Two levels, one on each side of zero, that are exactly the amplitude `d` apart. Neither is small
against it. -/
structure Levels (d high low : Decimal) : Prop where
  high_digits : high.HasDigits significantDigits
  low_digits : low.HasDigits significantDigits
  high_sign : high.negative = false
  low_sign : low.negative = true
  apart : d.magnitude = high.magnitude + low.magnitude
  high_part : d.magnitude ≤ 3 * high.magnitude
  low_part : d.magnitude ≤ 3 * low.magnitude

/-- Halving an amplitude gives the high level, and what is left has six digits, too. -/
theorem exists_levels (hd : d.HasDigits significantDigits) (hsign : d.negative = false)
    (h : Ordinary d.magnitude) :
    ∃ high low : Decimal, Levels d high low ∧
      divide d.generalText ['2'] = .ok high.generalText := by
  by_cases hhalf : d.HasHalf
  · -- both levels are the half
    obtain ⟨e, he, he_sign, hvalue⟩ := hhalf.exists_half hd
    have hpos := he.magnitude_pos
    have hlow : Decimal.magnitude ⟨true, e.significand, e.exponent⟩ = e.magnitude := rfl
    refine ⟨e, ⟨true, e.significand, e.exponent⟩, ?_, divide_two hd he he_sign hvalue h⟩
    exact ⟨he, he, he_sign.trans hsign, rfl, by linarith, by linarith, by linarith⟩
  · -- the half is between two numbers of six digits, and the levels are these two
    obtain ⟨half, hneighbour, hleast, hgreatest, hdivide⟩ := divide_two_odd hd hhalf h
    rw [hsign] at hdivide
    have hlarge : 200000 < d.significand := by
      unfold Decimal.HasHalf at hhalf
      omega
    obtain ⟨rest, hrest⟩ : ∃ rest, d.significand = half + rest := ⟨d.significand - half, by omega⟩
    have hpart : ∀ (n : Bool) (part : ℕ), d.significand ≤ 3 * part →
        d.magnitude ≤ 3 * Decimal.magnitude ⟨n, part, d.exponent⟩ := by
      intro n part hle
      have hcast : (d.significand : ℚ) ≤ 3 * part := by exact_mod_cast hle
      rw [Decimal.magnitude, Decimal.magnitude, ← mul_assoc]
      gcongr
    refine ⟨⟨false, half, d.exponent⟩, ⟨true, rest, d.exponent⟩, ?_, hdivide⟩
    refine ⟨?_, ?_, rfl, rfl, ?_, hpart _ _ (by omega), hpart _ _ (by omega)⟩
    · exact ⟨hleast, hgreatest.trans_lt (by decide)⟩
    · show 100000 ≤ rest ∧ rest < 1000000
      omega
    · rw [Decimal.magnitude, hrest, Nat.cast_add, add_mul]
      rfl

namespace Levels

variable {high low : Decimal}

theorem moderate (hl : Levels d high low) (h : Ordinary d.magnitude) :
    Moderate high.magnitude ∧ Moderate low.magnitude := by
  have hhigh := hl.high_digits.magnitude_pos
  have hlow := hl.low_digits.magnitude_pos
  have hapart := hl.apart
  have hhigh_part := hl.high_part
  have hlow_part := hl.low_part
  exact ⟨h.moderate_of_part (by linarith) (by linarith),
    h.moderate_of_part (by linarith) (by linarith)⟩

/-- The high level less the amplitude is displayed as the low level. -/
theorem subtract (hl : Levels d high low) (hd : d.HasDigits significantDigits)
    (hsign : d.negative = false) (h : Ordinary d.magnitude) :
    Quantity.subtract high.generalText d.generalText = .ok low.generalText := by
  obtain ⟨hhigh, hlow⟩ := hl.moderate h
  have hlow_part := hl.low_part
  have hdifference : d.magnitude - high.magnitude = low.magnitude := by
    linarith [hl.apart]
  obtain ⟨x, hx, hx_near⟩ := parse_generalText hl.high_digits hhigh
  obtain ⟨y, hy, hy_near⟩ := parse_generalText hd h.moderate
  rw [hl.high_sign] at hx_near
  rw [hsign] at hy_near
  have hnear := hx_near.sub hy_near (by linarith [hlow.pos]) (by linarith) (hdifference ▸ hlow)
    (by norm_num) (by norm_num)
  rw [hdifference, ← hl.low_sign] at hnear
  rw [subtract_eq_ok_iff.mpr ⟨x, y, hx, hy, rfl⟩, hnear.display_eq hl.low_digits (by norm_num)]

end Levels

/-- A product with the factor of the effective amplitude is off by one unit of its last digit at
most. -/
theorem exists_effective (hd : d.HasDigits significantDigits) (hsign : d.negative = false)
    (h : Ordinary d.magnitude) :
    ∃ e : Decimal, e.HasDigits significantDigits ∧ e.negative = false ∧
      multiply d.generalText Channel.effectiveFactor = .ok e.generalText ∧
      |e.magnitude - d.magnitude * 0.3535| ≤ 10 ^ e.exponent := by
  have hmagnitude : Decimal.magnitude ⟨false, 3535, -4⟩ = 0.3535 := by norm_num [Decimal.magnitude]
  have hreads : Reads Channel.effectiveFactor ⟨false, 3535, -4⟩ := by decide
  obtain ⟨factor, hfactor, hfactor_near⟩ :=
    hreads.exists_parse_of_magnitude_eq hmagnitude (.of_zpow (by norm_num) (by norm_num))
  obtain ⟨x, hx, hx_near⟩ := parse_generalText hd h.moderate
  rw [hsign] at hx_near
  have hproduct := hx_near.mul hfactor_near h.pos.le (by norm_num)
    (h.moderate_mul (by norm_num) (by norm_num)) (by norm_num) (by norm_num)
  have hpos := h.pos
  obtain ⟨e, he, he_sign, hdisplay, hclose⟩ := hproduct.exists_display (by linarith) (by norm_num)
  refine ⟨e, he, he_sign, ?_, hclose⟩
  rw [multiply_eq_ok_iff.mpr ⟨x, factor, hx, hfactor, rfl⟩, hdisplay]

/-- The unit of the last digit is a small part of the effective amplitude. -/
theorem moderate_effective (h : Ordinary d.magnitude) (he : e.HasDigits significantDigits)
    (hclose : |e.magnitude - d.magnitude * 0.3535| ≤ 10 ^ e.exponent) : Moderate e.magnitude := by
  have hunit : 10 ^ 5 * 10 ^ e.exponent ≤ e.magnitude := he.le_magnitude
  have hstep : (0 : ℚ) < 10 ^ e.exponent := by positivity
  have hpos := h.pos
  obtain ⟨hlower, hupper⟩ := abs_le.mp hclose
  exact h.moderate_of_part (by linarith) (by linarith)

/-- The text spells the number `v`. -/
def Spells (t : Text) (v : ℚ) : Prop := ∃ d, Reads t d ∧ d.value = v

theorem spells_generalText (hd : d.HasDigits significantDigits) (h : Moderate d.magnitude) :
    Spells d.generalText d.value := by
  obtain ⟨e, he, hsign, hmagnitude⟩ := reads_generalText hd h
  refine ⟨e, he, ?_⟩
  rw [Decimal.value, Decimal.value, hsign, hmagnitude]

theorem read?_of_parse {t : Text} {x : Binary64} (h : parse t = .ok x) :
    Binary64.read? (Text.trim t) = some x := by
  rw [parse] at h
  split at h
  · rename_i found hfound
    split at h
    · cases h
      exact hfound
    · cases h
  · cases h

/-- A text that can be read as a finite number holds no comma. -/
theorem not_mem_of_parse {t : Text} {x : Binary64} (h : parse t = .ok x) : ',' ∉ t := by
  intro hmem
  obtain ⟨d, hd⟩ := Binary64.exists_decimal (read?_of_parse h) (isFinite_of_parse h)
  exact absurd (Decimal.isSpelling_of_read? hd _ (Text.mem_trim (by decide) hmem)) (by decide)

end Quantity

namespace Channel

/-! ## Amplitudes -/

/-- The least amplitude, written with six digits. -/
theorem magnitude_least : Decimal.magnitude ⟨false, 200000, -8⟩ = 0.002 := by
  norm_num [Decimal.magnitude]

/-- The greatest amplitude, written with six digits. -/
theorem magnitude_greatest : Decimal.magnitude ⟨false, 200000, -4⟩ = 20 := by
  norm_num [Decimal.magnitude]

theorem leastAmplitude_approximates : leastAmplitude.Approximates 2 false 0.002 := by
  have hmagnitude : Decimal.magnitude ⟨false, 2, -3⟩ = 0.002 := by norm_num [Decimal.magnitude]
  exact Decimal.approximates_of_magnitude_eq hmagnitude (.of_zpow (by norm_num) (by norm_num))

theorem greatestAmplitude_approximates : greatestAmplitude.Approximates 2 false 20 := by
  have hmagnitude : Decimal.magnitude ⟨false, 20, 0⟩ = 20 := by norm_num [Decimal.magnitude]
  exact Decimal.approximates_of_magnitude_eq hmagnitude (.of_zpow (by norm_num) (by norm_num))

/-- The double that is displayed of a new amplitude, exactly: the wanted one, moved into the range
and rounded. -/
theorem display_amplitude {x : Binary64} (hx : x.isFinite = true) :
    ∃ d : Decimal, Decimal.Rounds significantDigits (max 0.002 (min x.value 20)) d ∧
      d.negative = false ∧
      Quantity.display (x.clamp leastAmplitude greatestAmplitude) = d.generalText := by
  have hlow := leastAmplitude_approximates.value_near
  have hhigh := greatestAmplitude_approximates.value_near
  have hlow_bounds := hlow.bounds (by norm_num) (by norm_num)
  have hhigh_bounds := hhigh.bounds (by norm_num) (by norm_num)
  have hvalue := Binary64.value_clamp hx leastAmplitude_approximates.isFinite
    greatestAmplitude_approximates.isFinite (by linarith)
  have hrange : max leastAmplitude.value 0.002 < min greatestAmplitude.value 20 := by
    refine max_lt (lt_min ?_ ?_) (lt_min ?_ ?_) <;> linarith
  have hpos : 0 < (x.clamp leastAmplitude greatestAmplitude).value := by
    rw [hvalue]
    exact lt_max_of_lt_left (by linarith)
  obtain ⟨rank, heq, hrank⟩ := Binary64.eq_finite_of_value_pos hpos
  have hrounds := Binary64.rounds_shown false hrank
  have hrank_value : Binary64.rankMagnitude rank =
      max leastAmplitude.value (min x.value greatestAmplitude.value) := by
    rw [← hvalue, heq]
    rfl
  rw [heq]
  refine ⟨_, ?_, Binary64.negative_shown hrank, Binary64.toText_finite hrank⟩
  rw [hrank_value] at hrounds
  -- the ends of the range are not exact, but close enough to be rounded to the exact ones
  rcases clamp_cases hlow hhigh hrange x.value with hsame | ⟨hnear, hnear'⟩ | ⟨hnear, hnear'⟩
  · rwa [hsame] at hrounds
  · rw [← magnitude_least] at hnear hnear' ⊢
    exact Binary64.rounds_of_near hrounds ⟨by decide, by decide⟩ hnear hnear' (by norm_num)
  · rw [← magnitude_greatest] at hnear hnear' ⊢
    exact Binary64.rounds_of_near hrounds ⟨by decide, by decide⟩ hnear hnear' (by norm_num)

theorem bounds_of_rounds {d : Decimal} {v : ℚ}
    (h : Decimal.Rounds significantDigits (max 0.002 (min v 20)) d) :
    0.002 ≤ d.magnitude ∧ d.magnitude ≤ 20 := by
  constructor
  · rw [← magnitude_least]
    exact h.le_magnitude ⟨by decide, by decide⟩ (magnitude_least.trans_le (le_max_left _ _))
  · rw [← magnitude_greatest]
    refine h.magnitude_le ⟨by decide, by decide⟩ ?_
    rw [magnitude_greatest]
    exact max_le (by norm_num) (min_le_right _ _)

theorem ordinary_of_rounds {d : Decimal} {v : ℚ}
    (h : Decimal.Rounds significantDigits (max 0.002 (min v 20)) d) :
    Binary64.Ordinary d.magnitude := by
  obtain ⟨hleast, hgreatest⟩ := bounds_of_rounds h
  apply Binary64.Ordinary.of_zpow
  · exact le_trans (by norm_num) hleast
  · exact hgreatest.trans (by norm_num)

/-- What a new amplitude writes, as numbers. -/
theorem amplitudeWrites_of_parse {value : Text} {x : Binary64}
    (hvalue : Quantity.parse value = .ok x) :
    ∃ amplitude effective high low : Decimal,
      Decimal.Rounds significantDigits (max 0.002 (min x.value 20)) amplitude ∧
      amplitude.negative = false ∧ Quantity.Levels amplitude high low ∧
      (effective.HasDigits significantDigits ∧ effective.negative = false ∧
        |effective.magnitude - amplitude.magnitude * 0.3535| ≤ 10 ^ effective.exponent) ∧
      amplitudeWrites value = .ok [(Key.amplitude, amplitude.generalText),
        (Key.effective, effective.generalText), (Key.high, high.generalText),
        (Key.low, low.generalText)] := by
  obtain ⟨amplitude, hrounds, hsign, hdisplay⟩ :=
    display_amplitude (Quantity.isFinite_of_parse hvalue)
  have hordinary := ordinary_of_rounds hrounds
  obtain ⟨effective, heffective, heffective_sign, hmultiply, hclose⟩ :=
    Quantity.exists_effective hrounds.hasDigits hsign hordinary
  obtain ⟨high, low, hlevels, hdivide⟩ :=
    Quantity.exists_levels hrounds.hasDigits hsign hordinary
  have hsubtract := hlevels.subtract hrounds.hasDigits hsign hordinary
  refine ⟨amplitude, effective, high, low, hrounds, hsign, hlevels,
    ⟨heffective, heffective_sign, hclose⟩, ?_⟩
  refine bind_eq_ok_iff.mpr ⟨x, hvalue, ?_⟩
  dsimp only
  rw [hdisplay]
  exact bind_eq_ok_iff.mpr ⟨_, hmultiply, bind_eq_ok_iff.mpr ⟨_, hdivide,
    bind_eq_ok_iff.mpr ⟨_, hsubtract, rfl⟩⟩⟩

/-- What a command for a new amplitude comes to. -/
theorem process_amplitudeWrites (c : Channel) (hkeys : c.settings.keys = defaultSettings.keys)
    {value : Text} {writes : List (Text × Text)} (hspace : ' ' ∉ value) (hcomma : ',' ∉ value)
    (hwrites : amplitudeWrites value = .ok writes) :
    c.process (c.address ++ ("BSWV AMP,".toList ++ value)) =
      ({ c with settings := c.settings.setAll writes }, .ok .silent) := by
  have hcontains : c.settings.contains Key.amplitude = true := by
    rw [Settings.contains_iff_mem_keys, hkeys]
    decide
  have hkey : ',' ∉ Key.amplitude ∧ ' ' ∉ Key.amplitude := by decide
  refine process_waveWrites c hkey ⟨hcomma, hspace⟩ fun command => ?_
  rw [waveWrites, if_pos hcontains]
  show (if Key.amplitude = Key.frequency then _ else if Key.amplitude = Key.amplitude then
    CommandFault.ofQuantity (amplitudeWrites value) else _) = _
  rw [if_neg (by decide), if_pos rfl, hwrites]
  rfl

/-- The settings that a new amplitude writes. -/
def amplitudeKeys : List Text := [Key.amplitude, Key.effective, Key.high, Key.low]

theorem values_setAll_amplitude {s : Settings} (hkeys : s.keys = defaultSettings.keys)
    (amplitude effective high low : Text) :
    let written := s.setAll [(Key.amplitude, amplitude), (Key.effective, effective),
      (Key.high, high), (Key.low, low)]
    (written.value Key.amplitude = amplitude ∧ written.value Key.effective = effective ∧
      written.value Key.high = high ∧ written.value Key.low = low) ∧
      ∀ key ∉ amplitudeKeys, written.value key = s.value key := by
  intro written
  have hcontains : ∀ key ∈ amplitudeKeys, s.contains key = true := by
    intro key hkey
    rw [Settings.contains_iff_mem_keys, hkeys]
    revert key
    decide
  have hvalue : ∀ key ∈ amplitudeKeys, ∀ text, (key, text) ∈ [(Key.amplitude, amplitude),
      (Key.effective, effective), (Key.high, high), (Key.low, low)] → written.value key = text := by
    intro key hkey text hmem
    refine Settings.value_setAll_of_mem ?_ hmem (hcontains key hkey)
    exact (by decide : amplitudeKeys.Nodup)
  refine ⟨⟨?_, ?_, ?_, ?_⟩, fun key hkey => Settings.value_setAll_of_forall_ne hkey s⟩
  · exact hvalue _ (.head _) _ (.head _)
  · exact hvalue _ (.tail _ (.head _)) _ (.tail _ (.head _))
  · exact hvalue _ (.tail _ (.tail _ (.head _))) _ (.tail _ (.tail _ (.head _)))
  · exact hvalue _ (.tail _ (.tail _ (.tail _ (.head _)))) _
      (.tail _ (.tail _ (.tail _ (.head _))))

/-- **A new amplitude.** A command with a text that can be read succeeds. The amplitude is the
number that was read, moved into the range of the output stage and rounded to six digits. The levels
are on either side of zero and exactly the amplitude apart, the effective amplitude is off by one
unit of its sixth digit at most, and all other settings stay. -/
theorem process_amplitude {c : Channel} (hkeys : c.settings.keys = defaultSettings.keys)
    {value : Text} {x : Binary64} (hspace : ' ' ∉ value)
    (hvalue : Quantity.parse value = .ok x) :
    ∃ (settings : Settings) (rounded : Decimal) (amplitude effective high low : ℚ),
      c.process (c.address ++ ("BSWV AMP,".toList ++ value)) =
        ({ c with settings }, .ok .silent) ∧
      (Quantity.Spells (settings.value Key.amplitude) amplitude ∧
        Quantity.Spells (settings.value Key.effective) effective ∧
        Quantity.Spells (settings.value Key.high) high ∧
        Quantity.Spells (settings.value Key.low) low) ∧
      Decimal.Rounds significantDigits (max 0.002 (min x.value 20)) rounded ∧
      amplitude = rounded.magnitude ∧ 0.002 ≤ amplitude ∧ amplitude ≤ 20 ∧
      0 < high ∧ low < 0 ∧ high - low = amplitude ∧
      (∃ k : ℤ, 10 ^ (k + 5) ≤ effective ∧ effective < 10 ^ (k + 6) ∧
        |effective - amplitude * 0.3535| ≤ 10 ^ k) ∧
      settings.keys = c.settings.keys ∧
      ∀ key ∉ amplitudeKeys, settings.value key = c.settings.value key := by
  obtain ⟨amplitude, effective, high, low, hrounds, hsign, hlevels,
    ⟨heffective, heffective_sign, hclose⟩, hwrites⟩ := amplitudeWrites_of_parse hvalue
  have hprocess :=
    process_amplitudeWrites c hkeys hspace (Quantity.not_mem_of_parse hvalue) hwrites
  obtain ⟨⟨hvalue_amplitude, hvalue_effective, hvalue_high, hvalue_low⟩, hothers⟩ :=
    values_setAll_amplitude hkeys amplitude.generalText effective.generalText high.generalText
      low.generalText
  obtain ⟨hleast, hgreatest⟩ := bounds_of_rounds hrounds
  have hordinary := ordinary_of_rounds hrounds
  obtain ⟨hhigh_moderate, hlow_moderate⟩ := hlevels.moderate hordinary
  have heffective_moderate := Quantity.moderate_effective hordinary heffective hclose
  refine ⟨_, amplitude, amplitude.value, effective.value, high.value, low.value, hprocess,
    ⟨?_, ?_, ?_, ?_⟩, hrounds, Decimal.value_of_plus hsign, ?_, ?_, ?_, ?_, ?_, ?_, ?_, hothers⟩
  · rw [hvalue_amplitude]
    exact Quantity.spells_generalText hrounds.hasDigits hordinary.moderate
  · rw [hvalue_effective]
    exact Quantity.spells_generalText heffective heffective_moderate
  · rw [hvalue_high]
    exact Quantity.spells_generalText hlevels.high_digits hhigh_moderate
  · rw [hvalue_low]
    exact Quantity.spells_generalText hlevels.low_digits hlow_moderate
  · rwa [Decimal.value_of_plus hsign]
  · rwa [Decimal.value_of_plus hsign]
  · rw [Decimal.value_of_plus hlevels.high_sign]
    exact hlevels.high_digits.magnitude_pos
  · rw [Decimal.value_of_minus hlevels.low_sign]
    exact neg_neg_of_pos hlevels.low_digits.magnitude_pos
  · rw [Decimal.value_of_plus hlevels.high_sign, Decimal.value_of_minus hlevels.low_sign,
      Decimal.value_of_plus hsign, sub_neg_eq_add, ← hlevels.apart]
  · rw [Decimal.value_of_plus heffective_sign, Decimal.value_of_plus hsign]
    obtain ⟨heffective_least, heffective_greatest⟩ :=
      Quantity.magnitude_mem_of_hasDigits heffective
    exact ⟨effective.exponent, heffective_least, heffective_greatest, hclose⟩
  · exact Settings.keys_setAll _ _

/-- An amplitude whose half needs a seventh digit. -/
theorem process_amplitude_odd :
    ∃ (x : Binary64) (settings : Settings) (amplitude high low : ℚ),
      Quantity.parse "3.00001".toList = .ok x ∧
      (Channel.new 1).process "C1:BSWV AMP,3.00001".toList =
        ({ Channel.new 1 with settings }, .ok .silent) ∧
      Quantity.Spells (settings.value Key.amplitude) amplitude ∧
      Quantity.Spells (settings.value Key.high) high ∧
      Quantity.Spells (settings.value Key.low) low ∧ high - low = amplitude := by
  have hvalue : Quantity.parse "3.00001".toList = .ok (Decimal.toBinary64 ⟨false, 300001, -5⟩) :=
    eq_ok_of_toOption (by decide +kernel)
  obtain ⟨settings, -, amplitude, -, high, low, hprocess, ⟨hamplitude, -, hhigh, hlow⟩, -, -, -, -,
    -, -, hdifference, -⟩ := process_amplitude (c := Channel.new 1) rfl (by decide) hvalue
  exact ⟨_, settings, amplitude, high, low, hvalue, hprocess, hamplitude, hhigh, hlow, hdifference⟩

end Channel

end WaveGen
