import Mathlib.Algebra.Order.Archimedean.Basic
import WaveGen.Proofs.Amplitudes
import WaveGen.Proofs.GeneralFormat

/-!
# Quotients (specification §4.1)

A quotient is computed from both operands times `10 ^ 10`. Scaling rounds, and so do the division
and the display, but all of this together moves the result by less than one unit of its sixth digit.
Neither does scaling lose digits of very small operands, as these are whole units. At the other end
it overflows: from about `1.8e298` on a scaled operand is infinite. Then the quotient is displayed
as `inf`, as `nan` or as zero, even if the operands and their quotient are ordinary doubles.

* `Binary64.Scalable` — operands that are finite after scaling, and what scaling makes of all others.
* `Quantity.Faithful` — texts that are close enough to a quotient.
* `Quantity.divide_faithful_iff` — quotients are faithful for operands that can be scaled, and for no
  others; so is the period that follows from a frequency.
-/

namespace WaveGen

namespace Binary64

open Quantity (quotientScale)

variable {n m : Bool} {a b : Fin finiteRanks}

/-! ## Overflow -/

/-- The least magnitude that is rounded to infinity, in units: the middle between the greatest double
and the power of two above it. -/
def overflowUnits : ℕ := (2 ^ 54 - 1) * Nat.pow 2 2044

/-- Whole units below the middle are rounded to a finite double. -/
theorem nearestRank_lt_iff_of_whole {num den k : ℕ} (hden : 0 < den) (h : (num / den : ℚ) = k) :
    nearestRank num den < finiteRanks ↔ k < overflowUnits := by
  have hfits : nearestRank (overflowUnits - 1) 1 < finiteRanks := by decide +kernel
  have hlarge : finiteRanks ≤ nearestRank overflowUnits 1 := by decide +kernel
  constructor
  · intro hrank
    by_contra! hk
    refine absurd hrank (not_lt.mpr (hlarge.trans (nearestRank_mono one_pos hden ?_)))
    rw [h, Nat.cast_one, div_one, Nat.cast_le]
    exact hk
  · intro hk
    refine (nearestRank_mono hden one_pos ?_).trans_lt hfits
    rw [h, Nat.cast_one, div_one, Nat.cast_le]
    exact Nat.le_sub_one_of_lt hk

theorem overflow_mul_units : (2 ^ 1024 - 2 ^ 970 : ℚ) * unitsPerOne = overflowUnits := by
  -- the exponents become variables, so that no power is computed
  obtain ⟨k, hk⟩ : ∃ k : ℕ, k = 970 := ⟨_, rfl⟩
  obtain ⟨l, hl⟩ : ∃ l : ℕ, l = 1074 := ⟨_, rfl⟩
  have htop : 1024 = k + 54 := by omega
  have hsum : 2044 = k + l := by omega
  unfold overflowUnits
  rw [unitsPerOne_eq (by omega : l + 0 = 1074), htop, hsum, ← hk, Nat.pow_eq]
  push_cast
  ring

/-! ## Scaling -/

/-- The number, times `10 ^ 10`, is rounded to a finite double. -/
def Scalable (x : Binary64) : Prop := |x.value| * 10 ^ 10 < 2 ^ 1024 - 2 ^ 970

theorem scalable_iff : Scalable (.finite n a) ↔ rankUnits a * 10 ^ 10 < overflowUnits := by
  rw [Scalable, abs_value, ← mul_lt_mul_iff_of_pos_right unitsPerOne_cast_pos, overflow_mul_units,
    mul_right_comm, ← rankUnits_eq]
  exact_mod_cast Iff.rfl

/-- Scaling multiplies the units by `10 ^ 10` and rounds once. -/
theorem mul_quotientScale (n : Bool) (a : Fin finiteRanks) :
    (finite n a).mul quotientScale =
      ofUnits n (rankUnits a * 10 ^ 10 * unitsPerOne) unitsPerOne := by
  obtain ⟨scale, hscale, hunits⟩ : ∃ scale : Fin finiteRanks,
      quotientScale = .finite false scale ∧ rankUnits scale = 10 ^ 10 * unitsPerOne :=
    ⟨⟨0x4202A05F20000000, by decide⟩, by decide +kernel, by decide +kernel⟩
  rw [hscale, mul_finite, hunits, Bool.bne_false, ← mul_assoc]

/-- A scaled operand is a whole number of units before it is rounded. -/
theorem scaled_ratio (units : ℕ) : ((units * unitsPerOne : ℕ) / unitsPerOne : ℚ) = units := by
  rw [Nat.cast_mul, mul_div_cancel_right₀ _ unitsPerOne_cast_pos.ne']

/-- **Scaling** is off by one part in `10 ^ 15` at most, unless it overflows. -/
theorem Scalable.approximates (h : Scalable (.finite n a)) :
    ((finite n a).mul quotientScale).Approximates 1 n (rankMagnitude a * 10 ^ 10) := by
  have hratio := scaled_ratio (rankUnits a * 10 ^ 10)
  have hfits := (nearestRank_lt_iff_of_whole unitsPerOne_pos hratio).mpr (scalable_iff.mp h)
  rw [mul_quotientScale]
  refine ⟨_, ofUnits_of_lt n hfits, near_nearestRank ?_ ?_⟩
  · rw [hratio, Nat.cast_mul, rankUnits_eq, mul_right_comm, Nat.cast_pow, Nat.cast_ofNat]
  · have hround := abs_rankUnits_nearestRank_sub_le_of_whole unitsPerOne_pos hratio
    rw [hratio]
    exact hround.trans
      (div_le_div_of_nonneg_left (Nat.cast_nonneg _) (by norm_num) (by norm_num))

theorem mul_of_not_scalable (h : ¬ Scalable (.finite n a)) :
    (finite n a).mul quotientScale = .infinite n := by
  have hratio := scaled_ratio (rankUnits a * 10 ^ 10)
  rw [mul_quotientScale]
  exact ofUnits_of_le n (not_lt.mp (mt (nearestRank_lt_iff_of_whole unitsPerOne_pos hratio).mp
    (mt scalable_iff.mpr h)))

/-- Another number than zero is not scaled to zero. -/
theorem Scalable.exists_rank (h : Scalable (.finite n a)) (ha : a.val ≠ 0) :
    ∃ rank, (finite n a).mul quotientScale = .finite n rank ∧ rank.val ≠ 0 := by
  obtain ⟨rank, hscaled, hnear⟩ := h.approximates
  have hpos := rankMagnitude_pos ha
  exact ⟨rank, hscaled, Approximates.rank_ne_zero hnear (by positivity) (by norm_num)⟩

theorem ofUnits_zero (n : Bool) (den : ℕ) : ofUnits n 0 den = .finite n ⟨0, finiteRanks_pos⟩ := by
  have hzero : nearestRank 0 den = 0 := by
    simpa [nearestRank, roundDiv] using Eq.symm
  have hfits : nearestRank 0 den < finiteRanks := hzero.trans_lt finiteRanks_pos
  simp only [ofUnits_of_lt n hfits, hzero]

/-- Zero is scaled to zero. -/
theorem mul_quotientScale_zero (n : Bool) :
    (finite n ⟨0, finiteRanks_pos⟩).mul quotientScale = .finite n ⟨0, finiteRanks_pos⟩ := by
  have hzero : rankUnits 0 = 0 := by decide
  rw [mul_quotientScale, hzero, Nat.zero_mul, Nat.zero_mul, ofUnits_zero]

theorem value_div (n m : Bool) (a b : Fin finiteRanks) :
    (finite n a).value / (finite m b).value =
      if n != m then -(rankMagnitude a / rankMagnitude b)
      else rankMagnitude a / rankMagnitude b := by
  cases n <;> cases m <;> simp [value, neg_div, div_neg]

end Binary64

namespace Quantity

open Binary64

/-! ## Faithful texts -/

/-- The text is a number in canonical form that is off `q` by one unit of the sixth digit of `q` at
most. -/
def Faithful (t : Text) (q : ℚ) : Prop :=
  ∃ v, Canonical t v ∧ (q = 0 → v = 0) ∧
    ∀ j : ℤ, 10 ^ (j + 5) ≤ |q| → |q| < 10 ^ (j + 6) → |v - q| ≤ 10 ^ j

variable {t : Text} {q : ℚ}

theorem faithful_zero : Faithful "0".toList 0 := by
  refine ⟨0, .zero, fun _ => rfl, fun j hleast _ => ?_⟩
  rw [abs_zero] at hleast
  exact absurd hleast (not_le.mpr (by positivity))

/-- Zero is far off every other number. -/
theorem not_faithful_zero (hq : q ≠ 0) : ¬ Faithful "0".toList q := by
  rintro ⟨v, hcanonical, -, hclose⟩
  obtain ⟨j, hleast, hlt⟩ := exists_mem_Ico_zpow (abs_pos.mpr hq) (by norm_num : (1 : ℚ) < 10)
  have hunit := hclose (j - 5) (by rwa [sub_add_cancel]) (hlt.trans_eq (by ring_nf))
  rw [hcanonical.eq_zero, zero_sub, abs_neg] at hunit
  have hsmall : (10 : ℚ) ^ (j - 5) < 10 ^ j := zpow_lt_zpow_right₀ (by norm_num) (by omega)
  linarith

/-- A text with another character is no number. -/
theorem not_faithful_of_mem {c : Char} (hc : ¬ Decimal.IsSpelling c) (hmem : c ∈ t) :
    ¬ Faithful t q := by
  rintro ⟨v, hcanonical, -⟩
  exact hc (hcanonical.isSpelling c hmem)

/-- **Approximations are displayed faithfully.** -/
theorem faithful_display {x : Binary64} {k : ℕ} {s : Bool} {v : ℚ} (h : x.Approximates k s v)
    (hv : 0 < v) (hk : k ≤ 1000) : Faithful (display x) (if s then -v else v) := by
  obtain ⟨rank, rfl, hnear⟩ := h
  have hrank := Approximates.rank_ne_zero hnear hv hk
  have habs : |if s then -v else v| = v := by
    cases s with
    | false => exact abs_of_pos hv
    | true => exact (abs_neg v).trans (abs_of_pos hv)
  refine ⟨(shown (.finite s rank)).value, ?_, fun hzero => ?_, fun j hleast hlt => ?_⟩
  · rw [display, toText_finite hrank]
    exact canonical_generalText (rounds_shown s hrank).hasDigits
  · rw [hzero, abs_zero] at habs
    exact absurd habs hv.ne
  · rw [habs] at hleast hlt
    have hclose := @abs_shown_sub_le _ _ s _ _ hnear hk hleast hlt
    rw [Decimal.value, negative_shown hrank]
    cases s with
    | false => exact hclose
    | true =>
      show |-(shown (.finite true rank)).magnitude - -v| ≤ 10 ^ j
      rwa [neg_sub_neg, abs_sub_comm]

/-! ## Quotients -/

variable {n m : Bool} {a b : Fin finiteRanks}

theorem quotient_finite (n m : Bool) (a : Fin finiteRanks) (hb : b.val ≠ 0) :
    quotient (.finite n a) (.finite m b) =
      ((finite n a).mul quotientScale).div ((finite m b).mul quotientScale) := by
  have hzero : ¬ (finite m b).isZero = true := fun h => hb (beq_iff_eq.mp h)
  rw [quotient, if_neg hzero]

/-- Operands that can be scaled have a faithful quotient. -/
theorem faithful_quotient (hb : b.val ≠ 0) (hx : Scalable (.finite n a))
    (hy : Scalable (.finite m b))
    (hleast : 10 ^ (-300 : ℤ) ≤ |(finite n a).value / (finite m b).value|)
    (hgreatest : |(finite n a).value / (finite m b).value| ≤ 10 ^ (300 : ℤ)) :
    Faithful (display (quotient (.finite n a) (.finite m b)))
      ((finite n a).value / (finite m b).value) := by
  have hb_pos := rankMagnitude_pos hb
  rw [abs_div, abs_value, abs_value] at hleast hgreatest
  have hmoderate : Moderate (rankMagnitude a / rankMagnitude b) := .of_zpow
    ((zpow_le_zpow_right₀ (by norm_num) (by norm_num)).trans hleast)
    (hgreatest.trans (zpow_le_zpow_right₀ (by norm_num) (by norm_num)))
  have hcancel : rankMagnitude a * 10 ^ 10 / (rankMagnitude b * 10 ^ 10) =
      rankMagnitude a / rankMagnitude b := mul_div_mul_right _ _ (by norm_num)
  have hquotient := hx.approximates.div hy.approximates
    (mul_nonneg (rankMagnitude_nonneg a) (by norm_num)) (by positivity) (hcancel ▸ hmoderate)
    (by norm_num) (by norm_num)
  rw [hcancel, ← quotient_finite n m a hb] at hquotient
  rw [value_div]
  exact faithful_display hquotient hmoderate.pos (by norm_num)

/-- An infinite denominator leaves nothing. -/
theorem display_div_infinite (s : Bool) {x : Binary64} (hx : x.isFinite = true) :
    display (x.div (.infinite s)) = "0".toList := by
  cases x with
  | finite n a => rfl
  | infinite n => cases hx
  | nan => cases hx

/-- Zero divided by another number is zero, whether the other number can be scaled or not. -/
theorem display_quotient_zero (n m : Bool) (hb : b.val ≠ 0) :
    display (quotient (.finite n ⟨0, finiteRanks_pos⟩) (.finite m b)) = "0".toList := by
  rw [quotient_finite n m _ hb, mul_quotientScale_zero]
  by_cases hy : Scalable (.finite m b)
  · obtain ⟨rank, hscaled, hrank⟩ := hy.exists_rank hb
    have hzero : rankUnits 0 = 0 := by decide
    rw [hscaled, div_finite _ _ _ hrank, hzero, Nat.zero_mul, ofUnits_zero]
    rfl
  · rw [mul_of_not_scalable hy]
    exact display_div_infinite m rfl

/-- Without scaling both operands to finite doubles no quotient but zero is faithful. -/
theorem not_faithful_quotient (hb : b.val ≠ 0) (hq : q ≠ 0)
    (h : ¬ (Scalable (.finite n a) ∧ Scalable (.finite m b))) :
    ¬ Faithful (display (quotient (.finite n a) (.finite m b))) q := by
  rw [quotient_finite n m a hb]
  by_cases hx : Scalable (.finite n a)
  · have hy : ¬ Scalable (.finite m b) := fun hy => h ⟨hx, hy⟩
    rw [mul_of_not_scalable hy, display_div_infinite m hx.approximates.isFinite]
    exact not_faithful_zero hq
  · -- all the names of doubles that are not finite hold this letter
    refine not_faithful_of_mem (by decide : ¬ Decimal.IsSpelling 'n') ?_
    rw [mul_of_not_scalable hx]
    by_cases hy : Scalable (.finite m b)
    · obtain ⟨rank, hscaled, -⟩ := hy.exists_rank hb
      rw [hscaled]
      show 'n' ∈ display (.infinite (n != m))
      cases n <;> cases m <;> decide
    · rw [mul_of_not_scalable hy]
      show 'n' ∈ display .nan
      decide

/-- **Which quotients are faithful**: those of operands that can be scaled, and zero. -/
theorem faithful_quotient_iff {x y : Binary64} (hx : x.isFinite = true) (hy : y.isFinite = true)
    (hnonzero : y.value ≠ 0) (hrange : x.value / y.value = 0 ∨
      10 ^ (-300 : ℤ) ≤ |x.value / y.value| ∧ |x.value / y.value| ≤ 10 ^ (300 : ℤ)) :
    Faithful (display (quotient x y)) (x.value / y.value) ↔
      x.value = 0 ∨ Scalable x ∧ Scalable y := by
  cases x with
  | infinite n => cases hx
  | nan => cases hx
  | finite n a =>
    cases y with
    | infinite m => cases hy
    | nan => cases hy
    | finite m b =>
      have hb : b.val ≠ 0 := mt value_eq_zero_iff.mpr hnonzero
      by_cases hzero : (finite n a).value = 0
      · have ha : a = ⟨0, finiteRanks_pos⟩ := Fin.ext (value_eq_zero_iff.mp hzero)
        rw [hzero, zero_div, ha, display_quotient_zero n m hb]
        exact iff_of_true faithful_zero (.inl rfl)
      · have hq := div_ne_zero hzero hnonzero
        obtain ⟨hleast, hgreatest⟩ := hrange.resolve_left hq
        rw [or_iff_right hzero]
        constructor
        · intro hfaithful
          by_contra hscale
          exact not_faithful_quotient hb hq hscale hfaithful
        · rintro ⟨hscale_x, hscale_y⟩
          exact faithful_quotient hb hscale_x hscale_y hleast hgreatest

/-! ## Constants -/

/-- A whole number of units of one. -/
theorem value_of_units {rank : Fin finiteRanks} {k : ℕ} (h : rankUnits rank = k * unitsPerOne) :
    (finite false rank).value = k := by
  rw [value_false, rankMagnitude, h, Nat.cast_mul, mul_div_cancel_right₀ _ unitsPerOne_cast_pos.ne']

/-- The numerator of a period. -/
def one : Binary64 := .finite false ⟨0x3FF0000000000000, by decide +kernel⟩

theorem parse_one : parse ['1'] = .ok one ∧ one.value = 1 ∧ Scalable one := by
  refine ⟨eq_ok_of_toOption (by decide +kernel), ?_, scalable_iff.mpr (by decide +kernel)⟩
  rw [one, value_of_units (by decide +kernel : _ = 1 * unitsPerOne), Nat.cast_one]

end Quantity

namespace Channel

/-- **A new frequency.** A command with a text that can be read succeeds, and stores the number and
its reciprocal. -/
theorem process_frequency {c : Channel} (hkeys : c.settings.keys = defaultSettings.keys)
    {value : Text} {y : Binary64} (hspace : ' ' ∉ value) (hvalue : Quantity.parse value = .ok y) :
    ∃ settings : Settings,
      c.process (c.address ++ ("BSWV FRQ,".toList ++ value)) =
        ({ c with settings }, .ok .silent) ∧
      settings.value Key.frequency = Quantity.display y ∧
      settings.value Key.period = Quantity.display (Quantity.quotient Quantity.one y) := by
  have hwrites : frequencyWrites value = .ok [(Key.frequency, Quantity.display y),
      (Key.period, Quantity.display (Quantity.quotient Quantity.one y))] :=
    bind_eq_ok_iff.mpr ⟨y, hvalue, bind_eq_ok_iff.mpr
      ⟨_, Quantity.divide_eq_ok_iff.mpr ⟨_, y, Quantity.parse_one.1, hvalue, rfl⟩, rfl⟩⟩
  have hcontains : ∀ key ∈ [Key.frequency, Key.period], c.settings.contains key = true := by
    intro key hkey
    rw [Settings.contains_iff_mem_keys, hkeys]
    revert key
    decide
  have hwave : ∀ command, waveWrites c.settings command Key.frequency (some value) =
      .ok [(Key.frequency, Quantity.display y),
        (Key.period, Quantity.display (Quantity.quotient Quantity.one y))] := by
    intro command
    rw [waveWrites, if_pos (hcontains _ (.head _))]
    show (if Key.frequency = Key.frequency then
      CommandFault.ofQuantity (frequencyWrites value) else _) = _
    rw [if_pos rfl, hwrites]
    rfl
  have hkey : ',' ∉ Key.frequency ∧ ' ' ∉ Key.frequency := by decide
  have hnodup : [Key.frequency, Key.period].Nodup := by decide
  refine ⟨_, process_waveWrites c hkey ⟨Quantity.not_mem_of_parse hvalue, hspace⟩ hwave, ?_, ?_⟩
  · refine Settings.value_setAll_of_mem ?_ (.head _) (hcontains _ (.head _))
    exact hnodup
  · refine Settings.value_setAll_of_mem ?_ (.tail _ (.head _)) (hcontains _ (.tail _ (.head _)))
    exact hnodup

end Channel

namespace Quantity

open Binary64

/-- The reciprocals of numbers that are neither too small nor too large are such numbers. -/
theorem abs_one_div_mem {v : ℚ} (hleast : 10 ^ (-300 : ℤ) ≤ |v|) (hgreatest : |v| ≤ 10 ^ (300 : ℤ)) :
    10 ^ (-300 : ℤ) ≤ |1 / v| ∧ |1 / v| ≤ 10 ^ (300 : ℤ) := by
  have hpos : 0 < |v| := lt_of_lt_of_le (by positivity) hleast
  rw [zpow_neg] at hleast ⊢
  rw [abs_div, abs_one, one_div]
  exact ⟨inv_anti₀ hpos hgreatest, inv_le_of_inv_le₀ (by positivity) hleast⟩

/-- **Quotients and periods.** Two texts that can be read have a quotient, unless the second one is
zero. If the exact quotient is zero or neither too small nor too large, the text is faithful to it
exactly when the numerator is zero or both operands can be scaled. So is the period of a new
frequency, exactly when the frequency can be scaled. -/
theorem divide_faithful_iff (n d v : Text) (x y z : Binary64) (c : Channel) :
    (parse n = .ok x → parse d = .ok y → y.value ≠ 0 →
      (x.value / y.value = 0 ∨
        10 ^ (-300 : ℤ) ≤ |x.value / y.value| ∧ |x.value / y.value| ≤ 10 ^ (300 : ℤ)) →
      ∃ t, divide n d = .ok t ∧
        (Faithful t (x.value / y.value) ↔ x.value = 0 ∨ Scalable x ∧ Scalable y)) ∧
    (c.settings.keys = Channel.defaultSettings.keys → ' ' ∉ v → parse v = .ok z →
      10 ^ (-300 : ℤ) ≤ |z.value| → |z.value| ≤ 10 ^ (300 : ℤ) →
      ∃ settings, c.process (c.address ++ ("BSWV FRQ,".toList ++ v)) =
          ({ c with settings }, .ok .silent) ∧
        (Faithful (settings.value Channel.Key.period) (1 / z.value) ↔ Scalable z)) := by
  constructor
  · intro hx hy hnonzero hrange
    exact ⟨_, divide_eq_ok_iff.mpr ⟨x, y, hx, hy, rfl⟩,
      faithful_quotient_iff (isFinite_of_parse hx) (isFinite_of_parse hy) hnonzero hrange⟩
  · intro hkeys hspace hz hleast hgreatest
    obtain ⟨hone, hvalue, hscale⟩ := parse_one
    obtain ⟨settings, hprocess, -, hperiod⟩ := Channel.process_frequency hkeys hspace hz
    have hpos : 0 < |z.value| := lt_of_lt_of_le (by positivity) hleast
    have hiff := faithful_quotient_iff (isFinite_of_parse hone) (isFinite_of_parse hz)
      (abs_pos.mp hpos) (.inr (hvalue ▸ abs_one_div_mem hleast hgreatest))
    rw [hvalue] at hiff
    refine ⟨settings, hprocess, ?_⟩
    rw [hperiod, hiff, or_iff_right one_ne_zero, and_iff_right hscale]

/-- A third, which no text of six digits is, and the period of three hertz. -/
theorem divide_faithful_third :
    ∃ (t : Text) (settings : Settings), divide "1".toList "3".toList = .ok t ∧
      Faithful t (1 / 3) ∧
      (Channel.new 1).process "C1:BSWV FRQ,3".toList =
        ({ Channel.new 1 with settings }, .ok .silent) ∧
      Faithful (settings.value Channel.Key.period) (1 / 3) := by
  obtain ⟨hx, hone, hscale⟩ := parse_one
  have hy : parse "3".toList = .ok (.finite false ⟨0x4008000000000000, by decide⟩) :=
    eq_ok_of_toOption (by decide +kernel)
  have hthree : (finite false ⟨0x4008000000000000, by decide⟩).value = 3 := by
    rw [value_of_units (by decide +kernel : _ = 3 * unitsPerOne), Nat.cast_ofNat]
  have hscale_three : Scalable (.finite false ⟨0x4008000000000000, by decide⟩) :=
    scalable_iff.mpr (by decide +kernel)
  generalize finite false ⟨0x4008000000000000, by decide⟩ = y at hy hthree hscale_three
  have hleast : 10 ^ (-300 : ℤ) ≤ |y.value| := by
    rw [hthree]
    exact (zpow_le_zpow_right₀ (by norm_num) (by norm_num : (-300 : ℤ) ≤ 0)).trans (by norm_num)
  have hgreatest : |y.value| ≤ 10 ^ (300 : ℤ) := by
    rw [hthree]
    exact le_trans (by norm_num) (zpow_le_zpow_right₀ (by norm_num) (by norm_num : (1 : ℤ) ≤ 300))
  obtain ⟨hquotient, hfrequency⟩ :=
    divide_faithful_iff "1".toList "3".toList "3".toList one y y (Channel.new 1)
  obtain ⟨t, hdivide, hfaithful⟩ := hquotient hx hy (by rw [hthree]; norm_num)
    (.inr (hone ▸ abs_one_div_mem hleast hgreatest))
  obtain ⟨settings, hprocess, hperiod⟩ := hfrequency rfl (by decide) hy hleast hgreatest
  rw [hone, hthree] at hfaithful
  rw [hthree] at hperiod
  exact ⟨t, settings, hdivide, hfaithful.mpr (.inr ⟨hscale, hscale_three⟩), hprocess,
    hperiod.mpr hscale_three⟩

/-- From about `1.8e298` on scaling overflows. A number divided by one is displayed as infinite then,
and the period of such a frequency is stored as zero. -/
theorem divide_not_faithful :
    ∃ x y : Binary64, parse "1e299".toList = .ok x ∧ parse "1".toList = .ok y ∧ y.value ≠ 0 ∧
      10 ^ (-300 : ℤ) ≤ |x.value / y.value| ∧ |x.value / y.value| ≤ 10 ^ (300 : ℤ) ∧
      divide "1e299".toList "1".toList = .ok "inf".toList ∧
      ¬ Faithful "inf".toList (x.value / y.value) ∧
      ((Channel.new 1).process "C1:BSWV FRQ,1e299".toList).1.settings.value Channel.Key.period =
        "0".toList ∧
      ¬ Faithful "0".toList (y.value / x.value) := by
  obtain ⟨hy, hone, -⟩ := parse_one
  have hreads : Reads "1e299".toList ⟨false, 1, 299⟩ := by decide
  have hmagnitude : Decimal.magnitude ⟨false, 1, 299⟩ = 10 ^ (299 : ℤ) := by
    rw [Decimal.magnitude, Nat.cast_one, one_mul]
  have hmoderate : Moderate (10 ^ (299 : ℤ)) := .of_zpow
    (zpow_le_zpow_right₀ (by norm_num) (by norm_num)) (zpow_le_zpow_right₀ (by norm_num) (by norm_num))
  obtain ⟨x, hx, happroximates⟩ := hreads.exists_parse (hmagnitude ▸ hmoderate)
  rw [hmagnitude] at happroximates
  obtain ⟨hlower, hupper⟩ := happroximates.value_near.bounds hmoderate.pos.le (by norm_num)
  have hpos : 0 < x.value := lt_of_lt_of_le (half_pos hmoderate.pos) hlower
  have hleast : 10 ^ (-300 : ℤ) ≤ x.value := by
    refine le_trans ?_ hlower
    rw [le_div_iff₀ (by norm_num)]
    calc (10 : ℚ) ^ (-300 : ℤ) * 2 ≤ 10 ^ (-300 : ℤ) * 10 ^ (1 : ℤ) := by gcongr; norm_num
      _ = 10 ^ (-299 : ℤ) := by rw [← zpow_add₀ (by norm_num)]; norm_num
      _ ≤ 10 ^ (299 : ℤ) := zpow_le_zpow_right₀ (by norm_num) (by norm_num)
  have hgreatest : x.value ≤ 10 ^ (300 : ℤ) := by
    calc x.value ≤ 2 * 10 ^ (299 : ℤ) := hupper
      _ ≤ 10 ^ (1 : ℤ) * 10 ^ (299 : ℤ) := by gcongr; norm_num
      _ = 10 ^ (300 : ℤ) := by rw [← zpow_add₀ (by norm_num)]; norm_num
  rw [← div_one x.value, ← hone] at hleast hgreatest
  have hquotient : 0 < x.value / one.value := by rwa [hone, div_one]
  refine ⟨x, one, hx, hy, hone ▸ one_ne_zero, ?_, ?_, eq_ok_of_toOption (by decide +kernel), ?_,
    by decide +kernel, ?_⟩
  · rwa [abs_of_pos hquotient]
  · rwa [abs_of_pos hquotient]
  · exact not_faithful_of_mem (by decide : ¬ Decimal.IsSpelling 'n') (by decide)
  · exact not_faithful_zero (div_ne_zero (hone ▸ one_ne_zero) hpos.ne')

end Quantity

end WaveGen
