import WaveGen.Proofs.QuantityOrder
import WaveGen.Proofs.RelativeErrors

/-!
# Numbers of six digits

The numbers with a fixed count of digits lie on a grid that is coarser by ten from each power of ten
on. A double is displayed as the grid point nearest to it. The errors of a few operations are far
below the step of the grid, so a result that should be a grid point is displayed as that point.

* `Decimal.HasDigits` — the grid, and the gaps between its points.
* `Decimal.Rounds` — the nearest point, the even one of two; `Decimal.rounds_nearest` says that
  `Decimal.nearest` finds it.
* `Binary64.Approximates.display_eq` — an approximation of a point is displayed as the point.
* `Binary64.Approximates.exists_display` — how far off any other approximation is displayed.
* `Quantity.parse_generalText` — a printed point is read as an approximation of it.
-/

namespace WaveGen

/-! ## Whole numbers -/

/-- At most one whole number is nearer than a half. -/
theorem half_le_abs_sub {k l : ℕ} {v : ℚ} (hne : k ≠ l) (hl : |(l : ℚ) - v| ≤ 1 / 2) :
    1 / 2 ≤ |(k : ℚ) - v| := by
  obtain ⟨hlower, hupper⟩ := abs_le.mp hl
  rcases hne.lt_or_gt with hlt | hgt
  · have hstep : (k : ℚ) + 1 ≤ l := by exact_mod_cast hlt
    exact le_abs.mpr (.inr (by linarith))
  · have hstep : (l : ℚ) + 1 ≤ k := by exact_mod_cast hgt
    exact le_abs.mpr (.inl (by linarith))

/-- No whole number is nearer than the rounded quotient. -/
theorem abs_roundDiv_sub_le_abs_sub (num : ℕ) {den : ℕ} (hden : 0 < den) (k : ℕ) :
    |(roundDiv num den : ℚ) - num / den| ≤ |(k : ℚ) - num / den| := by
  rcases eq_or_ne k (roundDiv num den) with rfl | hne
  · exact le_rfl
  · have hhalf := abs_roundDiv_sub_le num hden
    exact hhalf.trans (half_le_abs_sub hne hhalf)

/-- If another whole number is as near, the rounded quotient is even. -/
theorem roundDiv_even_of_tie {num den k : ℕ} (hden : 0 < den) (hne : k ≠ roundDiv num den)
    (h : |(k : ℚ) - num / den| = |(roundDiv num den : ℚ) - num / den|) :
    roundDiv num den % 2 = 0 := by
  have hhalf := abs_roundDiv_sub_le num hden
  have htie : |(roundDiv num den : ℚ) - num / den| = 1 / 2 :=
    le_antisymm hhalf (h ▸ half_le_abs_sub hne hhalf)
  rcases abs_eq (by norm_num) |>.mp htie with habove | hbelow
  · -- the quotient was rounded up, so the number below is odd
    by_contra hodd
    have hpos : 1 ≤ roundDiv num den := by omega
    have hdown : roundDiv num den ≤ roundDiv num den - 1 := by
      refine (roundDiv_le_iff hden).mpr (.inr ⟨?_, by omega⟩)
      rw [Nat.cast_sub hpos]
      push_cast
      linarith
    omega
  · rcases (@roundDiv_le_iff num den _ hden).mp le_rfl with hless | ⟨-, heven⟩
    · linarith
    · exact heven

namespace Decimal

/-! ## The grid -/

/-- The significand has exactly so many digits. -/
def HasDigits (digits : ℕ) (d : Decimal) : Prop :=
  10 ^ (digits - 1) ≤ d.significand ∧ d.significand < 10 ^ digits

/-- A number is a whole multiple of every power of ten up to that of its last digit. -/
theorem magnitude_eq_mul_zpow {d : Decimal} {e : ℤ} (h : e ≤ d.exponent) :
    d.magnitude = (d.significand * 10 ^ (d.exponent - e).toNat : ℕ) * 10 ^ e := by
  have hpower : d.exponent = (d.exponent - e).toNat + e := by omega
  rw [magnitude, hpower, zpow_add₀ (by norm_num), zpow_natCast, ← hpower]
  push_cast
  ring

namespace HasDigits

variable {digits : ℕ} {d e : Decimal} {v : ℚ}

theorem digits_pos (h : d.HasDigits digits) : 0 < digits := by
  by_contra hzero
  obtain ⟨hleast, hlt⟩ := h
  rw [Nat.eq_zero_of_not_pos hzero] at hleast hlt
  omega

theorem significand_pos (h : d.HasDigits digits) : 0 < d.significand :=
  lt_of_lt_of_le (by positivity) h.1

theorem digitCount_significand (h : d.HasDigits digits) : digitCount d.significand = digits :=
  digitCount_eq h.digits_pos h.1 h.2

theorem magnitude_pos (h : d.HasDigits digits) : 0 < d.magnitude := by
  have hcast : (0 : ℚ) < d.significand := by exact_mod_cast h.significand_pos
  unfold magnitude
  positivity

theorem le_magnitude (h : d.HasDigits digits) :
    10 ^ (digits - 1) * 10 ^ d.exponent ≤ d.magnitude := by
  have hleast : (10 : ℚ) ^ (digits - 1) ≤ d.significand := by exact_mod_cast h.1
  unfold magnitude
  gcongr

theorem magnitude_le (h : d.HasDigits digits) :
    d.magnitude ≤ (10 ^ digits - 1) * 10 ^ d.exponent := by
  have hlt : (d.significand : ℚ) + 1 ≤ 10 ^ digits := by exact_mod_cast h.2
  unfold magnitude
  gcongr
  linarith

/-- A larger point is not on a finer part of the grid. -/
theorem exponent_le (hd : d.HasDigits digits) (he : e.HasDigits digits)
    (h : d.magnitude ≤ e.magnitude) : d.exponent ≤ e.exponent := by
  have htop := (top_le_of_magnitude_le hd.significand_pos h).2
  rw [top, top, hd.digitCount_significand, he.digitCount_significand] at htop
  omega

/-- A point of the grid is written in one way. -/
theorem ext (hd : d.HasDigits digits) (he : e.HasDigits digits) (hsign : d.negative = e.negative)
    (h : d.magnitude = e.magnitude) : d = e := by
  have hexponent : d.exponent = e.exponent :=
    le_antisymm (hd.exponent_le he h.le) (he.exponent_le hd h.ge)
  have hsignificand : d.significand = e.significand := by
    rw [magnitude, magnitude, hexponent] at h
    exact_mod_cast mul_right_cancel₀ (by positivity) h
  cases d
  cases e
  simp_all

/-- The next point of the grid is a step above. -/
theorem add_step_le (hd : d.HasDigits digits) (he : e.HasDigits digits)
    (h : d.magnitude < e.magnitude) : d.magnitude + 10 ^ d.exponent ≤ e.magnitude := by
  have hmultiple := magnitude_eq_mul_zpow (hd.exponent_le he h.le)
  generalize e.significand * 10 ^ (e.exponent - d.exponent).toNat = k at hmultiple
  rw [hmultiple, magnitude] at h ⊢
  have hlt : d.significand < k := by
    have := lt_of_mul_lt_mul_right h (by positivity)
    exact_mod_cast this
  have hle : (d.significand : ℚ) + 1 ≤ k := by exact_mod_cast hlt
  calc d.significand * 10 ^ d.exponent + 10 ^ d.exponent
      = ((d.significand : ℚ) + 1) * 10 ^ d.exponent := by ring
    _ ≤ k * 10 ^ d.exponent := by gcongr

/-- Any other point is away by a step of the next finer part of the grid, at least. -/
theorem step_le_abs_sub (hd : d.HasDigits digits) (he : e.HasDigits digits)
    (h : e.magnitude ≠ d.magnitude) : 10 ^ (d.exponent - 1) ≤ |e.magnitude - d.magnitude| := by
  have hfiner : (10 : ℚ) ^ (d.exponent - 1) ≤ 10 ^ d.exponent :=
    zpow_le_zpow_right₀ (by norm_num) (by omega)
  rcases h.lt_or_gt with hbelow | habove
  · rw [abs_sub_comm, abs_of_pos (sub_pos.mpr hbelow)]
    rcases (he.exponent_le hd hbelow.le).lt_or_eq with hlt | heq
    · -- below a power of ten the grid is finer
      have hnines : (0 : ℚ) ≤ 10 ^ digits - 1 := by
        have : (1 : ℚ) ≤ 10 ^ digits := one_le_pow₀ (by norm_num)
        linarith
      have hpower : (10 : ℚ) ^ digits * 10 ^ (d.exponent - 1) =
          10 ^ (digits - 1) * 10 ^ d.exponent := by
        rw [← zpow_natCast, ← zpow_natCast, ← zpow_add₀ (by norm_num), ← zpow_add₀ (by norm_num)]
        have := hd.digits_pos
        congr 1
        omega
      have htop : e.magnitude ≤ (10 ^ digits - 1) * 10 ^ (d.exponent - 1) :=
        he.magnitude_le.trans
          (mul_le_mul_of_nonneg_left (zpow_le_zpow_right₀ (by norm_num) (by omega)) hnines)
      have := hd.le_magnitude
      linarith
    · have := he.add_step_le hd hbelow
      rw [heq] at this
      linarith
  · rw [abs_of_pos (sub_pos.mpr habove)]
    have := hd.add_step_le he habove
    linarith

/-- A point that is off by less than half of the finer step is the nearest one. -/
theorem abs_sub_lt_abs_sub (hd : d.HasDigits digits) (he : e.HasDigits digits)
    (h : |d.magnitude - v| < 10 ^ (d.exponent - 1) / 2) (hne : e.magnitude ≠ d.magnitude) :
    |d.magnitude - v| < |e.magnitude - v| := by
  have hstep := hd.step_le_abs_sub he hne
  have htriangle := abs_sub_le e.magnitude v d.magnitude
  rw [abs_sub_comm v] at htriangle
  linarith

end HasDigits

/-! ## Rounding to the grid -/

/-- The number is `v`, rounded to so many digits: no point of the grid is nearer, and a tie goes to
the even one. -/
structure Rounds (digits : ℕ) (v : ℚ) (d : Decimal) : Prop where
  hasDigits : d.HasDigits digits
  nearest : ∀ e : Decimal, e.HasDigits digits → |d.magnitude - v| ≤ |e.magnitude - v|
  even : ∀ e : Decimal, e.HasDigits digits → e.magnitude ≠ d.magnitude →
    |e.magnitude - v| = |d.magnitude - v| → d.significand % 2 = 0

variable {digits : ℕ} {d e : Decimal} {v : ℚ}

theorem Rounds.of_close (hd : d.HasDigits digits)
    (h : |d.magnitude - v| < 10 ^ (d.exponent - 1) / 2) : Rounds digits v d where
  hasDigits := hd
  nearest e he := by
    by_cases hsame : e.magnitude = d.magnitude
    · rw [hsame]
    · exact (hd.abs_sub_lt_abs_sub he h hsame).le
  even e he hne htie := absurd htie (hd.abs_sub_lt_abs_sub he h hne).ne'

theorem Rounds.magnitude_eq_of_close (he : Rounds digits v e) (hd : d.HasDigits digits)
    (h : |d.magnitude - v| < 10 ^ (d.exponent - 1) / 2) : e.magnitude = d.magnitude := by
  by_contra hne
  exact absurd (he.nearest d hd) (not_le.mpr (hd.abs_sub_lt_abs_sub he.hasDigits h hne))

/-- Rounding does not pass a point of the grid. -/
theorem Rounds.le_magnitude (h : Rounds digits v d) (he : e.HasDigits digits)
    (hle : e.magnitude ≤ v) : e.magnitude ≤ d.magnitude := by
  by_contra! hlt
  have hnearest := h.nearest e he
  rw [abs_sub_comm, abs_of_pos (by linarith), abs_sub_comm, abs_of_nonneg (by linarith)] at hnearest
  linarith

theorem Rounds.magnitude_le (h : Rounds digits v d) (he : e.HasDigits digits)
    (hle : v ≤ e.magnitude) : d.magnitude ≤ e.magnitude := by
  by_contra! hlt
  have hnearest := h.nearest e he
  rw [abs_of_pos (by linarith), abs_of_nonneg (by linarith)] at hnearest
  linarith

variable {num den : ℕ}

theorem abs_keptDigits_sub_le (digits num : ℕ) (hden : 0 < den) :
    |(keptDigits digits num den : ℚ) - num / den / 10 ^ lastPower digits num den| ≤ 1 / 2 := by
  have h := abs_roundDiv_sub_le (num * 10 ^ (-lastPower digits num den).toNat)
    (by positivity : 0 < den * 10 ^ (lastPower digits num den).toNat)
  rwa [ratio_div_zpow] at h

/-- The last digit that is kept of a number between two powers of ten. -/
theorem lastPower_eq {j : ℤ} (hdigits : 0 < digits) (hnum : 0 < num) (hden : 0 < den)
    (hleast : (10 ^ (digits - 1) * 10 ^ j : ℚ) ≤ num / den)
    (hlt : (num / den : ℚ) < 10 ^ digits * 10 ^ j) : lastPower digits num den = j := by
  obtain ⟨hlower, hupper⟩ := leadingPower_spec hnum hden
  rw [← zpow_natCast, ← zpow_add₀ (by norm_num)] at hleast hlt
  have habove := (zpow_lt_zpow_iff_right₀ (by norm_num : (1 : ℚ) < 10)).mp (hleast.trans_lt hupper)
  have hbelow := (zpow_lt_zpow_iff_right₀ (by norm_num : (1 : ℚ) < 10)).mp (hlower.trans_lt hlt)
  unfold lastPower
  omega

/-- On the multiples of the step that is kept, rounding is to whole numbers. -/
theorem abs_mul_step_sub (digits num den k : ℕ) :
    |(k * 10 ^ lastPower digits num den : ℚ) - num / den| =
      |(k : ℚ) - num / den / 10 ^ lastPower digits num den| * 10 ^ lastPower digits num den := by
  have hpos : (0 : ℚ) < 10 ^ lastPower digits num den := by positivity
  generalize (10 : ℚ) ^ lastPower digits num den = step at hpos
  have hfactor : (k * step : ℚ) - num / den = (k - num / den / step) * step := by field_simp
  rw [hfactor, abs_mul, abs_of_pos hpos]

/-- Rounding moves a number by half of the step that is kept at most. -/
theorem abs_magnitude_nearest_sub_le_step (hdigits : 0 < digits) (num : ℕ) (hden : 0 < den)
    (negative : Bool) :
    |(nearest digits negative num den).magnitude - num / den| ≤
      10 ^ lastPower digits num den / 2 := by
  rw [magnitude_nearest hdigits, abs_mul_step_sub]
  calc _ ≤ (1 / 2 : ℚ) * 10 ^ lastPower digits num den :=
        mul_le_mul_of_nonneg_right (abs_keptDigits_sub_le digits num hden) (by positivity)
    _ = 10 ^ lastPower digits num den / 2 := by ring

/-- Rounding moves a number by half a step at most. -/
theorem abs_magnitude_nearest_sub_le (hdigits : 0 < digits) (num : ℕ) (hden : 0 < den)
    (negative : Bool) :
    |(nearest digits negative num den).magnitude - num / den| ≤
      10 ^ (nearest digits negative num den).exponent / 2 := by
  have hexponent : lastPower digits num den ≤ (nearest digits negative num den).exponent := by
    rw [nearest_eq]
    split <;> simp
  exact (abs_magnitude_nearest_sub_le_step hdigits num hden negative).trans
    (div_le_div_of_nonneg_right (zpow_le_zpow_right₀ (by norm_num) hexponent) (by norm_num))

/-- No multiple of the step that is kept is nearer than the rounded number. -/
theorem abs_magnitude_nearest_sub_le_abs_sub (hdigits : 0 < digits) (num : ℕ) (hden : 0 < den)
    (negative : Bool) (he : lastPower digits num den ≤ e.exponent) :
    |(nearest digits negative num den).magnitude - num / den| ≤ |e.magnitude - num / den| := by
  rw [magnitude_eq_mul_zpow he]
  generalize e.significand * 10 ^ (e.exponent - lastPower digits num den).toNat = k
  have hkept := abs_roundDiv_sub_le_abs_sub (num * 10 ^ (-lastPower digits num den).toNat)
    (by positivity : 0 < den * 10 ^ (lastPower digits num den).toNat) k
  rw [ratio_div_zpow] at hkept
  rw [magnitude_nearest hdigits, abs_mul_step_sub, abs_mul_step_sub]
  exact mul_le_mul_of_nonneg_right hkept (by positivity)

/-- If another multiple of the step that is kept is as near, the rounded number is even. -/
theorem significand_nearest_even (hdigits : 1 < digits) (hden : 0 < den) (negative : Bool)
    (he : lastPower digits num den ≤ e.exponent)
    (hne : e.magnitude ≠ (nearest digits negative num den).magnitude)
    (htie : |e.magnitude - num / den| = |(nearest digits negative num den).magnitude - num / den|) :
    (nearest digits negative num den).significand % 2 = 0 := by
  rw [magnitude_eq_mul_zpow he, magnitude_nearest (by omega)] at hne htie
  generalize e.significand * 10 ^ (e.exponent - lastPower digits num den).toNat = k at hne htie
  have hkept : keptDigits digits num den % 2 = 0 := by
    refine roundDiv_even_of_tie (k := k) (by positivity) ?_ ?_
    · intro heq
      exact hne (by rw [heq, keptDigits])
    · rw [abs_mul_step_sub, abs_mul_step_sub] at htie
      rw [ratio_div_zpow]
      exact mul_right_cancel₀ (by positivity) htie
  rw [nearest_eq]
  split
  · -- a carry leaves a power of ten
    obtain ⟨k, hk⟩ : ∃ k, digits - 1 = k + 1 := ⟨digits - 2, by omega⟩
    show 10 ^ (digits - 1) % 2 = 0
    rw [hk, pow_succ]
    omega
  · exact hkept

/-- The points with a smaller step are below the least point with this step, and the number is
not. -/
theorem abs_magnitude_nearest_sub_lt (hnum : 0 < num) (hden : 0 < den) (negative : Bool)
    (he : e.HasDigits digits) (hfiner : e.exponent < lastPower digits num den) :
    |(nearest digits negative num den).magnitude - num / den| < |e.magnitude - num / den| := by
  have hpositive := he.digits_pos
  have hleast : (10 : ℚ) ^ (digits - 1) * 10 ^ lastPower digits num den ≤ num / den := by
    rw [← (zpow_leadingPower_eq hpositive num den).1]
    exact (leadingPower_spec hnum hden).1
  have hbelow : e.magnitude < 10 ^ (digits - 1) * 10 ^ lastPower digits num den := by
    calc e.magnitude ≤ (10 ^ digits - 1) * 10 ^ e.exponent := he.magnitude_le
      _ < 10 ^ digits * 10 ^ e.exponent := by
        gcongr
        linarith
      _ = 10 ^ (digits - 1) * 10 ^ (e.exponent + 1) := by
        rw [zpow_add_one₀ (by norm_num), ← mul_pow_sub_one hpositive.ne' (10 : ℚ)]
        ring
      _ ≤ 10 ^ (digits - 1) * 10 ^ lastPower digits num den :=
        mul_le_mul_of_nonneg_left (zpow_le_zpow_right₀ (by norm_num) (by omega)) (by positivity)
  have hleast_value : magnitude ⟨negative, 10 ^ (digits - 1), lastPower digits num den⟩ =
      10 ^ (digits - 1) * 10 ^ lastPower digits num den := by
    rw [magnitude, Nat.cast_pow, Nat.cast_ofNat]
  have hnearest := abs_magnitude_nearest_sub_le_abs_sub hpositive num hden negative
    (le_refl (Decimal.mk negative (10 ^ (digits - 1)) (lastPower digits num den)).exponent)
  rw [hleast_value, abs_sub_comm (10 ^ (digits - 1) * _),
    abs_of_nonneg (sub_nonneg.mpr hleast)] at hnearest
  calc |(nearest digits negative num den).magnitude - num / den|
      ≤ num / den - 10 ^ (digits - 1) * 10 ^ lastPower digits num den := hnearest
    _ < num / den - e.magnitude := by linarith
    _ ≤ |num / den - e.magnitude| := le_abs_self _
    _ = |e.magnitude - num / den| := abs_sub_comm _ _

/-- **Rounding to significant digits** finds the nearest point of the grid. -/
theorem rounds_nearest (hdigits : 1 < digits) (hnum : 0 < num) (hden : 0 < den) (negative : Bool) :
    Rounds digits (num / den) (nearest digits negative num den) where
  hasDigits := significand_nearest (by omega) hnum hden negative
  nearest e he := by
    rcases lt_or_ge e.exponent (lastPower digits num den) with hlt | hge
    · exact (abs_magnitude_nearest_sub_lt hnum hden negative he hlt).le
    · exact abs_magnitude_nearest_sub_le_abs_sub (by omega) num hden negative hge
  even e he hne htie := by
    rcases lt_or_ge e.exponent (lastPower digits num den) with hlt | hge
    · exact absurd htie (abs_magnitude_nearest_sub_lt hnum hden negative he hlt).ne'
    · exact significand_nearest_even hdigits hden negative hge hne htie

end Decimal

/-! ## Displayed doubles -/

namespace Binary64

theorem shown_finite {negative : Bool} {rank : Fin finiteRanks} (h : rank.val ≠ 0) :
    shown (.finite negative rank) =
      Decimal.nearest significantDigits negative (rankUnits rank) unitsPerOne := if_neg h

theorem toText_finite {negative : Bool} {rank : Fin finiteRanks} (h : rank.val ≠ 0) :
    toText (.finite negative rank) = (shown (.finite negative rank)).generalText := by
  rw [shown_finite h, toText, if_neg h]

@[simp] theorem negative_shown {negative : Bool} {rank : Fin finiteRanks} (h : rank.val ≠ 0) :
    (shown (.finite negative rank)).negative = negative := by
  rw [shown_finite h]
  exact Decimal.negative_nearest ..

/-- **A double is displayed as the nearest number of six digits.** -/
theorem rounds_shown (negative : Bool) {rank : Fin finiteRanks} (h : rank.val ≠ 0) :
    Decimal.Rounds significantDigits (rankMagnitude rank) (shown (.finite negative rank)) := by
  have hpos : 0 < rankUnits rank := rankUnits_strictMono (Nat.pos_of_ne_zero h)
  rw [shown_finite h]
  exact Decimal.rounds_nearest (by decide) hpos unitsPerOne_pos negative

variable {x : Binary64} {k : ℕ} {n : Bool} {v : ℚ}

theorem Approximates.rank_ne_zero {rank : Fin finiteRanks} (h : Near k (rankMagnitude rank) v)
    (hv : 0 < v) (hk : k ≤ 1000) : rank.val ≠ 0 := by
  intro hzero
  have hlower := (h.bounds hv.le hk).1
  rw [hzero, rankMagnitude_zero] at hlower
  linarith

/-- A few errors are far below the step of the grid. -/
theorem close_of_near {d : Decimal} (h : Near k v d.magnitude)
    (hd : d.HasDigits significantDigits) (hk : k ≤ 1000) :
    |d.magnitude - v| < 10 ^ (d.exponent - 1) / 2 := by
  have hstep : (0 : ℚ) < 10 ^ d.exponent := by positivity
  have hk' : (k : ℚ) ≤ 1000 := by exact_mod_cast hk
  have hpos := hd.magnitude_pos
  have hle : d.magnitude ≤ (10 ^ 6 - 1) * 10 ^ d.exponent := hd.magnitude_le
  rw [abs_sub_comm, zpow_sub_one₀ (by norm_num)]
  calc |v - d.magnitude| ≤ k * d.magnitude / 10 ^ 15 := h
    _ ≤ 1000 * ((10 ^ 6 - 1) * 10 ^ d.exponent) / 10 ^ 15 := by gcongr
    _ < 10 ^ d.exponent * 10⁻¹ / 2 := by linarith

/-- **An approximation of a number of six digits is displayed as the number.** -/
theorem Approximates.display_eq {d : Decimal} (h : Approximates x k d.negative d.magnitude)
    (hd : d.HasDigits significantDigits) (hk : k ≤ 1000) :
    Quantity.display x = d.generalText := by
  obtain ⟨rank, rfl, hnear⟩ := h
  have hrank := Approximates.rank_ne_zero hnear hd.magnitude_pos hk
  have hrounds := rounds_shown d.negative hrank
  have hshown : shown (.finite d.negative rank) = d := by
    exact hrounds.hasDigits.ext hd (negative_shown hrank)
      (hrounds.magnitude_eq_of_close hd (close_of_near hnear hd hk))
  rw [Quantity.display, toText_finite hrank, hshown]

/-- Numbers that are close to one point of the grid are all rounded to it. -/
theorem rounds_of_near {d e : Decimal} {w : ℚ} (he : Decimal.Rounds significantDigits v e)
    (hd : d.HasDigits significantDigits) (hv : Near k v d.magnitude) (hw : Near k w d.magnitude)
    (hk : k ≤ 1000) : Decimal.Rounds significantDigits w e := by
  have hmagnitude := he.magnitude_eq_of_close hd (close_of_near hv hd hk)
  exact .of_close he.hasDigits (close_of_near (hmagnitude ▸ hw) he.hasDigits hk)

/-- Below a power of ten rounding moves a double by half of the unit that six digits leave there. -/
theorem abs_shown_sub_rankMagnitude_le (negative : Bool) {rank : Fin finiteRanks}
    (hrank : rank.val ≠ 0) {j : ℤ} (h : rankMagnitude rank < 10 ^ (j + 6)) :
    |(shown (.finite negative rank)).magnitude - rankMagnitude rank| ≤ 10 ^ j / 2 := by
  have hplace : Decimal.lastPower significantDigits (rankUnits rank) unitsPerOne ≤ j := by
    have hunits : 0 < rankUnits rank := rankUnits_strictMono (Nat.pos_of_ne_zero hrank)
    have hpowers := (Decimal.leadingPower_spec hunits unitsPerOne_pos).1.trans_lt h
    have := (zpow_lt_zpow_iff_right₀ (by norm_num : (1 : ℚ) < 10)).mp hpowers
    unfold Decimal.lastPower significantDigits
    omega
  rw [shown_finite hrank]
  exact (Decimal.abs_magnitude_nearest_sub_le_step (by decide) _ unitsPerOne_pos negative).trans
    (div_le_div_of_nonneg_right (zpow_le_zpow_right₀ (by norm_num) hplace) (by norm_num))

/-- **What is displayed of an approximation** is off by one unit of the sixth digit of the number
that is approximated, even if the approximation is above the next power of ten. -/
theorem abs_shown_sub_le {negative : Bool} {rank : Fin finiteRanks} {j : ℤ}
    (h : Near k (rankMagnitude rank) v) (hk : k ≤ 1000) (hleast : 10 ^ (j + 5) ≤ v)
    (hlt : v < 10 ^ (j + 6)) :
    |(shown (.finite negative rank)).magnitude - v| ≤ 10 ^ j := by
  have hpos : 0 < v := lt_of_lt_of_le (by positivity) hleast
  have hrank := Approximates.rank_ne_zero h hpos hk
  have hstep : (0 : ℚ) < 10 ^ j := by positivity
  have herror : |rankMagnitude rank - v| ≤ 10 ^ j / 2 := by
    have hk' : (k : ℚ) ≤ 1000 := by exact_mod_cast hk
    rw [zpow_add₀ (by norm_num)] at hlt
    calc |rankMagnitude rank - v| ≤ k * v / 10 ^ 15 := h
      _ ≤ 1000 * (10 ^ j * 10 ^ (6 : ℤ)) / 10 ^ 15 := by gcongr
      _ ≤ 10 ^ j / 2 := by norm_num; linarith
  have hround : |(shown (.finite negative rank)).magnitude - rankMagnitude rank| ≤ 10 ^ j / 2 := by
    rcases lt_or_ge (rankMagnitude rank) (10 ^ (j + 6)) with hbelow | habove
    · exact abs_shown_sub_rankMagnitude_le negative hrank hbelow
    · -- the power of ten lies between the two, and is a point of the grid
      have hpower : Decimal.magnitude ⟨false, 10 ^ 5, j + 1⟩ = 10 ^ (j + 6) := by
        show ((10 ^ 5 : ℕ) : ℚ) * 10 ^ (j + 1) = _
        rw [Nat.cast_pow, Nat.cast_ofNat, ← zpow_natCast, ← zpow_add₀ (by norm_num)]
        congr 1
        omega
      have hdigits : Decimal.HasDigits significantDigits ⟨false, 10 ^ 5, j + 1⟩ :=
        ⟨le_rfl, (by decide : 10 ^ 5 < 10 ^ 6)⟩
      have hnearest := (rounds_shown negative hrank).nearest _ hdigits
      rw [hpower, abs_sub_comm (10 ^ (j + 6) : ℚ), abs_of_nonneg (sub_nonneg.mpr habove)] at hnearest
      have hupper := (abs_le.mp herror).2
      linarith
  calc |(shown (.finite negative rank)).magnitude - v|
      ≤ |(shown (.finite negative rank)).magnitude - rankMagnitude rank| +
        |rankMagnitude rank - v| := abs_sub_le _ _ _
    _ ≤ 10 ^ j / 2 + 10 ^ j / 2 := add_le_add hround herror
    _ = 10 ^ j := add_halves _

/-- What is displayed of an approximation is off by one unit of its own last digit at most. -/
theorem Approximates.exists_display (h : Approximates x k n v) (hv : 0 < v) (hk : k ≤ 1000) :
    ∃ d : Decimal, d.HasDigits significantDigits ∧ d.negative = n ∧
      Quantity.display x = d.generalText ∧ |d.magnitude - v| ≤ 10 ^ d.exponent := by
  obtain ⟨rank, rfl, hnear⟩ := h
  have hrank := Approximates.rank_ne_zero hnear hv hk
  have hdigits := (rounds_shown n hrank).hasDigits
  have hround : |(shown (.finite n rank)).magnitude - rankMagnitude rank| ≤
      10 ^ (shown (.finite n rank)).exponent / 2 := by
    rw [shown_finite hrank]
    exact Decimal.abs_magnitude_nearest_sub_le (by decide) _ unitsPerOne_pos n
  refine ⟨_, hdigits, negative_shown hrank, toText_finite hrank, ?_⟩
  generalize shown (.finite n rank) = d at hdigits hround
  generalize rankMagnitude rank = rounded at hnear hround
  have hstep : (0 : ℚ) < 10 ^ d.exponent := by positivity
  have hk' : (k : ℚ) ≤ 1000 := by exact_mod_cast hk
  have hle : d.magnitude ≤ (10 ^ 6 - 1) * 10 ^ d.exponent := hdigits.magnitude_le
  have hvalue : v ≤ 10 ^ 7 * 10 ^ d.exponent := by
    have := (hnear.bounds hv.le hk).1
    have := (abs_le.mp hround).1
    linarith
  calc |d.magnitude - v| ≤ |d.magnitude - rounded| + |rounded - v| := abs_sub_le _ _ _
    _ ≤ 10 ^ d.exponent / 2 + k * v / 10 ^ 15 := add_le_add hround hnear
    _ ≤ 10 ^ d.exponent / 2 + 1000 * (10 ^ 7 * 10 ^ d.exponent) / 10 ^ 15 := by gcongr
    _ ≤ 10 ^ d.exponent := by linarith

end Binary64

/-! ## Printed numbers -/

namespace Quantity

/-- Six digits of which `10 ^ d.exponent` is the last. -/
theorem magnitude_mem_of_hasDigits {d : Decimal} (hd : d.HasDigits significantDigits) :
    10 ^ (d.exponent + 5) ≤ d.magnitude ∧ d.magnitude < 10 ^ (d.exponent + 6) := by
  have hleast : 10 ^ 5 * 10 ^ d.exponent ≤ d.magnitude := hd.le_magnitude
  have hgreatest : d.magnitude ≤ (10 ^ 6 - 1) * 10 ^ d.exponent := hd.magnitude_le
  have hstep : (0 : ℚ) < 10 ^ d.exponent := by positivity
  rw [zpow_add₀ (by norm_num), zpow_add₀ (by norm_num)]
  constructor
  · rw [mul_comm]
    exact hleast
  · refine hgreatest.trans_lt ?_
    norm_num
    linarith

/-- A number that is spelled is read as an approximation of it. -/
theorem Reads.exists_parse {t : Text} {d : Decimal} (ht : Reads t d)
    (h : Binary64.Moderate d.magnitude) :
    ∃ x, parse t = .ok x ∧ x.Approximates 2 d.negative d.magnitude := by
  have happroximates := d.toBinary64_approximates h
  exact ⟨d.toBinary64, ht.parse_eq_ok_iff.mpr ⟨rfl, happroximates.isFinite⟩, happroximates⟩

/-- Printed numbers are spelled without blanks around them. -/
theorem reads_generalText {d : Decimal} (hd : d.HasDigits significantDigits)
    (h : Binary64.Moderate d.magnitude) :
    ∃ e, Reads d.generalText e ∧ e.negative = d.negative ∧ e.magnitude = d.magnitude := by
  have hdigits := hd.digitCount_significand
  obtain ⟨hleast, hgreatest⟩ := Decimal.reach_of_moderate hd.significand_pos h
  have hpower : (d.exponent + (significantDigits - 1 : ℕ)).natAbs < Decimal.exponentCap := by
    rw [Decimal.top, hdigits] at hleast hgreatest
    unfold Decimal.reach significantDigits at *
    unfold Decimal.exponentCap
    omega
  obtain ⟨e, he, hsign, hmagnitude⟩ := Decimal.read?_generalText hdigits hpower
  refine ⟨e, ⟨Text.trim_of_forall_not_isBlank fun c hc => ?_, he⟩, hsign, hmagnitude⟩
  exact (d.generalText_chars c hc).not_isBlank

/-- **A printed number is read as an approximation of it.** -/
theorem parse_generalText {d : Decimal} (hd : d.HasDigits significantDigits)
    (h : Binary64.Moderate d.magnitude) :
    ∃ x, parse d.generalText = .ok x ∧ x.Approximates 2 d.negative d.magnitude := by
  obtain ⟨e, he, hsign, hmagnitude⟩ := reads_generalText hd h
  rw [← hsign, ← hmagnitude]
  exact he.exists_parse (hmagnitude ▸ h)

end Quantity

end WaveGen
