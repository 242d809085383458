import WaveGen.Proofs.SignificantDigits

/-!
# Displayed numbers stay as they are

A stored number is read again whenever the instrument computes with it. From the least normal double
on doubles lie closer together than numbers of six digits do, so the double nearest to a displayed
number is displayed as this number again, although it need not be the double that was displayed. At
the lower end the displayed number may be just under the least normal double, where the distance of
the doubles is still the same. At the upper end it is at most what the greatest double is displayed
as.

* `Decimal.toBinary64_approximates_of_finite` — reading, down to the half of the least normal double.
* `Quantity.parse_display` — every displayed number can be read.
* `Quantity.display_stable` — and it is displayed as before.
-/

namespace WaveGen

/-- Numbers of a unit or more are within reach. -/
theorem Decimal.zpow_neg_reach_le {d : Decimal}
    (h : (1 : ℚ) ≤ d.magnitude * Binary64.unitsPerOne) : 10 ^ (-reach) ≤ d.magnitude := by
  have hnat : Binary64.unitsPerOne ≤ 10 ^ 400 := by decide +kernel
  have hcast : (Binary64.unitsPerOne : ℚ) ≤ 10 ^ reach := by
    show (Binary64.unitsPerOne : ℚ) ≤ 10 ^ (400 : ℤ)
    exact_mod_cast hnat
  rw [zpow_neg, inv_le_iff_one_le_mul₀ (by positivity)]
  exact h.trans (mul_le_mul_of_nonneg_left hcast d.magnitude_nonneg)

/-- **Reading a decimal number**, if it is not too large, is off by one part in `10 ^ 15` at most,
from the half of the least normal double on. -/
theorem Decimal.toBinary64_approximates_of_finite {d : Decimal}
    (hleast : (2 ^ 51 : ℚ) ≤ d.magnitude * Binary64.unitsPerOne)
    (hfinite : d.toBinary64.isFinite = true) :
    d.toBinary64.Approximates 1 d.negative d.magnitude := by
  have hd : 0 < d.significand := by
    by_contra hzero
    rw [magnitude, Nat.eq_zero_of_not_pos hzero, Nat.cast_zero, zero_mul, zero_mul] at hleast
    norm_num at hleast
  have hbottom := zpow_neg_reach_le ((by norm_num : (1 : ℚ) ≤ 2 ^ 51).trans hleast)
  have htop : d.top ≤ reach := by
    by_contra! hlarge
    rw [toBinary64_of_large hd hlarge] at hfinite
    cases hfinite
  rw [toBinary64_of_reach hd (neg_reach_le_top hbottom) htop] at hfinite ⊢
  have hunits := d.units_ratio
  have hden : 0 < 10 ^ (-d.exponent).toNat := by positivity
  generalize d.significand * 10 ^ d.exponent.toNat * Binary64.unitsPerOne = num at *
  generalize 10 ^ (-d.exponent).toNat = den at *
  have hfits : Binary64.nearestRank num den < finiteRanks := by
    by_contra! hlarge
    rw [Binary64.ofUnits_of_le _ hlarge] at hfinite
    cases hfinite
  refine ⟨_, Binary64.ofUnits_of_lt _ hfits, Binary64.near_nearestRank hunits ?_⟩
  refine (Binary64.abs_rankUnits_nearestRank_sub_le_max num hden).trans (max_le ?_ ?_)
  · -- a half of a unit is small enough, as there are many units
    have hhalf : (1 / 2 * 2 ^ 52 : ℚ) = 2 ^ 51 := by norm_num
    rw [hunits, le_div_iff₀ (by norm_num)]
    exact hhalf.trans_le hleast
  · exact div_le_div_of_nonneg_left (by positivity) (by norm_num) (by norm_num)

namespace Binary64

/-- The greatest finite double. -/
def greatest : Binary64 := .finite false ⟨finiteRanks - 1, by decide +kernel⟩

theorem atMost_greatest {x : Binary64} (hx : x.isFinite = true) : x.AtMost greatest := by
  cases x with
  | finite n rank => exact .intro n false _ _ (Nat.le_sub_one_of_lt rank.isLt)
  | infinite n => cases hx
  | nan => cases hx

/-- Six digits of the greatest double are less than it, so they can be read. -/
theorem isFinite_shown_greatest : greatest.shown.toBinary64.isFinite = true := by decide +kernel

/-- The least normal double, in units. -/
theorem leastNormal_mul_units : (2 ^ (-1022 : ℤ) : ℚ) * unitsPerOne = 2 ^ 52 := by
  obtain ⟨k, hk⟩ : ∃ k : ℕ, k = 1022 := ⟨_, rfl⟩
  have hpower : (-1022 : ℤ) = -k := by omega
  rw [hpower, unitsPerOne_eq (by omega : k + 52 = 1074), zpow_neg, zpow_natCast]
  push_cast
  exact inv_mul_cancel_left₀ (by positivity) _

/-- The normal doubles are those from `2 ^ -1022` on, signs aside. -/
theorem le_rankMagnitude_iff {rank : ℕ} : 2 ^ (-1022 : ℤ) ≤ rankMagnitude rank ↔ 2 ^ 52 ≤ rank := by
  have hleast : (2 ^ 52 : ℚ) = rankUnits (2 ^ 52) := by
    have hunits : rankUnits (2 ^ 52) = 2 ^ 52 := by decide
    rw [hunits, Nat.cast_pow, Nat.cast_ofNat]
  rw [rankMagnitude, le_div_iff₀ unitsPerOne_cast_pos, leastNormal_mul_units, hleast, Nat.cast_le,
    rankUnits_strictMono.le_iff_le]

/-- Rounding to six digits leaves more than the half. -/
theorem le_two_mul_shown (negative : Bool) {rank : Fin finiteRanks} (h : rank.val ≠ 0) :
    rankMagnitude rank ≤ 2 * (shown (.finite negative rank)).magnitude := by
  have hunit : 10 ^ 5 * 10 ^ (shown (.finite negative rank)).exponent ≤
      (shown (.finite negative rank)).magnitude := (rounds_shown negative h).hasDigits.le_magnitude
  have hround : |(shown (.finite negative rank)).magnitude - rankMagnitude rank| ≤
      10 ^ (shown (.finite negative rank)).exponent / 2 := by
    rw [shown_finite h]
    exact Decimal.abs_magnitude_nearest_sub_le (by decide) _ unitsPerOne_pos negative
  have hstep : (0 : ℚ) < 10 ^ (shown (.finite negative rank)).exponent := by positivity
  have hlower := (abs_le.mp hround).1
  linarith

/-- What a normal double is displayed as is not less than the half of the least one, in units. -/
theorem half_leastNormal_le_shown (negative : Bool) {rank : Fin finiteRanks} (h : rank.val ≠ 0)
    (hnormal : 2 ^ (-1022 : ℤ) ≤ rankMagnitude rank) :
    (2 ^ 51 : ℚ) ≤ (shown (.finite negative rank)).magnitude * unitsPerOne := by
  have hshown := mul_le_mul_of_nonneg_right (hnormal.trans (le_two_mul_shown negative h))
    unitsPerOne_cast_pos.le
  rw [leastNormal_mul_units] at hshown
  linarith

end Binary64

namespace Quantity

open Binary64

variable {x : Binary64}

/-- **Displayed numbers can be read**, and are read as the nearest double. -/
theorem parse_display (hx : x.isFinite = true) :
    ∃ d : Decimal, d.negative = x.shown.negative ∧ d.magnitude = x.shown.magnitude ∧
      parse (display x) = .ok d.toBinary64 ∧ d.toBinary64.isFinite = true := by
  obtain ⟨d, hd, hsign, hmagnitude⟩ := reads_display hx
  have hle := hmagnitude.trans_le (atMost_greatest hx).shown
  have hfinite := (Decimal.toBinary64_atMost hle isFinite_shown_greatest).isFinite.1
  exact ⟨d, hsign, hmagnitude, hd.parse_eq_ok_iff.mpr ⟨rfl, hfinite⟩, hfinite⟩

/-- **Stored numbers are stable.** What a normal double or a zero is displayed as can be read, and
the double that is read is displayed in the same way. -/
theorem display_stable (hx : x.isFinite = true)
    (hnormal : x.value = 0 ∨ 2 ^ (-1022 : ℤ) ≤ |x.value|) :
    ∃ y, parse (display x) = .ok y ∧ display y = display x := by
  obtain ⟨d, hsign, hmagnitude, hparse, hfinite⟩ := parse_display hx
  refine ⟨d.toBinary64, hparse, ?_⟩
  cases x with
  | infinite n => cases hx
  | nan => cases hx
  | finite negative rank =>
    rw [abs_value] at hnormal
    by_cases hrank : rank.val = 0
    · -- what is read is zero, too, maybe with another sign
      have hsignificand : d.significand = 0 := by
        rw [shown, if_pos hrank, Decimal.magnitude, Decimal.magnitude, Nat.cast_zero, zero_mul,
          mul_eq_zero_iff_right (by positivity), Nat.cast_eq_zero] at hmagnitude
        exact hmagnitude
      rw [Decimal.toBinary64_of_small (.inl hsignificand), display, display, toText, toText,
        if_pos hrank, if_pos rfl]
    · have hleast := hnormal.resolve_left (mt value_eq_zero_iff.mp hrank)
      have hhalf := half_leastNormal_le_shown negative hrank hleast
      have hnear := Decimal.toBinary64_approximates_of_finite (hmagnitude ▸ hhalf) hfinite
      rw [hsign, hmagnitude] at hnear
      rw [hnear.display_eq (rounds_shown negative hrank).hasDigits (by norm_num), display,
        toText_finite hrank]

/-- The least normal double is displayed as a number below it. -/
theorem display_stable_least_normal :
    let x : Binary64 := .finite false ⟨2 ^ 52, by decide⟩
    x.isFinite = true ∧ 2 ^ (-1022 : ℤ) ≤ |x.value| ∧ display x = "2.22507e-308".toList ∧
      ∃ y, parse (display x) = .ok y ∧ display y = display x := by
  intro x
  have hx : x.isFinite = true := rfl
  have hnormal : 2 ^ (-1022 : ℤ) ≤ |x.value| := by
    rw [abs_value]
    exact le_rankMagnitude_iff.mpr le_rfl
  exact ⟨hx, hnormal, by decide +kernel, display_stable hx (.inr hnormal)⟩

end Quantity

end WaveGen
