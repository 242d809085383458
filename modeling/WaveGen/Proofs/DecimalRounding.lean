import Mathlib.Data.Nat.Digits.Lemmas
import WaveGen.Decimal
import WaveGen.Proofs.Rounding

/-!
# Rounding of decimal numbers

Between texts and doubles numbers are rounded twice: a decimal number is read as the nearest double,
and a double is displayed as the nearest number of six significant digits. Both keep the order of
magnitudes.

* `Decimal.magnitude`, `Decimal.value` — the rational number that a decimal number stands for.
* `Decimal.toBinary64_atMost` — the doubles of two numbers are in the order of the numbers.
* `Decimal.leadingPower_spec`, `Decimal.significand_nearest` — what rounding to significant digits
  yields.
* `Decimal.magnitude_nearest_mono` — it keeps order.
-/

namespace WaveGen

namespace Decimal

/-! ## Values -/

/-- The absolute value of the number. -/
def magnitude (d : Decimal) : ℚ := d.significand * 10 ^ d.exponent

/-- The number itself. -/
def value (d : Decimal) : ℚ := if d.negative then -d.magnitude else d.magnitude

theorem magnitude_nonneg (d : Decimal) : 0 ≤ d.magnitude := by
  unfold magnitude
  positivity

theorem value_of_plus {d : Decimal} (h : d.negative = false) : d.value = d.magnitude := by
  rw [value, h, if_neg (by decide)]

theorem value_of_minus {d : Decimal} (h : d.negative = true) : d.value = -d.magnitude := by
  rw [value, h, if_pos rfl]

/-- A power of ten, split into its numerator and its denominator. -/
theorem ten_zpow (e : ℤ) : (10 : ℚ) ^ e = (10 ^ e.toNat : ℕ) / (10 ^ (-e).toNat : ℕ) := by
  obtain ⟨n, rfl | rfl⟩ := e.eq_nat_or_neg <;> simp

/-! ## Digits -/

theorem lt_pow_digitCount (n : ℕ) : n < 10 ^ digitCount n :=
  (Nat.length_toDigits_le_iff (by decide) Nat.length_toDigits_pos).mp le_rfl

theorem digitCount_le {n k : ℕ} (hk : 0 < k) (h : n < 10 ^ k) : digitCount n ≤ k :=
  (Nat.length_toDigits_le_iff (by decide) hk).mpr h

theorem digitCount_pos (n : ℕ) : 0 < digitCount n := Nat.length_toDigits_pos

theorem pow_digitCount_le {n : ℕ} (hn : 0 < n) : 10 ^ (digitCount n - 1) ≤ n := by
  by_contra! hlt
  by_cases hone : digitCount n = 1
  · rw [hone] at hlt
    omega
  · have hpos := digitCount_pos n
    have := digitCount_le (by omega) hlt
    omega

theorem digitCount_eq {n k : ℕ} (hk : 0 < k) (hleast : 10 ^ (k - 1) ≤ n) (hlt : n < 10 ^ k) :
    digitCount n = k := by
  apply le_antisymm (digitCount_le hk hlt)
  by_contra! hfew
  have hpow := Nat.pow_le_pow_right (by decide : 0 < 10) (Nat.le_sub_one_of_lt hfew)
  have := lt_pow_digitCount n
  omega

/-- The place of the point in front of the digits bounds a number from above. -/
theorem magnitude_lt (d : Decimal) : d.magnitude < 10 ^ (d.exponent + digitCount d.significand) := by
  have hdigits : (d.significand : ℚ) < 10 ^ digitCount d.significand := by
    exact_mod_cast lt_pow_digitCount d.significand
  rw [magnitude, add_comm, zpow_add₀ (by norm_num), zpow_natCast]
  exact mul_lt_mul_of_pos_right hdigits (by positivity)

theorem le_magnitude {d : Decimal} (hd : 0 < d.significand) :
    10 ^ (d.exponent + digitCount d.significand - 1) ≤ d.magnitude := by
  have hdigits : (10 : ℚ) ^ (digitCount d.significand - 1) ≤ d.significand := by
    exact_mod_cast pow_digitCount_le hd
  have hpower : d.exponent + digitCount d.significand - 1 =
      (digitCount d.significand - 1 : ℕ) + d.exponent := by
    have := digitCount_pos d.significand
    omega
  rw [magnitude, hpower, zpow_add₀ (by norm_num), zpow_natCast]
  exact mul_le_mul_of_nonneg_right hdigits (by positivity)

/-! ## Doubles -/

/-- The place of the point in front of the digits. -/
def top (d : Decimal) : ℤ := d.exponent + digitCount d.significand

/-- A smaller number has its point further to the left. -/
theorem top_le_of_magnitude_le {d e : Decimal} (hd : 0 < d.significand)
    (h : d.magnitude ≤ e.magnitude) : 0 < e.significand ∧ d.top ≤ e.top := by
  have hleast := le_magnitude hd
  constructor
  · by_contra hzero
    have he : e.magnitude = 0 := by
      rw [magnitude, Nat.eq_zero_of_not_pos hzero, Nat.cast_zero, zero_mul]
    have hpos : (0 : ℚ) < 10 ^ (d.exponent + digitCount d.significand - 1) := by positivity
    linarith
  · have hpowers := hleast.trans_lt (h.trans_lt e.magnitude_lt)
    have := (zpow_lt_zpow_iff_right₀ (by norm_num : (1 : ℚ) < 10)).mp hpowers
    unfold top
    omega

theorem toBinary64_of_small {d : Decimal} (h : d.significand = 0 ∨ d.top < -reach) :
    d.toBinary64 = .finite d.negative ⟨0, finiteRanks_pos⟩ := if_pos h

theorem toBinary64_of_large {d : Decimal} (hd : 0 < d.significand) (h : reach < d.top) :
    d.toBinary64 = .infinite d.negative := by
  unfold toBinary64
  have hsmall : ¬ (d.significand = 0 ∨ d.top < -reach) := by
    unfold reach at *
    omega
  exact (if_neg hsmall).trans (if_pos h)

theorem toBinary64_of_reach {d : Decimal} (hd : 0 < d.significand) (h : -reach ≤ d.top)
    (h' : d.top ≤ reach) :
    d.toBinary64 = Binary64.ofUnits d.negative
      (d.significand * 10 ^ d.exponent.toNat * Binary64.unitsPerOne) (10 ^ (-d.exponent).toNat) := by
  unfold toBinary64
  have hsmall : ¬ (d.significand = 0 ∨ d.top < -reach) := by omega
  exact (if_neg hsmall).trans (if_neg (not_lt.mpr h'))

/-- The ratio from which a number is read is the number itself, in units. -/
theorem units_ratio (d : Decimal) :
    ((d.significand * 10 ^ d.exponent.toNat * Binary64.unitsPerOne : ℕ) : ℚ) /
        (10 ^ (-d.exponent).toNat : ℕ) = d.magnitude * Binary64.unitsPerOne := by
  rw [magnitude, ten_zpow]
  push_cast
  ring

/-- **Reading keeps order**: the double nearest to a smaller number is not the larger one. -/
theorem toBinary64_atMost {d e : Decimal} (h : d.magnitude ≤ e.magnitude)
    (hfinite : e.toBinary64.isFinite = true) : d.toBinary64.AtMost e.toBinary64 := by
  -- a number out of reach is read as zero if it is small, and the larger one is not too large
  by_cases hsmall : d.significand = 0 ∨ d.top < -reach
  · rw [toBinary64_of_small hsmall]
    cases he : e.toBinary64 with
    | finite n rank => exact .intro _ _ _ _ (Nat.zero_le _)
    | infinite n =>
      rw [he] at hfinite
      cases hfinite
    | nan =>
      rw [he] at hfinite
      cases hfinite
  · rw [not_or, not_lt] at hsmall
    obtain ⟨hd, hleast⟩ := hsmall
    obtain ⟨he, htop⟩ := top_le_of_magnitude_le (Nat.pos_of_ne_zero hd) h
    have hgreatest : e.top ≤ reach := by
      by_contra! hlarge
      rw [toBinary64_of_large he hlarge] at hfinite
      cases hfinite
    rw [toBinary64_of_reach he (hleast.trans htop) hgreatest] at hfinite ⊢
    rw [toBinary64_of_reach (Nat.pos_of_ne_zero hd) hleast (htop.trans hgreatest)]
    refine Binary64.ofUnits_atMost _ _ (by positivity) (by positivity) ?_ hfinite
    rw [units_ratio, units_ratio]
    exact mul_le_mul_of_nonneg_right h (Nat.cast_nonneg _)

theorem toBinary64_nonNeg {d : Decimal} (hsign : d.negative = false)
    (hfinite : d.toBinary64.isFinite = true) : d.toBinary64.NonNeg := by
  by_cases hsmall : d.significand = 0 ∨ d.top < -reach
  · rw [toBinary64_of_small hsmall, hsign]
    exact ⟨_, rfl⟩
  · rw [not_or, not_lt] at hsmall
    have hd := Nat.pos_of_ne_zero hsmall.1
    have hgreatest : d.top ≤ reach := by
      by_contra! hlarge
      rw [toBinary64_of_large hd hlarge] at hfinite
      cases hfinite
    rw [toBinary64_of_reach hd hsmall.2 hgreatest, hsign] at hfinite ⊢
    exact Binary64.ofUnits_nonNeg hfinite

/-! ## Significant digits -/

/-- The leading digit of a number is at its leading power. -/
theorem leadingPower_spec {num den : ℕ} (hnum : 0 < num) (hden : 0 < den) :
    (10 : ℚ) ^ leadingPower num den ≤ num / den ∧
      (num / den : ℚ) < 10 ^ (leadingPower num den + 1) := by
  have hden' : (0 : ℚ) < den := by exact_mod_cast hden
  have hnum' : (0 : ℚ) < num := by exact_mod_cast hnum
  unfold leadingPower
  by_cases hle : den ≤ num
  · -- from one upwards the whole part has the digits that count
    rw [if_pos hle]
    have hpos : 0 < num / den := Nat.div_pos hle hden
    have hpower : ((digitCount (num / den) : ℤ) - 1) = (digitCount (num / den) - 1 : ℕ) := by
      have := digitCount_pos (num / den)
      omega
    constructor
    · rw [hpower, zpow_natCast]
      have := (natCast_le_div_iff hden).mpr (pow_digitCount_le hpos)
      exact_mod_cast this
    · rw [sub_add_cancel, zpow_natCast]
      refine not_le.mp fun hge => ?_
      have hcast : ((10 ^ digitCount (num / den) : ℕ) : ℚ) ≤ num / den := by exact_mod_cast hge
      exact absurd ((natCast_le_div_iff hden).mp hcast) (not_le.mpr (lt_pow_digitCount _))
  · -- below one they are counted in the reciprocal, whose exact powers of ten fall to the other side
    rw [if_neg hle]
    set q := (den - 1) / num with hq
    have hpos : 0 < q := Nat.div_pos (by omega) hnum
    have hpower : -(digitCount q : ℤ) + 1 = -((digitCount q - 1 : ℕ) : ℤ) := by
      have := digitCount_pos q
      omega
    constructor
    · rw [zpow_neg, zpow_natCast, inv_le_comm₀ (by positivity) (by positivity), inv_div,
        div_le_iff₀ hnum']
      have := (Nat.div_lt_iff_lt_mul hnum).mp (lt_pow_digitCount q)
      have hle : den ≤ 10 ^ digitCount q * num := by omega
      exact_mod_cast hle
    · rw [hpower, zpow_neg, zpow_natCast, lt_inv_comm₀ (by positivity) (by positivity), inv_div,
        lt_div_iff₀ hnum']
      have hle : 10 ^ (digitCount q - 1) * num ≤ den - 1 :=
        (Nat.le_div_iff_mul_le hnum).mp (pow_digitCount_le hpos)
      have hlt : 10 ^ (digitCount q - 1) * num < den := by omega
      exact_mod_cast hlt

/-- The power of ten of the last digit that rounding to `digits` digits keeps. -/
def lastPower (digits num den : ℕ) : ℤ := leadingPower num den - (digits - 1)

/-- The kept digits, as a whole number. It has one digit too many if rounding carries to the end. -/
def keptDigits (digits num den : ℕ) : ℕ :=
  roundDiv (num * 10 ^ (-lastPower digits num den).toNat) (den * 10 ^ (lastPower digits num den).toNat)

theorem nearest_eq (digits : ℕ) (negative : Bool) (num den : ℕ) :
    nearest digits negative num den =
      if keptDigits digits num den = 10 ^ digits then
        ⟨negative, 10 ^ (digits - 1), lastPower digits num den + 1⟩
      else ⟨negative, keptDigits digits num den, lastPower digits num den⟩ := rfl

@[simp] theorem negative_nearest (digits : ℕ) (negative : Bool) (num den : ℕ) :
    (nearest digits negative num den).negative = negative := by
  rw [nearest_eq]
  split <;> rfl

theorem ratio_div_zpow (num den : ℕ) (e : ℤ) :
    ((num * 10 ^ (-e).toNat : ℕ) : ℚ) / (den * 10 ^ e.toNat : ℕ) = num / den / 10 ^ e := by
  rw [ten_zpow, div_div_eq_mul_div, div_mul_eq_mul_div, div_div]
  push_cast
  rfl

variable {digits num den : ℕ}

/-- A carry to the end does not change what the kept digits are worth. -/
theorem magnitude_nearest (hdigits : 0 < digits) (negative : Bool) :
    (nearest digits negative num den).magnitude =
      keptDigits digits num den * 10 ^ lastPower digits num den := by
  rw [nearest_eq]
  split
  · rename_i hcarry
    have hpow : (10 : ℚ) ^ digits = 10 ^ (digits - 1) * 10 := by
      rw [← pow_succ, Nat.sub_add_cancel hdigits]
    rw [magnitude, hcarry, zpow_add_one₀ (by norm_num)]
    push_cast
    rw [hpow]
    ring
  · rfl

/-- The powers of ten between which the kept digits lie. -/
theorem zpow_leadingPower_eq (hdigits : 0 < digits) (num den : ℕ) :
    (10 : ℚ) ^ leadingPower num den = 10 ^ (digits - 1) * 10 ^ lastPower digits num den ∧
      (10 : ℚ) ^ (leadingPower num den + 1) = 10 ^ digits * 10 ^ lastPower digits num den := by
  constructor
  · rw [← zpow_natCast, ← zpow_add₀ (by norm_num), lastPower]
    congr 1
    omega
  · rw [← zpow_natCast, ← zpow_add₀ (by norm_num), lastPower]
    congr 1
    omega

theorem le_keptDigits (hdigits : 0 < digits) (hnum : 0 < num) (hden : 0 < den) :
    10 ^ (digits - 1) ≤ keptDigits digits num den := by
  apply le_roundDiv_of_le (by positivity)
  rw [ratio_div_zpow, le_div_iff₀ (by positivity)]
  push_cast
  rw [← (zpow_leadingPower_eq hdigits num den).1]
  exact (leadingPower_spec hnum hden).1

theorem keptDigits_le (hdigits : 0 < digits) (hnum : 0 < num) (hden : 0 < den) :
    keptDigits digits num den ≤ 10 ^ digits := by
  apply roundDiv_le_of_le (by positivity)
  rw [ratio_div_zpow, div_le_iff₀ (by positivity)]
  push_cast
  rw [← (zpow_leadingPower_eq hdigits num den).2]
  exact (leadingPower_spec hnum hden).2.le

/-- **The significand of a rounded number has as many digits as were asked for.** -/
theorem significand_nearest (hdigits : 0 < digits) (hnum : 0 < num) (hden : 0 < den)
    (negative : Bool) :
    10 ^ (digits - 1) ≤ (nearest digits negative num den).significand ∧
      (nearest digits negative num den).significand < 10 ^ digits := by
  rw [nearest_eq]
  split
  · exact ⟨le_rfl, Nat.pow_lt_pow_right (by decide) (by omega)⟩
  · rename_i hcarry
    exact ⟨le_keptDigits hdigits hnum hden,
      lt_of_le_of_ne (keptDigits_le hdigits hnum hden) hcarry⟩

/-- **Rounding to significant digits keeps order.** -/
theorem magnitude_nearest_mono {num' den' : ℕ} (hdigits : 0 < digits) (hnum : 0 < num)
    (hden : 0 < den) (hden' : 0 < den') (h : (num / den : ℚ) ≤ num' / den') (n m : Bool) :
    (nearest digits n num den).magnitude ≤ (nearest digits m num' den').magnitude := by
  have hden_pos : (0 : ℚ) < den := by exact_mod_cast hden
  have hnum_pos : (0 : ℚ) < num := by exact_mod_cast hnum
  have hratio : (0 : ℚ) < num' / den' := (div_pos hnum_pos hden_pos).trans_le h
  have hnum' : 0 < num' := by
    by_contra hzero
    rw [Nat.eq_zero_of_not_pos hzero, Nat.cast_zero, zero_div] at hratio
    exact lt_irrefl _ hratio
  have hpowers : leadingPower num den ≤ leadingPower num' den' := by
    have := ((leadingPower_spec hnum hden).1.trans h).trans_lt (leadingPower_spec hnum' hden').2
    have := (zpow_lt_zpow_iff_right₀ (by norm_num : (1 : ℚ) < 10)).mp this
    omega
  rw [magnitude_nearest hdigits, magnitude_nearest hdigits]
  rcases hpowers.lt_or_eq with hlt | heq
  · -- even a carry takes the lower number no further than the power of ten between the two
    have hupper : (keptDigits digits num den : ℚ) ≤ 10 ^ digits := by
      exact_mod_cast keptDigits_le hdigits hnum hden
    have hlower : (10 : ℚ) ^ (digits - 1) ≤ keptDigits digits num' den' := by
      exact_mod_cast le_keptDigits hdigits hnum' hden'
    calc (keptDigits digits num den : ℚ) * 10 ^ lastPower digits num den
        ≤ 10 ^ digits * 10 ^ lastPower digits num den := by gcongr
      _ = 10 ^ (leadingPower num den + 1) := (zpow_leadingPower_eq hdigits num den).2.symm
      _ ≤ 10 ^ leadingPower num' den' := zpow_le_zpow_right₀ (by norm_num) hlt
      _ = 10 ^ (digits - 1) * 10 ^ lastPower digits num' den' :=
        (zpow_leadingPower_eq hdigits num' den').1
      _ ≤ keptDigits digits num' den' * 10 ^ lastPower digits num' den' := by gcongr
  · have hlast : lastPower digits num den = lastPower digits num' den' := by
      rw [lastPower, lastPower, heq]
    have hkept : keptDigits digits num den ≤ keptDigits digits num' den' := by
      apply roundDiv_mono (by positivity) (by positivity)
      rw [ratio_div_zpow, ratio_div_zpow, hlast]
      gcongr
    rw [hlast]
    gcongr

end Decimal

end WaveGen
