import WaveGen.Proofs.SignificantDigits

/-!
# Halves and doubles of displayed numbers

The half of a number of six digits has six digits, or it ends in a five at the seventh digit. In the
first case halving displays the half itself, and doubling takes it back. In the second case rounding
goes up or down; doubling what is displayed gives a neighbour of the number with an even last digit,
or a power of ten, and those are of the first kind.

* `Decimal.HasHalf` — the numbers whose half has no more digits.
* `Quantity.divide_two`, `Quantity.multiply_two` — halves and doubles that have six digits.
* `Quantity.divide_two_odd` — the half of any other number.
* `Quantity.exists_settled` — what halving and doubling come to.
-/

namespace WaveGen

namespace Binary64

/-- The numbers that may be scaled by `10 ^ 10` and stay moderate. -/
def Ordinary (v : ℚ) : Prop := 10 ^ (-291 : ℤ) ≤ v ∧ v ≤ 10 ^ (291 : ℤ)

theorem Moderate.of_zpow {v : ℚ} (hleast : 10 ^ (-301 : ℤ) ≤ v) (hgreatest : v ≤ 10 ^ (301 : ℤ)) :
    Moderate v := by
  have hpower : (10 ^ (301 : ℤ) : ℚ) ≤ 2 ^ moderateBits := by
    have hnat : 10 ^ 301 ≤ 2 ^ moderateBits := by decide +kernel
    exact_mod_cast hnat
  refine ⟨le_trans ?_ hleast, hgreatest.trans hpower⟩
  rw [zpow_neg]
  exact inv_anti₀ (by positivity) hpower

theorem Ordinary.of_zpow {v : ℚ} (hleast : 10 ^ (-20 : ℤ) ≤ v) (hgreatest : v ≤ 10 ^ (20 : ℤ)) :
    Ordinary v :=
  ⟨(zpow_le_zpow_right₀ (by norm_num) (by norm_num)).trans hleast,
    hgreatest.trans (zpow_le_zpow_right₀ (by norm_num) (by norm_num))⟩

/-- Ordinary numbers are moderate, and so they are after scaling. -/
theorem Ordinary.moderate_mul {v factor : ℚ} (h : Ordinary v) (hleast : 10 ^ (-10 : ℤ) ≤ factor)
    (hgreatest : factor ≤ 10 ^ (10 : ℤ)) : Moderate (v * factor) := by
  obtain ⟨hlower, hupper⟩ := h
  have hfactor : 0 ≤ factor := le_trans (by positivity) hleast
  apply Moderate.of_zpow
  · calc (10 : ℚ) ^ (-301 : ℤ) = 10 ^ (-291 : ℤ) * 10 ^ (-10 : ℤ) := by
          rw [← zpow_add₀ (by norm_num)]
          norm_num
      _ ≤ v * factor := mul_le_mul hlower hleast (by positivity) (le_trans (by positivity) hlower)
  · calc v * factor ≤ 10 ^ (291 : ℤ) * 10 ^ (10 : ℤ) :=
          mul_le_mul hupper hgreatest hfactor (by positivity)
      _ = 10 ^ (301 : ℤ) := by
          rw [← zpow_add₀ (by norm_num)]
          norm_num

theorem Ordinary.moderate {v : ℚ} (h : Ordinary v) : Moderate v := by
  have hone : Moderate (v * 1) := h.moderate_mul (by norm_num) (by norm_num)
  rwa [mul_one] at hone

theorem Ordinary.pos {v : ℚ} (h : Ordinary v) : 0 < v := h.moderate.pos

/-- A part of an ordinary number is moderate, if it is not a small one. -/
theorem Ordinary.moderate_of_part {v w : ℚ} (h : Ordinary v) (hleast : v ≤ 10 * w)
    (hgreatest : w ≤ v) : Moderate w := by
  have hpos := h.pos
  have hpart : Moderate (v * (w / v)) := by
    apply h.moderate_mul
    · rw [le_div_iff₀ hpos]
      norm_num
      linarith
    · rw [div_le_iff₀ hpos]
      norm_num
      linarith
  rwa [mul_div_cancel₀ _ hpos.ne'] at hpart

end Binary64

/-! ## Constants -/

/-- The double of a constant. -/
theorem Decimal.approximates_of_magnitude_eq {d : Decimal} {v : ℚ} (hd : d.magnitude = v)
    (h : Binary64.Ordinary v) : d.toBinary64.Approximates 2 d.negative v := by
  subst hd
  exact toBinary64_approximates h.moderate

namespace Quantity

open Binary64 (Ordinary Moderate)

variable {t : Text} {x : Binary64} {k : ℕ} {n : Bool} {v : ℚ}

/-- The text of a constant. -/
theorem Reads.exists_parse_of_magnitude_eq {d : Decimal} (ht : Reads t d) (hd : d.magnitude = v)
    (h : Ordinary v) : ∃ x, parse t = .ok x ∧ x.Approximates 2 d.negative v := by
  subst hd
  exact ht.exists_parse h.moderate

/-! ## Dividing and multiplying by two -/

/-- The factor of a quotient. -/
theorem quotientScale_approximates : quotientScale.Approximates 2 false (10 ^ 10) := by
  have hmagnitude : Decimal.magnitude ⟨false, 1, 10⟩ = 10 ^ 10 := by norm_num [Decimal.magnitude]
  exact Decimal.approximates_of_magnitude_eq hmagnitude (.of_zpow (by norm_num) (by norm_num))

/-- The text of the divisor. -/
theorem parse_two : ∃ x, parse ['2'] = .ok x ∧ x.Approximates 2 false 2 := by
  have hmagnitude : Decimal.magnitude ⟨false, 2, 0⟩ = 2 := by norm_num [Decimal.magnitude]
  have hreads : Reads ['2'] ⟨false, 2, 0⟩ := by decide
  exact hreads.exists_parse_of_magnitude_eq hmagnitude (.of_zpow (by norm_num) (by norm_num))

/-- Halving adds a few errors, from two scaled operands and one division. -/
theorem divide_two_approximates (ht : parse t = .ok x) (h : x.Approximates k n v)
    (hv : Ordinary v) (hk : k ≤ 100) :
    ∃ y : Binary64, divide t ['2'] = .ok (display y) ∧ y.Approximates (k + 15) n (v / 2) := by
  obtain ⟨two, htwo, htwo_near⟩ := parse_two
  have hscale := quotientScale_approximates
  have hnum := h.mul hscale hv.pos.le (by norm_num)
    (hv.moderate_mul (by norm_num) (by norm_num)) (by omega) (by norm_num)
  have hden := htwo_near.mul hscale (by norm_num) (by norm_num)
    (Ordinary.of_zpow (by norm_num) (by norm_num)).moderate (by norm_num) (by norm_num)
  have hcancel : v * 10 ^ 10 / (2 * 10 ^ 10) = v / 2 := by ring
  have hquotient := hnum.div hden (mul_nonneg hv.pos.le (by norm_num)) (by norm_num) (by
    rw [hcancel, div_eq_mul_inv]
    exact hv.moderate_mul (by norm_num) (by norm_num)) (by omega) (by norm_num)
  rw [hcancel] at hquotient
  refine ⟨quotient x two, divide_eq_ok_iff.mpr ⟨x, two, ht, htwo, rfl⟩, ?_⟩
  have hnonzero : two.isZero = false := by
    obtain ⟨rank, rfl, hrank⟩ := htwo_near
    exact beq_eq_false_iff_ne.mpr
      (Binary64.Approximates.rank_ne_zero hrank (by norm_num) (by norm_num))
  rw [quotient, hnonzero]
  simpa [Nat.add_assoc] using hquotient

/-- Doubling adds a few errors, from the factor and one multiplication. -/
theorem multiply_two_approximates (ht : parse t = .ok x) (h : x.Approximates k n v)
    (hv : Moderate (v * 2)) (hk : k ≤ 100) :
    ∃ y : Binary64, multiply t ['2'] = .ok (display y) ∧ y.Approximates (k + 5) n (v * 2) := by
  obtain ⟨two, htwo, htwo_near⟩ := parse_two
  have hnonneg : 0 ≤ v := by linarith [hv.pos]
  have hproduct := h.mul htwo_near hnonneg (by norm_num) hv (by omega) (by norm_num)
  refine ⟨x.mul two, multiply_eq_ok_iff.mpr ⟨x, two, ht, htwo, rfl⟩, ?_⟩
  simpa [Nat.add_assoc] using hproduct

end Quantity

/-! ## Halves of six digits -/

namespace Decimal

/-- The last of the six digits is even, or the first one is a 1, so that the half has six digits. -/
def HasHalf (d : Decimal) : Prop := d.significand % 2 = 0 ∨ d.significand < 200000

/-- A half that has six digits. -/
theorem HasHalf.exists_half {d : Decimal} (h : d.HasHalf) (hd : d.HasDigits significantDigits) :
    ∃ e : Decimal, e.HasDigits significantDigits ∧ e.negative = d.negative ∧
      d.magnitude = e.magnitude * 2 := by
  obtain ⟨hleast, hlt⟩ : 100000 ≤ d.significand ∧ d.significand < 1000000 := hd
  by_cases hone : d.significand < 200000
  · refine ⟨⟨d.negative, 5 * d.significand, d.exponent - 1⟩, ?_, rfl, ?_⟩
    · show 100000 ≤ 5 * d.significand ∧ 5 * d.significand < 1000000
      omega
    · rw [magnitude, magnitude, zpow_sub_one₀ (by norm_num)]
      push_cast
      ring
  · obtain ⟨half, hhalf⟩ : 2 ∣ d.significand := Nat.dvd_of_mod_eq_zero (h.resolve_right hone)
    refine ⟨⟨d.negative, half, d.exponent⟩, ?_, rfl, ?_⟩
    · show 100000 ≤ half ∧ half < 1000000
      omega
    · rw [magnitude, magnitude, hhalf]
      push_cast
      ring

/-- Twice a number between `10 ^ 5` and half of `10 ^ 6` steps, written with six digits. -/
theorem exists_double (n : Bool) {h : ℕ} (j : ℤ) (hleast : 100000 ≤ h) (hgreatest : h ≤ 500000) :
    ∃ d : Decimal, d.HasDigits significantDigits ∧ d.negative = n ∧
      d.magnitude = magnitude ⟨n, h, j⟩ * 2 ∧ d.HasHalf := by
  rcases hgreatest.lt_or_eq with hlt | rfl
  · refine ⟨⟨n, 2 * h, j⟩, ?_, rfl, ?_, .inl (Nat.mul_mod_right 2 h)⟩
    · show 100000 ≤ 2 * h ∧ 2 * h < 1000000
      omega
    · rw [magnitude, magnitude]
      push_cast
      ring
  · -- the double has a digit more, and ends in zeros
    refine ⟨⟨n, 100000, j + 1⟩, (by decide : 100000 ≤ 100000 ∧ 100000 < 1000000), rfl, ?_,
      .inr (by decide : 100000 < 200000)⟩
    rw [magnitude, magnitude, zpow_add_one₀ (by norm_num)]
    push_cast
    ring

end Decimal

namespace Binary64

/-- A double between two powers of ten is displayed with the last digit that belongs there. -/
theorem display_of_decade {n : Bool} {rank : Fin finiteRanks} {j : ℤ}
    (hleast : 10 ^ 5 * 10 ^ j ≤ rankMagnitude rank)
    (hgreatest : rankMagnitude rank ≤ (10 ^ 6 - 1) * 10 ^ j) :
    ∃ h : ℕ, 100000 ≤ h ∧ |(h : ℚ) - rankMagnitude rank / 10 ^ j| ≤ 1 / 2 ∧
      Quantity.display (.finite n rank) = Decimal.generalText ⟨n, h, j⟩ := by
  have hstep : (0 : ℚ) < 10 ^ j := by positivity
  have hrank : rank.val ≠ 0 := by
    intro hzero
    rw [hzero, rankMagnitude_zero] at hleast
    linarith
  have hpos : 0 < rankUnits rank := rankUnits_strictMono (Nat.pos_of_ne_zero hrank)
  have hlast : Decimal.lastPower significantDigits (rankUnits rank) unitsPerOne = j := by
    refine Decimal.lastPower_eq (by decide : 0 < significantDigits) hpos unitsPerOne_pos hleast
      (hgreatest.trans_lt ?_)
    show (10 ^ 6 - 1 : ℚ) * 10 ^ j < 10 ^ 6 * 10 ^ j
    gcongr
    norm_num
  have hclose := Decimal.abs_keptDigits_sub_le significantDigits (rankUnits rank) unitsPerOne_pos
  rw [hlast] at hclose
  have hcarry : Decimal.keptDigits significantDigits (rankUnits rank) unitsPerOne ≠
      10 ^ significantDigits := by
    intro hcarry
    rw [hcarry, significantDigits] at hclose
    have hratio : rankMagnitude rank / 10 ^ j ≤ 10 ^ 6 - 1 := (div_le_iff₀ hstep).mpr hgreatest
    have := (abs_le.mp hclose).2
    rw [rankMagnitude] at hratio
    push_cast at this
    linarith
  refine ⟨Decimal.keptDigits significantDigits (rankUnits rank) unitsPerOne,
    Decimal.le_keptDigits (by decide : 0 < significantDigits) hpos unitsPerOne_pos, hclose, ?_⟩
  rw [Quantity.display, toText_finite hrank, shown_finite hrank, Decimal.nearest_eq,
    if_neg hcarry, hlast]

end Binary64

namespace Quantity

open Binary64 (Ordinary Moderate)

variable {d e : Decimal}

/-- The half of a number, when it has six digits, is displayed. -/
theorem divide_two (hd : d.HasDigits significantDigits) (he : e.HasDigits significantDigits)
    (hsign : e.negative = d.negative) (hhalf : d.magnitude = e.magnitude * 2)
    (h : Ordinary d.magnitude) : divide d.generalText ['2'] = .ok e.generalText := by
  obtain ⟨x, hx, hx_near⟩ := parse_generalText hd h.moderate
  obtain ⟨y, hy, hy_near⟩ := divide_two_approximates hx hx_near h (by norm_num)
  have hvalue : d.magnitude / 2 = e.magnitude := by
    rw [hhalf]
    ring
  rw [hvalue, ← hsign] at hy_near
  rw [hy, hy_near.display_eq he (by norm_num)]

/-- The double of a number, when it has six digits, is displayed. -/
theorem multiply_two (hd : d.HasDigits significantDigits) (he : e.HasDigits significantDigits)
    (hsign : e.negative = d.negative) (hhalf : d.magnitude = e.magnitude * 2)
    (h : Ordinary d.magnitude) : multiply e.generalText ['2'] = .ok d.generalText := by
  have hpos := he.magnitude_pos
  obtain ⟨x, hx, hx_near⟩ :=
    parse_generalText he (h.moderate_of_part (by linarith) (by linarith))
  obtain ⟨y, hy, hy_near⟩ :=
    multiply_two_approximates hx hx_near (hhalf ▸ h.moderate) (by norm_num)
  rw [← hhalf, hsign] at hy_near
  rw [hy, hy_near.display_eq hd (by norm_num)]

/-- **The half of a number that has none of six digits** is rounded up or down. -/
theorem divide_two_odd (hd : d.HasDigits significantDigits) (hnone : ¬ d.HasHalf)
    (h : Ordinary d.magnitude) :
    ∃ half, (2 * half = d.significand + 1 ∨ 2 * half + 1 = d.significand) ∧
      100000 ≤ half ∧ half ≤ 500000 ∧
      divide d.generalText ['2'] = .ok (Decimal.generalText ⟨d.negative, half, d.exponent⟩) := by
  obtain ⟨hodd, hlarge⟩ := not_or.mp hnone
  have hlt : d.significand < 1000000 := hd.2
  obtain ⟨x, hx, hx_near⟩ := parse_generalText hd h.moderate
  obtain ⟨y, hy, rank, rfl, hrank⟩ := divide_two_approximates hx hx_near h (by norm_num)
  have hstep : (0 : ℚ) < 10 ^ d.exponent := by positivity
  set scaled := Binary64.rankMagnitude rank / 10 ^ d.exponent with hscaled
  -- counted in steps, the errors are far below a half
  have hclose : |scaled - d.significand / 2| ≤ 1 / 100 := by
    have hfactor : scaled - d.significand / 2 =
        (Binary64.rankMagnitude rank - d.magnitude / 2) / 10 ^ d.exponent := by
      rw [hscaled, Decimal.magnitude]
      field_simp
    have hmagnitude : d.magnitude ≤ 1000000 * 10 ^ d.exponent := by
      have hcast : (d.significand : ℚ) ≤ 1000000 := by exact_mod_cast hlt.le
      rw [Decimal.magnitude]
      gcongr
    rw [hfactor, abs_div, abs_of_pos hstep, div_le_iff₀ hstep]
    refine le_trans hrank ?_
    push_cast
    linarith
  obtain ⟨hlower, hupper⟩ := abs_le.mp hclose
  have hleast : (200001 : ℚ) ≤ d.significand := by
    have : 200001 ≤ d.significand := by omega
    exact_mod_cast this
  have hgreatest : (d.significand : ℚ) ≤ 999999 := by
    have : d.significand ≤ 999999 := by omega
    exact_mod_cast this
  have hbottom : 10 ^ 5 * 10 ^ d.exponent ≤ Binary64.rankMagnitude rank :=
    (le_div_iff₀ hstep).mp (by linarith)
  have htop : Binary64.rankMagnitude rank ≤ (10 ^ 6 - 1) * 10 ^ d.exponent :=
    (div_le_iff₀ hstep).mp (by linarith)
  obtain ⟨half, hhalf, hnear, hdisplay⟩ :=
    Binary64.display_of_decade (n := d.negative) hbottom htop
  rw [← hscaled] at hnear
  obtain ⟨hdown, hup⟩ := abs_le.mp hnear
  have habove : 2 * half ≤ d.significand + 1 := by
    have : (2 * half : ℚ) < d.significand + 2 := by linarith
    have : 2 * half < d.significand + 2 := by exact_mod_cast this
    omega
  have hbelow : d.significand ≤ 2 * half + 1 := by
    have : (d.significand : ℚ) < 2 * half + 2 := by linarith
    have : d.significand < 2 * half + 2 := by exact_mod_cast this
    omega
  refine ⟨half, by omega, hhalf, by omega, ?_⟩
  rw [hy, hdisplay]

/-! ## Halving and doubling -/

/-- Halving and doubling gives the text back. -/
def Settled (t : Text) : Prop := ∃ half, divide t ['2'] = .ok half ∧ multiply half ['2'] = .ok t

theorem settled_zero : Settled ['0'] :=
  ⟨['0'], eq_ok_of_toOption (by decide +kernel), eq_ok_of_toOption (by decide +kernel)⟩

theorem settled_generalText (hd : d.HasDigits significantDigits) (hhalf : d.HasHalf)
    (h : Ordinary d.magnitude) : Settled d.generalText := by
  obtain ⟨e, he, hsign, hvalue⟩ := hhalf.exists_half hd
  exact ⟨_, divide_two hd he hsign hvalue h, multiply_two hd he hsign hvalue h⟩

/-- **Halving and doubling settles at once.** What it leaves of a number is not changed by it again,
and is the number itself if that has a half of six digits. -/
theorem exists_settled (hd : d.HasDigits significantDigits)
    (hleast : 10 ^ (-290 : ℤ) ≤ d.magnitude) (hgreatest : d.magnitude ≤ 10 ^ (290 : ℤ)) :
    ∃ half doubled, divide d.generalText ['2'] = .ok half ∧ multiply half ['2'] = .ok doubled ∧
      Settled doubled ∧ (d.HasHalf → doubled = d.generalText) := by
  have hbottom : (10 ^ (-290 : ℤ) : ℚ) = 10 * 10 ^ (-291 : ℤ) := by
    rw [← zpow_one_add₀ (by norm_num)]
    norm_num
  have htop : (10 ^ (291 : ℤ) : ℚ) = 10 * 10 ^ (290 : ℤ) := by
    rw [← zpow_one_add₀ (by norm_num)]
    norm_num
  have hordinary : Ordinary d.magnitude :=
    ⟨(zpow_le_zpow_right₀ (by norm_num) (by norm_num)).trans hleast,
      hgreatest.trans (zpow_le_zpow_right₀ (by norm_num) (by norm_num))⟩
  by_cases hhalf : d.HasHalf
  · obtain ⟨half, hdivide, hmultiply⟩ := settled_generalText hd hhalf hordinary
    exact ⟨half, _, hdivide, hmultiply, ⟨half, hdivide, hmultiply⟩, fun _ => rfl⟩
  · obtain ⟨half, hneighbour, hlower, hupper, hdivide⟩ := divide_two_odd hd hhalf hordinary
    obtain ⟨e, he, hsign, hvalue, he_half⟩ :=
      Decimal.exists_double d.negative d.exponent hlower hupper
    -- the double is a step away at most, so it is ordinary, too
    have he_ordinary : Ordinary e.magnitude := by
      have hbelow : d.magnitude ≤ 10 * e.magnitude := by
        have hcast : (d.significand : ℚ) ≤ 20 * half := by
          have : d.significand ≤ 20 * half := by omega
          exact_mod_cast this
        calc d.magnitude ≤ 20 * half * 10 ^ d.exponent := by
              unfold Decimal.magnitude
              gcongr
          _ = 10 * e.magnitude := by
              rw [hvalue, Decimal.magnitude]
              ring
      have habove : e.magnitude ≤ 10 * d.magnitude := by
        have hcast : (half * 2 : ℚ) ≤ 10 * d.significand := by
          have : half * 2 ≤ 10 * d.significand := by omega
          exact_mod_cast this
        calc e.magnitude = half * 2 * 10 ^ d.exponent := by
              rw [hvalue, Decimal.magnitude]
              ring
          _ ≤ 10 * d.significand * 10 ^ d.exponent := by gcongr
          _ = 10 * d.magnitude := mul_assoc _ _ _
      constructor
      · refine le_of_mul_le_mul_left ?_ (by norm_num : (0 : ℚ) < 10)
        exact hbottom.symm.trans_le (hleast.trans hbelow)
      · calc e.magnitude ≤ 10 * d.magnitude := habove
          _ ≤ 10 * 10 ^ (290 : ℤ) := by gcongr
          _ = 10 ^ (291 : ℤ) := htop.symm
    have he_digits : Decimal.HasDigits significantDigits ⟨d.negative, half, d.exponent⟩ :=
      ⟨hlower, hupper.trans_lt (by decide)⟩
    exact ⟨_, e.generalText, hdivide, multiply_two he he_digits hsign.symm hvalue he_ordinary,
      settled_generalText he he_half he_ordinary, fun h => absurd h hhalf⟩

end Quantity

end WaveGen
