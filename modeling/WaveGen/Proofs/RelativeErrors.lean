import Mathlib.Tactic.FieldSimp
import WaveGen.Proofs.DecimalRounding

/-!
# Relative errors

Every operation rounds once, to the nearest double. As long as a result is neither very small nor
very large, rounding moves it by less than one part in `10 ^ 15`. The errors of the operands add up,
so a few operations are off what they would give without rounding by a few parts in `10 ^ 15`.

* `Near` — off by so many parts in `10 ^ 15`; how this adds up in products and quotients.
* `Binary64.ofUnits_near` — the error of one rounding.
* `Binary64.Approximates` — a double that stands for a number, and how the operations keep it so.
-/

namespace WaveGen

/-! ## Errors -/

/-- `x` is off the number `v`, which is not negative, by at most `k` parts in `10 ^ 15`. -/
def Near (k : ℕ) (x v : ℚ) : Prop := |x - v| ≤ k * v / 10 ^ 15

namespace Near

variable {j k : ℕ} {x y v w : ℚ}

/-- Small errors change a number by less than its half. -/
theorem bounds (h : Near k x v) (hv : 0 ≤ v) (hk : k ≤ 1000) : v / 2 ≤ x ∧ x ≤ 2 * v := by
  have hcast : (k : ℚ) ≤ 1000 := by exact_mod_cast hk
  have hsmall : k * v / 10 ^ 15 ≤ v / 2 := by
    rw [div_le_iff₀ (by norm_num)]
    nlinarith
  obtain ⟨hlower, hupper⟩ := abs_le.mp h
  constructor <;> linarith

/-- The product of two small errors is less than one part. -/
theorem error_mul_le (hj : j ≤ 1000) (hk : k ≤ 1000) (hv : 0 ≤ v) :
    (j / 10 ^ 15 : ℚ) * (k * v / 10 ^ 15) ≤ v / 10 ^ 15 := by
  have hj' : (j : ℚ) ≤ 1000 := by exact_mod_cast hj
  have hk' : (k : ℚ) ≤ 1000 := by exact_mod_cast hk
  have hone : (j / 10 ^ 15 : ℚ) * k ≤ 1 := by
    calc (j / 10 ^ 15 : ℚ) * k ≤ 1000 / 10 ^ 15 * 1000 := by gcongr
      _ ≤ 1 := by norm_num
  calc (j / 10 ^ 15 : ℚ) * (k * v / 10 ^ 15) = j / 10 ^ 15 * k * (v / 10 ^ 15) := by ring
    _ ≤ 1 * (v / 10 ^ 15) := by gcongr
    _ = v / 10 ^ 15 := one_mul _

/-- Errors add up, and one part is room for their product. -/
theorem trans (hx : Near j x y) (hy : Near k y v) (hv : 0 ≤ v) (hj : j ≤ 1000) (hk : k ≤ 1000) :
    Near (j + k + 1) x v := by
  have hupper : y ≤ v + k * v / 10 ^ 15 := by
    have := (abs_le.mp hy).2
    linarith
  have hproduct := error_mul_le hj hk hv
  calc |x - v| ≤ |x - y| + |y - v| := abs_sub_le x y v
    _ ≤ j * y / 10 ^ 15 + k * v / 10 ^ 15 := add_le_add hx hy
    _ ≤ j * (v + k * v / 10 ^ 15) / 10 ^ 15 + k * v / 10 ^ 15 := by gcongr
    _ = (j + k) * v / 10 ^ 15 + j / 10 ^ 15 * (k * v / 10 ^ 15) := by ring
    _ ≤ (j + k) * v / 10 ^ 15 + v / 10 ^ 15 := by gcongr
    _ = ((j + k + 1 : ℕ) : ℚ) * v / 10 ^ 15 := by push_cast; ring

theorem mul (hx : Near j x v) (hy : Near k y w) (hv : 0 ≤ v) (hw : 0 ≤ w) (hj : j ≤ 1000)
    (hk : k ≤ 1000) : Near (j + k + 1) (x * y) (v * w) := by
  have hproduct := error_mul_le hj hk (mul_nonneg hv hw)
  have hcross : |x - v| * |y - w| ≤ j * v / 10 ^ 15 * (k * w / 10 ^ 15) :=
    mul_le_mul hx hy (abs_nonneg _) ((abs_nonneg _).trans hx)
  calc |x * y - v * w| = |(x - v) * (y - w) + (x - v) * w + v * (y - w)| := by congr 1; ring
    _ ≤ |x - v| * |y - w| + |x - v| * w + v * |y - w| := by
      refine (abs_add_three _ _ _).trans_eq ?_
      rw [abs_mul, abs_mul, abs_mul, abs_of_nonneg hv, abs_of_nonneg hw]
    _ ≤ j * v / 10 ^ 15 * (k * w / 10 ^ 15) + j * v / 10 ^ 15 * w + v * (k * w / 10 ^ 15) :=
      add_le_add (add_le_add hcross (mul_le_mul_of_nonneg_right hx hw))
        (mul_le_mul_of_nonneg_left hy hv)
    _ = j / 10 ^ 15 * (k * (v * w) / 10 ^ 15) + (j + k) * (v * w) / 10 ^ 15 := by ring
    _ ≤ v * w / 10 ^ 15 + (j + k) * (v * w) / 10 ^ 15 := by gcongr
    _ = ((j + k + 1 : ℕ) : ℚ) * (v * w) / 10 ^ 15 := by push_cast; ring

theorem div (hx : Near j x v) (hy : Near k y w) (hv : 0 ≤ v) (hw : 0 < w) (hj : j ≤ 400)
    (hk : k ≤ 400) : Near (j + k + 1) (x / y) (v / w) := by
  have hypos : 0 < y := lt_of_lt_of_le (by positivity) (hy.bounds hw.le (by omega)).1
  -- what the denominator may lose is no more than the one part that is left over
  have hden : (j + k) * w ≤ (j + k + 1) * y := by
    have hloss := error_mul_le (by omega : j + k + 1 ≤ 1000) (by omega : k ≤ 1000) hw.le
    push_cast at hloss
    have hlower : w - k * w / 10 ^ 15 ≤ y := by
      have := (abs_le.mp hy).1
      linarith
    have hscaled : (j + k + 1) * (w - k * w / 10 ^ 15) ≤ (j + k + 1) * y := by gcongr
    linarith
  have hnum : |x * w - y * v| ≤ (j + k) * (v * w) / 10 ^ 15 := by
    calc |x * w - y * v| = |(x - v) * w - v * (y - w)| := by congr 1; ring
      _ ≤ |x - v| * w + v * |y - w| := by
        refine (abs_sub _ _).trans_eq ?_
        rw [abs_mul, abs_mul, abs_of_nonneg hv, abs_of_pos hw]
      _ ≤ j * v / 10 ^ 15 * w + v * (k * w / 10 ^ 15) :=
        add_le_add (mul_le_mul_of_nonneg_right hx hw.le) (mul_le_mul_of_nonneg_left hy hv)
      _ = (j + k) * (v * w) / 10 ^ 15 := by ring
  rw [Near, div_sub_div _ _ hypos.ne' hw.ne', abs_div, abs_of_pos (mul_pos hypos hw),
    div_le_iff₀ (mul_pos hypos hw)]
  calc |x * w - y * v| ≤ (j + k) * (v * w) / 10 ^ 15 := hnum
    _ = (j + k) * w * (v / 10 ^ 15) := by ring
    _ ≤ (j + k + 1) * y * (v / 10 ^ 15) := by gcongr
    _ = ((j + k + 1 : ℕ) : ℚ) * (v / w) / 10 ^ 15 * (y * w) := by
      push_cast
      field_simp

end Near

/-! ## Rounding -/

/-- The rounded quotient is off by a half at most. -/
theorem abs_roundDiv_sub_le (num : ℕ) {den : ℕ} (hden : 0 < den) :
    |(roundDiv num den : ℚ) - num / den| ≤ 1 / 2 := by
  rw [abs_le]
  constructor
  · rcases (@roundDiv_le_iff num den _ hden).mp le_rfl with hbelow | ⟨hmiddle, -⟩ <;> linarith
  · have hnonneg : (0 : ℚ) ≤ num / den := by positivity
    by_contra! hlarge
    have hpos : 1 ≤ roundDiv num den := by
      by_contra! hzero
      rw [Nat.lt_one_iff.mp hzero] at hlarge
      norm_num at hlarge
      linarith
    -- a quotient below the middle would have been rounded down
    have hdown : roundDiv num den ≤ roundDiv num den - 1 := by
      refine (roundDiv_le_iff hden).mpr (.inl ?_)
      rw [Nat.cast_sub hpos]
      push_cast
      linarith
    omega

namespace Binary64

/-- The magnitude of a rank. -/
def rankMagnitude (rank : ℕ) : ℚ := rankUnits rank / unitsPerOne

theorem unitsPerOne_cast_pos : (0 : ℚ) < unitsPerOne := Nat.cast_pos.mpr unitsPerOne_pos

/-- The magnitude at the `k`-th place of a run of ranks, or at the run's end. -/
theorem rankUnits_run {shift k : ℕ} (hk : k ≤ 2 ^ 53) (hrun : shift = 0 ∨ 2 ^ 52 ≤ k) :
    rankUnits (shift * 2 ^ 52 + k) = k * 2 ^ shift := by
  unfold rankUnits
  simp only [Nat.pow_eq]
  rcases hk.lt_or_eq with hinside | rfl
  · have hquotient : (shift * 2 ^ 52 + k) / 2 ^ 52 - 1 = shift := by omega
    rw [hquotient, Nat.add_sub_cancel_left]
  · -- the end of a run is the start of the next one
    have hquotient : (shift * 2 ^ 52 + 2 ^ 53) / 2 ^ 52 - 1 = shift + 1 := by omega
    have hplace : shift * 2 ^ 52 + 2 ^ 53 - (shift + 1) * 2 ^ 52 = 2 ^ 52 := by omega
    rw [hquotient, hplace, pow_succ 2 shift]
    ring

/-- **The error of rounding to a double** is half a unit, or half a step of 53 binary digits. -/
theorem abs_rankUnits_nearestRank_sub_le_max (num : ℕ) {den : ℕ} (hden : 0 < den) :
    |(rankUnits (nearestRank num den) : ℚ) - num / den| ≤
      max (1 / 2 : ℚ) (num / den / 2 ^ 53 : ℚ) := by
  obtain ⟨shift, hrank, htop, hbottom⟩ := nearestRank_spec num hden
  set k := roundDiv num (den * 2 ^ shift) with hk
  have hscaled : ((num : ℚ) / (den * 2 ^ shift : ℕ)) = num / den / 2 ^ shift := by
    push_cast
    rw [div_div]
  have hstep : (0 : ℚ) < 2 ^ shift := by positivity
  have hle : k ≤ 2 ^ 53 := by
    apply roundDiv_le_of_le (by positivity)
    rw [hscaled, div_le_iff₀ hstep]
    exact_mod_cast htop.le
  have hrun : shift = 0 ∨ 2 ^ 52 ≤ k := by
    rcases Nat.eq_zero_or_pos shift with hzero | hpos
    · exact .inl hzero
    · right
      apply le_roundDiv_of_le (by positivity)
      rw [hscaled, le_div_iff₀ hstep]
      exact_mod_cast hbottom hpos
  have hhalf := abs_roundDiv_sub_le num (by positivity : 0 < den * 2 ^ shift)
  rw [hscaled, ← hk] at hhalf
  have hunits : (rankUnits (nearestRank num den) : ℚ) = k * 2 ^ shift := by
    rw [hrank, rankUnits_run hle hrun]
    push_cast
    rfl
  have hfactor : (k : ℚ) * 2 ^ shift - num / den = (k - num / den / 2 ^ shift) * 2 ^ shift := by
    field_simp
  have herror : |(k : ℚ) * 2 ^ shift - num / den| ≤ 1 / 2 * 2 ^ shift := by
    rw [hfactor, abs_mul, abs_of_pos hstep]
    gcongr
  rw [hunits]
  rcases Nat.eq_zero_or_pos shift with hzero | hpos
  · refine herror.trans (le_max_of_le_left ?_)
    rw [hzero, pow_zero, mul_one]
  · refine herror.trans (le_max_of_le_right ?_)
    calc (1 / 2 * 2 ^ shift : ℚ) = 2 ^ 52 * 2 ^ shift / 2 ^ 53 := by ring
      _ ≤ num / den / 2 ^ 53 := by
        gcongr
        exact hbottom hpos

/-- From the least magnitude on whose step is not wider than the numbers below it ask for, the error
is relative. -/
theorem abs_rankUnits_nearestRank_sub_le {num den : ℕ} (hden : 0 < den)
    (h : (2 ^ 52 : ℚ) ≤ num / den) :
    |(rankUnits (nearestRank num den) : ℚ) - num / den| ≤ num / den / 2 ^ 53 := by
  refine (abs_rankUnits_nearestRank_sub_le_max num hden).trans (max_le ?_ le_rfl)
  rw [le_div_iff₀ (by positivity)]
  linarith

/-- Below that magnitude whole units are doubles themselves, so the error is relative for all of
them. -/
theorem abs_rankUnits_nearestRank_sub_le_of_whole {num den k : ℕ} (hden : 0 < den)
    (h : (num / den : ℚ) = k) :
    |(rankUnits (nearestRank num den) : ℚ) - k| ≤ k / 2 ^ 53 := by
  by_cases hlarge : (2 ^ 52 : ℚ) ≤ num / den
  · have herror := abs_rankUnits_nearestRank_sub_le hden hlarge
    rwa [h] at herror
  · obtain ⟨shift, hrank, htop, hbottom⟩ := nearestRank_spec num hden
    have hshift : shift = 0 := by
      by_contra hpos
      have hone : (1 : ℚ) ≤ 2 ^ shift := one_le_pow₀ (by norm_num)
      have := hbottom (Nat.pos_of_ne_zero hpos)
      linarith
    have hround : roundDiv num den = k :=
      le_antisymm (roundDiv_le_of_le hden h.le) (le_roundDiv_of_le hden h.ge)
    rw [hshift, pow_zero, Nat.mul_one, hround] at hrank
    have hk : k ≤ 2 ^ 53 := by
      rw [h, hshift, pow_zero, mul_one] at htop
      exact_mod_cast htop.le
    rw [hrank, rankUnits_run hk (.inl rfl), pow_zero, Nat.mul_one, sub_self, abs_zero]
    positivity

/-- Doubles have all their digits at magnitudes from `2 ^ -moderateBits` to `2 ^ moderateBits`, and
well beyond. -/
@[irreducible] def moderateBits : ℕ := 1000

/-- The numbers, signs aside, at which doubles have all their digits, with room for errors. -/
def Moderate (v : ℚ) : Prop := (2 ^ moderateBits)⁻¹ ≤ v ∧ v ≤ 2 ^ moderateBits

theorem Moderate.pos {v : ℚ} (h : Moderate v) : 0 < v := lt_of_lt_of_le (by positivity) h.1

/-- A moderate number, give or take its half, is in the range of the doubles with all their
digits. -/
theorem nearestRank_of_moderate {num den : ℕ} {v w : ℚ} (hden : 0 < den)
    (hunits : (num / den : ℚ) = w * unitsPerOne) (hv : Moderate v) (hlower : v / 2 ≤ w)
    (hupper : w ≤ 2 * v) :
    (2 ^ 52 : ℚ) ≤ num / den ∧ nearestRank num den < finiteRanks := by
  have hunit : 2 ^ 52 * (2 * 2 ^ moderateBits) ≤ unitsPerOne := by decide +kernel
  have hbound : nearestRank (2 * 2 ^ moderateBits * unitsPerOne) 1 < finiteRanks := by
    decide +kernel
  generalize unitsPerOne = units at *
  constructor
  · have hcast : (2 ^ 52 * (2 * 2 ^ moderateBits) : ℚ) ≤ units := by exact_mod_cast hunit
    have hpos : 0 ≤ w := by linarith [hv.pos]
    have hhalf : (2 * 2 ^ moderateBits : ℚ)⁻¹ ≤ w := by
      rw [mul_inv]
      linarith [hv.1]
    rw [hunits]
    calc (2 ^ 52 : ℚ) = (2 * 2 ^ moderateBits)⁻¹ * (2 ^ 52 * (2 * 2 ^ moderateBits)) := by
          field_simp
      _ ≤ w * units := by gcongr
  · refine (nearestRank_mono hden one_pos ?_).trans_lt hbound
    have hw : w ≤ 2 * 2 ^ moderateBits := by linarith [hv.2]
    rw [hunits, Nat.cast_one, div_one]
    push_cast
    gcongr

/-- What is rounded with 52 binary digits is off by less than one part in `10 ^ 15`. -/
theorem near_nearestRank {num den : ℕ} {w : ℚ} (hunits : (num / den : ℚ) = w * unitsPerOne)
    (hround : |(rankUnits (nearestRank num den) : ℚ) - num / den| ≤ num / den / 2 ^ 52) :
    Near 1 (rankMagnitude (nearestRank num den)) w := by
  have hnonneg : (0 : ℚ) ≤ num / den := by positivity
  have hone : (0 : ℚ) < unitsPerOne := unitsPerOne_cast_pos
  unfold Near rankMagnitude
  generalize (unitsPerOne : ℚ) = units at *
  generalize (rankUnits (nearestRank num den) : ℚ) = rounded at *
  have hfactor : rounded / units - w = (rounded - w * units) / units := by field_simp
  rw [hunits] at hround hnonneg
  rw [hfactor, abs_div, abs_of_pos hone, div_le_iff₀ hone]
  calc |rounded - w * units| ≤ w * units / 2 ^ 52 := hround
    _ ≤ w * units / 10 ^ 15 := by gcongr; norm_num
    _ = (1 : ℕ) * w / 10 ^ 15 * units := by push_cast; ring

/-- What is off a moderate number by a small error is rounded to a finite double, and is off by two
more parts in `10 ^ 15` then. -/
theorem ofUnits_near (n : Bool) {num den k : ℕ} {v w : ℚ} (hden : 0 < den)
    (hunits : (num / den : ℚ) = w * unitsPerOne) (hw : Near k w v) (hv : Moderate v)
    (hk : k ≤ 1000) :
    ∃ rank, ofUnits n num den = .finite n rank ∧ Near (k + 2) (rankMagnitude rank) v := by
  obtain ⟨hlower, hupper⟩ := hw.bounds hv.pos.le hk
  obtain ⟨hlow, hfits⟩ := nearestRank_of_moderate hden hunits hv hlower hupper
  have hround := (abs_rankUnits_nearestRank_sub_le hden hlow).trans
    (div_le_div_of_nonneg_left (by positivity) (by positivity) (by norm_num : (2 : ℚ) ^ 52 ≤ 2 ^ 53))
  have hsum := (near_nearestRank hunits hround).trans hw hv.pos.le (by norm_num) hk
  rw [Nat.add_comm 1 k] at hsum
  exact ⟨⟨nearestRank num den, hfits⟩, ofUnits_of_lt n hfits, hsum⟩

/-! ## Values -/

theorem rankMagnitude_zero : rankMagnitude 0 = 0 := by
  have hzero : rankUnits 0 = 0 := by decide
  rw [rankMagnitude, hzero, Nat.cast_zero, zero_div]

theorem rankMagnitude_nonneg (rank : ℕ) : 0 ≤ rankMagnitude rank :=
  div_nonneg (Nat.cast_nonneg _) (Nat.cast_nonneg _)

theorem rankUnits_eq (rank : ℕ) : (rankUnits rank : ℚ) = rankMagnitude rank * unitsPerOne := by
  rw [rankMagnitude, div_mul_cancel₀ _ unitsPerOne_cast_pos.ne']

/-- The number that a finite double stands for. -/
def value : Binary64 → ℚ
  | .finite negative rank => if negative then -rankMagnitude rank else rankMagnitude rank
  | _ => 0

theorem value_true (rank : Fin finiteRanks) : (finite true rank).value = -rankMagnitude rank := rfl

theorem value_false (rank : Fin finiteRanks) : (finite false rank).value = rankMagnitude rank := rfl

theorem abs_value (n : Bool) (rank : Fin finiteRanks) :
    |(finite n rank).value| = rankMagnitude rank := by
  have hnonneg := rankMagnitude_nonneg rank
  cases n with
  | false => rw [value_false, abs_of_nonneg hnonneg]
  | true => rw [value_true, abs_neg, abs_of_nonneg hnonneg]

theorem rankMagnitude_eq_zero_iff {rank : ℕ} : rankMagnitude rank = 0 ↔ rank = 0 := by
  have hzero : rankUnits 0 = 0 := by decide
  rw [rankMagnitude, div_eq_zero_iff, or_iff_left unitsPerOne_cast_pos.ne', Nat.cast_eq_zero]
  conv_lhs => rw [← hzero]
  exact rankUnits_strictMono.injective.eq_iff

theorem rankMagnitude_pos {rank : ℕ} (h : rank ≠ 0) : 0 < rankMagnitude rank :=
  lt_of_le_of_ne (rankMagnitude_nonneg rank) (Ne.symm (mt rankMagnitude_eq_zero_iff.mp h))

theorem value_eq_zero_iff {negative : Bool} {rank : Fin finiteRanks} :
    (finite negative rank).value = 0 ↔ rank.val = 0 := by
  rw [← abs_eq_zero, abs_value, rankMagnitude_eq_zero_iff]

/-! ## Approximations -/

/-- The double is finite, has this sign, and is off `v` by at most `k` parts in `10 ^ 15`. -/
def Approximates (x : Binary64) (k : ℕ) (n : Bool) (v : ℚ) : Prop :=
  ∃ rank, x = .finite n rank ∧ Near k (rankMagnitude rank) v

variable {x y : Binary64} {j k : ℕ} {n m : Bool} {v w : ℚ}

theorem Approximates.isFinite (h : Approximates x k n v) : x.isFinite = true := by
  obtain ⟨rank, rfl, -⟩ := h
  rfl

theorem Approximates.mul (hx : Approximates x j n v) (hy : Approximates y k m w) (hv : 0 ≤ v)
    (hw : 0 ≤ w) (h : Moderate (v * w)) (hj : j ≤ 400) (hk : k ≤ 400) :
    Approximates (x.mul y) (j + k + 3) (n != m) (v * w) := by
  obtain ⟨a, rfl, ha⟩ := hx
  obtain ⟨b, rfl, hb⟩ := hy
  have hone : (unitsPerOne : ℚ) ≠ 0 := unitsPerOne_cast_pos.ne'
  rw [mul_finite]
  refine ofUnits_near _ unitsPerOne_pos ?_ (ha.mul hb hv hw (by omega) (by omega)) h (by omega)
  rw [Nat.cast_mul, rankUnits_eq, rankUnits_eq]
  generalize (unitsPerOne : ℚ) = units at *
  field_simp

theorem Approximates.div (hx : Approximates x j n v) (hy : Approximates y k m w) (hv : 0 ≤ v)
    (hw : 0 < w) (h : Moderate (v / w)) (hj : j ≤ 400) (hk : k ≤ 400) :
    Approximates (x.div y) (j + k + 3) (n != m) (v / w) := by
  obtain ⟨a, rfl, ha⟩ := hx
  obtain ⟨b, rfl, hb⟩ := hy
  have hbpos : 0 < rankMagnitude b := by linarith [(hb.bounds hw.le (by omega)).1]
  have hb0 : b.val ≠ 0 := by
    intro hzero
    rw [hzero, rankMagnitude_zero] at hbpos
    exact lt_irrefl _ hbpos
  rw [div_finite _ _ _ hb0]
  refine ofUnits_near _ (rankUnits_strictMono (Nat.pos_of_ne_zero hb0)) ?_
    (ha.div hb hv hw hj hk) h (by omega)
  have hone : (0 : ℚ) < unitsPerOne := unitsPerOne_cast_pos
  rw [Nat.cast_mul, rankUnits_eq, rankUnits_eq]
  generalize (unitsPerOne : ℚ) = units at *
  field_simp

/-- A difference of numbers that are not close to one another. -/
theorem Approximates.sub (hx : Approximates x j false v) (hy : Approximates y k false w)
    (hvw : v < w) (hgap : w ≤ 3 * (w - v)) (h : Moderate (w - v)) (hj : j ≤ 100)
    (hk : k ≤ 100) : Approximates (x.sub y) (3 * (j + k) + 2) true (w - v) := by
  obtain ⟨a, rfl, ha⟩ := hx
  obtain ⟨b, rfl, hb⟩ := hy
  -- the errors are small against both numbers, and so against their difference
  have hnear : Near (3 * (j + k)) (rankMagnitude b - rankMagnitude a) (w - v) := by
    have hj0 : (0 : ℚ) ≤ j := Nat.cast_nonneg j
    have hk0 : (0 : ℚ) ≤ k := Nat.cast_nonneg k
    calc |rankMagnitude b - rankMagnitude a - (w - v)|
        = |(rankMagnitude b - w) - (rankMagnitude a - v)| := by congr 1; ring
      _ ≤ |rankMagnitude b - w| + |rankMagnitude a - v| := abs_sub _ _
      _ ≤ k * w / 10 ^ 15 + j * v / 10 ^ 15 := add_le_add hb ha
      _ ≤ k * w / 10 ^ 15 + j * w / 10 ^ 15 := by gcongr
      _ = (j + k) * w / 10 ^ 15 := by ring
      _ ≤ (j + k) * (3 * (w - v)) / 10 ^ 15 := by gcongr
      _ = (3 * (j + k) : ℕ) * (w - v) / 10 ^ 15 := by push_cast; ring
  have hpos : 0 < rankMagnitude b - rankMagnitude a := by
    have := (hnear.bounds h.pos.le (by omega)).1
    linarith [h.pos]
  have hlt : rankUnits a < rankUnits b := by
    have hunits : (rankUnits a : ℚ) < rankUnits b := by
      rw [rankUnits_eq, rankUnits_eq]
      exact mul_lt_mul_of_pos_right (by linarith) unitsPerOne_cast_pos
    exact_mod_cast hunits
  have hsub : (Binary64.finite false a).sub (.finite false b) =
      ofUnits true (rankUnits b - rankUnits a) 1 := by
    show add (.finite false a) (.finite true b) = _
    rw [add, if_neg (by decide), if_neg hlt.ne, if_neg (not_lt.mpr hlt.le)]
  rw [hsub]
  refine ofUnits_near _ one_pos ?_ hnear h (by omega)
  rw [Nat.cast_sub hlt.le, rankUnits_eq, rankUnits_eq, Nat.cast_one, div_one, sub_mul]

end Binary64

/-! ## Reading -/

namespace Decimal

/-- A number that is not too small has its point within the reach of the doubles. -/
theorem neg_reach_le_top {d : Decimal} (h : 10 ^ (-reach) ≤ d.magnitude) : -reach ≤ d.top := by
  have hpowers := h.trans_lt d.magnitude_lt
  exact ((zpow_lt_zpow_iff_right₀ (by norm_num : (1 : ℚ) < 10)).mp hpowers).le

/-- A moderate number is within the reach of the doubles. -/
theorem reach_of_moderate {d : Decimal} (hd : 0 < d.significand)
    (h : Binary64.Moderate d.magnitude) : -reach ≤ d.top ∧ d.top ≤ reach := by
  have hpower : (2 ^ Binary64.moderateBits : ℚ) < 10 ^ reach := by
    have hnat : 2 ^ Binary64.moderateBits < 10 ^ 400 := by decide +kernel
    show (2 ^ Binary64.moderateBits : ℚ) < 10 ^ (400 : ℤ)
    exact_mod_cast hnat
  constructor
  · apply neg_reach_le_top
    rw [zpow_neg]
    exact (inv_anti₀ (by positivity) hpower.le).trans h.1
  · have habove : (10 : ℚ) ^ (d.top - 1) < 10 ^ reach :=
      ((le_magnitude hd).trans h.2).trans_lt hpower
    have := (zpow_lt_zpow_iff_right₀ (by norm_num : (1 : ℚ) < 10)).mp habove
    omega

/-- **Reading a decimal number** is off by two parts in `10 ^ 15` at most. -/
theorem toBinary64_approximates {d : Decimal} (h : Binary64.Moderate d.magnitude) :
    d.toBinary64.Approximates 2 d.negative d.magnitude := by
  have hd : 0 < d.significand := by
    by_contra hzero
    have hpos := h.pos
    rw [magnitude, Nat.eq_zero_of_not_pos hzero, Nat.cast_zero, zero_mul] at hpos
    exact lt_irrefl _ hpos
  obtain ⟨hleast, hgreatest⟩ := reach_of_moderate hd h
  rw [toBinary64_of_reach hd hleast hgreatest]
  have hexact : Near 0 d.magnitude d.magnitude := by simp [Near]
  exact Binary64.ofUnits_near d.negative (by positivity) d.units_ratio hexact h (by norm_num)

end Decimal

end WaveGen
