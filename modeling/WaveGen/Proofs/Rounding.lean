import Mathlib.Algebra.Order.Field.Power
import Mathlib.Data.Rat.Cast.Order
import Mathlib.Tactic.Linarith
import Mathlib.Tactic.Positivity
import Mathlib.Tactic.Ring
import WaveGen.Binary64

/-!
# Rounding keeps order

A double is found by rounding an exact ratio, and of two ratios the smaller one is never rounded to
the larger double. So products, quotients and differences of bounded numbers are bounded by what the
bounds themselves give, and no estimate of an error is needed.

* `roundDiv_le_iff` — rounding to a whole number, by comparison with the middles.
* `Binary64.nearestRank_mono` — rounding to a double keeps order.
* `Binary64.AtMost` — the order of magnitudes, and how the operations respect it.
-/

namespace WaveGen

/-- **Rounding by comparison**: the rounded quotient is at most `k` when the quotient lies below the
middle between `k` and the next number, or on it and `k` is even. -/
theorem roundDiv_le_iff {num den k : ℕ} (hden : 0 < den) :
    roundDiv num den ≤ k ↔
      (num / den : ℚ) < k + 1 / 2 ∨ (num / den : ℚ) = k + 1 / 2 ∧ k % 2 = 0 := by
  have hq : (0 : ℚ) < den := by exact_mod_cast hden
  have hlt : (num / den : ℚ) < k + 1 / 2 ↔ 2 * num < den * (2 * k + 1) := by
    rw [div_lt_iff₀ hq, ← @Nat.cast_lt ℚ]
    push_cast
    constructor <;> intro h <;> linarith
  have heq : (num / den : ℚ) = k + 1 / 2 ↔ 2 * num = den * (2 * k + 1) := by
    rw [div_eq_iff hq.ne', ← @Nat.cast_inj ℚ]
    push_cast
    constructor <;> intro h <;> linarith
  rw [hlt, heq]
  have hdivision : den * (num / den) + num % den = num := Nat.div_add_mod num den
  have hrest : num % den < den := Nat.mod_lt num hden
  unfold roundDiv
  dsimp only
  generalize num / den = q at *
  generalize num % den = r at *
  subst hdivision
  rcases Nat.lt_trichotomy k q with hk | rfl | hk
  · have hgap : den * (2 * k + 1) + den ≤ 2 * (den * q) := by
      calc den * (2 * k + 1) + den = den * (2 * (k + 1)) := by ring
        _ ≤ den * (2 * q) := Nat.mul_le_mul_left den (by omega)
        _ = 2 * (den * q) := by ring
    split <;> omega
  · have hmiddle : den * (2 * k + 1) = 2 * (den * k) + den := by ring
    split <;> omega
  · have hgap : 2 * (den * q) + 3 * den ≤ den * (2 * k + 1) := by
      calc 2 * (den * q) + 3 * den = den * (2 * (q + 1) + 1) := by ring
        _ ≤ den * (2 * k + 1) := Nat.mul_le_mul_left den (by omega)
    split <;> omega

/-- Rounding keeps order. -/
theorem roundDiv_mono {num den num' den' : ℕ} (hden : 0 < den) (hden' : 0 < den')
    (h : (num / den : ℚ) ≤ num' / den') : roundDiv num den ≤ roundDiv num' den' := by
  rw [roundDiv_le_iff hden]
  rcases (roundDiv_le_iff hden').mp le_rfl with hbelow | ⟨hmiddle, heven⟩
  · exact .inl (h.trans_lt hbelow)
  · rcases (h.trans_eq hmiddle).lt_or_eq with hlt | heq
    · exact .inl hlt
    · exact .inr ⟨heq, heven⟩

theorem roundDiv_le_of_le {num den k : ℕ} (hden : 0 < den) (h : (num / den : ℚ) ≤ k) :
    roundDiv num den ≤ k :=
  (roundDiv_le_iff hden).mpr (.inl (by linarith))

theorem le_roundDiv_of_le {num den k : ℕ} (hden : 0 < den) (h : (k : ℚ) ≤ num / den) :
    k ≤ roundDiv num den := by
  by_contra! hlt
  rcases (roundDiv_le_iff hden).mp (Nat.le_sub_one_of_lt hlt) with hbelow | ⟨hmiddle, -⟩
  all_goals
    have hpos : 1 ≤ k := by omega
    push_cast [Nat.cast_sub hpos] at *
    linarith

/-- A whole number is at most a ratio when it is at most the ratio's whole part. -/
theorem natCast_le_div_iff {num den k : ℕ} (hden : 0 < den) :
    (k : ℚ) ≤ num / den ↔ k ≤ num / den := by
  rw [le_div_iff₀ (by exact_mod_cast hden), Nat.le_div_iff_mul_le hden]
  exact_mod_cast Iff.rfl

namespace Binary64

/-! ## Ranks -/

/-- From one rank to the next the magnitude grows by a power of two. -/
theorem rankUnits_succ (r : ℕ) : rankUnits (r + 1) = rankUnits r + 2 ^ (r / 2 ^ 52 - 1) := by
  unfold rankUnits
  simp only [Nat.pow_eq]
  have hrank : 2 ^ 52 * (r / 2 ^ 52) + r % 2 ^ 52 = r := Nat.div_add_mod r (2 ^ 52)
  by_cases hnext : r % 2 ^ 52 + 1 = 2 ^ 52
  · -- the next rank is the first one of a run, whose step is twice the step before it
    have hquotient : (r + 1) / 2 ^ 52 = r / 2 ^ 52 + 1 := by omega
    rw [hquotient]
    cases hshift : r / 2 ^ 52 with
    | zero => simp
    | succ shift =>
      have hr : r + 1 - (shift + 1) * 2 ^ 52 = 2 ^ 52 := by omega
      have hr' : r - shift * 2 ^ 52 = 2 * 2 ^ 52 - 1 := by omega
      rw [Nat.add_sub_cancel, Nat.add_sub_cancel, hr, hr', pow_succ]
      have hpos : 1 ≤ 2 * 2 ^ 52 := by norm_num
      zify [hpos]
      ring
  · have hquotient : (r + 1) / 2 ^ 52 = r / 2 ^ 52 := by omega
    rw [hquotient]
    have hr : r + 1 - (r / 2 ^ 52 - 1) * 2 ^ 52 = (r - (r / 2 ^ 52 - 1) * 2 ^ 52) + 1 := by omega
    rw [hr, Nat.add_mul, Nat.one_mul]

/-- The ranks are in the order of their magnitudes. -/
theorem rankUnits_strictMono : StrictMono rankUnits := by
  apply strictMono_nat_of_lt_succ
  intro r
  rw [rankUnits_succ]
  exact Nat.lt_add_of_pos_right (by positivity)

/-- The nearest rank is found in a run of ranks that all have one step, or at the run's end. -/
theorem nearestRank_spec (num : ℕ) {den : ℕ} (hden : 0 < den) :
    ∃ shift, nearestRank num den = shift * 2 ^ 52 + roundDiv num (den * 2 ^ shift) ∧
      (num / den : ℚ) < 2 ^ 53 * 2 ^ shift ∧ (0 < shift → (2 ^ 52 * 2 ^ shift : ℚ) ≤ num / den) := by
  have hbelow : ∀ k : ℕ, num / den < k → (num / den : ℚ) < k := fun k hk =>
    not_le.mp fun h => absurd ((natCast_le_div_iff hden).mp h) (not_le.mpr hk)
  unfold nearestRank
  simp only [Nat.pow_eq]
  by_cases hsmall : num / den < 2 ^ 53
  · refine ⟨0, by rw [if_pos hsmall], ?_, fun h => absurd h (lt_irrefl 0)⟩
    have := hbelow _ hsmall
    push_cast at this
    rwa [pow_zero, mul_one]
  · have hne : num / den ≠ 0 := by omega
    have hlog : 53 ≤ (num / den).log2 := (Nat.le_log2 hne).mpr (not_lt.mp hsmall)
    refine ⟨(num / den).log2 - 52, by rw [if_neg hsmall], ?_, fun _ => ?_⟩
    · have := hbelow _ (@Nat.lt_log2_self (num / den))
      push_cast at this
      rw [← pow_add]
      convert this using 2
      omega
    · have := (natCast_le_div_iff hden).mpr (Nat.log2_self_le hne)
      push_cast at this
      rw [← pow_add]
      convert this using 2
      omega

/-- **Rounding to a double keeps order.** -/
theorem nearestRank_mono {num den num' den' : ℕ} (hden : 0 < den) (hden' : 0 < den')
    (h : (num / den : ℚ) ≤ num' / den') : nearestRank num den ≤ nearestRank num' den' := by
  obtain ⟨shift, hrank, htop, hbottom⟩ := nearestRank_spec num hden
  obtain ⟨shift', hrank', htop', hbottom'⟩ := nearestRank_spec num' hden'
  have hscaled : ∀ n d s : ℕ, ((n : ℚ) / (d * 2 ^ s : ℕ)) = n / d / 2 ^ s := by
    intro n d s
    push_cast
    rw [div_div]
  have hpow : ∀ s : ℕ, (0 : ℚ) < 2 ^ s := fun s => by positivity
  rw [hrank, hrank']
  rcases Nat.lt_trichotomy shift shift' with hlt | rfl | hgt
  · -- the end of the lower run is not above the start of the higher one
    have hupper : roundDiv num (den * 2 ^ shift) ≤ 2 ^ 53 := by
      apply roundDiv_le_of_le (by positivity)
      rw [hscaled, div_le_iff₀ (hpow shift)]
      exact_mod_cast htop.le
    have hlower : 2 ^ 52 ≤ roundDiv num' (den' * 2 ^ shift') := by
      apply le_roundDiv_of_le (by positivity)
      rw [hscaled, le_div_iff₀ (hpow shift')]
      exact_mod_cast hbottom' (by omega)
    have hgap : (shift + 1) * 2 ^ 52 ≤ shift' * 2 ^ 52 := Nat.mul_le_mul_right _ hlt
    omega
  · apply Nat.add_le_add_left
    apply roundDiv_mono (by positivity) (by positivity)
    rw [hscaled, hscaled]
    gcongr
  · -- the higher number would have to lie below the start of the lower one's run
    exfalso
    have hmore : (2 : ℚ) ^ (shift' + 1) ≤ 2 ^ shift := pow_le_pow_right₀ (by norm_num) hgt
    have hbottom := hbottom (by omega)
    rw [pow_succ] at hmore
    linarith

/-! ## Comparing magnitudes -/

/-- Both numbers are finite, and the first is not larger than the second, signs aside. -/
inductive AtMost : Binary64 → Binary64 → Prop where
  | intro (n m : Bool) (a b : Fin finiteRanks) (h : a ≤ b) : AtMost (.finite n a) (.finite m b)

/-- The number is finite and has no minus sign. -/
def NonNeg (x : Binary64) : Prop := ∃ rank, x = .finite false rank

theorem AtMost.refl {x : Binary64} (h : x.isFinite = true) : AtMost x x := by
  cases x with
  | finite n a => exact .intro n n a a le_rfl
  | infinite n => cases h
  | nan => cases h

theorem AtMost.isFinite {x y : Binary64} (h : AtMost x y) : x.isFinite = true ∧ y.isFinite = true := by
  cases h
  exact ⟨rfl, rfl⟩

theorem NonNeg.isFinite {x : Binary64} (h : NonNeg x) : x.isFinite = true := by
  obtain ⟨rank, rfl⟩ := h
  rfl

theorem unitsPerOne_eq {k l : ℕ} (h : k + l = 1074) : unitsPerOne = 2 ^ k * 2 ^ l := by
  unfold unitsPerOne
  rw [← h, Nat.pow_eq, pow_add]

theorem unitsPerOne_pos : 0 < unitsPerOne := by
  unfold unitsPerOne
  simp only [Nat.pow_eq]
  positivity

theorem ofUnits_of_lt (n : Bool) {num den : ℕ} (h : nearestRank num den < finiteRanks) :
    ofUnits n num den = .finite n ⟨nearestRank num den, h⟩ := by
  rw [ofUnits, dif_pos h]

theorem ofUnits_of_le (n : Bool) {num den : ℕ} (h : finiteRanks ≤ nearestRank num den) :
    ofUnits n num den = .infinite n := by
  rw [ofUnits, dif_neg (not_lt.mpr h)]

/-- Of two ratios the smaller one is rounded to the smaller double. -/
theorem ofUnits_atMost {num den num' den' : ℕ} (n m : Bool) (hden : 0 < den) (hden' : 0 < den')
    (h : (num / den : ℚ) ≤ num' / den') (hfinite : (ofUnits m num' den').isFinite = true) :
    AtMost (ofUnits n num den) (ofUnits m num' den') := by
  have hrank := nearestRank_mono hden hden' h
  rcases lt_or_ge (nearestRank num' den') finiteRanks with hfits | hlarge
  · rw [ofUnits_of_lt m hfits, ofUnits_of_lt n (hrank.trans_lt hfits)]
    exact .intro n m _ _ hrank
  · rw [ofUnits_of_le m hlarge] at hfinite
    cases hfinite

/-- Without a minus sign a ratio is rounded to a number without one, if it is not too large. -/
theorem ofUnits_false_cases (num den : ℕ) :
    NonNeg (ofUnits false num den) ∨ ofUnits false num den = .infinite false := by
  rcases lt_or_ge (nearestRank num den) finiteRanks with hfits | hlarge
  · exact .inl ⟨_, ofUnits_of_lt false hfits⟩
  · exact .inr (ofUnits_of_le false hlarge)

theorem ofUnits_nonNeg {num den : ℕ} (hfinite : (ofUnits false num den).isFinite = true) :
    NonNeg (ofUnits false num den) := by
  refine (ofUnits_false_cases num den).resolve_right fun hlarge => ?_
  rw [hlarge] at hfinite
  cases hfinite

/-! ## Arithmetic -/

theorem mul_finite (n m : Bool) (a b : Fin finiteRanks) :
    mul (.finite n a) (.finite m b) =
      ofUnits (n != m) (rankUnits a.val * rankUnits b.val) unitsPerOne := rfl

theorem div_finite (n m : Bool) (a : Fin finiteRanks) {b : Fin finiteRanks} (hb : b.val ≠ 0) :
    div (.finite n a) (.finite m b) =
      ofUnits (n != m) (rankUnits a.val * unitsPerOne) (rankUnits b.val) := by
  rw [div, if_neg hb]

/-- Nothing is divided by zero with a finite result. -/
theorem val_ne_zero_of_div_finite {n m : Bool} {a b : Fin finiteRanks}
    (hfinite : (div (.finite n a) (.finite m b)).isFinite = true) : b.val ≠ 0 := by
  intro hb
  rw [div, if_pos hb] at hfinite
  split at hfinite <;> cases hfinite

theorem mul_atMost {x y z : Binary64} (h : AtMost x y) (hfinite : (y.mul z).isFinite = true) :
    AtMost (x.mul z) (y.mul z) := by
  obtain ⟨n, m, a, b, hab⟩ := h
  cases z with
  | finite k c =>
    rw [mul_finite] at hfinite
    rw [mul_finite, mul_finite]
    refine ofUnits_atMost _ _ unitsPerOne_pos unitsPerOne_pos ?_ hfinite
    have hunits : rankUnits a * rankUnits c ≤ rankUnits b * rankUnits c :=
      Nat.mul_le_mul_right _ (rankUnits_strictMono.monotone hab)
    exact div_le_div_of_nonneg_right (Nat.cast_le.mpr hunits) (Nat.cast_nonneg _)
  | infinite k =>
    rw [mul] at hfinite
    split at hfinite <;> cases hfinite
  | nan => cases hfinite

theorem mul_nonNeg_cases {x z : Binary64} (hx : NonNeg x) (hz : NonNeg z) :
    NonNeg (x.mul z) ∨ x.mul z = .infinite false := by
  obtain ⟨a, rfl⟩ := hx
  obtain ⟨c, rfl⟩ := hz
  rw [mul_finite]
  exact ofUnits_false_cases _ _

theorem mul_nonNeg {x z : Binary64} (hx : NonNeg x) (hz : NonNeg z)
    (hfinite : (x.mul z).isFinite = true) : NonNeg (x.mul z) := by
  refine (mul_nonNeg_cases hx hz).resolve_right fun hlarge => ?_
  rw [hlarge] at hfinite
  cases hfinite

theorem div_atMost {x y z : Binary64} (h : AtMost x y) (hfinite : (y.div z).isFinite = true) :
    AtMost (x.div z) (y.div z) := by
  obtain ⟨n, m, a, b, hab⟩ := h
  cases z with
  | finite k c =>
    have hc : c.val ≠ 0 := val_ne_zero_of_div_finite hfinite
    rw [div_finite _ _ _ hc] at hfinite
    rw [div_finite _ _ _ hc, div_finite _ _ _ hc]
    have hpos : 0 < rankUnits c := rankUnits_strictMono (Nat.pos_of_ne_zero hc)
    refine ofUnits_atMost _ _ hpos hpos ?_ hfinite
    have hunits : rankUnits a * unitsPerOne ≤ rankUnits b * unitsPerOne :=
      Nat.mul_le_mul_right _ (rankUnits_strictMono.monotone hab)
    exact div_le_div_of_nonneg_right (Nat.cast_le.mpr hunits) (Nat.cast_nonneg _)
  | infinite k => exact .intro _ _ _ _ le_rfl
  | nan => cases hfinite

theorem div_nonNeg {x z : Binary64} (hx : NonNeg x) (hz : NonNeg z ∨ z = .infinite false)
    (hfinite : (x.div z).isFinite = true) : NonNeg (x.div z) := by
  obtain ⟨a, rfl⟩ := hx
  rcases hz with ⟨c, rfl⟩ | rfl
  · have hc : c.val ≠ 0 := val_ne_zero_of_div_finite hfinite
    rw [div_finite _ _ _ hc] at hfinite ⊢
    exact ofUnits_nonNeg hfinite
  · exact ⟨_, rfl⟩

/-- A quotient is finite only if its numerator is. -/
theorem isFinite_of_div {x y : Binary64} (h : (x.div y).isFinite = true) : x.isFinite = true := by
  cases x with
  | finite n a => rfl
  | infinite n => cases y <;> cases h
  | nan => cases y <;> cases h

/-- A difference is at most as large as the sum of what bounds the two operands. -/
theorem sub_atMost {x y u v : Binary64} (hx : AtMost x u) (hy : AtMost y v) (hu : NonNeg u)
    (hv : NonNeg v) (hfinite : (u.add v).isFinite = true) : AtMost (x.sub y) (u.add v) := by
  obtain ⟨b, rfl⟩ := hu
  obtain ⟨d, rfl⟩ := hv
  have hsum : (Binary64.finite false b).add (.finite false d) =
      ofUnits false (rankUnits b + rankUnits d) 1 := by
    rw [add, if_pos rfl]
  rw [hsum] at hfinite ⊢
  cases hx with
  | intro n _ a _ hab =>
    cases hy with
    | intro m _ c _ hcd =>
      have ha : rankUnits a ≤ rankUnits b := rankUnits_strictMono.monotone hab
      have hc : rankUnits c ≤ rankUnits d := rankUnits_strictMono.monotone hcd
      have hbound : ∀ (k : Bool) (units : ℕ), units ≤ rankUnits a + rankUnits c →
          AtMost (ofUnits k units 1) (ofUnits false (rankUnits b + rankUnits d) 1) := by
        intro k units hunits
        refine ofUnits_atMost _ _ one_pos one_pos ?_ hfinite
        have htotal : units ≤ rankUnits b + rankUnits d := by omega
        exact div_le_div_of_nonneg_right (Nat.cast_le.mpr htotal) (Nat.cast_nonneg _)
      -- the units are those of the sum, zero, or one of the two differences
      unfold sub neg add
      dsimp only
      split
      · exact hbound n _ le_rfl
      · split
        · obtain ⟨total, htotal⟩ := ofUnits_nonNeg hfinite
          rw [htotal]
          exact .intro false false _ total (Nat.zero_le _)
        · split
          · exact hbound n _ (by omega)
          · exact hbound _ _ (by omega)

/-- A number that was moved into a range of positive numbers lies in the range. -/
theorem clamp_atMost {x low high : Binary64} (hx : x.isFinite = true) (hlow : NonNeg low)
    (hzero : low.isZero = false) (hhigh : NonNeg high) (hrange : AtMost low high) :
    NonNeg (x.clamp low high) ∧ AtMost low (x.clamp low high) ∧ AtMost (x.clamp low high) high := by
  unfold clamp
  by_cases hbelow : lt x low = true
  · rw [if_pos hbelow]
    exact ⟨hlow, .refl hlow.isFinite, hrange⟩
  · rw [if_neg hbelow]
    by_cases habove : lt high x = true
    · rw [if_pos habove]
      exact ⟨hhigh, hrange, .refl hhigh.isFinite⟩
    · rw [if_neg habove]
      obtain ⟨l, rfl⟩ := hlow
      obtain ⟨h, rfl⟩ := hhigh
      cases x with
      | infinite n => cases hx
      | nan => cases hx
      | finite n a =>
        have hpos : 0 < rankUnits l :=
          rankUnits_strictMono (Nat.pos_of_ne_zero (beq_eq_false_iff_ne.mp hzero))
        simp only [lt, decide_eq_true_eq, not_lt] at hbelow habove
        cases n with
        | true =>
          -- a number below zero is below the range
          simp only [signedUnits, if_true, Bool.false_eq_true, if_false] at hbelow
          omega
        | false =>
          simp only [signedUnits, Bool.false_eq_true, if_false, Nat.cast_le] at hbelow habove
          exact ⟨⟨a, rfl⟩, .intro _ _ _ _ (rankUnits_strictMono.le_iff_le.mp hbelow),
            .intro _ _ _ _ (rankUnits_strictMono.le_iff_le.mp habove)⟩

end Binary64

end WaveGen
