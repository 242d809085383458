import WaveGen.Proofs.SignificantDigits

/-!
# The format of displayed numbers (specification §10.11)

A double is displayed as its exact value rounded to six significant digits, in general format. Which
notation is used hangs on the power of the leading digit after rounding, and a carry may change that
power. But then the number of places behind the point that positional notation leaves for six digits
is one less, and rounding the exact value to that many places gives the same number again.

* `Decimal.RoundsToPlaces` — rounding to places behind the point; `Decimal.roundsToPlaces_nearest`
  says that six digits were the same as these places.
* `Binary64.toText_general` — the text of a double.
* `Canonical` — the texts of numbers in this format.
-/

namespace WaveGen

namespace Decimal

/-- The number is `v`, rounded to so many places behind the point: no other multiple of the last
place is nearer, and a tie goes to the even one. -/
structure RoundsToPlaces (places : ℤ) (v : ℚ) (d : Decimal) : Prop where
  exponent : d.exponent = -places
  nearest : ∀ e : Decimal, e.exponent = -places → |d.magnitude - v| ≤ |e.magnitude - v|
  even : ∀ e : Decimal, e.exponent = -places → e.magnitude ≠ d.magnitude →
    |e.magnitude - v| = |d.magnitude - v| → d.significand % 2 = 0

/-- **Rounding again** to the places that the rounded number has gives the same number, even if
rounding to significant digits carried to the next power of ten. -/
theorem roundsToPlaces_nearest {digits num den : ℕ} (hdigits : 1 < digits) (hden : 0 < den)
    (negative : Bool) :
    RoundsToPlaces (-(nearest digits negative num den).exponent) (num / den)
      (nearest digits negative num den) := by
  -- the last place is that of the step which rounding kept, or the one in front of it
  have hplace : lastPower digits num den ≤ (nearest digits negative num den).exponent := by
    rw [nearest_eq]
    split <;> simp
  refine ⟨(neg_neg _).symm, fun e he => ?_, fun e he hne htie => ?_⟩
  · exact abs_magnitude_nearest_sub_le_abs_sub (by omega) num hden negative (by omega)
  · exact significand_nearest_even hdigits hden negative (by omega) hne htie

end Decimal

/-! ## Canonical texts -/

/-- The text is how the number is written in general format. Zero has no sign. -/
inductive Canonical : Text → ℚ → Prop where
  | zero : Canonical "0".toList 0
  | numeral (n : Numeral) (e : ℤ) (hgeneral : n.IsGeneral e) (hleast : 10 ^ e ≤ n.magnitude)
      (hlt : n.magnitude < 10 ^ (e + 1)) : Canonical n.text n.value

/-- Printed numbers are canonical. -/
theorem canonical_generalText {d : Decimal} (hd : d.HasDigits significantDigits) :
    Canonical d.generalText d.value := by
  obtain ⟨n, htext, hsign, hmagnitude, hgeneral⟩ := Decimal.exists_numeral hd.digitCount_significand
  obtain ⟨hleast, hlt⟩ := Quantity.magnitude_mem_of_hasDigits hd
  have hvalue : d.value = n.value := by
    rw [Decimal.value, Numeral.value, hsign, hmagnitude]
  rw [htext, hvalue]
  refine .numeral n (d.exponent + 5) hgeneral (hmagnitude ▸ hleast) ?_
  rwa [hmagnitude, add_assoc]

namespace Numeral.IsGeneral

variable {n : Numeral} {e : ℤ}

/-- A written number has the characters of numbers only. -/
theorem isSpelling (h : n.IsGeneral e) : ∀ c ∈ n.text, Decimal.IsSpelling c := by
  have hfraction : ∀ c ∈ fractionText n.fraction, Decimal.IsSpelling c := by
    unfold fractionText
    split
    · exact fun c hc => absurd hc List.not_mem_nil
    · exact List.forall_mem_cons.mpr ⟨by decide, fun c hc => .inl (h.fraction_digits c hc)⟩
  have hexponent : ∀ c ∈ exponentText n.exponent?, Decimal.IsSpelling c := by
    rcases h.exponent_cases with hnone | ⟨digits, hsome, hdigits, -⟩
    · rw [hnone]
      exact fun c hc => absurd hc List.not_mem_nil
    · rw [hsome, exponentText]
      refine List.forall_mem_cons.mpr ⟨by decide, List.forall_mem_cons.mpr ⟨?_, ?_⟩⟩
      · split <;> decide
      · exact fun c hc => .inl (hdigits c hc)
  have hmagnitude : ∀ c ∈ n.magnitudeText, Decimal.IsSpelling c := by
    intro c hc
    rcases List.mem_append.mp hc with hwhole | hrest
    · exact .inl (h.whole_digits c hwhole)
    · exact (List.mem_append.mp hrest).elim (hfraction c) (hexponent c)
  rw [text]
  split
  · exact List.forall_mem_cons.mpr ⟨by decide, hmagnitude⟩
  · exact hmagnitude

/-- Only zero is written with the digit zero alone. -/
theorem magnitude_eq_zero (h : n.IsGeneral e) (htext : n.text = "0".toList) : n.magnitude = 0 := by
  rw [text] at htext
  split at htext
  · exact absurd (List.cons.inj htext).1 (by decide)
  · have hdigit : n.magnitudeText = ['0'] := htext
    rcases List.append_eq_singleton_iff.mp hdigit with ⟨hnil, -⟩ | ⟨hwhole, hrest⟩
    · exact absurd hnil h.whole_ne_nil
    · have hfraction : n.fraction = [] := by
        by_contra hne
        have hpoint := (List.append_eq_nil_iff.mp hrest).1
        rw [fractionText, if_neg hne] at hpoint
        cases hpoint
      have hzero : Text.digitsValue ['0'] = 0 := rfl
      rw [magnitude, hwhole, hfraction, List.append_nil, hzero, Nat.cast_zero, zero_mul]

end Numeral.IsGeneral

namespace Canonical

variable {t : Text} {v : ℚ}

/-- The names of doubles that are not finite are not canonical, as no number is spelled so. -/
theorem isSpelling (h : Canonical t v) : ∀ c ∈ t, Decimal.IsSpelling c := by
  cases h with
  | zero => exact List.forall_mem_singleton.mpr (by decide)
  | numeral n e hgeneral => exact hgeneral.isSpelling

theorem eq_zero (h : Canonical "0".toList v) : v = 0 := by
  generalize ht : "0".toList = t at h
  cases h with
  | zero => rfl
  | numeral n e hgeneral hleast =>
    rw [hgeneral.magnitude_eq_zero ht.symm] at hleast
    exact absurd hleast (not_le.mpr (by positivity))

end Canonical

namespace Binary64

theorem value_neg_iff {negative : Bool} {rank : Fin finiteRanks} (h : rank.val ≠ 0) :
    (finite negative rank).value < 0 ↔ negative = true := by
  have hpos := rankMagnitude_pos h
  cases negative with
  | false => simpa [value_false] using hpos.le
  | true => simpa [value_true] using hpos

/-- **The text of a double.** Both zeros are displayed as `0`. Of any other finite double the exact
value is rounded to six significant digits, a tie to the even number, which is the same as rounding
it to the places that positional notation has for these digits. The text is in general format and
stands for the rounded number. -/
theorem toText_general {x : Binary64} (hx : x.isFinite = true) :
    (x.value = 0 → x.toText = "0".toList) ∧
      (x.value ≠ 0 → ∃ (rounded : Decimal) (e : ℤ) (n : Numeral),
        Decimal.Rounds 6 |x.value| rounded ∧ Decimal.RoundsToPlaces (5 - e) |x.value| rounded ∧
        10 ^ e ≤ rounded.magnitude ∧ rounded.magnitude < 10 ^ (e + 1) ∧
        x.toText = n.text ∧ (n.negative = true ↔ x.value < 0) ∧
        n.magnitude = rounded.magnitude ∧ n.IsGeneral e) := by
  cases x with
  | infinite n => cases hx
  | nan => cases hx
  | finite negative rank =>
    rw [ne_eq, value_eq_zero_iff, abs_value]
    refine ⟨fun hzero => by rw [toText, if_pos hzero], fun hrank => ?_⟩
    have hrounds := rounds_shown negative hrank
    obtain ⟨n, htext, hsign, hmagnitude, hgeneral⟩ :=
      Decimal.exists_numeral hrounds.hasDigits.digitCount_significand
    obtain ⟨hleast, hlt⟩ := Quantity.magnitude_mem_of_hasDigits hrounds.hasDigits
    refine ⟨shown (finite negative rank), (shown (finite negative rank)).exponent + 5, n, hrounds, ?_,
      hleast, ?_, (toText_finite hrank).trans htext, ?_, hmagnitude, hgeneral⟩
    · have hplaces : 5 - ((shown (finite negative rank)).exponent + 5) =
          -(shown (finite negative rank)).exponent := by ring
      rw [hplaces, shown_finite hrank]
      exact Decimal.roundsToPlaces_nearest (by decide) unitsPerOne_pos negative
    · rwa [add_assoc]
    · rw [hsign, negative_shown hrank, value_neg_iff hrank]

/-- Half a step below a million, with a minus sign: the digits carry, and the notation changes. -/
theorem toText_general_carry :
    let x := finite true ⟨0x412E847F00000000, by decide⟩
    x.isFinite = true ∧ x.value ≠ 0 ∧ x.toText = "-1e+06".toList ∧
      ∃ (rounded : Decimal) (e : ℤ) (n : Numeral),
        Decimal.Rounds 6 |x.value| rounded ∧ Decimal.RoundsToPlaces (5 - e) |x.value| rounded ∧
        10 ^ e ≤ rounded.magnitude ∧ rounded.magnitude < 10 ^ (e + 1) ∧
        x.toText = n.text ∧ (n.negative = true ↔ x.value < 0) ∧
        n.magnitude = rounded.magnitude ∧ n.IsGeneral e := by
  intro x
  have hx : x.isFinite = true := rfl
  have hvalue : x.value ≠ 0 := mt value_eq_zero_iff.mp (by decide)
  exact ⟨hx, hvalue, by decide +kernel, (toText_general hx).2 hvalue⟩

end Binary64

end WaveGen
