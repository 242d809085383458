import WaveGen.Proofs.DecimalReading
import WaveGen.Proofs.StoredValues

/-!
# Arithmetic on texts keeps order

Computing with displayed numbers rounds at every step: a text is read as a double, the double is
computed with, and the result is displayed with six digits. Every step keeps the order of
magnitudes, so the whole does. If `u` is an upper bound of `t` and the computation on `u` gives a
number, then the computation on `t` succeeds and its result is at most the result for `u`. Bounds of
results are found by computing with the bounds of the operands.

* `Quantity.AtMost` — the order of texts by magnitude.
* `Quantity.multiply_atMost`, `Quantity.divide_atMost`, `Quantity.subtract_atMost` — the operations.
* `Quantity.NonNeg` — texts of numbers without a minus sign.
-/

namespace WaveGen

namespace Quantity

/-! ## Texts of numbers -/

/-- The text spells the number and nothing else, not even blanks around it. -/
def Reads (t : Text) (d : Decimal) : Prop := Text.trim t = t ∧ Decimal.read? t = some d

/-- Both texts spell numbers, and the first is not larger than the second, signs aside. -/
def AtMost (t u : Text) : Prop := ∃ d e, Reads t d ∧ Reads u e ∧ d.magnitude ≤ e.magnitude

/-- The text spells a number without a minus sign. -/
def NonNeg (t : Text) : Prop := ∃ d, Reads t d ∧ d.negative = false

instance (t : Text) (d : Decimal) : Decidable (Reads t d) :=
  inferInstanceAs (Decidable (Text.trim t = t ∧ Decimal.read? t = some d))

theorem atMost_iff {t u : Text} :
    AtMost t u ↔ ∃ d ∈ Decimal.read? t, ∃ e ∈ Decimal.read? u,
      Text.trim t = t ∧ Text.trim u = u ∧ d.magnitude ≤ e.magnitude := by
  constructor
  · rintro ⟨d, e, hd, he, hle⟩
    exact ⟨d, hd.2, e, he.2, hd.1, he.1, hle⟩
  · rintro ⟨d, hd, e, he, ht, hu, hle⟩
    exact ⟨d, e, ⟨ht, hd⟩, ⟨hu, he⟩, hle⟩

instance (t u : Text) : Decidable (AtMost t u) := decidable_of_iff _ atMost_iff.symm

theorem nonNeg_iff {t : Text} :
    NonNeg t ↔ ∃ d ∈ Decimal.read? t, Text.trim t = t ∧ d.negative = false := by
  constructor
  · rintro ⟨d, hd, hsign⟩
    exact ⟨d, hd.2, hd.1, hsign⟩
  · rintro ⟨d, hd, ht, hsign⟩
    exact ⟨d, ⟨ht, hd⟩, hsign⟩

instance (t : Text) : Decidable (NonNeg t) := decidable_of_iff _ nonNeg_iff.symm

theorem Reads.unique {t : Text} {d e : Decimal} (hd : Reads t d) (he : Reads t e) : d = e :=
  Option.some.inj (hd.2.symm.trans he.2)

theorem AtMost.trans {t u v : Text} (htu : AtMost t u) (huv : AtMost u v) : AtMost t v := by
  obtain ⟨d, e, hd, he, hle⟩ := htu
  obtain ⟨e', f, he', hf, hle'⟩ := huv
  exact ⟨d, f, hd, hf, hle.trans (he.unique he' ▸ hle')⟩

/-! ## Reading and displaying -/

/-- A number that is spelled is read as the nearest double, if there is a finite one. -/
theorem Reads.parse_eq_ok_iff {t : Text} {d : Decimal} (h : Reads t d) {x : Binary64} :
    parse t = .ok x ↔ d.toBinary64 = x ∧ x.isFinite = true := by
  have hread : Binary64.read? (Text.trim t) = some d.toBinary64 := by
    rw [h.1, Binary64.read?, h.2]
  rw [parse, hread]
  dsimp only
  by_cases hfinite : d.toBinary64.isFinite = true
  · rw [if_pos hfinite, Except.ok.injEq]
    exact ⟨fun hx => ⟨hx, hx ▸ hfinite⟩, fun hx => hx.1⟩
  · rw [if_neg hfinite]
    constructor
    · intro hx
      cases hx
    · rintro ⟨rfl, hx⟩
      exact absurd hx hfinite

/-- What can be read is finite. -/
theorem isFinite_of_parse {t : Text} {x : Binary64} (h : parse t = .ok x) : x.isFinite = true := by
  rw [parse] at h
  split at h
  · split at h
    · cases h
      assumption
    · cases h
  · cases h

/-- What is at most a text that can be read can be read. -/
theorem AtMost.parse {t u : Text} (h : AtMost t u) {y : Binary64} (hy : parse u = .ok y) :
    ∃ x, Quantity.parse t = .ok x ∧ x.AtMost y := by
  obtain ⟨d, e, hd, he, hle⟩ := h
  obtain ⟨rfl, hfinite⟩ := he.parse_eq_ok_iff.mp hy
  have hbound := Decimal.toBinary64_atMost hle hfinite
  exact ⟨d.toBinary64, hd.parse_eq_ok_iff.mpr ⟨rfl, hbound.isFinite.1⟩, hbound⟩

theorem NonNeg.parse {t : Text} (h : NonNeg t) {x : Binary64} (hx : parse t = .ok x) :
    x.NonNeg := by
  obtain ⟨d, hd, hsign⟩ := h
  obtain ⟨rfl, hfinite⟩ := hd.parse_eq_ok_iff.mp hx
  exact Decimal.toBinary64_nonNeg hsign hfinite

/-- Finite doubles are displayed as numbers. -/
theorem reads_display {x : Binary64} (hx : x.isFinite = true) :
    ∃ d, Reads (display x) d ∧ d.negative = x.shown.negative ∧
      d.magnitude = x.shown.magnitude := by
  obtain ⟨d, hd, hsign, hmagnitude⟩ := Binary64.read?_toText hx
  exact ⟨d, ⟨x.trim_toText, hd⟩, hsign, hmagnitude⟩

theorem display_atMost {x y : Binary64} (h : x.AtMost y) : AtMost (display x) (display y) := by
  obtain ⟨d, hd, -, hmagnitude⟩ := reads_display h.isFinite.1
  obtain ⟨e, he, -, hmagnitude'⟩ := reads_display h.isFinite.2
  refine ⟨d, e, hd, he, ?_⟩
  rw [hmagnitude, hmagnitude']
  exact h.shown

theorem display_nonNeg {x : Binary64} (h : x.NonNeg) : NonNeg (display x) := by
  obtain ⟨d, hd, hsign, -⟩ := reads_display h.isFinite
  exact ⟨d, hd, hsign.trans h.shown⟩

/-! ## Operations -/

theorem multiply_atMost {t u factor w : Text} (h : AtMost t u) (hw : multiply u factor = .ok w)
    (hread : (Decimal.read? w).isSome = true) :
    ∃ v, multiply t factor = .ok v ∧ AtMost v w ∧ (NonNeg t → NonNeg factor → NonNeg v) := by
  obtain ⟨y, z, hy, hz, rfl⟩ := multiply_eq_ok_iff.mp hw
  obtain ⟨x, hx, hxy⟩ := h.parse hy
  have hbound := Binary64.mul_atMost hxy (Binary64.isFinite_of_read?_toText hread)
  refine ⟨display (x.mul z), multiply_eq_ok_iff.mpr ⟨x, z, hx, hz, rfl⟩, display_atMost hbound, ?_⟩
  intro ht hfactor
  exact display_nonNeg (Binary64.mul_nonNeg (ht.parse hx) (hfactor.parse hz) hbound.isFinite.1)

theorem quotientScale_nonNeg : quotientScale.NonNeg :=
  Decimal.toBinary64_nonNeg rfl (by decide +kernel)

theorem divide_atMost {t u divisor w : Text} (h : AtMost t u) (hw : divide u divisor = .ok w)
    (hread : (Decimal.read? w).isSome = true) :
    ∃ v, divide t divisor = .ok v ∧ AtMost v w ∧ (NonNeg t → NonNeg divisor → NonNeg v) := by
  obtain ⟨y, z, hy, hz, rfl⟩ := divide_eq_ok_iff.mp hw
  obtain ⟨x, hx, hxy⟩ := h.parse hy
  have hfinite := Binary64.isFinite_of_read?_toText hread
  refine ⟨display (quotient x z), divide_eq_ok_iff.mpr ⟨x, z, hx, hz, rfl⟩, ?_⟩
  unfold quotient at hfinite ⊢
  -- over zero there is no number to display, so the divisor is another one
  by_cases hzero : z.isZero = true
  · rw [if_pos hzero] at hfinite
    cases hfinite
  · rw [if_neg hzero] at hfinite
    rw [if_neg hzero, if_neg hzero]
    have hscaled := Binary64.mul_atMost hxy (Binary64.isFinite_of_div hfinite)
    have hbound := Binary64.div_atMost hscaled hfinite
    refine ⟨display_atMost hbound, fun ht hdivisor => display_nonNeg ?_⟩
    exact Binary64.div_nonNeg
      (Binary64.mul_nonNeg (ht.parse hx) quotientScale_nonNeg hscaled.isFinite.1)
      (Binary64.mul_nonNeg_cases (hdivisor.parse hz) quotientScale_nonNeg) hbound.isFinite.1

/-- A difference is bounded by the sum of the bounds of its operands. -/
theorem subtract_atMost {t u a b : Text} {x y : Binary64} (ht : AtMost t a) (hu : AtMost u b)
    (hx : parse a = .ok x) (hy : parse b = .ok y) (ha : NonNeg a) (hb : NonNeg b)
    (hfinite : (x.add y).isFinite = true) :
    ∃ v, subtract t u = .ok v ∧ AtMost v (display (x.add y)) := by
  obtain ⟨p, hp, hpx⟩ := ht.parse hx
  obtain ⟨q, hq, hqy⟩ := hu.parse hy
  exact ⟨display (p.sub q), subtract_eq_ok_iff.mpr ⟨p, q, hp, hq, rfl⟩,
    display_atMost (Binary64.sub_atMost hpx hqy (ha.parse hx) (hb.parse hy) hfinite)⟩

end Quantity

end WaveGen
