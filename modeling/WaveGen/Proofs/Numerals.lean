import Mathlib.Data.List.DropRight
import WaveGen.Proofs.DecimalRounding
import WaveGen.Proofs.DecimalText

/-!
# Written numbers

A number is written with digits in front of a point and behind it, with a sign or without one, and
with an exponent or without one. The general format leaves needless zeros out and writes an exponent
only where the leading digit is far from the point.

* `Numeral` — the parts of a written number, its text, and the number that it stands for.
* `Numeral.IsGeneral` — the rules of the general format.
* `Decimal.exists_numeral` — a number of six digits is printed in general format.
-/

namespace WaveGen

/-! ## Digits -/

namespace Decimal

/-- A text of digits only. -/
def AllDigits (t : Text) : Prop := ∀ c ∈ t, c.isDigit = true

theorem allDigits_ofNat (n : ℕ) : AllDigits (Text.ofNat n) :=
  fun _ hc => Nat.isDigit_of_mem_toDigits (by decide) (by decide) hc

theorem AllDigits.append {t u : Text} (ht : AllDigits t) (hu : AllDigits u) : AllDigits (t ++ u) :=
  List.forall_mem_append.mpr ⟨ht, hu⟩

theorem AllDigits.take {t : Text} (ht : AllDigits t) (n : ℕ) : AllDigits (t.take n) :=
  fun c hc => ht c (List.mem_of_mem_take hc)

theorem AllDigits.drop {t : Text} (ht : AllDigits t) (n : ℕ) : AllDigits (t.drop n) :=
  fun c hc => ht c (List.mem_of_mem_drop hc)

theorem allDigits_replicate (n : ℕ) : AllDigits (List.replicate n '0') := by
  intro c hc
  rw [List.eq_of_mem_replicate hc]
  decide

theorem digitsValue_append (t u : Text) :
    Text.digitsValue (t ++ u) = 10 ^ u.length * Text.digitsValue t + Text.digitsValue u := by
  unfold Text.digitsValue
  rw [Nat.ofDigitChars_append, Nat.ofDigitChars_eq_ofDigitChars_zero]

@[simp] theorem digitsValue_replicate (n : ℕ) : Text.digitsValue (List.replicate n '0') = 0 := by
  unfold Text.digitsValue
  rw [Nat.ofDigitChars_replicate_zero, Nat.mul_zero]

@[simp] theorem digitsValue_ofNat (n : ℕ) : Text.digitsValue (Text.ofNat n) = n :=
  Nat.ofDigitChars_ten_toDigits

theorem digitsValue_lt {t : Text} (ht : AllDigits t) : Text.digitsValue t < 10 ^ t.length := by
  induction t with
  | nil => decide
  | cons c rest ih =>
    obtain ⟨hc, hrest⟩ := List.forall_mem_cons.mp ht
    have hdigit : Text.digitsValue [c] ≤ 9 := by
      have hcode : c.toNat ≤ 57 := by
        simp [Char.isDigit] at hc
        exact hc.2
      show 10 * 0 + (c.toNat - '0'.toNat) ≤ 9
      have hzero : '0'.toNat = 48 := rfl
      omega
    have hcons : c :: rest = [c] ++ rest := rfl
    rw [hcons, digitsValue_append, List.length_append, List.length_singleton, pow_add, pow_one]
    have hlead := Nat.mul_le_mul_left (10 ^ rest.length) hdigit
    have := ih hrest
    omega

/-- A positive number is written without a zero in front. -/
theorem head?_ofNat_ne {n : ℕ} (hn : 0 < n) : (Text.ofNat n).head? ≠ some '0' := by
  intro hhead
  obtain ⟨rest, hrest⟩ : ∃ rest, Text.ofNat n = '0' :: rest := List.head?_eq_some_iff.mp hhead
  have hlength : digitCount n = rest.length + 1 := congrArg List.length hrest
  have hleast := pow_digitCount_le hn
  have hdigits := allDigits_ofNat n
  rw [hrest] at hdigits
  have hlt := digitsValue_lt (List.forall_mem_cons.mp hdigits).2
  have hvalue : n = Text.digitsValue rest := by
    conv_lhs => rw [← digitsValue_ofNat n, hrest]
    rfl
  rw [hlength, Nat.add_sub_cancel] at hleast
  omega

/-! ## Zeros at the end of a fraction -/

/-- What is dropped from the end of a fraction is zeros. -/
theorem dropTrailingZeros_spec (fraction : Text) :
    ∃ n, fraction = dropTrailingZeros fraction ++ List.replicate n '0' := by
  refine ⟨(fraction.reverse.takeWhile (· == '0')).length, ?_⟩
  have hzeros : fraction.reverse.takeWhile (· == '0') =
      List.replicate (fraction.reverse.takeWhile (· == '0')).length '0' := by
    rw [List.eq_replicate_iff]
    refine ⟨rfl, fun c hc => ?_⟩
    exact beq_iff_eq.mp (@List.mem_takeWhile_imp _ (· == '0') _ _ hc)
  rw [← List.reverse_replicate, ← hzeros, dropTrailingZeros, ← List.reverse_append,
    List.takeWhile_append_dropWhile, List.reverse_reverse]

theorem AllDigits.dropTrailingZeros {fraction : Text} (h : AllDigits fraction) :
    AllDigits (dropTrailingZeros fraction) :=
  fun c hc => h c (mem_of_mem_dropTrailingZeros hc)

theorem getLast?_dropTrailingZeros (fraction : Text) :
    (dropTrailingZeros fraction).getLast? ≠ some '0' := by
  intro hlast
  have hne : fraction.rdropWhile (· == '0') ≠ [] := by
    intro hnil
    rw [dropTrailingZeros, ← List.rdropWhile, hnil] at hlast
    cases hlast
  have hzero := List.rdropWhile_last_not (· == '0') fraction hne
  rw [dropTrailingZeros, ← List.rdropWhile, List.getLast?_eq_some_getLast hne,
    Option.some.injEq] at hlast
  rw [hlast] at hzero
  exact hzero rfl

/-- Zeros in front of the digits do not count, and no more digits are left when zeros behind them are
dropped. -/
theorem length_dropWhile_zeros_le {n : ℕ} {t digits : Text}
    (h : t <+: List.replicate n '0' ++ digits) :
    (t.dropWhile (· == '0')).length ≤ digits.length := by
  have hzeros : ∀ k : ℕ, ∀ rest : Text,
      (List.replicate k '0' ++ rest).dropWhile (· == '0') = rest.dropWhile (· == '0') := by
    intro k rest
    apply List.dropWhile_append_of_pos
    intro c hc
    rw [List.eq_of_mem_replicate hc]
    rfl
  rw [List.prefix_iff_eq_take.mp h, List.take_append, List.take_replicate, hzeros]
  exact (List.dropWhile_sublist _).length_le.trans (List.length_take_le' _ _)

end Decimal

/-! ## Parts and value -/

/-- The parts of a written number. -/
structure Numeral where
  /-- Whether there is a minus sign in front. -/
  negative : Bool
  /-- The digits in front of the point. -/
  whole : Text
  /-- The digits behind the point; there is no point if there are none. -/
  fraction : Text
  /-- The exponent, if there is one: whether it has a minus sign, and its digits. -/
  exponent? : Option (Bool × Text)

namespace Numeral

open Decimal (AllDigits)

/-- The fraction with the point in front of it. -/
def fractionText (fraction : Text) : Text := if fraction = [] then [] else '.' :: fraction

/-- The exponent with its mark and its sign. -/
def exponentText : Option (Bool × Text) → Text
  | none => []
  | some (negative, digits) => 'e' :: (if negative then '-' else '+') :: digits

/-- The text without the sign. -/
def magnitudeText (n : Numeral) : Text :=
  n.whole ++ (fractionText n.fraction ++ exponentText n.exponent?)

/-- The text of a written number. -/
def text (n : Numeral) : Text := if n.negative then '-' :: n.magnitudeText else n.magnitudeText

/-- The power of ten that the exponent stands for. -/
def power (n : Numeral) : ℤ :=
  match n.exponent? with
  | none => 0
  | some (negative, digits) =>
    if negative then -(Text.digitsValue digits : ℤ) else Text.digitsValue digits

/-- The number that is written, without its sign. -/
def magnitude (n : Numeral) : ℚ :=
  Text.digitsValue (n.whole ++ n.fraction) * 10 ^ (n.power - n.fraction.length)

/-- The number that is written. -/
def value (n : Numeral) : ℚ := if n.negative then -n.magnitude else n.magnitude

/-- **The general format** of a number whose leading digit counts `10 ^ e`: positional notation from
`10 ^ -4` up to `10 ^ 6`, and one digit in front of the point with an exponent outside that range.
There are six significant digits at most, and no needless zeros. -/
structure IsGeneral (n : Numeral) (e : ℤ) : Prop where
  whole_digits : AllDigits n.whole
  fraction_digits : AllDigits n.fraction
  significant : ((n.whole ++ n.fraction).dropWhile (· == '0')).length ≤ 6
  trimmed : n.fraction.getLast? ≠ some '0'
  /-- In positional notation a zero stands in front of the point only if nothing else would. -/
  positional : -4 ≤ e → e < 6 → n.exponent? = none ∧ (e < 0 → n.whole = ['0']) ∧
    (0 ≤ e → n.whole.head? ≠ some '0' ∧ n.whole.length = e.toNat + 1)
  scientific : e < -4 ∨ 6 ≤ e → (∃ digit, digit ≠ '0' ∧ n.whole = [digit]) ∧
    ∃ digits, n.exponent? = some (decide (e < 0), digits) ∧ AllDigits digits ∧
      2 ≤ digits.length ∧ Text.digitsValue digits = e.natAbs

namespace IsGeneral

variable {n : Numeral} {e : ℤ}

theorem whole_ne_nil (h : n.IsGeneral e) : n.whole ≠ [] := by
  by_cases hscientific : e < -4 ∨ 6 ≤ e
  · obtain ⟨⟨digit, -, hwhole⟩, -⟩ := h.scientific hscientific
    simp [hwhole]
  · obtain ⟨-, hbelow, habove⟩ := h.positional (by omega) (by omega)
    rcases lt_or_ge e 0 with hlt | hge
    · simp [hbelow hlt]
    · refine List.ne_nil_of_length_pos ?_
      rw [(habove hge).2]
      exact Nat.succ_pos _

theorem exponent_cases (h : n.IsGeneral e) : n.exponent? = none ∨
    ∃ digits, n.exponent? = some (decide (e < 0), digits) ∧ AllDigits digits ∧
      2 ≤ digits.length ∧ Text.digitsValue digits = e.natAbs := by
  by_cases hscientific : e < -4 ∨ 6 ≤ e
  · exact .inr (h.scientific hscientific).2
  · exact .inl (h.positional (by omega) (by omega)).1

end IsGeneral

/-! ## Printed numbers -/

/-- Digits in front of the point and behind it, without the zeros at the end. -/
def ofDigits (negative : Bool) (whole fraction : Text) (exponent? : Option (Bool × Text)) :
    Numeral :=
  ⟨negative, whole, Decimal.dropTrailingZeros fraction, exponent?⟩

theorem magnitudeText_ofDigits (negative : Bool) (whole fraction : Text)
    (exponent? : Option (Bool × Text)) :
    (ofDigits negative whole fraction exponent?).magnitudeText =
      Decimal.pointed whole fraction ++ exponentText exponent? := by
  rw [magnitudeText, ofDigits, fractionText, Decimal.pointed]
  dsimp only
  split <;> rename_i heq
  · rw [heq]
    rfl
  · split
    · contradiction
    · rw [← List.append_assoc]

/-- Dropped zeros only move the point. -/
theorem magnitude_ofDigits (negative : Bool) (whole fraction : Text)
    (exponent? : Option (Bool × Text)) :
    (ofDigits negative whole fraction exponent?).magnitude =
      Text.digitsValue (whole ++ fraction) *
        10 ^ ((ofDigits negative whole fraction exponent?).power - fraction.length) := by
  obtain ⟨n, hn⟩ := Decimal.dropTrailingZeros_spec fraction
  rw [magnitude]
  generalize (ofDigits negative whole fraction exponent?).power = e
  rw [ofDigits]
  dsimp only
  generalize Decimal.dropTrailingZeros fraction = kept at hn ⊢
  rw [hn, ← List.append_assoc, Decimal.digitsValue_append _ (List.replicate n '0'),
    Decimal.digitsValue_replicate, List.length_append, List.length_replicate]
  have hpower : e - (kept.length : ℤ) = n + (e - (kept.length + n : ℕ)) := by
    push_cast
    ring
  rw [hpower, zpow_add₀ (by norm_num), zpow_natCast]
  push_cast
  ring

/-- The digits of an exponent, at least two of them. -/
def exponentDigits (power : ℤ) : Text :=
  let digits := Text.ofNat power.natAbs
  if digits.length < 2 then '0' :: digits else digits

theorem exponentText_eq (power : ℤ) :
    Decimal.exponentText power = exponentText (some (decide (power < 0), exponentDigits power)) := by
  simp only [Decimal.exponentText, exponentText, exponentDigits, decide_eq_true_eq]

theorem exponentDigits_spec (power : ℤ) : AllDigits (exponentDigits power) ∧
    2 ≤ (exponentDigits power).length ∧ Text.digitsValue (exponentDigits power) = power.natAbs := by
  have hall := Decimal.allDigits_ofNat power.natAbs
  have hvalue := Decimal.digitsValue_ofNat power.natAbs
  have hpos : 0 < (Text.ofNat power.natAbs).length := Nat.length_toDigits_pos
  unfold exponentDigits
  dsimp only
  generalize Text.ofNat power.natAbs = digits at *
  split
  · exact ⟨List.forall_mem_cons.mpr ⟨by decide, hall⟩, by rw [List.length_cons]; omega, hvalue⟩
  · exact ⟨hall, by omega, hvalue⟩

theorem power_exponent (negative : Bool) (whole fraction : Text) (power : ℤ) :
    (ofDigits negative whole fraction (some (decide (power < 0), exponentDigits power))).power =
      power := by
  obtain ⟨-, -, hvalue⟩ := exponentDigits_spec power
  unfold Numeral.power ofDigits
  dsimp only
  rw [hvalue]
  split
  · rename_i hnegative
    have := of_decide_eq_true hnegative
    omega
  · rename_i hnegative
    have := of_decide_eq_false (Bool.eq_false_iff.mpr hnegative)
    omega

end Numeral

namespace Decimal

open Numeral

variable {digits : Text} {power : ℤ}

/-- The digits of the two parts, with zeros in front of them or not, are those of the number. -/
theorem length_significant_le {n : ℕ} {whole fraction : Text}
    (h : whole ++ fraction = List.replicate n '0' ++ digits)
    (hlength : digits.length = significantDigits) :
    ((whole ++ dropTrailingZeros fraction).dropWhile (· == '0')).length ≤ 6 := by
  obtain ⟨k, hk⟩ := dropTrailingZeros_spec fraction
  refine (length_dropWhile_zeros_le (n := n) ?_).trans_eq hlength
  rw [← h]
  conv_rhs => rw [hk, ← List.append_assoc]
  exact List.prefix_append _ _

/-- The numeral prints the digits, of which the first counts `10 ^ power`, in general format. -/
structure Prints (n : Numeral) (digits : Text) (power : ℤ) : Prop where
  text : n.magnitudeText = magnitudeText digits power
  magnitude : n.magnitude = Text.digitsValue digits * 10 ^ (power - 5)
  general : n.IsGeneral power

theorem prints_scientific (negative : Bool) (hall : AllDigits digits)
    (hhead : digits.head? ≠ some '0') (hlength : digits.length = significantDigits)
    (h : power < -4 ∨ 6 ≤ power) :
    Prints (ofDigits negative (digits.take 1) (digits.drop 1)
      (some (decide (power < 0), exponentDigits power))) digits power where
  text := by
    rw [magnitudeText_ofDigits, ← exponentText_eq, Decimal.magnitudeText]
    exact (if_pos h).symm
  magnitude := by
    rw [magnitude_ofDigits, power_exponent, List.take_append_drop, List.length_drop, hlength]
    rfl
  general := by
    obtain ⟨hdigits, htwo, hvalue⟩ := exponentDigits_spec power
    obtain ⟨first, rest, rfl⟩ : ∃ first rest, digits = first :: rest :=
      List.exists_cons_of_length_pos (by rw [hlength]; decide)
    exact {
      whole_digits := hall.take 1
      fraction_digits := (hall.drop 1).dropTrailingZeros
      significant := length_significant_le (n := 0) (List.take_append_drop _ _) hlength
      trimmed := getLast?_dropTrailingZeros _
      positional := fun hlow hhigh => by omega
      scientific := fun _ =>
        ⟨⟨first, fun heq => hhead (heq ▸ rfl), rfl⟩, _, rfl, hdigits, htwo, hvalue⟩ }

/-- Below one all digits are behind the point, and zeros are in front of them. -/
theorem prints_below_one (negative : Bool) (hall : AllDigits digits)
    (hlength : digits.length = significantDigits) (hleast : -4 ≤ power) (hlt : power < 0) :
    Prints (ofDigits negative ['0'] (List.replicate (-power - 1).toNat '0' ++ digits) none)
      digits power where
  text := by
    have hrange : ¬ (power < leastPositional ∨ (significantDigits : ℤ) ≤ power) := by
      unfold leastPositional significantDigits
      omega
    rw [magnitudeText_ofDigits, Numeral.exponentText, List.append_nil, Decimal.magnitudeText,
      if_neg hrange, if_pos hlt]
  magnitude := by
    have hplaces : (0 : ℤ) - ((-power - 1).toNat + 6 : ℕ) = power - 5 := by omega
    have hzero : Text.digitsValue ['0'] = 0 := rfl
    rw [magnitude_ofDigits, digitsValue_append, digitsValue_append, digitsValue_replicate, hzero,
      Nat.mul_zero, Nat.mul_zero, Nat.zero_add, Nat.zero_add, List.length_append,
      List.length_replicate, hlength, ← hplaces]
    rfl
  general := {
    whole_digits := allDigits_replicate 1
    fraction_digits := ((allDigits_replicate _).append hall).dropTrailingZeros
    significant := by
      refine length_significant_le (n := (-power - 1).toNat + 1) ?_ hlength
      rw [List.replicate_succ]
      rfl
    trimmed := getLast?_dropTrailingZeros _
    positional := fun _ _ => ⟨rfl, fun _ => rfl, fun hnonneg => absurd hlt (not_lt.mpr hnonneg)⟩
    scientific := fun houtside => by omega }

theorem prints_from_one (negative : Bool) (hall : AllDigits digits)
    (hhead : digits.head? ≠ some '0') (hlength : digits.length = significantDigits)
    (hleast : 0 ≤ power) (hlt : power < 6) :
    Prints (ofDigits negative (digits.take (power.toNat + 1)) (digits.drop (power.toNat + 1)) none)
      digits power where
  text := by
    have hrange : ¬ (power < leastPositional ∨ (significantDigits : ℤ) ≤ power) := by
      unfold leastPositional significantDigits
      omega
    rw [magnitudeText_ofDigits, Numeral.exponentText, List.append_nil, Decimal.magnitudeText,
      if_neg hrange, if_neg (not_lt.mpr hleast)]
  magnitude := by
    have hplaces : (0 : ℤ) - (6 - (power.toNat + 1) : ℕ) = power - 5 := by omega
    rw [magnitude_ofDigits, List.take_append_drop, List.length_drop, hlength, ← hplaces]
    rfl
  general := by
    have hplace : power.toNat + 1 ≤ digits.length := by
      rw [hlength, significantDigits]
      omega
    have hfirst : (digits.take (power.toNat + 1)).head? ≠ some '0' := by
      rwa [List.head?_take, if_neg (Nat.succ_ne_zero _)]
    exact {
      whole_digits := hall.take _
      fraction_digits := (hall.drop _).dropTrailingZeros
      significant := length_significant_le (n := 0) (List.take_append_drop _ _) hlength
      trimmed := getLast?_dropTrailingZeros _
      positional := fun _ _ => ⟨rfl, fun hnegative => absurd hnegative (not_lt.mpr hleast),
        fun _ => ⟨hfirst, List.length_take_of_le hplace⟩⟩
      scientific := fun houtside => by omega }

/-- **A number of six digits is printed in general format.** -/
theorem exists_numeral {d : Decimal} (hdigits : digitCount d.significand = significantDigits) :
    ∃ n : Numeral, d.generalText = n.text ∧ n.negative = d.negative ∧
      n.magnitude = d.magnitude ∧ n.IsGeneral (d.exponent + 5) := by
  have hpos : 0 < d.significand := by
    by_contra hzero
    rw [Nat.eq_zero_of_not_pos hzero] at hdigits
    exact absurd hdigits (by decide)
  have hall := allDigits_ofNat d.significand
  have hhead := head?_ofNat_ne hpos
  have hlength : (Text.ofNat d.significand).length = significantDigits := hdigits
  obtain ⟨n, hsign, hprints⟩ : ∃ n : Numeral, n.negative = d.negative ∧
      Prints n (Text.ofNat d.significand) (d.exponent + 5) := by
    by_cases hscientific : d.exponent + 5 < -4 ∨ 6 ≤ d.exponent + 5
    · exact ⟨_, rfl, prints_scientific d.negative hall hhead hlength hscientific⟩
    · rcases lt_or_ge (d.exponent + 5) 0 with hlt | hge
      · exact ⟨_, rfl, prints_below_one d.negative hall hlength (by omega) hlt⟩
      · exact ⟨_, rfl, prints_from_one d.negative hall hhead hlength hge (by omega)⟩
  refine ⟨n, ?_, hsign, ?_, hprints.general⟩
  · have hplace : ((significantDigits - 1 : ℕ) : ℤ) = 5 := rfl
    simp only [generalText, Numeral.text, hlength, hplace, hprints.text, hsign]
  · rw [hprints.magnitude, digitsValue_ofNat, add_sub_cancel_right, magnitude]

end Decimal

end WaveGen
