import Mathlib.Data.List.TakeWhile
import WaveGen.Proofs.Numerals

/-!
# Displayed numbers are read as they were

A double is displayed with six significant digits, in one of two notations, without needless zeros.
Whatever the notation, reading the text gives the number that the double was rounded to: the digits
on both sides of the point are read as one number, and an exponent is read digit by digit far below
the cap.

* `Decimal.read?_text` — a written number is read as the number that it stands for.
* `Decimal.isSpelling_of_read?` — the characters that a text of a number may hold.
* `Decimal.read?_generalText` — a printed number is read as it was.
* `Binary64.shown`, `Binary64.read?_toText` — the number that a double is displayed as.
-/

namespace WaveGen

namespace Decimal

/-! ## Reading digits -/

/-- A text that ends the digits of a significand. -/
def EndsDigits (rest : Text) : Prop := ∀ c ∈ rest.head?, c.isDigit = false ∧ c ≠ '.'

theorem takeWhile_digits {t : Text} (rest : Text) (ht : AllDigits t)
    (hrest : ∀ c ∈ rest.head?, c.isDigit = false) :
    (t ++ rest).takeWhile Char.isDigit = t ∧ (t ++ rest).dropWhile Char.isDigit = rest := by
  rw [List.takeWhile_append_of_pos ht, List.dropWhile_append_of_pos ht]
  cases rest with
  | nil => simp
  | cons c more =>
    have hc : c.isDigit = false := hrest c rfl
    simp [hc]

/-- The digits in front of the point and behind it are found, whether there is a point or not. -/
theorem takeSignificand_digits {whole fraction rest : Text} (hwhole : AllDigits whole)
    (hfraction : AllDigits fraction) (hrest : EndsDigits rest) :
    takeSignificand (whole ++ (Numeral.fractionText fraction ++ rest)) =
      (whole, fraction, rest) := by
  have hend : ∀ c ∈ rest.head?, c.isDigit = false := fun c hc => (hrest c hc).1
  cases fraction with
  | nil =>
    obtain ⟨htake, hdrop⟩ := takeWhile_digits rest hwhole hend
    show takeSignificand (whole ++ rest) = _
    rw [takeSignificand, htake, hdrop]
    cases rest with
    | nil => rfl
    | cons c more =>
      have hpoint : c ≠ '.' := (hrest c rfl).2
      split
      · rename_i heq
        exact absurd (List.cons.inj heq).1 hpoint
      · rfl
  | cons c more =>
    obtain ⟨htake, hdrop⟩ := takeWhile_digits ('.' :: (c :: more ++ rest)) hwhole
      (fun c hc => by cases hc; decide)
    obtain ⟨htake', hdrop'⟩ := takeWhile_digits rest hfraction hend
    show takeSignificand (whole ++ '.' :: (c :: more ++ rest)) = _
    rw [takeSignificand, htake, hdrop]
    show (whole, (c :: more ++ rest).takeWhile Char.isDigit,
      (c :: more ++ rest).dropWhile Char.isDigit) = _
    rw [htake', hdrop']

/-- Reading a sign that is not there. -/
theorem takeSign_of_digit {t : Text} (h : ∀ c ∈ t.head?, c.isDigit = true) :
    takeSign t = (false, t) := by
  unfold takeSign
  split
  · exact absurd (h '-' rfl) (by decide)
  · exact absurd (h '+' rfl) (by decide)
  · rfl

/-! ## Reading exponents -/

/-- As long as the cap is not reached, the digits of an exponent are read as they are. -/
theorem cappedExponent_eq {digits : Text} (h : Text.digitsValue digits < exponentCap) :
    cappedExponent digits = Text.digitsValue digits := by
  have hfold : ∀ (digits : Text) (n : ℕ), Nat.ofDigitChars 10 digits n < exponentCap →
      digits.foldl (fun n c => if n < exponentCap then 10 * n + (c.toNat - '0'.toNat) else n) n =
        Nat.ofDigitChars 10 digits n := by
    intro digits
    induction digits with
    | nil => exact fun n _ => rfl
    | cons c rest ih =>
      intro n hn
      -- what was read so far is not above what is read in the end
      have hbelow : n < exponentCap := by
        rw [Nat.ofDigitChars_eq_ofDigitChars_zero] at hn
        have hpow : n ≤ 10 ^ (c :: rest).length * n := Nat.le_mul_of_pos_left n (by positivity)
        omega
      rw [Nat.ofDigitChars_cons] at hn ⊢
      rw [List.foldl_cons, if_pos hbelow]
      exact ih _ hn
  exact hfold digits 0 h

theorem readDigits?_isSome {t : Text} (hne : t ≠ []) (hall : AllDigits t) :
    (readDigits? t).isSome = true := by
  have hdigit : ∀ c ∈ t, c.isDigit = true := hall
  rw [readDigits?, if_neg]
  · rfl
  · simpa [hne] using hdigit

/-- An exponent is read as it was written. -/
theorem readExponent?_exponentText (negative : Bool) {digits : Text} (hne : digits ≠ [])
    (hall : AllDigits digits) (hcap : Text.digitsValue digits < exponentCap) :
    readExponent? (Numeral.exponentText (some (negative, digits))) =
      some (if negative then -(Text.digitsValue digits : ℤ) else Text.digitsValue digits) := by
  have hread := readDigits?_isSome hne hall
  show readExponent? ('e' :: (if negative then '-' else '+') :: digits) = _
  rw [readExponent?, if_pos (by decide)]
  -- the sign is the one character between the mark and the digits
  cases negative with
  | true =>
    show (if (readDigits? digits).isSome = true then some (-(cappedExponent digits : ℤ)) else none) = _
    rw [if_pos hread, cappedExponent_eq hcap, if_pos rfl]
  | false =>
    show (if (readDigits? digits).isSome = true then some (cappedExponent digits : ℤ) else none) = _
    rw [if_pos hread, cappedExponent_eq hcap, if_neg (by decide)]

/-! ## Reading written numbers -/

theorem read?_minus {t : Text} {d : Decimal} (hdigit : ∀ c ∈ t.head?, c.isDigit = true)
    (h : read? t = some d) : read? ('-' :: t) = some ⟨true, d.significand, d.exponent⟩ := by
  rw [read?, takeSign_of_digit hdigit] at h
  rw [read?, takeSign]
  dsimp only at h ⊢
  split at h
  · cases h
  · rename_i hne
    obtain ⟨e, he, hd⟩ := Option.map_eq_some_iff.mp h
    rw [if_neg hne, he, ← hd]
    rfl

/-- **A written number is read as it stands there**, if its exponent is not too large. -/
theorem read?_text {n : Numeral} {e : ℤ} (hn : n.IsGeneral e) (he : e.natAbs < exponentCap) :
    read? n.text =
      some ⟨n.negative, Text.digitsValue (n.whole ++ n.fraction), n.power - n.fraction.length⟩ := by
  have hwhole := hn.whole_digits
  obtain ⟨first, rest, hfirst⟩ := List.exists_cons_of_ne_nil hn.whole_ne_nil
  have hexponent : readExponent? (Numeral.exponentText n.exponent?) = some n.power ∧
      EndsDigits (Numeral.exponentText n.exponent?) := by
    rcases hn.exponent_cases with hnone | ⟨digits, hsome, hdigits, htwo, hvalue⟩
    · rw [Numeral.power, hnone]
      exact ⟨rfl, fun c hc => by cases hc⟩
    · rw [Numeral.power, hsome]
      refine ⟨readExponent?_exponentText _ (List.ne_nil_of_length_pos (by omega)) hdigits
        (hvalue ▸ he), fun c hc => ?_⟩
      cases hc
      decide
  have hhead : ∀ c ∈ n.magnitudeText.head?, c.isDigit = true := by
    intro c hc
    rw [Numeral.magnitudeText, hfirst] at hc
    cases hc
    exact hwhole _ (hfirst ▸ List.mem_cons_self)
  have hmagnitude : read? n.magnitudeText =
      some ⟨false, Text.digitsValue (n.whole ++ n.fraction), n.power - n.fraction.length⟩ := by
    rw [read?, takeSign_of_digit hhead, Numeral.magnitudeText]
    dsimp only
    rw [takeSignificand_digits hwhole hn.fraction_digits hexponent.2]
    dsimp only
    rw [if_neg (by simp [hn.whole_ne_nil]), hexponent.1]
    rfl
  rw [Numeral.text]
  cases n.negative with
  | false => exact hmagnitude
  | true => exact read?_minus hhead hmagnitude

/-! ## Characters -/

/-- The characters that a decimal number may be spelled with. -/
def IsSpelling (c : Char) : Prop := c.isDigit = true ∨ c ∈ ['+', '-', '.', 'e', 'E']

instance (c : Char) : Decidable (IsSpelling c) :=
  inferInstanceAs (Decidable (c.isDigit = true ∨ c ∈ ['+', '-', '.', 'e', 'E']))

/-- Reading a sign takes no other character. -/
theorem mem_takeSign {t : Text} {c : Char} (hc : ¬ IsSpelling c) (h : c ∈ t) :
    c ∈ (takeSign t).2 := by
  have hsign : ∀ {sign : Char} {rest : Text}, IsSpelling sign → c ∈ sign :: rest → c ∈ rest := by
    intro sign rest hsign hmem
    exact (List.mem_cons.mp hmem).resolve_left fun heq => hc (heq ▸ hsign)
  unfold takeSign
  split
  · exact hsign (by decide) h
  · exact hsign (by decide) h
  · exact h

theorem mem_dropWhile_digits {t : Text} {c : Char} (hc : ¬ IsSpelling c) (h : c ∈ t) :
    c ∈ t.dropWhile Char.isDigit := by
  rw [← List.takeWhile_append_dropWhile (p := Char.isDigit) (l := t)] at h
  exact (List.mem_append.mp h).resolve_left fun hdigit => hc (.inl (List.mem_takeWhile_imp hdigit))

/-- Reading digits and a point takes no other character. -/
theorem mem_takeSignificand {t : Text} {c : Char} (hc : ¬ IsSpelling c) (h : c ∈ t) :
    c ∈ (takeSignificand t).2.2 := by
  have hrest := mem_dropWhile_digits hc h
  unfold takeSignificand
  split
  · rename_i rest heq
    rw [heq] at hrest
    have hpoint : c ≠ '.' := fun heq => hc (heq ▸ by decide)
    exact mem_dropWhile_digits hc ((List.mem_cons.mp hrest).resolve_left hpoint)
  · exact hrest

/-- An exponent holds no other character. -/
theorem not_mem_of_readExponent? {t : Text} {e : ℤ} {c : Char} (hc : ¬ IsSpelling c)
    (h : readExponent? t = some e) : c ∉ t := by
  cases t with
  | nil => exact List.not_mem_nil
  | cons mark rest =>
    rw [readExponent?] at h
    split at h
    · rename_i hmark
      dsimp only at h
      split at h
      · rename_i hdigits
        intro hmem
        have hmark' : c ≠ mark := by
          rintro rfl
          have hcases : c = 'e' ∨ c = 'E' := by simpa using hmark
          rcases hcases with rfl | rfl <;> exact hc (by decide)
        have hbody := mem_takeSign hc ((List.mem_cons.mp hmem).resolve_left hmark')
        rw [readDigits?] at hdigits
        split at hdigits
        · cases hdigits
        · rename_i hall
          have hdigit : (takeSign rest).2.all Char.isDigit = true := by simp_all
          exact hc (.inl (List.all_eq_true.mp hdigit c hbody))
      · cases h
    · cases h

/-- **The characters of numbers**: no other character stands in a text that is read as one. -/
theorem isSpelling_of_read? {t : Text} {d : Decimal} (h : read? t = some d) :
    ∀ c ∈ t, IsSpelling c := by
  intro c hmem
  by_contra hc
  have hrest := mem_takeSignificand hc (mem_takeSign hc hmem)
  rw [read?] at h
  dsimp only at h
  split at h
  · cases h
  · obtain ⟨e, he, -⟩ := Option.map_eq_some_iff.mp h
    exact not_mem_of_readExponent? hc he hrest

/-! ## Reading what was printed -/

/-- **A printed number is read as it was.** -/
theorem read?_generalText {d : Decimal} (hdigits : digitCount d.significand = significantDigits)
    (hpower : (d.exponent + (significantDigits - 1 : ℕ)).natAbs < exponentCap) :
    ∃ e, read? d.generalText = some e ∧ e.negative = d.negative ∧ e.magnitude = d.magnitude := by
  obtain ⟨n, htext, hsign, hmagnitude, hgeneral⟩ := exists_numeral hdigits
  rw [htext]
  exact ⟨_, read?_text hgeneral hpower, hsign, hmagnitude⟩

/-- The leading power of a ratio of numbers with at most `k` digits. -/
theorem natAbs_leadingPower_le {num den k : ℕ} (hk : 0 < k) (hnum : num < 10 ^ k)
    (hden : den < 10 ^ k) : (leadingPower num den).natAbs ≤ k := by
  unfold leadingPower
  split
  · have hdigits := digitCount_le hk ((Nat.div_le_self num den).trans_lt hnum)
    have := digitCount_pos (num / den)
    omega
  · have hle : (den - 1) / num ≤ den := (Nat.div_le_self _ _).trans (Nat.sub_le _ _)
    have hdigits := digitCount_le hk (hle.trans_lt hden)
    omega

end Decimal

/-! ## Displayed doubles -/

namespace Binary64

/-- The number that a finite double is displayed as: its value with six significant digits. -/
def shown : Binary64 → Decimal
  | .finite negative rank =>
    if rank.val = 0 then ⟨false, 0, 0⟩
    else Decimal.nearest significantDigits negative (rankUnits rank.val) unitsPerOne
  | _ => ⟨false, 0, 0⟩

/-- No finite magnitude needs more than 700 decimal digits. -/
theorem rankUnits_lt (rank : Fin finiteRanks) : rankUnits rank < 10 ^ 700 := by
  have hrank : rank.val < 2 ^ 63 := rank.isLt.trans_le (by decide +kernel)
  have hshift : rank.val / 2 ^ 52 - 1 ≤ 2046 := by omega
  unfold rankUnits
  simp only [Nat.pow_eq]
  calc (rank.val - (rank.val / 2 ^ 52 - 1) * 2 ^ 52) * 2 ^ (rank.val / 2 ^ 52 - 1)
      ≤ 2 ^ 63 * 2 ^ 2046 :=
        Nat.mul_le_mul (by omega) (Nat.pow_le_pow_right (by decide) hshift)
    _ < 10 ^ 700 := by decide +kernel

/-- The displayed number has six significant digits, and its leading digit is at a small power. -/
theorem shown_spec {negative : Bool} {rank : Fin finiteRanks} (hrank : rank.val ≠ 0) :
    Decimal.digitCount (shown (.finite negative rank)).significand = significantDigits ∧
      ((shown (.finite negative rank)).exponent + (significantDigits - 1 : ℕ)).natAbs ≤ 701 := by
  have hpos : 0 < rankUnits rank := rankUnits_strictMono (Nat.pos_of_ne_zero hrank)
  rw [shown, if_neg hrank]
  constructor
  · obtain ⟨hleast, hlt⟩ :=
      Decimal.significand_nearest (by decide : 0 < significantDigits) hpos unitsPerOne_pos negative
    exact Decimal.digitCount_eq (by decide) hleast hlt
  · have hpower := Decimal.natAbs_leadingPower_le (by decide) (rankUnits_lt rank)
      (by decide +kernel : unitsPerOne < 10 ^ 700)
    rw [Decimal.nearest_eq, Decimal.lastPower]
    have hdigits : significantDigits = 6 := rfl
    split <;> dsimp only <;> omega

/-- **A displayed double is read as the number with six digits that it was rounded to.** -/
theorem read?_toText {x : Binary64} (hx : x.isFinite = true) :
    ∃ d, Decimal.read? x.toText = some d ∧ d.negative = x.shown.negative ∧
      d.magnitude = x.shown.magnitude := by
  cases x with
  | infinite n => cases hx
  | nan => cases hx
  | finite negative rank =>
    by_cases hrank : rank.val = 0
    · rw [toText, shown, if_pos hrank, if_pos hrank]
      exact ⟨⟨false, 0, 0⟩, by decide, rfl, rfl⟩
    · obtain ⟨hdigits, hpower⟩ := @shown_spec negative rank hrank
      have hcap : 701 < Decimal.exponentCap := by decide
      have hread := Decimal.read?_generalText hdigits (by omega)
      rw [toText, if_neg hrank]
      rwa [shown, if_neg hrank] at hread ⊢

/-- Only finite doubles are displayed as numbers. -/
theorem isFinite_of_read?_toText {x : Binary64} (h : (Decimal.read? x.toText).isSome = true) :
    x.isFinite = true := by
  cases x with
  | finite negative rank => rfl
  | infinite negative => cases negative <;> cases h
  | nan => cases h

/-- Displaying keeps order. -/
theorem AtMost.shown {x y : Binary64} (h : AtMost x y) :
    x.shown.magnitude ≤ y.shown.magnitude := by
  obtain ⟨n, m, a, b, hab⟩ := h
  unfold Binary64.shown
  dsimp only
  by_cases ha : a.val = 0
  · rw [if_pos ha]
    have hzero : Decimal.magnitude ⟨false, 0, 0⟩ = 0 := by simp [Decimal.magnitude]
    rw [hzero]
    exact Decimal.magnitude_nonneg _
  · have hb : b.val ≠ 0 := by
      have : a.val ≤ b.val := hab
      omega
    rw [if_neg ha, if_neg hb]
    apply Decimal.magnitude_nearest_mono (by decide)
      (rankUnits_strictMono (Nat.pos_of_ne_zero ha)) unitsPerOne_pos unitsPerOne_pos
    have hunits : rankUnits a ≤ rankUnits b := rankUnits_strictMono.monotone hab
    exact div_le_div_of_nonneg_right (Nat.cast_le.mpr hunits) (Nat.cast_nonneg _)

theorem NonNeg.shown {x : Binary64} (h : NonNeg x) : x.shown.negative = false := by
  obtain ⟨rank, rfl⟩ := h
  unfold Binary64.shown
  dsimp only
  split
  · rfl
  · exact Decimal.negative_nearest ..

end Binary64

end WaveGen
