import WaveGen.Proofs.Text
import WaveGen.Quantity

/-!
# Texts of numbers

* `Binary64.toText_chars` — the characters that the text of a number may hold.
-/

namespace WaveGen

/-- The characters of numbers: the digits, the point, the marks of exponents and signs, and the
letters of `inf` and `nan`. -/
def IsNumberChar (c : Char) : Prop := c.isDigit = true ∨ c ∈ ['.', 'e', '+', '-', 'i', 'n', 'f', 'a']

instance (c : Char) : Decidable (IsNumberChar c) :=
  inferInstanceAs (Decidable (c.isDigit = true ∨ c ∈ ['.', 'e', '+', '-', 'i', 'n', 'f', 'a']))

theorem IsNumberChar.not_isBlank {c : Char} (h : IsNumberChar c) : Text.isBlank c = false := by
  rcases h with hdigit | hmark
  · have hcode : 48 ≤ c.toNat ∧ c.toNat ≤ 57 := by
      simp [Char.isDigit] at hdigit
      exact hdigit
    unfold Text.isBlank
    simp
    omega
  · simp only [List.mem_cons, List.not_mem_nil, or_false] at hmark
    rcases hmark with rfl | rfl | rfl | rfl | rfl | rfl | rfl | rfl <;> rfl

theorem forall_isNumberChar_of_all {t : Text} (h : t.all (fun c => decide (IsNumberChar c)) = true) :
    ∀ c ∈ t, IsNumberChar c :=
  fun c hc => of_decide_eq_true (List.all_eq_true.mp h c hc)

theorem isNumberChar_ofNat (n : Nat) : ∀ c ∈ Text.ofNat n, IsNumberChar c :=
  fun _ hc => .inl (Nat.isDigit_of_mem_toDigits (by decide) (by decide) hc)

namespace Decimal

theorem mem_of_mem_dropTrailingZeros {fraction : Text} {c : Char}
    (h : c ∈ dropTrailingZeros fraction) : c ∈ fraction := by
  rw [dropTrailingZeros, List.mem_reverse] at h
  exact List.mem_reverse.mp ((List.dropWhile_suffix _).mem h)

theorem pointed_chars {whole fraction : Text} (hwhole : ∀ c ∈ whole, IsNumberChar c)
    (hfraction : ∀ c ∈ fraction, IsNumberChar c) : ∀ c ∈ pointed whole fraction, IsNumberChar c := by
  intro c hc
  rw [pointed] at hc
  split at hc
  · exact hwhole c hc
  · rename_i hkept
    rcases List.mem_append.mp hc with hc | hc
    · exact hwhole c hc
    · rcases List.mem_cons.mp hc with rfl | hc
      · decide
      · exact hfraction c (mem_of_mem_dropTrailingZeros hc)

theorem exponentText_chars (power : Int) : ∀ c ∈ exponentText power, IsNumberChar c := by
  intro c hc
  rw [exponentText, List.mem_cons, List.mem_cons] at hc
  rcases hc with rfl | rfl | hc
  · decide
  · split <;> decide
  · split at hc
    · rcases List.mem_cons.mp hc with rfl | hc
      · decide
      · exact isNumberChar_ofNat _ c hc
    · exact isNumberChar_ofNat _ c hc

theorem magnitudeText_chars {digits : Text} (hdigits : ∀ c ∈ digits, IsNumberChar c)
    (power : Int) : ∀ c ∈ magnitudeText digits power, IsNumberChar c := by
  rw [magnitudeText]
  split
  · intro c hc
    rcases List.mem_append.mp hc with hc | hc
    · exact pointed_chars (fun c h => hdigits c (List.mem_of_mem_take h))
        (fun c h => hdigits c (List.mem_of_mem_drop h)) c hc
    · exact exponentText_chars power c hc
  · split
    · refine pointed_chars (forall_isNumberChar_of_all rfl) fun c hc => ?_
      rcases List.mem_append.mp hc with hc | hc
      · rw [List.eq_of_mem_replicate hc]
        decide
      · exact hdigits c hc
    · exact pointed_chars (fun c h => hdigits c (List.mem_of_mem_take h))
        (fun c h => hdigits c (List.mem_of_mem_drop h))

theorem generalText_chars (d : Decimal) : ∀ c ∈ d.generalText, IsNumberChar c := by
  intro c hc
  rw [generalText] at hc
  split at hc
  · rcases List.mem_cons.mp hc with rfl | hc
    · decide
    · exact magnitudeText_chars (isNumberChar_ofNat _) _ c hc
  · exact magnitudeText_chars (isNumberChar_ofNat _) _ c hc

end Decimal

/-- **The characters of displayed numbers** are those of numbers and of no other texts. -/
theorem Binary64.toText_chars (x : Binary64) : ∀ c ∈ x.toText, IsNumberChar c := by
  cases x with
  | nan => exact forall_isNumberChar_of_all rfl
  | infinite negative => cases negative <;> exact forall_isNumberChar_of_all rfl
  | finite negative rank =>
    rw [toText]
    split
    · exact forall_isNumberChar_of_all rfl
    · exact Decimal.generalText_chars _

theorem Binary64.trim_toText (x : Binary64) : Text.trim x.toText = x.toText :=
  Text.trim_of_forall_not_isBlank fun c hc => (x.toText_chars c hc).not_isBlank

end WaveGen
