import WaveGen.Configuration
import WaveGen.Proofs.ChannelWrites

/-!
# Validation and what comes after it (specification §10.4)

A configuration is looked at before it is used, and the parts that use it look again: logging reads
the two names, the server the address, the instrument the model. Validation has lists of its own of
the names that it lets through, and logging has its own names too, so the two could come to differ.
They do not: what validation lets through is what all of its users take.

The names of levels and forms are told by their small letters. Which letters those are is a matter
of Unicode, and it has oddities: the Kelvin sign becomes a plain `k`, a dotted capital `I` becomes
two characters. None of this reaches the names, so with any full lowering validation and logging do
what they do when they lower the ASCII letters.

* `Text.Lowering` — a way to lower all letters, ASCII or not, as far as it can matter to names.
* `LogLevel.exists_parseWith_iff`, `LogFormat.exists_parseWith_iff` — the names that logging takes are
  those on the lists of validation.
* `Configuration.validate_eq_ok_iff_usable` — the agreement.
-/

namespace WaveGen

namespace Text

/-! ## Lowering letters -/

/-- The characters of ASCII. -/
def isAscii (c : Char) : Bool := c.toNat < 128

/-- A way to lower the letters of a text, in ASCII and beyond. Beyond ASCII only the Kelvin sign has
a lower case in ASCII, which is `k`: every other character there leaves one that is not ASCII. -/
structure Lowering where
  apply : Text → Text
  ascii : ∀ t : Text, t.all isAscii = true → apply t = lower t
  beyond : ∀ t : Text, t.all isAscii = false → 'k' ∈ apply t ∨ (apply t).all isAscii = false

theorem toLower_eq_self {c : Char} (h : isAscii c = false) : c.toLower = c := by
  have hc : 128 ≤ c.toNat := by simpa [isAscii] using h
  unfold Char.toLower
  rw [dif_neg]
  intro hcapital
  have hlast : c.val ≤ 'Z'.val := hcapital.2
  have hcode : c.toNat ≤ 90 := hlast
  omega

/-- Lowering the ASCII letters leaves a character that is not ASCII where it is. -/
theorem all_isAscii_of_lower {t : Text} (h : (lower t).all isAscii = true) :
    t.all isAscii = true := by
  rw [List.all_eq_true] at h ⊢
  intro c hc
  have hlowered := h c.toLower (List.mem_map_of_mem hc)
  cases hascii : isAscii c with
  | true => rfl
  | false => rwa [toLower_eq_self hascii, hascii] at hlowered

namespace Lowering

/-- Lowering the ASCII letters alone is such a way. -/
instance : Inhabited Lowering where
  default :=
    { apply := lower
      ascii := fun _ _ => rfl
      beyond := fun t ht => by
        refine .inr (Bool.eq_false_iff.mpr fun h => ?_)
        rw [all_isAscii_of_lower h] at ht
        cases ht }

/-- A name in ASCII without a `k` is what a text is lowered to in every way or in none. -/
theorem apply_eq_iff (lowering : Lowering) {name : Text} (hname : name.all isAscii = true)
    (hk : 'k' ∉ name) (t : Text) : lowering.apply t = name ↔ lower t = name := by
  cases ht : t.all isAscii with
  | true => rw [lowering.ascii t ht]
  | false =>
    constructor
    · rintro rfl
      rcases lowering.beyond t ht with hkelvin | hbeyond
      · exact absurd hkelvin hk
      · rw [hbeyond] at hname
        cases hname
    · rintro rfl
      rw [all_isAscii_of_lower hname] at ht
      cases ht

theorem contains_apply (lowering : Lowering) {names : List Text}
    (hnames : ∀ name ∈ names, name.all isAscii = true ∧ 'k' ∉ name) (t : Text) :
    names.contains (lowering.apply t) = names.contains (lower t) := by
  rw [Bool.eq_iff_iff, List.contains_iff_mem, List.contains_iff_mem]
  constructor
  · intro h
    obtain ⟨hascii, hk⟩ := hnames _ h
    rwa [(lowering.apply_eq_iff hascii hk t).mp rfl]
  · intro h
    obtain ⟨hascii, hk⟩ := hnames _ h
    rwa [(lowering.apply_eq_iff hascii hk t).mpr rfl]

end Lowering

end Text

/-! ## Names of levels and forms -/

namespace LogLevel

/-- The list of validation has the names of the levels and no others. -/
theorem exists_parseWith_iff (lower : Text → Text) (value : Text) :
    (∃ level, parseWith lower value = .ok level) ↔
      lower value ∈ Configuration.validLevels := by
  rw [parseWith, Configuration.validLevels]
  split_ifs <;> simp_all

theorem parseWith_apply (lowering : Text.Lowering) (value : Text) :
    parseWith lowering.apply value = parse value := by
  simp (disch := decide) only [parse, parseWith, lowering.apply_eq_iff]

end LogLevel

namespace LogFormat

/-- The list of validation has the names of the forms and no others. -/
theorem exists_parseWith_iff (lower : Text → Text) (value : Text) :
    (∃ form, parseWith lower value = .ok form) ↔
      lower value ∈ Configuration.validFormats := by
  rw [parseWith, Configuration.validFormats]
  split_ifs <;> simp_all

theorem parseWith_apply (lowering : Text.Lowering) (value : Text) :
    parseWith lowering.apply value = parse value := by
  simp (disch := decide) only [parse, parseWith, lowering.apply_eq_iff]

end LogFormat

/-- The options of logging can be had for names of a level and of a form. -/
theorem Logging.exists_ofNames_iff (lower : Text → Text) (level format : Text) :
    (∃ options, ofNames lower level format = .ok options) ↔
      (∃ l, LogLevel.parseWith lower level = .ok l) ∧
        ∃ f, LogFormat.parseWith lower format = .ok f := by
  constructor
  · rintro ⟨options, h⟩
    obtain ⟨l, hl, h⟩ := bind_eq_ok_iff.mp h
    obtain ⟨f, hf, -⟩ := bind_eq_ok_iff.mp h
    exact ⟨⟨l, hl⟩, f, hf⟩
  · rintro ⟨⟨l, hl⟩, f, hf⟩
    exact ⟨new l f, bind_eq_ok_iff.mpr ⟨l, hl, bind_eq_ok_iff.mpr ⟨f, hf, rfl⟩⟩⟩

/-! ## Checks -/

section Checks

variable {ε α : Type} {p : Prop} [Decidable p] {fault : ε} {a : α}

/-- A check that has to hold, in front of a computation. -/
theorem unless_throw_eq_ok_iff {next : Except ε α} {rest : PUnit → Except ε α} :
    (if p then next else throw fault >>= rest) = .ok a ↔ p ∧ next = .ok a := by
  split
  · rename_i hp
    exact (and_iff_right hp).symm
  · rename_i hp
    exact iff_of_false (fun h => nomatch h) fun h => hp h.1

/-- A check that must not hold, in front of a computation. -/
theorem if_throw_eq_ok_iff {next : Except ε α} {rest : PUnit → Except ε α} :
    (if p then throw fault >>= rest else next) = .ok a ↔ ¬ p ∧ next = .ok a := by
  rw [← unless_throw_eq_ok_iff (p := ¬ p), ite_not]

end Checks

namespace Configuration

/-! ## Users of a configuration -/

theorem exists_loggingWith_iff (lower : Text → Text) (c : Configuration) :
    (∃ options, c.loggingWith lower = .ok options) ↔
      lower c.logLevel ∈ validLevels ∧ lower c.logFormat ∈ validFormats := by
  rw [← LogLevel.exists_parseWith_iff, ← LogFormat.exists_parseWith_iff,
    ← Logging.exists_ofNames_iff, loggingWith]
  cases Logging.ofNames lower c.logLevel c.logFormat <;> simp

/-- What validation looks at, one thing after the other. -/
theorem validateWith_eq_ok_iff (lower : Text → Text) (c : Configuration) :
    c.validateWith lower = .ok () ↔
      validLevels.contains (lower c.logLevel) = true ∧
        validFormats.contains (lower c.logFormat) = true ∧ c.port ≠ 0 ∧ c.lineLimit ≠ 0 ∧
        (∃ address, c.socketAddress = .ok address) ∧ ∃ model, c.instrumentModel = .ok model := by
  unfold validateWith
  dsimp only
  rw [unless_throw_eq_ok_iff, unless_throw_eq_ok_iff, if_throw_eq_ok_iff, if_throw_eq_ok_iff,
    bind_eq_ok_iff]
  have hpure : (pure () : Except ConfigurationFault Unit) = .ok () := rfl
  simp only [bind_eq_ok_iff, exists_and_right, iff_true_intro hpure, and_true, ne_eq]

/-- Letters beyond ASCII make no difference to logging. -/
theorem loggingWith_apply (lowering : Text.Lowering) (c : Configuration) :
    c.loggingWith lowering.apply = c.logging := by
  have hlevel := LogLevel.parseWith_apply lowering c.logLevel
  have hformat := LogFormat.parseWith_apply lowering c.logFormat
  rw [logging, loggingWith, loggingWith, Logging.ofNames, Logging.ofNames, hlevel, hformat]
  rfl

theorem validNames_spec :
    (∀ name ∈ validLevels, name.all Text.isAscii = true ∧ 'k' ∉ name) ∧
      ∀ name ∈ validFormats, name.all Text.isAscii = true ∧ 'k' ∉ name := by decide

/-- Letters beyond ASCII make no difference to validation. -/
theorem validateWith_apply (lowering : Text.Lowering) (c : Configuration) :
    c.validateWith lowering.apply = c.validate := by
  rw [validate, validateWith, validateWith, lowering.contains_apply validNames_spec.1,
    lowering.contains_apply validNames_spec.2]

/-- **Validation agrees with the users of a configuration.**

* A configuration is let through exactly if logging takes its names, the address can be listened on,
  there is a model of its name, and neither the port nor the limit of a line is zero. So nothing
  that was let through fails later, and nothing is refused that would have worked.
* In whatever way the letters beyond ASCII are lowered, by validation or by logging, neither comes to
  anything else. So the two agree also where they lower such letters apart from each other. -/
theorem validate_eq_ok_iff_usable (c : Configuration) :
    (c.validate = .ok () ↔
      (∃ options, c.logging = .ok options) ∧ c.port ≠ 0 ∧ c.lineLimit ≠ 0 ∧
        (∃ address, c.socketAddress = .ok address) ∧ ∃ model, c.instrumentModel = .ok model) ∧
      ∀ lowering : Text.Lowering,
        c.validateWith lowering.apply = c.validate ∧ c.loggingWith lowering.apply = c.logging := by
  refine ⟨?_, fun lowering => ⟨validateWith_apply lowering c, loggingWith_apply lowering c⟩⟩
  rw [validate, validateWith_eq_ok_iff, List.contains_iff_mem, List.contains_iff_mem, logging,
    exists_loggingWith_iff, and_assoc]

/-- Blanks around the name of a model do not matter; around the name of a level they do. -/
example :
    ({ default with model := " Sdg1062X ".toList }).validate.toOption = some () ∧
      ({ default with logLevel := " info ".toList }).validate.toOption = none := by
  decide +kernel

end Configuration

end WaveGen
