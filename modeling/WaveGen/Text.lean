/-!
# Text

The instrument reads and answers lines of text. A text is held as its list of characters, so that
every cut below is an ordinary recursion on lists.

* `Text.isBlank` — the Unicode `White_Space` class, which trimming removes at both ends.
* `Text.before`, `Text.after?` — the two sides of the first separator.
* `Text.split`, `Text.join` — cutting at every separator, and putting the pieces back together.
-/

namespace WaveGen

/-- A text is its list of characters. -/
abbrev Text := List Char

namespace Text

/-! ## Blanks -/

/-- The characters with the Unicode property `White_Space`. -/
def isBlank (c : Char) : Bool :=
  let n := c.toNat
  (9 ≤ n && n ≤ 13) || n == 0x20 || n == 0x85 || n == 0xA0 || n == 0x1680 ||
    (0x2000 ≤ n && n ≤ 0x200A) || n == 0x2028 || n == 0x2029 || n == 0x202F ||
    n == 0x205F || n == 0x3000

/-- Drops the blanks in front. -/
def trimStart (t : Text) : Text := t.dropWhile isBlank

/-- Drops the blanks at the end. -/
def trimEnd (t : Text) : Text := (t.reverse.dropWhile isBlank).reverse

/-- Drops the blanks at both ends. -/
def trim (t : Text) : Text := trimEnd (trimStart t)

/-! ## Letter case -/

/-- Raises the ASCII letters; all other characters stay as they are. -/
def upper (t : Text) : Text := t.map Char.toUpper

/-- Lowers the ASCII letters; all other characters stay as they are. -/
def lower (t : Text) : Text := t.map Char.toLower

/-- Whether two texts differ at most in the case of ASCII letters. -/
def sameLetters (t u : Text) : Bool := upper t == upper u

/-! ## Cutting and joining -/

/-- Whether `t` begins with `head`. -/
def startsWith (head t : Text) : Bool := head.isPrefixOf t

/-- What follows `head` at the start of `t`, if `t` begins with it. -/
def dropHead? (head t : Text) : Option Text := head.isPrefixOf? t

/-- The text in front of the first `sep`; the whole text if there is none. -/
def before (sep : Char) (t : Text) : Text := t.takeWhile (· != sep)

/-- The text behind the first `sep`, if there is one. -/
def after? (sep : Char) (t : Text) : Option Text :=
  match t.dropWhile (· != sep) with
  | [] => none
  | _ :: rest => some rest

/-- The first line of a text. A line ends with a line feed, before which one carriage return may
stand that does not belong to it; the end of the text is a line end too. -/
def firstLine (t : Text) : Text :=
  let line := before '\n' t
  if line.getLast? = some '\r' then line.dropLast else line

/-- Cuts at every `sep`. The pieces are one more than the separators, so there is always one. -/
def split (sep : Char) (t : Text) : List Text :=
  t.foldr (fun c pieces => if c = sep then [] :: pieces else pieces.modifyHead (c :: ·)) [[]]

/-- Puts `sep` between the pieces. -/
def join (sep : Char) (pieces : List Text) : Text := [sep].intercalate pieces

theorem split_nil (sep : Char) : split sep [] = [[]] := rfl

theorem split_cons (sep c : Char) (t : Text) :
    split sep (c :: t) =
      if c = sep then [] :: split sep t else (split sep t).modifyHead (c :: ·) := rfl

/-- Cutting leaves at least one piece. -/
theorem split_ne_nil (sep : Char) (t : Text) : split sep t ≠ [] := by
  induction t with
  | nil => simp [split_nil]
  | cons c rest ih =>
    rw [split_cons]
    split
    · simp
    · simpa using ih

/-- The decimal digits of a number. -/
def ofNat (n : Nat) : Text := Nat.toDigits 10 n

/-- The number that a text of decimal digits spells; an empty text spells 0. -/
def digitsValue (digits : Text) : Nat := Nat.ofDigitChars 10 digits 0

/-- Puts a text between single quotes. -/
def quoted (t : Text) : Text := '\'' :: t ++ ['\'']

end Text

end WaveGen
