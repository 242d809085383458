/-!
# Binary64 numbers

Double-precision numbers, exactly. A finite number is a sign and a *rank*: the place of its
magnitude among all finite magnitudes, counted from zero. The rank is also the magnitude's bit
pattern, so the type holds every double and nothing else, with one not-a-number.

Every finite magnitude is a whole number of *units* of `2 ^ -1074`, the least positive double
(`Binary64.units`). So each operation takes its operands' units, computes the exact result as a
ratio of natural numbers, and rounds once (`Binary64.ofUnits`): to the nearest double, and to the
even one of two neighbours that are equally near.
-/

namespace WaveGen

/-- The quotient rounded to the nearest whole number; a tie goes to the even neighbour. -/
def roundDiv (num den : Nat) : Nat :=
  let quotient := num / den
  let twice := 2 * (num % den)
  if twice < den ∨ (twice = den ∧ quotient % 2 = 0) then quotient else quotient + 1

/-- The number of finite magnitudes. -/
def finiteRanks : Nat := 2047 * Nat.pow 2 52

theorem finiteRanks_pos : 0 < finiteRanks := by decide

/-- A double-precision number. -/
inductive Binary64 where
  | finite (negative : Bool) (rank : Fin finiteRanks)
  | infinite (negative : Bool)
  | nan
deriving DecidableEq, Repr

namespace Binary64

/-! ## Magnitudes -/

/-- The magnitude of a rank, in units of `2 ^ -1074`. The ranks below `2 ^ 53` count units one by
one; from there on each run of `2 ^ 52` ranks doubles the step. -/
def rankUnits (rank : Nat) : Nat :=
  let shift := rank / Nat.pow 2 52 - 1
  (rank - shift * Nat.pow 2 52) * Nat.pow 2 shift

/-- The rank of the magnitude nearest to `num / den` units, the even one of two equally near. It is
`finiteRanks` or more if the magnitude is too large for a finite number. -/
def nearestRank (num den : Nat) : Nat :=
  let whole := num / den
  let shift := if whole < Nat.pow 2 53 then 0 else whole.log2 - 52
  shift * Nat.pow 2 52 + roundDiv num (den * Nat.pow 2 shift)

/-- The double nearest to `num / den` units, with the given sign. -/
def ofUnits (negative : Bool) (num den : Nat) : Binary64 :=
  let rank := nearestRank num den
  if h : rank < finiteRanks then .finite negative ⟨rank, h⟩ else .infinite negative

/-- The units in one: `2 ^ 1074` of them. -/
def unitsPerOne : Nat := Nat.pow 2 1074

/-- Zero without a sign. -/
def zero : Binary64 := .finite false ⟨0, finiteRanks_pos⟩

/-! ## Bit patterns -/

/-- The number with this bit pattern. -/
def ofBits (bits : UInt64) : Binary64 :=
  let negative := Nat.pow 2 63 ≤ bits.toNat
  let rank := bits.toNat % Nat.pow 2 63
  if h : rank < finiteRanks then .finite negative ⟨rank, h⟩
  else if rank = finiteRanks then .infinite negative
  else .nan

/-- The bit pattern of a number; that of not-a-number is the quiet one without a sign. -/
def toBits : Binary64 → UInt64
  | .finite negative rank => UInt64.ofNat (signBit negative + rank.val)
  | .infinite negative => UInt64.ofNat (signBit negative + finiteRanks)
  | .nan => UInt64.ofNat (finiteRanks + Nat.pow 2 51)
where
  /-- The weight of the sign in a bit pattern. -/
  signBit (negative : Bool) : Nat := if negative then Nat.pow 2 63 else 0

/-! ## Order -/

/-- The units of a finite number, with its sign. -/
def signedUnits (negative : Bool) (rank : Nat) : Int :=
  if negative then -(rankUnits rank : Int) else rankUnits rank

/-- Whether the number is neither infinite nor not-a-number. -/
def isFinite : Binary64 → Bool
  | .finite _ _ => true
  | _ => false

/-- Whether the number is one of the two zeros. -/
def isZero : Binary64 → Bool
  | .finite _ rank => rank.val == 0
  | _ => false

/-- The strict order of the numbers; not-a-number is in no relation to any. -/
def lt : Binary64 → Binary64 → Bool
  | .nan, _ => false
  | _, .nan => false
  | .infinite true, y => y != .infinite true
  | .infinite false, _ => false
  | .finite _ _, .infinite negative => !negative
  | .finite n a, .finite m b => decide (signedUnits n a.val < signedUnits m b.val)

/-- The number moved into the range from `low` to `high`. -/
def clamp (x low high : Binary64) : Binary64 :=
  if lt x low then low else if lt high x then high else x

/-! ## Arithmetic -/

/-- The same magnitude with the other sign. -/
def neg : Binary64 → Binary64
  | .finite negative rank => .finite (!negative) rank
  | .infinite negative => .infinite (!negative)
  | .nan => .nan

/-- The sum. An exact zero is positive, unless both summands are negative zeros. -/
def add : Binary64 → Binary64 → Binary64
  | .finite n a, .finite m b =>
    let x := rankUnits a.val
    let y := rankUnits b.val
    if n = m then ofUnits n (x + y) 1
    else if x = y then zero
    else if y < x then ofUnits n (x - y) 1
    else ofUnits m (y - x) 1
  | .infinite n, .finite _ _ => .infinite n
  | .finite _ _, .infinite m => .infinite m
  | .infinite n, .infinite m => if n = m then .infinite n else .nan
  | _, _ => .nan

/-- The difference. -/
def sub (x y : Binary64) : Binary64 := add x (neg y)

/-- The product. Zero times infinity is not a number. -/
def mul : Binary64 → Binary64 → Binary64
  | .finite n a, .finite m b =>
    ofUnits (n != m) (rankUnits a.val * rankUnits b.val) unitsPerOne
  | .infinite n, .finite m b => if b.val = 0 then .nan else .infinite (n != m)
  | .finite n a, .infinite m => if a.val = 0 then .nan else .infinite (n != m)
  | .infinite n, .infinite m => .infinite (n != m)
  | _, _ => .nan

/-- The quotient. Zero over zero and infinity over infinity are not numbers. -/
def div : Binary64 → Binary64 → Binary64
  | .finite n a, .finite m b =>
    if b.val = 0 then
      if a.val = 0 then .nan else .infinite (n != m)
    else ofUnits (n != m) (rankUnits a.val * unitsPerOne) (rankUnits b.val)
  | .infinite n, .finite m _ => .infinite (n != m)
  | .finite n _, .infinite m => .finite (n != m) ⟨0, finiteRanks_pos⟩
  | _, _ => .nan

end Binary64

end WaveGen
