/-!
# Double-precision numbers

The numbers of the language are IEEE 754 binary64 data, kept as exact
integers so that every law about them is a law of integer arithmetic.
A finite magnitude is known by its *place* in the increasing list of all
finite magnitudes, starting with zero; the place is also its 63-bit
encoding. Its value is a whole number of *units* of `2 ^ -1074`
(`units`), and rounding sends any ratio of units to the place of the
nearest magnitude (`nearest`), a half going to the even place.
-/

namespace TinyLisp

/-- The place of a finite magnitude: there are 2047 blocks of `2 ^ 52`
places each. -/
abbrev Double.Place := Fin (2047 * Nat.pow 2 52)

/-- A binary64 number. Each finite magnitude comes with two signs; all NaN
payloads are one value. -/
inductive Double where
  | finite (negative : Bool) (place : Double.Place)
  | infinite (negative : Bool)
  | nan
  deriving DecidableEq

namespace Double

/-! ## Magnitudes and rounding -/

/-- How many units make one. -/
def unitsInOne : Nat := Nat.pow 2 1074

/-- The value of the magnitude at a place, in units: the first two blocks
are evenly spaced, and each block after that is spaced twice as wide as the
one before it. -/
def units (place : Nat) : Nat :=
  if place < Nat.pow 2 52 then place
  else (Nat.pow 2 52 + place % Nat.pow 2 52) * Nat.pow 2 (place / Nat.pow 2 52 - 1)

/-- The integer nearest to `num / den`, a half going to the even one. -/
def divRound (num den : Nat) : Nat :=
  let whole := num / den
  let rest := num % den
  if 2 * rest < den ∨ 2 * rest = den ∧ whole % 2 = 0 then whole else whole + 1

/-- The place of the magnitude nearest to `num / den` units, a half going
to the even place. The places run on past the finite ones, as if the
exponent had no upper end. -/
def nearest (num den : Nat) : Nat :=
  let shift := (num / den).log2 - 52
  shift * Nat.pow 2 52 + divRound num (den * Nat.pow 2 shift)

/-- The number of the given sign nearest to `num / den` units, infinite
when the nearest place lies past the finite ones. -/
def ofUnits (negative : Bool) (num den : Nat) : Double :=
  let place := nearest num den
  if h : place < 2047 * Nat.pow 2 52 then .finite negative ⟨place, h⟩ else .infinite negative

def zero : Double := .finite false ⟨0, by decide⟩

/-! ## Arithmetic -/

/-- The exact value of a finite number in units. -/
def signedUnits (negative : Bool) (place : Nat) : Int :=
  if negative then -(units place : Int) else units place

def neg : Double → Double
  | .finite s k => .finite (!s) k
  | .infinite s => .infinite (!s)
  | .nan => .nan

/-- The rounded sum. A sum of zero is negative only when both operands
are. -/
def add : Double → Double → Double
  | .finite s j, .finite t k =>
    let sum := signedUnits s j + signedUnits t k
    if sum = 0 then .finite (s && t) ⟨0, by decide⟩
    else ofUnits (decide (sum < 0)) sum.natAbs 1
  | .infinite s, .infinite t => if s = t then .infinite s else .nan
  | .infinite s, .finite _ _ => .infinite s
  | .finite _ _, .infinite t => .infinite t
  | .nan, _ => .nan
  | _, .nan => .nan

def sub (x y : Double) : Double := add x y.neg

/-- Numeric equality: the two zeros are equal, and NaN equals nothing. -/
def same : Double → Double → Bool
  | .finite s j, .finite t k => j == k && (s == t || j.val == 0)
  | .infinite s, .infinite t => s == t
  | _, _ => false

/-! ## Integers -/

/-- The number nearest to an integer, if that is finite. -/
def ofInt? (n : Int) : Option Double :=
  match ofUnits (decide (n < 0)) (n.natAbs * unitsInOne) 1 with
  | .finite s k => some (.finite s k)
  | _ => none

/-- The value cut off toward zero; none for infinities and NaN. -/
def truncate? : Double → Option Int
  | .finite s k =>
    let whole : Int := (units k / unitsInOne : Nat)
    some (if s then -whole else whole)
  | _ => none

/-- Whether the number is finite and without a fractional part. -/
def isIntegral : Double → Bool
  | .finite _ k => units k % unitsInOne == 0
  | _ => false

/-! ## Encoding -/

/-- The 64-bit encoding, none for NaN. -/
def bits? : Double → Option Nat
  | .finite s k => some ((if s then Nat.pow 2 63 else 0) + k.val)
  | .infinite s => some ((if s then Nat.pow 2 63 else 0) + 2047 * Nat.pow 2 52)
  | .nan => none

/-- The number that the low 64 bits of `n` encode. -/
def ofBits (n : Nat) : Double :=
  let negative := n / Nat.pow 2 63 % 2 == 1
  let place := n % Nat.pow 2 63
  if h : place < 2047 * Nat.pow 2 52 then .finite negative ⟨place, h⟩
  else if place = 2047 * Nat.pow 2 52 then .infinite negative
  else .nan

end Double

end TinyLisp
