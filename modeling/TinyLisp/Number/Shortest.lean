import TinyLisp.Number.Decimal

/-!
# The shortest decimal that reads back

For a positive finite double there are decimals that read back as it; the
one written has the fewest digits, and of those with the fewest the one
nearest to the double. It is found by trying one digit, two digits, and so
on. On each grid of decimals only the two neighbours of the double need a
try, since the decimals that read back form an interval around it.
-/

namespace TinyLisp.Double

/-- The ratio of two naturals scaled by a power of ten. -/
def scaled (num den : Nat) : Int → Nat × Nat
  | .ofNat n => (num * Nat.pow 10 n, den)
  | .negSucc n => (num, den * Nat.pow 10 (n + 1))

/-- How many times `num` can be multiplied by ten and stay below
`den / 10`, up to the given bound. -/
def leadingZeros : Nat → Nat → Nat → Nat
  | 0, _, _ => 0
  | bound + 1, num, den =>
    if 10 * num < den then leadingZeros bound (10 * num) den + 1 else 0

/-- The position of the decimal point of `num / den` relative to its first
digit that is not zero: `10 ^ (p - 1) ≤ num / den < 10 ^ p`. -/
def pointPosition (num den : Nat) : Int :=
  if den ≤ num then (num / den).repr.length else -(leadingZeros 400 num den : Int)

/-- The neighbour of the magnitude at `place` on the grid of multiples of
`10 ^ exponent` that reads back as it: the nearer one if both do, and the
even one if they are equally near. -/
def gridNeighbour? (place : Place) (exponent : Int) : Option Decimal :=
  let (num, den) := scaled (units place) unitsInOne (-exponent)
  let below := num / den
  let rest := num % den
  let readsBack (c : Nat) : Bool := (Decimal.mk c exponent).toDouble = .finite false place
  let preferBelow : Bool := 2 * rest < den ∨ 2 * rest = den ∧ below % 2 = 0
  match readsBack below, readsBack (below + 1) with
  | true, true => some ⟨if preferBelow then below else below + 1, exponent⟩
  | true, false => some ⟨below, exponent⟩
  | false, true => some ⟨below + 1, exponent⟩
  | false, false => none

/-- The first hit among the grids with the last digit at `10 ^ exponent`,
`10 ^ (exponent - 1)`, and so on, for a bounded number of grids; the exact
decimal expansion if there is none. -/
def firstHit (place : Place) : Nat → Int → Decimal
  | 0, _ => ⟨units place * Nat.pow 5 1074, -1074⟩
  | grids + 1, exponent =>
    match gridNeighbour? place exponent with
    | some d => d
    | none => firstHit place grids (exponent - 1)

/-- The shortest decimal that reads back as the magnitude at `place`.
Seventeen digits are enough for every double. -/
def shortest (place : Place) : Decimal :=
  firstHit place 17 (pointPosition (units place) unitsInOne - 1)

end TinyLisp.Double
