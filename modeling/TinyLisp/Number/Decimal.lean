import TinyLisp.Number.Double
import TinyLisp.Text.Blank
import TinyLisp.Text.Digit

/-!
# Decimal numbers and their notation

A written number is first a `Decimal`, a coefficient and a power of ten,
and then the double nearest to it (`Decimal.toDouble`). The notation is

    D [ '.' [D] ] [ ('e' | 'E') ['+' | '-'] D ]     D = digit ( ['_'] digit )*

where a digit may be of any script, and blanks may follow. Both steps are
exact: `toDouble` rounds once, whatever the size of the exponent.
-/

namespace TinyLisp

/-- The number `coefficient * 10 ^ exponent`. -/
structure Decimal where
  coefficient : Nat
  exponent : Int
  deriving DecidableEq

namespace Decimal

/-- The nearest double. Exponents so large or so small that the result is
settled without the digits are told apart first, so that no huge power of
ten is ever formed: `10 ^ 309` is past the largest double, and `10 ^ n` is
more than `2 ^ (3 * n)`. -/
def toDouble (d : Decimal) : Double :=
  match d.exponent with
  | .ofNat n =>
    if d.coefficient = 0 then .zero
    else if 308 < n then .infinite false
    else .ofUnits false (d.coefficient * Nat.pow 10 n * Double.unitsInOne) 1
  | .negSucc n =>
    if d.coefficient.log2 + 1080 < 3 * (n + 1) then .zero
    else .ofUnits false (d.coefficient * Double.unitsInOne) (Nat.pow 10 (n + 1))

/-! ## Reading -/

/-- The number that a row of digit values denotes. -/
def ofDigits (digits : List Nat) : Nat :=
  digits.foldl (fun n d => 10 * n + d) 0

/-- The digits that continue a run, each perhaps after one underscore, and
what follows them. -/
def moreDigits : List Char → List Nat × List Char
  | '_' :: c :: rest =>
    match Text.digit? c with
    | some d => let (ds, after) := moreDigits rest; (d :: ds, after)
    | none => ([], '_' :: c :: rest)
  | c :: rest =>
    match Text.digit? c with
    | some d => let (ds, after) := moreDigits rest; (d :: ds, after)
    | none => ([], c :: rest)
  | [] => ([], [])

/-- The longest run of digits at the front, and what follows it. -/
def digitRun : List Char → Option (List Nat × List Char)
  | c :: rest =>
    (Text.digit? c).map fun d => let (ds, after) := moreDigits rest; (d :: ds, after)
  | [] => none

/-- The digits after a point, if there is one, and what follows. -/
def fractionRun : List Char → List Nat × List Char
  | '.' :: rest => (digitRun rest).getD ([], rest)
  | rest => ([], rest)

/-- A digit run that is the whole of the characters, as a number. -/
def wholeRun (cs : List Char) : Option Nat :=
  match digitRun cs with
  | some (ds, []) => some (ofDigits ds)
  | _ => none

/-- The exponent that the characters spell out, zero if there are none. -/
def exponentPart : List Char → Option Int
  | [] => some 0
  | mark :: rest =>
    if mark = 'e' ∨ mark = 'E' then
      match rest with
      | '+' :: ds => (wholeRun ds).map fun n => (n : Int)
      | '-' :: ds => (wholeRun ds).map fun n => -(n : Int)
      | ds => (wholeRun ds).map fun n => (n : Int)
    else none

/-- Blanks that may follow a number: all but the information separators. -/
def isPadding (c : Char) : Bool :=
  Text.isBlank c && !(0x1c ≤ c.toNat && c.toNat ≤ 0x1f)

/-- The number that the characters are the notation of. -/
def ofChars? (cs : List Char) : Option Decimal := do
  let (whole, rest) ← digitRun (Text.dropEndWhile isPadding cs)
  let (fraction, rest) := fractionRun rest
  let exponent ← exponentPart rest
  return ⟨ofDigits (whole ++ fraction), exponent - fraction.length⟩

end Decimal

end TinyLisp
