import TinyLisp.Number.Shortest

/-!
# How numbers are written

`Double.text` is what the user sees: the exact integer when there is no
fraction, otherwise the shortest decimal. `Double.spelling` always shows
that the number is a double: `3.0`, `1e+22`, `-0.0`.
-/

namespace TinyLisp

/-- The significant digits of a decimal and the position of its point
relative to the first of them. -/
def Decimal.significant (d : Decimal) : List Char × Int :=
  let digits := d.coefficient.repr.toList
  (Text.dropEndWhile (· == '0') digits, d.exponent + digits.length)

namespace Double

/-- Digits written out around a point: at least one on either side. -/
def positional (digits : List Char) (point : Int) : List Char :=
  match point with
  | .ofNat 0 => ['0', '.'] ++ digits
  | .negSucc n => ['0', '.'] ++ List.replicate (n + 1) '0' ++ digits
  | .ofNat n =>
    if n < digits.length then digits.take n ++ ['.'] ++ digits.drop n
    else digits ++ List.replicate (n - digits.length) '0' ++ ['.', '0']

/-- The exponent mark, a sign and at least two digits. -/
def exponentMark (exponent : Int) : List Char :=
  let digits := exponent.natAbs.repr.toList
  ['e', if exponent < 0 then '-' else '+']
    ++ List.replicate (2 - digits.length) '0' ++ digits

/-- Digits with the point after the first of them, and the exponent. -/
def scientific (digits : List Char) (point : Int) : List Char :=
  let fraction := if digits.length ≤ 1 then [] else ['.'] ++ digits.drop 1
  digits.take 1 ++ fraction ++ exponentMark (point - 1)

/-- Digits and a point: positional while the exponent of the first digit
is at least -4 and below 16, scientific otherwise. -/
def layout (digits : List Char) (point : Int) : List Char :=
  if -4 < point ∧ point ≤ 16 then positional digits point else scientific digits point

/-- The number as a double: its shortest digits, always with a point or an
exponent. -/
def spelling : Double → String
  | .finite s k =>
    let sign := if s then "-" else ""
    if k.val = 0 then sign ++ "0.0"
    else
      let (digits, point) := (shortest k).significant
      sign ++ String.ofList (layout digits point)
  | .infinite s => if s then "-inf" else "inf"
  | .nan => "nan"

/-- The number for the reader: an integer in full when it is one, so that
both zeros are `0`, and else its spelling. -/
def text (x : Double) : String :=
  if x.isIntegral then
    match x.truncate? with
    | some n => n.repr
    | none => x.spelling
  else x.spelling

end Double

end TinyLisp
