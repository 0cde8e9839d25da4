import TinyLisp.Proofs.Atoms
import TinyLisp.Proofs.Nearest

/-!
# Numbers are read correctly rounded

`Decimal.Denotes` says which rational the characters of a number denote, from their digits, the
place of the point and the exponent. The reader instead collects a decimal and rounds it with
integers (`Decimal.toDouble`); that decimal has the rational as its value (`denotes_iff`), and it
is rounded as `Double.IsRounded` requires (`toDouble_isRounded`), with exponents of any size.

The headline is `numbers_read_rounded`. Since a rational has only one rounding, the notation
does not matter, and the order of rationals is kept.
-/

namespace TinyLisp

open Text Double

namespace Decimal

/-! ## The value of a decimal -/

def value (d : Decimal) : ℚ := d.coefficient * 10 ^ d.exponent

theorem value_nonneg (d : Decimal) : 0 ≤ d.value := by
  unfold value
  positivity

theorem value_mul_den (d : Decimal) : d.value * d.den = d.num := by
  have hexponent : d.exponent + ((-d.exponent).toNat : Int) = (d.exponent.toNat : Int) := by omega
  rw [value, den, num]
  push_cast
  rw [mul_assoc, ← zpow_natCast, ← zpow_natCast, ← zpow_add₀ (by norm_num), hexponent]

theorem value_mul_units (d : Decimal) :
    d.value * unitsInOne * d.den = (d.num * unitsInOne : Nat) := by
  push_cast
  rw [← value_mul_den]
  ring

theorem toDouble_isRounded (d : Decimal) : IsRounded d.value d.toDouble := by
  rw [toDouble_eq]
  exact isRounded_ofUnits d.den_pos d.value_mul_units d.value_nonneg

theorem toDouble_eq_zero_iff (d : Decimal) : d.toDouble = .zero ↔ d.value ≤ 2 ^ (-1075 : Int) := by
  rw [← nearest_eq_zero_iff d.den_pos d.value_mul_units, toDouble_eq]
  exact ofUnits_eq_zero_iff

/-! ## The rational that characters denote -/

theorem rowValue_append (ds es : List Nat) :
    rowValue (ds ++ es) = rowValue ds * 10 ^ es.length + rowValue es := by
  rw [rowValue, List.reverse_append, Nat.ofDigits_append, List.length_reverse]
  simp only [rowValue]
  ring

/-- The characters, up to the blanks at their end, are the notation of the rational. Digits count
by their value and underscores not at all, the digits behind the point are a fraction, and the
exponent is one of ten. -/
inductive Denotes (cs : List Char) : ℚ → Prop where
  | intro {whole point tail : List Char} {fraction : List Nat} {e : Int} (hwhole : IsRun whole)
      (hpoint : IsFraction point fraction) (htail : IsExponent tail e)
      (hcs : cs.rdropWhile isTrailing = whole ++ (point ++ tail)) :
      Denotes cs ((rowValue (whole.filterMap digit?)
        + rowValue fraction / 10 ^ fraction.length) * 10 ^ e)

theorem value_eq (ds fraction : List Nat) (e : Int) :
    value ⟨rowValue (ds ++ fraction), e - fraction.length⟩
      = (rowValue ds + rowValue fraction / 10 ^ fraction.length) * 10 ^ e := by
  rw [value, rowValue_append, zpow_sub₀ (by norm_num), zpow_natCast]
  push_cast
  field_simp

theorem denotes_iff {cs : List Char} {q : ℚ} :
    Denotes cs q ↔ ∃ d, ofChars? cs = some d ∧ d.value = q := by
  simp only [ofChars?_eq_some_iff]
  constructor
  · rintro ⟨hwhole, hpoint, htail, hcs⟩
    exact ⟨_, .intro hwhole hpoint htail hcs rfl rfl, value_eq _ _ _⟩
  · rintro ⟨⟨c, e⟩, ⟨hwhole, hpoint, htail, hcs, rfl, rfl⟩, rfl⟩
    rw [value_eq]
    exact .intro hwhole hpoint htail hcs

end Decimal

open Decimal

/-- Only words that start with an ASCII digit are read as numbers. -/
theorem readAtom_eq_number_iff {text : String} {x : Double} :
    readAtom text = .ok (.number x)
      ↔ (∃ c rest, text.toList = c :: rest ∧ c.isDigit = true)
        ∧ ∃ d, ofChars? text.toList = some d ∧ d.toDouble = x := by
  constructor
  · intro h
    unfold readAtom at h
    split at h
    · cases h
    · rename_i c rest htext
      split at h
      · rename_i hc
        refine ⟨⟨c, rest, htext, hc⟩, ?_⟩
        rw [htext]
        split at h
        · rename_i d hd
          cases h
          exact ⟨d, hd, rfl⟩
        · cases h
      · split at h
        · split at h <;> cases h
        · cases h
  · rintro ⟨⟨c, rest, htext, hc⟩, d, hd, rfl⟩
    rw [readAtom_of_digit htext hc, hd]

/-- What is read is the rounding of what is denoted. -/
theorem readAtom_isRounded {text : String} {x : Double} {q : ℚ}
    (h : readAtom text = .ok (.number x)) (hq : Denotes text.toList q) : IsRounded q x := by
  obtain ⟨-, d, hd, rfl⟩ := readAtom_eq_number_iff.mp h
  obtain ⟨d', hd', rfl⟩ := denotes_iff.mp hq
  rw [hd] at hd'
  cases hd'
  exact d.toDouble_isRounded

/-- **Numbers are read correctly rounded, whatever their notation.** A word is read as a number
exactly if it starts with an ASCII digit and denotes a rational, and the number is then the one
that the rational is rounded to. It is zero up to half of the smallest positive number, and
infinite from half a step past the largest finite number on. Words that denote the same rational
are read as the same number, and those that denote larger ones are not read as smaller. -/
theorem numbers_read_rounded :
    (∀ text x, readAtom text = .ok (.number x)
        ↔ (∃ c rest, text.toList = c :: rest ∧ c.isDigit = true)
          ∧ ∃ q, Denotes text.toList q ∧ IsRounded q x)
      ∧ (∀ text x q, readAtom text = .ok (.number x) → Denotes text.toList q →
          0 ≤ q ∧ IsRounded q x ∧ (x = .zero ↔ q ≤ 2 ^ (-1075 : Int))
            ∧ (x = .infinite false ↔ 2 ^ 1024 - 2 ^ 970 ≤ q))
      ∧ ∀ text text' x x' q q', readAtom text = .ok (.number x) → Denotes text.toList q →
          readAtom text' = .ok (.number x') → Denotes text'.toList q' →
            (q = q' → x = x') ∧ (q ≤ q' → x.AtMost x') := by
  refine ⟨fun text x => ⟨fun h => ?_, ?_⟩, fun text x q h hq => ?_, ?_⟩
  · obtain ⟨hdigit, d, hd, rfl⟩ := readAtom_eq_number_iff.mp h
    exact ⟨hdigit, d.value, denotes_iff.mpr ⟨d, hd, rfl⟩, d.toDouble_isRounded⟩
  · rintro ⟨hdigit, q, hq, hx⟩
    obtain ⟨d, hd, rfl⟩ := denotes_iff.mp hq
    exact readAtom_eq_number_iff.mpr ⟨hdigit, d, hd, d.toDouble_isRounded.unique hx⟩
  · have hrounded := readAtom_isRounded h hq
    obtain ⟨d, hd, rfl⟩ := denotes_iff.mp hq
    have hx := hrounded.unique d.toDouble_isRounded
    refine ⟨d.value_nonneg, hrounded, ?_, hrounded.eq_infinite_iff⟩
    rw [hx]
    exact d.toDouble_eq_zero_iff
  · intro text text' x x' q q' h hq h' hq'
    have hx := readAtom_isRounded h hq
    have hx' := readAtom_isRounded h' hq'
    refine ⟨?_, hx.atMost hx'⟩
    rintro rfl
    exact hx.unique hx'

/-- The odd number after `2 ^ 53`, in two notations: it lies in the middle between two numbers and
is read as the one with an even significand, which is not the larger one. -/
theorem numbers_read_rounded_tie :
    let x : Double := .finite false ⟨1076 * 2 ^ 52, by decide⟩
    readAtom "9_007_199_254_740_993" = .ok (.number x)
      ∧ Denotes "9_007_199_254_740_993".toList 9007199254740993
      ∧ IsRounded 9007199254740993 x
      ∧ (∃ y, readAtom "900719925474099.30E\u0661" = .ok (.number y) ∧ y = x ∧ x.AtMost y)
      ∧ ¬ x = .zero ∧ ¬ x = .infinite false := by
  intro x
  have hchars : ofChars? "9_007_199_254_740_993".toList = some ⟨9007199254740993, 0⟩ := by decide
  have hdouble : toDouble ⟨9007199254740993, 0⟩ = .finite false ⟨1076 * 2 ^ 52, by decide⟩ := by
    decide +kernel
  have hread : readAtom "9_007_199_254_740_993" = .ok (.number x) :=
    readAtom_eq_number_iff.mpr ⟨⟨'9', _, rfl, by decide⟩, _, hchars, hdouble⟩
  have hq : Denotes "9_007_199_254_740_993".toList 9007199254740993 :=
    denotes_iff.mpr ⟨_, hchars, by norm_num [value]⟩
  have hchars' : ofChars? "900719925474099.30E\u0661".toList = some ⟨90071992547409930, -1⟩ := by
    decide
  obtain ⟨y, hy⟩ : ∃ y, toDouble ⟨90071992547409930, -1⟩ = y := ⟨_, rfl⟩
  have hread' : readAtom "900719925474099.30E\u0661" = .ok (.number y) :=
    readAtom_eq_number_iff.mpr ⟨⟨'9', _, rfl, by decide⟩, _, hchars', hy⟩
  have hq' : Denotes "900719925474099.30E\u0661".toList 9007199254740993 :=
    denotes_iff.mpr ⟨_, hchars', by norm_num [value]⟩
  obtain ⟨-, hrounded, hpair⟩ := numbers_read_rounded
  obtain ⟨-, hx, -, -⟩ := hrounded _ _ _ hread hq
  obtain ⟨hsame, hmono⟩ := hpair _ _ _ _ _ _ hread hq hread' hq'
  exact ⟨hread, hq, hx, ⟨y, hread', (hsame rfl).symm, hmono le_rfl⟩, by decide, by decide⟩

end TinyLisp
