import TinyLisp.Proofs.Equality
import TinyLisp.Proofs.NumberForm
import TinyLisp.Proofs.Rounding

/-!
# Written numbers are read back

A number is printed as ASCII digits around a point, perhaps with an exponent
(`Decimal.PrintedAs`). That is one of the ways to write a decimal (`PrintedAs.writtenAs`), so it
is read back as that decimal. Whichever layout is chosen, it prints a decimal of the same value
(`layout_significant_printedAs`), and the value of the shortest decimal is rounded to the number
it was made for. So the text of a number determines it but for the sign of a zero
(`Double.ofText_text`, `Double.text_eq_iff`).
-/

namespace TinyLisp

namespace Decimal

/-! ## Runs of digits -/

def IsDigits (ds : List Char) : Prop := ∀ c ∈ ds, c.isDigit = true

theorem IsDigits.append {ds es : List Char} (hds : IsDigits ds) (hes : IsDigits es) :
    IsDigits (ds ++ es) := by
  intro c hc
  rcases List.mem_append.mp hc with h | h
  · exact hds c h
  · exact hes c h

theorem isDigits_zeros (n : Nat) : IsDigits (List.replicate n '0') := by
  intro c hc
  rw [List.eq_of_mem_replicate hc]
  rfl

theorem isDigits_repr (n : Nat) : IsDigits n.repr.toList := by
  intro c hc
  rw [Nat.toList_repr] at hc
  exact Nat.isDigit_of_mem_toDigits (by decide) (by decide) hc

theorem repr_ne_nil (n : Nat) : n.repr.toList ≠ [] := by
  rw [Nat.toList_repr]
  exact Nat.toDigits_ne_nil

/-- The natural that a row of digits denotes. -/
def numeral (ds : List Char) : Nat := Nat.ofDigitChars 10 ds 0

theorem numeral_repr (n : Nat) : numeral n.repr.toList = n := by
  rw [numeral, Nat.toList_repr, Nat.ofDigitChars_ten_toDigits]

theorem numeral_append_zeros (ds : List Char) (n : Nat) :
    numeral (ds ++ List.replicate n '0') = numeral ds * 10 ^ n := by
  rw [numeral, Nat.ofDigitChars_append, Nat.ofDigitChars_replicate_zero, Nat.mul_comm]
  rfl

theorem numeral_zeros_append (n : Nat) (ds : List Char) :
    numeral (List.replicate n '0' ++ ds) = numeral ds := by
  rw [numeral, Nat.ofDigitChars_append, Nat.ofDigitChars_replicate_zero, Nat.mul_zero]
  rfl

theorem rowValue_eq (ds : List Char) :
    rowValue (ds.map fun c => c.toNat - '0'.toNat) = numeral ds := by
  rw [← ofDigits_eq_rowValue, ofDigits, List.foldl_map, numeral, Nat.ofDigitChars_eq_foldl]

theorem IsDigits.filterMap_digit? {ds : List Char} (h : IsDigits ds) :
    ds.filterMap Text.digit? = ds.map fun c => c.toNat - '0'.toNat := by
  rw [← List.filterMap_eq_map]
  exact List.filterMap_congr fun c hc => Text.digit?_of_isDigit (h c hc)

theorem IsDigits.isMore {ds : List Char} (h : IsDigits ds) : IsMore ds := by
  induction ds with
  | nil => exact .nil
  | cons c ds ih =>
      obtain ⟨hc, hds⟩ := List.forall_mem_cons.mp h
      exact .digit (Text.digit?_of_isDigit hc) (ih hds)

theorem IsDigits.isRun {ds : List Char} (h : IsDigits ds) (hne : ds ≠ []) : IsRun ds := by
  cases ds with
  | nil => exact absurd rfl hne
  | cons c ds =>
      obtain ⟨hc, hds⟩ := List.forall_mem_cons.mp h
      exact .intro (Text.digit?_of_isDigit hc) (IsDigits.isMore hds)

/-! ## The notation -/

theorem isExponent_exponentMark (e : Int) : IsExponent (Double.exponentMark e) e := by
  have hdigits := (isDigits_zeros (2 - e.natAbs.repr.toList.length)).append
    (isDigits_repr e.natAbs)
  have hrun := hdigits.isRun (List.append_ne_nil_of_right_ne_nil _ (repr_ne_nil _))
  have hvalue : rowValue ((List.replicate (2 - e.natAbs.repr.toList.length) '0'
      ++ e.natAbs.repr.toList).filterMap Text.digit?) = e.natAbs := by
    rw [hdigits.filterMap_digit?, rowValue_eq, numeral_zeros_append, numeral_repr]
  by_cases he : e < 0
  · have hmark := IsExponent.marked (Or.inl rfl) .minus hrun
    rw [hvalue] at hmark
    have habs : -1 * (e.natAbs : Int) = e := by omega
    rw [habs] at hmark
    simpa [Double.exponentMark, he] using hmark
  · have hmark := IsExponent.marked (Or.inl rfl) .plus hrun
    rw [hvalue] at hmark
    have habs : 1 * (e.natAbs : Int) = e := by omega
    rw [habs] at hmark
    simpa [Double.exponentMark, he] using hmark

/-- A fraction with its point. -/
def pointed (fraction : List Char) : List Char :=
  if fraction = [] then [] else '.' :: fraction

theorem isFraction_pointed {fraction : List Char} (h : IsDigits fraction) :
    IsFraction (pointed fraction) (fraction.map fun c => c.toNat - '0'.toNat) := by
  by_cases hne : fraction = []
  · rw [pointed, if_pos hne, hne]
    exact .none
  · rw [pointed, if_neg hne, ← h.filterMap_digit?]
    exact .digits (h.isRun hne)

/-- The characters are ASCII digits around a point, perhaps with an exponent, that write the
decimal. -/
inductive PrintedAs (d : Decimal) (cs : List Char) : Prop where
  | intro {whole fraction tail : List Char} {e : Int} (hwhole : IsDigits whole)
      (hne : whole ≠ []) (hfraction : IsDigits fraction) (htail : IsExponent tail e)
      (hcs : cs = whole ++ (pointed fraction ++ tail))
      (hcoefficient : d.coefficient = numeral (whole ++ fraction))
      (hexponent : d.exponent = e - fraction.length)

theorem PrintedAs.writtenAs {d : Decimal} {cs : List Char} (h : d.PrintedAs cs) :
    d.WrittenAs cs := by
  obtain ⟨hwhole, hne, hfraction, htail, hcs, hcoefficient, hexponent⟩ := h
  refine .intro (hwhole.isRun hne) (isFraction_pointed hfraction) htail hcs ?_ ?_
  · rw [hwhole.filterMap_digit?, ← List.map_append, rowValue_eq, hcoefficient]
  · rw [List.length_map, hexponent]

/-- A printed number starts with a digit. -/
theorem PrintedAs.exists_cons {d : Decimal} {cs : List Char} (h : d.PrintedAs cs) :
    ∃ c rest, cs = c :: rest ∧ c.isDigit = true := by
  obtain @⟨whole, _, _, _, hwhole, hne, -, -, rfl, -, -⟩ := h
  cases whole with
  | nil => exact absurd rfl hne
  | cons c whole => exact ⟨c, _, rfl, hwhole c List.mem_cons_self⟩

theorem isDigits_nil : IsDigits [] := fun _ h => nomatch h

theorem printedAs_repr (n : Nat) : PrintedAs ⟨n, 0⟩ n.repr.toList := by
  refine .intro (isDigits_repr n) (repr_ne_nil n) isDigits_nil .none ?_ ?_ rfl
  · exact (List.append_nil _).symm
  · rw [List.append_nil, numeral_repr]

/-! ## The layouts -/

/-- Zeros at the end count as powers of ten. -/
theorem toDouble_mul_pow (c n : Nat) (e : Int) :
    toDouble ⟨c * 10 ^ n, e⟩ = toDouble ⟨c, e + n⟩ := by
  refine toDouble_congr ?_
  have hexp : n + e.toNat + (-(e + n)).toNat = (e + n).toNat + (-e).toNat := by omega
  simp only [num, den, Nat.mul_assoc, ← pow_add, hexp]

section Layout

variable {digits : List Char} (hdigits : IsDigits digits) (hne : digits ≠ [])
include hdigits hne

theorem positional_printedAs (point : Int) :
    ∃ d, PrintedAs d (Double.positional digits point)
      ∧ d.toDouble = toDouble ⟨numeral digits, point - digits.length⟩ := by
  have hzero : IsDigits ['0'] := isDigits_zeros 1
  unfold Double.positional
  split
  · refine ⟨_, .intro hzero (by decide) hdigits .none ?_ ?_ ?_, rfl⟩
    · rw [pointed, if_neg hne, List.append_nil]; rfl
    · exact (numeral_zeros_append 1 digits).symm
    · rfl
  · rename_i n
    have hfraction := (isDigits_zeros (n + 1)).append hdigits
    refine ⟨_, .intro hzero (by decide) hfraction .none ?_ ?_ ?_, rfl⟩
    · rw [pointed, if_neg (List.append_ne_nil_of_right_ne_nil _ hne), List.append_nil]
      rfl
    · exact ((numeral_zeros_append 1 _).trans (numeral_zeros_append _ digits)).symm
    · show Int.negSucc n - digits.length = _
      rw [List.length_append, List.length_replicate]
      omega
  · rename_i n hn
    split
    · rename_i hlt
      have htake : IsDigits (digits.take n) := fun c hc => hdigits c (List.mem_of_mem_take hc)
      have hdrop : IsDigits (digits.drop n) := fun c hc => hdigits c (List.mem_of_mem_drop hc)
      refine ⟨_, .intro htake ?_ hdrop .none ?_ ?_ ?_, rfl⟩
      · rw [ne_eq, List.take_eq_nil_iff]
        exact not_or.mpr ⟨fun h => hn h, hne⟩
      · have hdrop : digits.drop n ≠ [] := by rw [ne_eq, List.drop_eq_nil_iff]; omega
        rw [pointed, if_neg hdrop, List.append_nil, List.append_assoc]
        rfl
      · rw [List.take_append_drop]
      · show (n : Int) - digits.length = _
        rw [List.length_drop]
        omega
    · -- the zeros up to the point and the one behind it make the coefficient larger
      rename_i hge
      have hwhole := hdigits.append (isDigits_zeros (n - digits.length))
      refine ⟨⟨numeral digits * 10 ^ (n - digits.length + 1), -1⟩,
        .intro hwhole (List.append_ne_nil_of_left_ne_nil hne _) hzero .none ?_ ?_ rfl, ?_⟩
      · rfl
      · rw [List.append_assoc, ← List.replicate_succ', numeral_append_zeros]
      · have hexponent : -1 + ((n - digits.length + 1 : Nat) : Int) = n - digits.length := by omega
        rw [toDouble_mul_pow, hexponent]
        rfl

theorem scientific_printedAs (point : Int) :
    PrintedAs ⟨numeral digits, point - digits.length⟩ (Double.scientific digits point) := by
  have htake : IsDigits (digits.take 1) := fun c hc => hdigits c (List.mem_of_mem_take hc)
  have hdrop : IsDigits (digits.drop 1) := fun c hc => hdigits c (List.mem_of_mem_drop hc)
  have hfraction : (if digits.length ≤ 1 then [] else ['.'] ++ digits.drop 1)
      = pointed (digits.drop 1) := by
    simp only [pointed, List.drop_eq_nil_iff]
    rfl
  refine .intro htake ?_ hdrop (isExponent_exponentMark (point - 1)) ?_ ?_ ?_
  · rw [ne_eq, List.take_eq_nil_iff]
    exact not_or.mpr ⟨by decide, hne⟩
  · rw [Double.scientific, hfraction, List.append_assoc]
  · rw [List.take_append_drop]
  · have hpos := List.length_pos_of_ne_nil hne
    show point - digits.length = _
    rw [List.length_drop]
    omega

/-- Either layout is a way to write the same value. -/
theorem layout_printedAs (point : Int) :
    ∃ d, PrintedAs d (Double.layout digits point)
      ∧ d.toDouble = toDouble ⟨numeral digits, point - digits.length⟩ := by
  unfold Double.layout
  split
  · exact positional_printedAs hdigits hne point
  · exact ⟨_, scientific_printedAs hdigits hne point, rfl⟩

end Layout

theorem exists_eq_append_zeros (cs : List Char) :
    ∃ n, cs = Text.dropEndWhile (· == '0') cs ++ List.replicate n '0' := by
  have hzeros := List.eq_replicate_of_mem (a := '0') (l := cs.reverse.takeWhile (· == '0'))
    fun c hc => by simpa using List.mem_takeWhile_imp hc
  refine ⟨(cs.reverse.takeWhile (· == '0')).length, ?_⟩
  rw [← List.reverse_replicate, ← hzeros, Text.dropEndWhile, ← List.reverse_append,
    List.takeWhile_append_dropWhile, List.reverse_reverse]

/-- The significant digits of a decimal keep its value. -/
theorem layout_significant_printedAs {d : Decimal} (hd : d.coefficient ≠ 0) :
    ∃ d', PrintedAs d' (Double.layout d.significant.1 d.significant.2)
      ∧ d'.toDouble = d.toDouble := by
  obtain ⟨c, e⟩ := d
  obtain ⟨n, hn⟩ := exists_eq_append_zeros c.repr.toList
  have hall := isDigits_repr c
  have hvalue := numeral_repr c
  have hlength := congrArg List.length hn
  rw [hn, numeral_append_zeros] at hvalue
  rw [hn] at hall
  rw [List.length_append, List.length_replicate] at hlength
  simp only [significant]
  generalize Text.dropEndWhile (· == '0') c.repr.toList = digits at hvalue hall hlength ⊢
  have hdigits : IsDigits digits := fun c hc => hall c (List.mem_append_left _ hc)
  have hne : digits ≠ [] := by
    rintro rfl
    refine hd (hvalue.symm.trans ?_)
    exact Nat.zero_mul _
  obtain ⟨d', hprinted, hdouble⟩ := layout_printedAs hdigits hne (e + c.repr.toList.length)
  refine ⟨d', hprinted, hdouble.trans ?_⟩
  have hexponent : e + (c.repr.toList.length : Int) - digits.length = e + n := by omega
  rw [hexponent, ← toDouble_mul_pow, hvalue]

theorem coefficient_ne_zero {d : Decimal} {place : Double.Place} (hplace : place.val ≠ 0)
    (h : d.toDouble = .finite false place) : d.coefficient ≠ 0 := by
  intro hzero
  have hsmall : 2 * (d.num * Double.unitsInOne) < d.den := by
    rw [num, hzero, Nat.zero_mul, Nat.zero_mul]
    exact d.den_pos
  rw [toDouble_eq, Double.ofUnits_of_small hsmall] at h
  cases h
  exact hplace rfl

end Decimal

/-! ## The text of a number -/

namespace Double

open Decimal

theorem isIntegral_iff {s : Bool} {k : Place} :
    (finite s k).isIntegral = true ↔ units k % unitsInOne = 0 := beq_iff_eq

/-- The text of a number without a sign is a way to write it. -/
theorem text_printedAs (k : Place) :
    ∃ d, PrintedAs d (text (.finite false k)).toList ∧ d.toDouble = .finite false k := by
  unfold text
  split
  · rename_i hintegral
    refine ⟨⟨units k / unitsInOne, 0⟩, printedAs_repr _, toDouble_of_units ?_⟩
    have hmod := isIntegral_iff.mp hintegral
    have hdiv := Nat.div_add_mod (units k) unitsInOne
    rw [hmod, Nat.add_zero, Nat.mul_comm] at hdiv
    show units k / unitsInOne * 1 * unitsInOne = units k * 1
    rw [Nat.mul_one, Nat.mul_one, hdiv]
  · rename_i hfraction
    have hk : k.val ≠ 0 := by
      intro hzero
      refine hfraction (isIntegral_iff.mpr ?_)
      rw [hzero, units_zero, Nat.zero_mod]
    have hread := toDouble_shortest k
    obtain ⟨d, hprinted, hdouble⟩ := layout_significant_printedAs (coefficient_ne_zero hk hread)
    refine ⟨d, ?_, hdouble.trans hread⟩
    rw [spelling, if_neg hk]
    simpa using hprinted

theorem units_ne_zero {place : Nat} (h : place ≠ 0) : units place ≠ 0 := by
  intro hzero
  have hnearest := nearest_units place
  rw [hzero, nearest_of_small (by decide)] at hnearest
  exact h hnearest.symm

theorem text_negative {k : Place} (hk : k.val ≠ 0) :
    text (.finite true k) = "-" ++ text (.finite false k) := by
  by_cases hmod : units k % unitsInOne = 0
  · have hwhole : units k / unitsInOne ≠ 0 := by
      intro hzero
      have hdiv := Nat.div_add_mod (units k) unitsInOne
      rw [hzero, hmod, Nat.mul_zero] at hdiv
      exact units_ne_zero hk hdiv.symm
    simp only [text, isIntegral_iff.mpr hmod, if_true, truncate?]
    obtain ⟨n, hn⟩ := Nat.exists_eq_succ_of_ne_zero hwhole
    rw [hn]
    rfl
  · have hfraction : ∀ s, ¬ (finite s k).isIntegral = true := fun s => mt isIntegral_iff.mp hmod
    rw [text, if_neg (hfraction true), text, if_neg (hfraction false)]
    simp [spelling, hk]

/-! ## Reading any text of a number -/

/-- The number that characters without a sign stand for. -/
def ofUnsigned (cs : List Char) : Double :=
  if cs = "inf".toList then .infinite false else (Decimal.ofChars? cs).elim .nan Decimal.toDouble

/-- The number that a text stands for, with or without a sign. -/
def ofText (text : String) : Double :=
  match text.toList with
  | '-' :: cs => (ofUnsigned cs).neg
  | cs => ofUnsigned cs

theorem ofUnsigned_text (k : Place) :
    ofUnsigned (text (.finite false k)).toList = .finite false k := by
  obtain ⟨d, hprinted, hdouble⟩ := text_printedAs k
  have hinf : (text (.finite false k)).toList ≠ "inf".toList := by
    obtain ⟨c, rest, hcons, hc⟩ := hprinted.exists_cons
    rw [hcons]
    rintro ⟨⟩
    cases hc
  rw [ofUnsigned, if_neg hinf, hprinted.writtenAs.ofChars?_eq]
  exact hdouble

theorem ofText_unsigned (k : Place) : ofText (text (.finite false k)) = .finite false k := by
  have hread := ofUnsigned_text k
  obtain ⟨d, hprinted, -⟩ := text_printedAs k
  obtain ⟨c, rest, hcons, hc⟩ := hprinted.exists_cons
  unfold ofText
  split
  · rename_i hminus
    rw [hcons] at hminus
    cases hminus
    cases hc
  · exact hread

/-- A text stands for the number it is the text of. Only the sign of a zero is lost. -/
theorem ofText_text (x : Double) : ofText x.text = x.unsignZero := by
  cases x with
  | finite s k =>
      by_cases hk : k.val = 0
      · rw [← text_unsignZero, unsignZero_of_zero hk, ofText_unsigned]
      · rw [unsignZero_of_ne hk]
        cases s with
        | false => exact ofText_unsigned k
        | true =>
            rw [text_negative hk, ofText, String.toList_append]
            exact congrArg neg (ofUnsigned_text k)
  | infinite s => cases s <;> decide
  | nan => decide

theorem text_eq_iff {x y : Double} : x.text = y.text ↔ x.unsignZero = y.unsignZero := by
  constructor
  · intro h
    rw [← ofText_text, ← ofText_text, h]
  · intro h
    rw [← text_unsignZero, h, text_unsignZero]

end Double

end TinyLisp
