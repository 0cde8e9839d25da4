import TinyLisp.Proofs.Conversion
import TinyLisp.Proofs.Integers
import TinyLisp.Proofs.Layout

/-!
# Printed numbers are read back

The text of a finite number without a sign is a word that is read as that number, bit for bit.
There is no notation for a sign, an infinity or NaN, so the texts of all other numbers are
symbols, but for the negative zero, whose sign is not printed. The headline is
`printed_numbers_read_back`; numbers are taken from their encodings (`ofBits_cases`).
-/

namespace TinyLisp

open Decimal

/-- The text is a word for the expression, on its own and as a whole source. -/
def ReadsBack (limit : Nat) (text : String) (e : Expr) : Prop :=
  readAtom text = .ok e ∧ readFirst limit true text = .ok e

theorem readsBack_of_isWord {limit : Nat} {text : String} {e : Expr} (hword : Token.IsWord text)
    (h : readAtom text = .ok e) : ReadsBack limit text e := by
  refine ⟨h, ?_⟩
  rw [readFirst, tokenize_of_isWord hword, parse, h]
  rfl

theorem readsBack_symbol {limit : Nat} {text : String} (h : IsSymbolName text) :
    ReadsBack limit text (.symbol text) :=
  readsBack_of_isWord h.1 (readAtom_symbolName h)

theorem Decimal.isWordChar_of_isNumeralChar {c : Char} (h : IsNumeralChar c) :
    Token.IsWordChar c := by
  refine ⟨?_, ?_, isBlank_of_isNumeralChar h⟩
  · exact fun hc => not_isNumeralChar_paren (Or.inl hc) h
  · exact fun hc => not_isNumeralChar_paren (Or.inr hc) h

namespace Double

/-! ## The texts of numbers -/

theorem isWordChar_text (k : Place) :
    ∀ c ∈ (text (.finite false k)).toList, Token.IsWordChar c := by
  obtain ⟨d, hprinted, -⟩ := text_printedAs k
  exact fun c hc => isWordChar_of_isNumeralChar (hprinted.writtenAs.isNumeralChar c hc)

theorem readsBack_text (limit : Nat) (k : Place) :
    ReadsBack limit (text (.finite false k)) (.number (.finite false k)) := by
  obtain ⟨d, hprinted, hdouble⟩ := text_printedAs k
  obtain ⟨c, rest, htext, hc⟩ := hprinted.exists_cons
  have hne : text (.finite false k) ≠ "" := by
    intro hempty
    rw [hempty] at htext
    cases htext
  refine readsBack_of_isWord ⟨hne, isWordChar_text k⟩ (readAtom_eq_number_iff.mpr ?_)
  exact ⟨⟨c, rest, htext, hc⟩, d, hprinted.writtenAs.ofChars?_eq, hdouble⟩

theorem isSymbolName_negative {k : Place} (hk : k.val ≠ 0) :
    IsSymbolName (text (.finite true k)) := by
  have htext : (text (.finite true k)).toList = '-' :: (text (.finite false k)).toList := by
    rw [text_negative hk, String.toList_append]
    rfl
  refine ⟨⟨?_, ?_⟩, ?_⟩
  · intro hempty
    rw [hempty] at htext
    cases htext
  · rw [htext]
    exact List.forall_mem_cons.mpr ⟨by decide, isWordChar_text k⟩
  · intro c hc
    rw [htext] at hc
    cases hc
    decide

theorem isSymbolName_other {x : Double} (h : ∀ s k, x ≠ .finite s k) : IsSymbolName x.text := by
  have hname (name : String) (hmem : name ∈ ["inf", "-inf", "nan"]) : IsSymbolName name := by
    simp only [List.mem_cons, List.not_mem_nil, or_false] at hmem
    rcases hmem with rfl | rfl | rfl
    all_goals
      refine ⟨by decide, fun c hc => ?_⟩
      cases hc
      decide
  cases x with
  | finite s k => exact absurd rfl (h s k)
  | infinite s => cases s <;> exact hname _ (by decide)
  | nan => exact hname _ (by decide)

/-! ## Encodings -/

theorem ofBits_cases (word : BitVec 64) :
    (∃ h : word.toNat < 2047 * 2 ^ 52, ofBits word.toNat = .finite false ⟨word.toNat, h⟩)
      ∨ (∃ k : Place, word.toNat = 2 ^ 63 + k ∧ ofBits word.toNat = .finite true k)
      ∨ word.toNat / 2 ^ 52 % 2 ^ 11 = 2047 ∧ ∀ s k, ofBits word.toNat ≠ .finite s k := by
  have hword := word.isLt
  generalize word.toNat = n at hword ⊢
  have hplaces : n % 2 ^ 63 = n ∧ n / 2 ^ 63 % 2 = 0
      ∨ n = 2 ^ 63 + n % 2 ^ 63 ∧ n / 2 ^ 63 % 2 = 1 := by omega
  unfold ofBits
  simp only [Nat.pow_eq]
  by_cases hplace : n % 2 ^ 63 < 2047 * 2 ^ 52
  · simp only [dif_pos hplace]
    rcases hplaces with ⟨hlow, hsign⟩ | ⟨hhigh, hsign⟩
    · rw [hlow] at hplace
      refine Or.inl ⟨hplace, ?_⟩
      simp only [hsign, hlow]
      rfl
    · exact Or.inr (Or.inl ⟨⟨_, hplace⟩, hhigh, by rw [hsign]; rfl⟩)
  · simp only [dif_neg hplace]
    refine Or.inr (Or.inr ⟨by omega, fun s k => ?_⟩)
    split <;> exact nofun

theorem text_zero (s : Bool) {k : Place} (hk : k.val = 0) : text (.finite s k) = "0" := by
  refine text_of_value (n := 0) ?_
  rw [hk, magnitude_zero, mul_zero, Int.cast_zero]

end Double

/-- **Printed numbers are read back.** The text of a finite number whose sign bit is not set is
read as the number with the same bits. The negative zero is printed and read back as the other
zero. The text of any other number is a symbol. All this holds of the text as a word and as a
source on its own. -/
theorem printed_numbers_read_back (limit : Nat) (word : BitVec 64) :
    let x := Double.ofBits word.toNat
    let IsFinite := word.toNat / 2 ^ 52 % 2 ^ 11 ≠ 2047
    (IsFinite → word.msb = false →
        ReadsBack limit x.text (.number x) ∧ x.bits? = some word.toNat)
      ∧ (word.toNat = 2 ^ 63 → x.text = "0" ∧ ReadsBack limit x.text (.number .zero))
      ∧ (¬ (IsFinite ∧ word.msb = false) → word.toNat ≠ 2 ^ 63 →
          ReadsBack limit x.text (.symbol x.text)) := by
  intro x IsFinite
  have hmsb : word.msb = false ↔ word.toNat < 2 ^ 63 := by
    rw [BitVec.msb_eq_decide, decide_eq_false_iff_not, Nat.not_le]
  rw [hmsb]
  rcases Double.ofBits_cases word with ⟨hlow, hx⟩ | ⟨k, hk, hx⟩ | ⟨hfield, hx⟩
  · have hx : x = _ := hx
    rw [hx]
    refine ⟨fun _ _ => ⟨Double.readsBack_text limit _, ?_⟩, fun h => ?_, fun h => ?_⟩
    · exact congrArg some (Nat.zero_add _)
    · omega
    · exact absurd ⟨by omega, by omega⟩ h
  · have hx : x = _ := hx
    rw [hx]
    refine ⟨fun _ h => ?_, fun h => ?_, fun _ h => ?_⟩
    · omega
    · have hback := Double.readsBack_text limit ⟨0, by decide⟩
      rw [Double.text_zero false rfl] at hback
      rw [Double.text_zero true (by omega)]
      exact ⟨rfl, hback⟩
    · exact readsBack_symbol (Double.isSymbolName_negative (by omega))
  · refine ⟨fun h => absurd hfield h, fun h => ?_, fun _ _ => ?_⟩
    · omega
    · exact readsBack_symbol (Double.isSymbolName_other hx)

/-- The smallest positive number, the negative zero and the negative infinity. -/
theorem printed_numbers_read_back_extremes :
    let least := Double.ofBits (BitVec.ofNat 64 1).toNat
    let zero := Double.ofBits (BitVec.ofNat 64 (2 ^ 63)).toNat
    let infinity := Double.ofBits (BitVec.ofNat 64 (2 ^ 63 + 2047 * 2 ^ 52)).toNat
    ReadsBack 0 least.text (.number least) ∧ least.bits? = some 1
      ∧ zero.text = "0" ∧ ReadsBack 0 zero.text (.number .zero)
      ∧ infinity.text = "-inf" ∧ ReadsBack 0 infinity.text (.symbol infinity.text) := by
  intro least zero infinity
  obtain ⟨hleast, -, -⟩ := printed_numbers_read_back 0 (BitVec.ofNat 64 1)
  obtain ⟨-, hzero, -⟩ := printed_numbers_read_back 0 (BitVec.ofNat 64 (2 ^ 63))
  obtain ⟨-, -, hinfinity⟩ :=
    printed_numbers_read_back 0 (BitVec.ofNat 64 (2 ^ 63 + 2047 * 2 ^ 52))
  obtain ⟨hback, hbits⟩ := hleast (by decide) (by decide)
  obtain ⟨htext, hback'⟩ := hzero (by decide)
  exact ⟨hback, hbits, htext, hback', by decide, hinfinity (by decide) (by decide)⟩

end TinyLisp
