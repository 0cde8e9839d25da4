import TinyLisp.Proofs.NumberForm
import TinyLisp.Reader

/-!
# The grammar of atoms

A word is an atom by its first character. After an ASCII digit comes the rest of a number, and
`Decimal.numberForm` is the regular expression for it, to be matched as a whole by the
characters before the blanks at the end, with every digit in ASCII (`Decimal.normal`). After a
quote comes a text up to the next quote. Any other word is a symbol.

The headline is `atoms_read_by_form`. Blanks in the sense of the tokenizer include the four
information separators, which may not follow a number (`separator_ends_no_number`).
-/

namespace TinyLisp

open Text

namespace Text

/-! ## Digits of any script in ASCII -/

/-- A digit of any script as the ASCII digit of its value. -/
def asciiDigit (c : Char) : Char := (digit? c).elim c Nat.digitChar

theorem asciiDigit_of_none {c : Char} (h : digit? c = none) : asciiDigit c = c := by
  rw [asciiDigit, h]
  rfl

theorem asciiDigit_of_some {c : Char} {d : Nat} (h : digit? c = some d) :
    asciiDigit c = d.digitChar := by
  rw [asciiDigit, h]
  rfl

theorem digit?_asciiDigit (c : Char) : digit? (asciiDigit c) = digit? c := by
  cases h : digit? c with
  | none => rw [asciiDigit_of_none h, h]
  | some d =>
      obtain ⟨-, -, -, hd⟩ := digit?_eq_some h
      have htable : ∀ n < 10, digit? n.digitChar = some n := by decide
      rw [asciiDigit_of_some h, htable d hd]

/-- Only a character that is no digit becomes one that is none. -/
theorem asciiDigit_eq_iff {c m : Char} (hm : digit? m = none) : asciiDigit c = m ↔ c = m := by
  constructor
  · rintro rfl
    rw [digit?_asciiDigit] at hm
    exact (asciiDigit_of_none hm).symm
  · rintro rfl
    exact asciiDigit_of_none hm

def asciiDigits : List Char := ['0', '1', '2', '3', '4', '5', '6', '7', '8', '9']

theorem asciiDigit_mem_iff {c : Char} : asciiDigit c ∈ asciiDigits ↔ ∃ d, digit? c = some d := by
  constructor
  · intro h
    have htable : asciiDigits.all Char.isDigit = true := by decide
    rw [← digit?_asciiDigit]
    exact ⟨_, digit?_of_isDigit (List.all_eq_true.mp htable _ h)⟩
  · rintro ⟨d, h⟩
    obtain ⟨-, -, -, hd⟩ := digit?_eq_some h
    have htable : ∀ n < 10, n.digitChar ∈ asciiDigits := by decide
    rw [asciiDigit_of_some h]
    exact htable d hd

end Text

namespace Decimal

open RegularExpression

/-! ## The form of numbers -/

def oneOf (cs : List Char) : RegularExpression Char := cs.foldr (fun c r => char c + r) 0

def maybe (r : RegularExpression Char) : RegularExpression Char := 1 + r

/-- `digit ( ['_'] digit )*` -/
def runForm : RegularExpression Char :=
  oneOf asciiDigits * star (maybe (char '_') * oneOf asciiDigits)

/-- `D [ '.' [D] ] [ ('e' | 'E') ['+' | '-'] D ]` where `D` is a run of digits. -/
def numberForm : RegularExpression Char :=
  runForm * (maybe (char '.' * maybe runForm)
    * maybe (oneOf ['e', 'E'] * (maybe (oneOf ['+', '-']) * runForm)))

/-- The characters match the form once their digits are in ASCII. -/
def Matches (r : RegularExpression Char) (cs : List Char) : Prop := cs.map asciiDigit ∈ r.matches'

theorem matches_mul {r s : RegularExpression Char} {cs : List Char} :
    Matches (r * s) cs ↔ ∃ as bs, cs = as ++ bs ∧ Matches r as ∧ Matches s bs := by
  unfold Matches
  rw [matches'_mul, Language.mem_mul]
  constructor
  · rintro ⟨a, ha, b, hb, hab⟩
    obtain ⟨as, bs, rfl, rfl, rfl⟩ := List.map_eq_append_iff.mp hab.symm
    exact ⟨as, bs, rfl, ha, hb⟩
  · rintro ⟨as, bs, rfl, ha, hb⟩
    exact ⟨_, ha, _, hb, List.map_append.symm⟩

theorem matches_maybe {r : RegularExpression Char} {cs : List Char} :
    Matches (maybe r) cs ↔ cs = [] ∨ Matches r cs := by
  unfold Matches
  rw [maybe, matches'_add, Language.mem_add, matches'_epsilon, Language.mem_one,
    List.map_eq_nil_iff]

theorem matches_char {m : Char} (hm : digit? m = none) {cs : List Char} :
    Matches (char m) cs ↔ cs = [m] := by
  unfold Matches
  rw [matches'_char]
  constructor
  · intro h
    obtain ⟨c, rfl, hc⟩ := List.map_eq_singleton_iff.mp (Set.mem_singleton_iff.mp h)
    rw [(asciiDigit_eq_iff hm).mp hc]
  · rintro rfl
    rw [List.map_singleton, asciiDigit_of_none hm]
    exact Set.mem_singleton _

theorem matches_oneOf {ms cs : List Char} :
    Matches (oneOf ms) cs ↔ ∃ c, cs = [c] ∧ asciiDigit c ∈ ms := by
  unfold Matches
  induction ms with
  | nil => simp [oneOf, Language.notMem_zero]
  | cons m ms ih =>
      have hcons : oneOf (m :: ms) = char m + oneOf ms := rfl
      rw [hcons, matches'_add, Language.mem_add, ih, matches'_char]
      constructor
      · rintro (h | ⟨c, rfl, hc⟩)
        · obtain ⟨c, rfl, rfl⟩ := List.map_eq_singleton_iff.mp (Set.mem_singleton_iff.mp h)
          exact ⟨c, rfl, List.mem_cons_self⟩
        · exact ⟨c, rfl, List.mem_cons_of_mem m hc⟩
      · rintro ⟨c, rfl, hc⟩
        rcases List.mem_cons.mp hc with rfl | hms
        · exact Or.inl rfl
        · exact Or.inr ⟨c, rfl, hms⟩

theorem matches_digit {cs : List Char} :
    Matches (oneOf asciiDigits) cs ↔ ∃ c d, cs = [c] ∧ digit? c = some d := by
  rw [matches_oneOf]
  simp only [asciiDigit_mem_iff, exists_and_left]

theorem matches_mark {m n : Char} (hm : digit? m = none) (hn : digit? n = none)
    {cs : List Char} : Matches (oneOf [m, n]) cs ↔ cs = [m] ∨ cs = [n] := by
  rw [matches_oneOf]
  simp only [List.mem_cons, List.not_mem_nil, or_false, asciiDigit_eq_iff hm, asciiDigit_eq_iff hn]
  constructor
  · rintro ⟨c, rfl, rfl | rfl⟩
    · exact Or.inl rfl
    · exact Or.inr rfl
  · rintro (rfl | rfl)
    · exact ⟨m, rfl, Or.inl rfl⟩
    · exact ⟨n, rfl, Or.inr rfl⟩

theorem matches_step {cs : List Char} :
    Matches (maybe (char '_') * oneOf asciiDigits) cs
      ↔ ∃ c d, digit? c = some d ∧ (cs = [c] ∨ cs = ['_', c]) := by
  simp only [matches_mul, matches_maybe, matches_char digit?_underscore, matches_digit]
  constructor
  · rintro ⟨_, _, rfl, rfl | rfl, c, d, rfl, hc⟩
    · exact ⟨c, d, hc, Or.inl rfl⟩
    · exact ⟨c, d, hc, Or.inr rfl⟩
  · rintro ⟨c, d, hc, rfl | rfl⟩
    · exact ⟨[], [c], rfl, Or.inl rfl, c, d, rfl, hc⟩
    · exact ⟨['_'], [c], rfl, Or.inr rfl, c, d, rfl, hc⟩

theorem matches_star_of_append {r : RegularExpression Char} {as bs : List Char}
    (ha : Matches r as) (hb : Matches (star r) bs) : Matches (star r) (as ++ bs) := by
  obtain ⟨parts, hparts, hall⟩ := Language.mem_kstar.mp hb
  refine Language.mem_kstar.mpr ⟨as.map asciiDigit :: parts, ?_, ?_⟩
  · rw [List.map_append, hparts, List.flatten_cons]
  · exact List.forall_mem_cons.mpr ⟨ha, hall⟩

theorem matches_more {w : List Char} :
    Matches (star (maybe (char '_') * oneOf asciiDigits)) w ↔ IsMore w := by
  constructor
  · intro h
    obtain ⟨parts, hparts, hall⟩ := Language.mem_kstar.mp h
    induction parts generalizing w with
    | nil =>
        rw [List.map_eq_nil_iff.mp hparts]
        exact .nil
    | cons part parts ih =>
        obtain ⟨as, bs, rfl, rfl, hbs⟩ := List.map_eq_append_iff.mp hparts
        obtain ⟨hpart, hrest⟩ := List.forall_mem_cons.mp hall
        have hmore := ih (Language.mem_kstar.mpr ⟨parts, hbs, hrest⟩) hbs hrest
        obtain ⟨c, d, hc, rfl | rfl⟩ := matches_step.mp hpart
        · exact .digit hc hmore
        · exact .marked hc hmore
  · intro h
    induction h with
    | nil => exact Language.nil_mem_kstar _
    | digit hc _ ih => exact matches_star_of_append (matches_step.mpr ⟨_, _, hc, Or.inl rfl⟩) ih
    | marked hc _ ih => exact matches_star_of_append (matches_step.mpr ⟨_, _, hc, Or.inr rfl⟩) ih

theorem matches_run {w : List Char} : Matches runForm w ↔ IsRun w := by
  simp only [runForm, matches_mul, matches_digit, matches_more]
  constructor
  · rintro ⟨_, w, rfl, ⟨c, d, rfl, hc⟩, hw⟩
    exact .intro hc hw
  · rintro ⟨hc, hw⟩
    exact ⟨[_], _, rfl, ⟨_, _, rfl, hc⟩, hw⟩

theorem matches_fraction {cs : List Char} :
    Matches (maybe (char '.' * maybe runForm)) cs ↔ ∃ fraction, IsFraction cs fraction := by
  have hpoint : digit? '.' = none := by decide
  simp only [matches_mul, matches_maybe, matches_char hpoint, matches_run]
  constructor
  · rintro (rfl | ⟨_, w, rfl, rfl, rfl | hw⟩)
    · exact ⟨_, .none⟩
    · exact ⟨_, .point⟩
    · exact ⟨_, .digits hw⟩
  · rintro ⟨fraction, h⟩
    cases h with
    | none => exact Or.inl rfl
    | point => exact Or.inr ⟨['.'], [], rfl, rfl, Or.inl rfl⟩
    | digits hw => exact Or.inr ⟨['.'], _, rfl, rfl, Or.inr hw⟩

theorem matches_sign {cs : List Char} :
    Matches (maybe (oneOf ['+', '-'])) cs ↔ ∃ s, IsSign cs s := by
  rw [matches_maybe, matches_mark (by decide) (by decide)]
  constructor
  · rintro (rfl | rfl | rfl)
    · exact ⟨_, .none⟩
    · exact ⟨_, .plus⟩
    · exact ⟨_, .minus⟩
  · rintro ⟨s, h⟩
    cases h with
    | none => exact Or.inl rfl
    | plus => exact Or.inr (Or.inl rfl)
    | minus => exact Or.inr (Or.inr rfl)

theorem matches_exponent {cs : List Char} :
    Matches (maybe (oneOf ['e', 'E'] * (maybe (oneOf ['+', '-']) * runForm))) cs
      ↔ ∃ e, IsExponent cs e := by
  have hmark {ms : List Char} :
      Matches (oneOf ['e', 'E']) ms ↔ ms = ['e'] ∨ ms = ['E'] :=
    matches_mark (by decide) (by decide)
  rw [matches_maybe]
  simp only [matches_mul, hmark, matches_sign, matches_run]
  constructor
  · rintro (rfl | ⟨_, _, rfl, rfl | rfl, sign, w, rfl, ⟨s, hs⟩, hw⟩)
    · exact ⟨_, .none⟩
    · have hlower := IsExponent.marked (Or.inl rfl) hs hw
      exact ⟨_, hlower⟩
    · have hupper := IsExponent.marked (Or.inr rfl) hs hw
      exact ⟨_, hupper⟩
  · rintro ⟨e, h⟩
    cases h with
    | none => exact Or.inl rfl
    | marked hm hs hw =>
        refine Or.inr ⟨[_], _, rfl, ?_, _, _, rfl, ⟨_, hs⟩, hw⟩
        rcases hm with rfl | rfl
        · exact Or.inl rfl
        · exact Or.inr rfl

/-- The form is that of the notation of decimals. -/
theorem matches_number {cs : List Char} : Matches numberForm cs ↔ ∃ d, WrittenAs d cs := by
  simp only [numberForm, matches_mul, matches_run, matches_fraction, matches_exponent]
  constructor
  · rintro ⟨w, _, rfl, hw, point, tail, rfl, ⟨_, hpoint⟩, _, htail⟩
    exact ⟨⟨_, _⟩, .intro hw hpoint htail rfl rfl rfl⟩
  · rintro ⟨d, hw, hpoint, htail, rfl, -, -⟩
    exact ⟨_, _, rfl, hw, _, _, rfl, ⟨_, hpoint⟩, _, htail⟩

/-- The characters that count in the notation of a number: those before the blanks at the end,
with every digit in ASCII. -/
def normal (cs : List Char) : List Char := (cs.rdropWhile isTrailing).map asciiDigit

theorem exists_ofChars?_iff {cs : List Char} :
    (∃ d, ofChars? cs = some d) ↔ normal cs ∈ numberForm.matches' := by
  simp only [ofChars?_eq_some_iff]
  exact matches_number.symm

end Decimal

/-! ## Atoms -/

open Decimal RegularExpression

theorem readAtom_of_digit {text : String} {c : Char} {rest : List Char}
    (htext : text.toList = c :: rest) (hc : c.isDigit = true) :
    readAtom text = match ofChars? text.toList with
      | some d => .ok (.number d.toDouble)
      | none => .error (ReadFault.invalidNumber text).stop := by
  rw [readAtom, htext]
  exact if_pos hc

theorem readAtom_of_quote {text : String} {rest : List Char} (htext : text.toList = '\'' :: rest) :
    readAtom text = if rest.contains '\'' then
        .ok (.literal (String.ofList (rest.takeWhile (· != '\''))))
      else .error (ReadFault.unterminatedLiteral text).stop := by
  rw [readAtom, htext]
  dsimp only
  rw [if_neg (by decide), if_pos rfl]

theorem takeWhile_quote {inner after : List Char} (h : '\'' ∉ inner) :
    (inner ++ '\'' :: after).takeWhile (· != '\'') = inner := by
  have hinner : ∀ c ∈ inner, (c != '\'') = true := by
    intro c hc
    rw [bne_iff_ne]
    rintro rfl
    exact h hc
  rw [List.takeWhile_append_of_pos hinner, List.takeWhile_cons_of_neg (by decide),
    List.append_nil]

theorem readAtom_of_mem_numberForm {text : String} {c : Char} {rest : List Char}
    (htext : text.toList = c :: rest) (hc : c.isDigit = true)
    (h : normal text.toList ∈ numberForm.matches') : ∃ x, readAtom text = .ok (.number x) := by
  obtain ⟨d, hd⟩ := exists_ofChars?_iff.mpr h
  exact ⟨d.toDouble, by rw [readAtom_of_digit htext hc, hd]⟩

theorem readAtom_of_not_mem_numberForm {text : String} {c : Char} {rest : List Char}
    (htext : text.toList = c :: rest) (hc : c.isDigit = true)
    (h : normal text.toList ∉ numberForm.matches') :
    readAtom text = .error (ReadFault.invalidNumber text).stop := by
  have hnone : ofChars? text.toList = none :=
    Option.eq_none_iff_forall_ne_some.mpr fun d hd => h (exists_ofChars?_iff.mp ⟨d, hd⟩)
  rw [readAtom_of_digit htext hc, hnone]

/-- **Words are atoms by their form.** If the first character is an ASCII digit, then the word is
a number exactly if the characters that count match the form of numbers, and an invalid number
otherwise. If it is a quote, then the word is the literal of what stands before the next quote,
and an unterminated one if there is none. In all other cases the word is a symbol as a whole. -/
theorem atoms_read_by_form (text : String) (c : Char) (rest : List Char)
    (htext : text.toList = c :: rest) :
    (c.isDigit = true →
        ((∃ x, readAtom text = .ok (.number x)) ↔ normal text.toList ∈ numberForm.matches')
          ∧ (normal text.toList ∉ numberForm.matches' →
              readAtom text = .error (ReadFault.invalidNumber text).stop))
      ∧ (c = '\'' →
          (∀ inner after, rest = inner ++ '\'' :: after → '\'' ∉ inner →
              readAtom text = .ok (.literal (String.ofList inner)))
            ∧ ('\'' ∉ rest → readAtom text = .error (ReadFault.unterminatedLiteral text).stop))
      ∧ (c.isDigit = false → c ≠ '\'' → readAtom text = .ok (.symbol text)) := by
  refine ⟨fun hc => ⟨⟨?_, ?_⟩, ?_⟩, ?_, fun hc hquote => ?_⟩
  · rintro ⟨x, hx⟩
    by_contra hform
    rw [readAtom_of_not_mem_numberForm htext hc hform] at hx
    cases hx
  · exact readAtom_of_mem_numberForm htext hc
  · exact readAtom_of_not_mem_numberForm htext hc
  · rintro rfl
    refine ⟨?_, fun hquote => ?_⟩
    · rintro inner after rfl hinner
      rw [readAtom_of_quote htext, if_pos (by simp), takeWhile_quote hinner]
    · rw [readAtom_of_quote htext, if_neg (by simpa using hquote)]
  · rw [readAtom, htext]
    dsimp only
    rw [isAsciiDigit_eq, hc, if_neg Bool.false_ne_true, if_neg hquote]

/-- A number with digits of two scripts and a wide blank behind it, one with two underscores in a
row, a quoted text with a parenthesis and more behind it, and a symbol that starts with a digit
which is not ASCII. -/
theorem atoms_read_by_form_mixed :
    (∃ x, readAtom "1_2.\u0663E+0\u3000" = .ok (.number x))
      ∧ readAtom "1__2" = .error (ReadFault.invalidNumber "1__2").stop
      ∧ readAtom "'a (b'c'" = .ok (.literal "a (b")
      ∧ readAtom "'a" = .error (ReadFault.unterminatedLiteral "'a").stop
      ∧ readAtom "\u0663.5" = .ok (.symbol "\u0663.5") := by
  have hnumber : normal "1_2.\u0663E+0\u3000".toList ∈ numberForm.matches' :=
    (rmatch_iff_matches' _ _).mp (by decide)
  have hdouble : normal "1__2".toList ∉ numberForm.matches' :=
    fun h => absurd ((rmatch_iff_matches' _ _).mpr h) (by decide)
  refine ⟨?_, ?_, ?_, ?_, ?_⟩
  · exact ((atoms_read_by_form _ '1' _ rfl).1 (by decide)).1.mpr hnumber
  · exact ((atoms_read_by_form _ '1' _ rfl).1 (by decide)).2 hdouble
  · exact ((atoms_read_by_form _ '\'' _ rfl).2.1 rfl).1 "a (b".toList ['c', '\''] rfl (by decide)
  · exact ((atoms_read_by_form _ '\'' _ rfl).2.1 rfl).2 (by decide)
  · exact (atoms_read_by_form _ '\u0663' _ rfl).2.2 (by decide) (by decide)

/-- An information separator is a blank that separates words, but none that may follow a number:
without the blanks at its end the word has the form of a number, and it is invalid. -/
theorem separator_ends_no_number :
    "1\u001c".toList = ['1', '\u001c'] ∧ '1'.isDigit = true
      ∧ ("1\u001c".toList.rdropWhile isBlank).map asciiDigit ∈ numberForm.matches'
      ∧ readAtom "1\u001c" = .error (ReadFault.invalidNumber "1\u001c").stop
      ∧ ¬ ∃ x, readAtom "1\u001c" = .ok (.number x) := by
  have htext : "1\u001c".toList = ['1', '\u001c'] := rfl
  have hread : readAtom "1\u001c" = .error (ReadFault.invalidNumber "1\u001c").stop := by
    refine readAtom_of_not_mem_numberForm htext (by decide) fun h => ?_
    exact absurd ((rmatch_iff_matches' _ _).mpr h) (by decide)
  refine ⟨htext, by decide, (rmatch_iff_matches' _ _).mp (by decide), hread, ?_⟩
  rintro ⟨x, hx⟩
  rw [hread] at hx
  cases hx

end TinyLisp
