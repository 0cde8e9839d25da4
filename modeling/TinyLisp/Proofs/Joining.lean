import TinyLisp.Proofs.Reading

/-!
# Texts side by side

The scanner remembers one thing of the characters behind it: the word in hand, to which the next
character may still belong (`Token.inHand`). All tokens before that word are settled, whatever
comes (`Token.exists_scan_append`). So of two texts that are joined, the second is scanned as on
its own, but for its first word, which is run together with the word in hand if the two touch
(`Token.exists_scan_word`).

The headline is `tokenize_joined`: texts that are kept apart, by a blank or a parenthesis or by
being empty, have their tokens one after the other, and any others share one word.
-/

namespace TinyLisp

namespace Token

/-! ## One character -/

theorem consWord_append (current : List Char) (ts us : List Token) :
    consWord current (ts ++ us) = consWord current ts ++ us := by
  cases current <;> rfl

theorem scan_blank {c : Char} (hblank : Text.isBlank c = true) (current cs : List Char) :
    scan current (c :: cs) = consWord current (scan [] cs) := by
  have hopening : c ≠ '(' := by
    rintro rfl
    exact absurd hblank (by decide)
  have hclosing : c ≠ ')' := by
    rintro rfl
    exact absurd hblank (by decide)
  rw [scan, if_neg hopening, if_neg hclosing, if_pos hblank]

theorem scan_wordChar {c : Char} (hc : IsWordChar c) (current cs : List Char) :
    scan current (c :: cs) = scan (c :: current) cs := by
  obtain ⟨hopening, hclosing, hblank⟩ := hc
  rw [scan, if_neg hopening, if_neg hclosing, hblank, if_neg Bool.false_ne_true]

/-- A blank or a parenthesis, which belongs to no word. -/
def isSeparator (c : Char) : Bool := c == '(' || c == ')' || Text.isBlank c

theorem isWordChar_iff {c : Char} : IsWordChar c ↔ isSeparator c = false := by
  simp [IsWordChar, isSeparator, and_assoc]

/-- A separator ends the word in hand, and what stands behind it is scanned afresh. -/
theorem scan_separator {c : Char} (hc : isSeparator c = true) (current cs : List Char) :
    scan current (c :: cs) = consWord current (scan [] [c] ++ scan [] cs) := by
  simp only [isSeparator, Bool.or_eq_true, beq_iff_eq] at hc
  rcases hc with (rfl | rfl) | hblank
  · rw [scan, if_pos rfl]
    rfl
  · rw [scan, if_neg (by decide), if_pos rfl]
    rfl
  · rw [scan_blank hblank, scan_blank hblank]
    rfl

/-! ## The word in hand -/

/-- The word in hand after one more character. -/
def extend (word : List Char) (c : Char) : List Char :=
  if isSeparator c then [] else c :: word

/-- The word in hand, newest character first, when all the characters are behind. -/
def inHand (current cs : List Char) : List Char := cs.foldl extend current

/-- There is a word in hand exactly if the last character belongs to it. -/
theorem inHand_eq_nil_iff {cs : List Char} :
    inHand [] cs = [] ↔ cs = [] ∨ cs.getLast?.any isSeparator = true := by
  rcases List.eq_nil_or_concat cs with rfl | ⟨before, c, rfl⟩
  · exact iff_of_true rfl (Or.inl rfl)
  · cases hc : isSeparator c <;> simp [inHand, extend, hc]

/-- What is scanned before a join does not depend on what comes after it, and the word in hand is
all that the scanner takes along. -/
theorem exists_scan_append (cs current : List Char) :
    ∃ ts, ∀ ds, scan current (cs ++ ds) = ts ++ scan (inHand current cs) ds := by
  induction cs generalizing current with
  | nil => exact ⟨[], fun _ => rfl⟩
  | cons c cs ih =>
      rw [inHand, List.foldl_cons, extend]
      cases hc : isSeparator c with
      | true =>
          -- the word that was in hand is settled, and the scanner starts afresh
          obtain ⟨ts, hts⟩ := ih []
          refine ⟨consWord current (scan [] [c] ++ ts), fun ds => ?_⟩
          rw [List.cons_append, scan_separator hc, hts, ← List.append_assoc, consWord_append]
          rfl
      | false =>
          obtain ⟨ts, hts⟩ := ih (c :: current)
          refine ⟨ts, fun ds => ?_⟩
          rw [List.cons_append, scan_wordChar (isWordChar_iff.mpr hc), hts]
          rfl

/-- A word in hand is complete before a separator or the end. -/
theorem scan_of_separated {ds : List Char} (h : ds = [] ∨ ds.head?.any isSeparator = true)
    (current : List Char) : scan current ds = consWord current [] ++ scan [] ds := by
  cases ds with
  | nil => rw [scan, scan, consWord, List.append_nil]
  | cons d ds =>
      have hd : isSeparator d = true := by simpa using h
      have hafresh : scan [] (d :: ds) = scan [] [d] ++ scan [] ds := scan_separator hd [] ds
      rw [scan_separator hd, hafresh, ← consWord_append, List.nil_append]

theorem consWord_of_ne_nil {word : List Char} (hne : word ≠ []) (current : List Char)
    (ts : List Token) :
    consWord (word ++ current) ts
      = .word (String.ofList (current.reverse ++ word.reverse)) :: ts := by
  obtain ⟨c, cs, rfl⟩ := List.exists_cons_of_ne_nil hne
  rw [← List.reverse_append]
  rfl

/-- A word goes on before any other character. What was in hand before it began would stand in
front of it, and make no difference to the tokens behind it. -/
theorem exists_scan_word (ds : List Char) {word : List Char} (hne : word ≠ []) :
    ∃ v us, ∀ current,
      scan (word ++ current) ds = .word (String.ofList (current.reverse ++ v)) :: us := by
  induction ds generalizing word with
  | nil => exact ⟨word.reverse, [], fun current => consWord_of_ne_nil hne current []⟩
  | cons d ds ih =>
      cases hd : isSeparator d with
      | true =>
          refine ⟨word.reverse, scan [] [d] ++ scan [] ds, fun current => ?_⟩
          rw [scan_separator hd, consWord_of_ne_nil hne]
      | false =>
          obtain ⟨v, us, hword⟩ := ih (List.cons_ne_nil d word)
          refine ⟨v, us, fun current => ?_⟩
          rw [scan_wordChar (isWordChar_iff.mpr hd)]
          exact hword current

end Token

/-! ## Two texts -/

/-- The texts share no word when they are joined: one of them is empty, or there is a separator
at the end of the first or at the start of the second. -/
def KeptApart (a b : String) : Prop :=
  a = "" ∨ b = "" ∨ a.toList.getLast?.any Token.isSeparator = true
    ∨ b.toList.head?.any Token.isSeparator = true

instance (a b : String) : Decidable (KeptApart a b) :=
  inferInstanceAs (Decidable (_ ∨ _ ∨ _ ∨ _))

open Token

theorem keptApart_iff {a b : String} :
    KeptApart a b ↔ inHand [] a.toList = []
      ∨ b.toList = [] ∨ b.toList.head?.any isSeparator = true := by
  rw [KeptApart, inHand_eq_nil_iff, String.toList_eq_nil_iff, String.toList_eq_nil_iff]
  exact (or_congr_right or_left_comm).trans or_assoc.symm

/-- What the scanner makes of a joined text: the tokens of the first text but for the word in
hand are settled, and with that word in hand the second one is scanned. -/
theorem exists_tokenize_append (a : String) :
    ∃ ts, tokenize a = ts ++ consWord (inHand [] a.toList) []
      ∧ ∀ b, tokenize (a ++ b) = ts ++ scan (inHand [] a.toList) b.toList := by
  obtain ⟨ts, hts⟩ := exists_scan_append a.toList []
  refine ⟨ts, ?_, fun b => ?_⟩
  · have hend := hts []
    rwa [List.append_nil] at hend
  · rw [tokenize, String.toList_append, hts]

theorem tokenize_append_of_keptApart {a b : String} (h : KeptApart a b) :
    tokenize (a ++ b) = tokenize a ++ tokenize b := by
  obtain ⟨ts, ha, hjoined⟩ := exists_tokenize_append a
  rw [hjoined, ha, List.append_assoc]
  rcases keptApart_iff.mp h with hempty | hseparated
  · rw [hempty]
    rfl
  · rw [scan_of_separated hseparated]
    rfl

/-- Texts that are not apart share the word that the one ends with and the other begins with. -/
theorem tokenize_append_of_not_keptApart {a b : String} (h : ¬ KeptApart a b) :
    ∃ before u v after, tokenize a = before ++ [.word u] ∧ tokenize b = .word v :: after
      ∧ tokenize (a ++ b) = before ++ .word (u ++ v) :: after := by
  obtain ⟨before, ha, hjoined⟩ := exists_tokenize_append a
  obtain ⟨hne, htouching⟩ := not_or.mp (mt keptApart_iff.mpr h)
  generalize inHand [] a.toList = word at ha hjoined hne
  cases hb : b.toList with
  | nil => exact absurd (Or.inl hb) htouching
  | cons d ds =>
      have hd : IsWordChar d := by
        rw [hb] at htouching
        simpa [isWordChar_iff] using htouching
      obtain ⟨v, after, hscan⟩ := exists_scan_word ds (List.cons_ne_nil d [])
      refine ⟨before, String.ofList word.reverse, String.ofList v, after, ?_, ?_, ?_⟩
      · have hcomplete := consWord_of_ne_nil hne [] []
        rw [List.append_nil] at hcomplete
        rw [ha, hcomplete]
        rfl
      · rw [tokenize, hb, scan_wordChar hd]
        exact hscan []
      · rw [hjoined, hb, scan_wordChar hd, ← String.ofList_append]
        exact congrArg (before ++ ·) (hscan word)

/-- **The tokens of a joined text.** If one of two texts is empty, or there is a blank or a
parenthesis on either side of the join, then the tokens of the whole are those of the one and then
those of the other; and only then. Otherwise both have tokens, and the last token of the one and
the first of the other become one word, in their place between all the others. -/
theorem tokenize_joined (a b : String) :
    (tokenize (a ++ b) = tokenize a ++ tokenize b ↔ KeptApart a b)
      ∧ (¬ KeptApart a b → ∃ before u v after,
          tokenize a = before ++ [.word u] ∧ tokenize b = .word v :: after
            ∧ tokenize (a ++ b) = before ++ .word (u ++ v) :: after) := by
  refine ⟨⟨fun heq => ?_, tokenize_append_of_keptApart⟩, tokenize_append_of_not_keptApart⟩
  by_contra happart
  obtain ⟨before, u, v, after, ha, hb, hjoined⟩ := tokenize_append_of_not_keptApart happart
  -- one token fewer than the two texts have
  have hlength := congrArg List.length heq
  simp only [hjoined, ha, hb, List.length_append, List.length_cons, List.length_nil] at hlength
  omega

/-- A word that is cut in two, and a blank that is not ASCII at the start of the second text. -/
theorem tokenize_joined_word :
    ¬ KeptApart "(f 'a" "b' c)" ∧ tokenize ("(f 'a" ++ "b' c)")
        = [.opening, .word "f", .word ("'a" ++ "b'"), .word "c", .closing]
      ∧ KeptApart "(f 'a'" "\u3000b)"
      ∧ tokenize ("(f 'a'" ++ "\u3000b)") = tokenize "(f 'a'" ++ tokenize "\u3000b)" := by
  have htouching : ¬ KeptApart "(f 'a" "b' c)" := by decide
  have happart : KeptApart "(f 'a'" "\u3000b)" := by decide
  refine ⟨htouching, ?_, happart, (tokenize_joined _ _).1.mpr happart⟩
  obtain ⟨before, u, v, after, ha, hb, hjoined⟩ := (tokenize_joined _ _).2 htouching
  have ha' : tokenize "(f 'a" = [.opening, .word "f"] ++ [.word "'a"] := by cbv
  have hb' : tokenize "b' c)" = [.word "b'", .word "c", .closing] := by cbv
  obtain ⟨rfl, hu⟩ := List.append_inj' (ha.symm.trans ha') rfl
  cases hu
  cases hb.symm.trans hb'
  exact hjoined

end TinyLisp
