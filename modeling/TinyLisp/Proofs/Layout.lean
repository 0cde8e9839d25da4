import TinyLisp.Proofs.RoundTrip

/-!
# Tokens and layout

Every text is a layout of its tokens, and of no other well-formed tokens. So
scanning takes blanks away, in their own places and nowhere else, and nothing
but blanks. The headline is `tokenize_removes_layout`.

That a layout is scanned as its tokens is `tokenize_of_laidOut`. For the other
direction the scanner is followed character by character (`laidOut_scan`): the
word in hand and the characters to come are laid out as the tokens that are
still to be given.
-/

namespace TinyLisp

namespace Token

/-! ## Every text is a layout -/

/-- A blank in front keeps apart whatever stands before it. -/
theorem LaidOut.cons_blank {afterWord : Bool} {ts : List Token} {cs : List Char} {c : Char}
    (hc : Text.isBlank c = true) (h : LaidOut afterWord ts cs) (other : Bool) :
    LaidOut other ts (c :: cs) := by
  cases h with
  | nil hgap => exact .nil (List.forall_mem_cons.mpr ⟨hc, hgap⟩)
  | @cons _ gap cs t ts hgap _ hrest =>
      have hmore : ∀ d ∈ c :: gap, Text.isBlank d = true := List.forall_mem_cons.mpr ⟨hc, hgap⟩
      exact LaidOut.cons hmore (fun _ _ => List.cons_ne_nil c gap) hrest

/-- The word in hand stands before the rest of the layout. -/
theorem LaidOut.consWord {current : List Char} {ts : List Token} {cs : List Char}
    (h : LaidOut (!current.isEmpty) ts cs) :
    LaidOut false (consWord current ts) (current.reverse ++ cs) := by
  cases current with
  | nil => exact h
  | cons c current =>
      have hword := @LaidOut.cons false [] cs (.word (String.ofList (c :: current).reverse)) ts
        (List.forall_mem_nil _) nofun h
      rwa [text, String.toList_ofList] at hword

/-- A parenthesis may touch what stands before it. -/
theorem LaidOut.cons_paren {afterWord : Bool} {gap cs : List Char} {t : Token} {ts : List Token}
    (hgap : ∀ c ∈ gap, Text.isBlank c = true) (ht : t.isWord = false) (h : LaidOut false ts cs) :
    LaidOut afterWord (t :: ts) (gap ++ (t.text.toList ++ cs)) := by
  refine .cons hgap (fun _ hword => ?_) (by rwa [ht])
  rw [ht] at hword
  cases hword

theorem laidOut_scan (cs current : List Char) :
    LaidOut false (scan current cs) (current.reverse ++ cs) := by
  induction cs generalizing current with
  | nil => exact LaidOut.consWord (.nil (List.forall_mem_nil _))
  | cons c cs ih =>
      have hrest : LaidOut false (scan [] cs) cs := ih []
      rw [scan]
      split
      · rename_i hopening
        subst hopening
        exact LaidOut.consWord (LaidOut.cons_paren (List.forall_mem_nil _) rfl hrest)
      · split
        · rename_i hclosing
          subst hclosing
          exact LaidOut.consWord (LaidOut.cons_paren (List.forall_mem_nil _) rfl hrest)
        · split
          · rename_i hblank
            exact LaidOut.consWord (hrest.cons_blank hblank _)
          · have hword := ih (c :: current)
            rwa [List.reverse_cons, List.append_assoc, List.singleton_append] at hword

end Token

theorem laidOut_tokenize (source : String) :
    Token.LaidOut false (tokenize source) source.toList :=
  Token.laidOut_scan source.toList []

theorem tokenize_eq_iff {source : String} {ts : List Token} :
    tokenize source = ts ↔ (∀ t ∈ ts, t.WellFormed) ∧ Token.LaidOut false ts source.toList := by
  constructor
  · rintro rfl
    exact ⟨fun t => wellFormed_of_mem_tokenize, laidOut_tokenize source⟩
  · rintro ⟨hts, hlaid⟩
    exact tokenize_of_laidOut hlaid hts

theorem tokenize_append_closing (source : String) :
    tokenize (source ++ ")") = tokenize source ++ [.closing] :=
  tokenize_append_of_keptApart (Or.inr (Or.inr (Or.inr (by decide))))

theorem tokenize_of_isWord {word : String} (h : Token.IsWord word) :
    tokenize word = [.word word] := by
  have hnone : ∀ c ∈ ([] : List Char), Text.isBlank c = true := List.forall_mem_nil _
  have hlaid := @Token.LaidOut.cons false [] [] (.word word) [] hnone nofun (.nil hnone)
  rw [List.nil_append, List.append_nil] at hlaid
  exact tokenize_of_laidOut hlaid (List.forall_mem_singleton.mpr h)

namespace Token

/-! ## What a layout adds -/

/-- The token that a character is on its own. -/
def ofParen? (c : Char) : Option Token :=
  if c = '(' then some .opening else if c = ')' then some .closing else none

theorem WellFormed.isBlank_eq_false {t : Token} (ht : t.WellFormed) :
    ∀ c ∈ t.text.toList, Text.isBlank c = false := by
  cases t with
  | opening => exact List.forall_mem_singleton.mpr (show Text.isBlank '(' = false by decide)
  | closing => exact List.forall_mem_singleton.mpr (show Text.isBlank ')' = false by decide)
  | word text => exact fun c hc => (ht.2 c hc).2.2

theorem WellFormed.text_ne_empty {t : Token} (ht : t.WellFormed) : t.text ≠ "" := by
  cases t with
  | opening | closing => decide
  | word text => exact ht.1

theorem WellFormed.filterMap_ofParen? {t : Token} (ht : t.WellFormed) :
    t.text.toList.filterMap ofParen? = [t].filter (!·.isWord) := by
  cases t with
  | opening | closing => rfl
  | word text =>
      refine List.filterMap_eq_nil_iff.mpr fun c hc => ?_
      obtain ⟨hopening, hclosing, -⟩ := ht.2 c hc
      rw [ofParen?, if_neg hopening, if_neg hclosing]

theorem ofParen?_of_isBlank {c : Char} (hc : Text.isBlank c = true) : ofParen? c = none := by
  have hopening : c ≠ '(' := by
    rintro rfl
    exact absurd hc (by decide)
  have hclosing : c ≠ ')' := by
    rintro rfl
    exact absurd hc (by decide)
  rw [ofParen?, if_neg hopening, if_neg hclosing]

/-- Without its blanks a layout is the characters of the tokens. -/
theorem LaidOut.filter_not_isBlank {afterWord : Bool} {ts : List Token} {cs : List Char}
    (h : LaidOut afterWord ts cs) (hts : ∀ t ∈ ts, t.WellFormed) :
    cs.filter (!Text.isBlank ·) = ts.flatMap (·.text.toList) := by
  have hgone : ∀ gap : List Char, (∀ c ∈ gap, Text.isBlank c = true) →
      gap.filter (!Text.isBlank ·) = [] := by
    intro gap hgap
    refine List.filter_eq_nil_iff.mpr fun c hc => ?_
    simp [hgap c hc]
  induction h with
  | nil hgap => exact hgone _ hgap
  | @cons _ gap cs t ts hgap _ _ ih =>
      obtain ⟨ht, hrest⟩ := List.forall_mem_cons.mp hts
      have hkept : t.text.toList.filter (!Text.isBlank ·) = t.text.toList := by
        refine List.filter_eq_self.mpr fun c hc => ?_
        simp [ht.isBlank_eq_false c hc]
      rw [List.filter_append, List.filter_append, hgone gap hgap, hkept, ih hrest,
        List.flatMap_cons, List.nil_append]

/-- The parentheses of a layout are the tokens that are no words. -/
theorem LaidOut.filterMap_ofParen? {afterWord : Bool} {ts : List Token} {cs : List Char}
    (h : LaidOut afterWord ts cs) (hts : ∀ t ∈ ts, t.WellFormed) :
    cs.filterMap ofParen? = ts.filter (!·.isWord) := by
  have hgone : ∀ gap : List Char, (∀ c ∈ gap, Text.isBlank c = true) →
      gap.filterMap ofParen? = [] :=
    fun gap hgap => List.filterMap_eq_nil_iff.mpr fun c hc => ofParen?_of_isBlank (hgap c hc)
  induction h with
  | nil hgap => exact hgone _ hgap
  | @cons _ gap cs t ts hgap _ _ ih =>
      obtain ⟨ht, hrest⟩ := List.forall_mem_cons.mp hts
      rw [List.filterMap_append, List.filterMap_append, hgone gap hgap, ht.filterMap_ofParen?,
        ih hrest, ← List.filter_append]
      rfl

/-! ## One layout -/

/-- Tokens with one space between them. -/
theorem laidOut_intercalate (ts : List Token) :
    LaidOut false ts (" ".intercalate (ts.map text)).toList := by
  have hnone : ∀ c ∈ ([] : List Char), Text.isBlank c = true := List.forall_mem_nil _
  induction ts with
  | nil => exact .nil hnone
  | cons t ts ih =>
      cases ts with
      | nil =>
          rw [List.map_singleton, String.intercalate_singleton]
          have hlast := @LaidOut.cons false [] [] t [] hnone nofun (.nil hnone)
          rwa [List.nil_append, List.append_nil] at hlast
      | cons u us =>
          rw [List.map_cons, String.intercalate_cons_of_ne_nil (by simp), String.toList_append,
            String.toList_append, List.append_assoc]
          have hspace := ih.cons_blank (c := ' ') (by decide) t.isWord
          exact @LaidOut.cons false [] _ t (u :: us) hnone nofun hspace

end Token

/-- **Tokens are what is left of a text without its layout.** A text has just
those well-formed tokens of which it is a layout. So the characters of the
tokens are the characters of the text that are not blank, in the same order; no
token is without characters; the parentheses of the text are tokens of their
own, in the same order; and tokens that are written with a space between them
are scanned as they were. -/
theorem tokenize_removes_layout (source : String) :
    (∀ ts, tokenize source = ts ↔
        (∀ t ∈ ts, t.WellFormed) ∧ Token.LaidOut false ts source.toList)
      ∧ (tokenize source).flatMap (·.text.toList) = source.toList.filter (!Text.isBlank ·)
      ∧ (∀ t ∈ tokenize source, t.text ≠ "")
      ∧ (tokenize source).filter (!·.isWord) = source.toList.filterMap Token.ofParen?
      ∧ ∀ ts : List Token, (∀ t ∈ ts, t.WellFormed) →
          tokenize (" ".intercalate (ts.map Token.text)) = ts := by
  have hwell : ∀ t ∈ tokenize source, t.WellFormed := fun t => wellFormed_of_mem_tokenize
  have hlaid := laidOut_tokenize source
  refine ⟨fun ts => tokenize_eq_iff, ?_, fun t ht => (hwell t ht).text_ne_empty, ?_, ?_⟩
  · exact (hlaid.filter_not_isBlank hwell).symm
  · exact (hlaid.filterMap_ofParen? hwell).symm
  · exact fun ts hts => tokenize_of_laidOut (Token.laidOut_intercalate ts) hts

/-- A list that touches the literal before it, a blank that is not ASCII and a
line break at the end; and two words that touch, which is no layout of them. -/
theorem tokenize_removes_layout_touching :
    let source := "(x\u3000'y'(z))\n"
    let ts : List Token := [.opening, .word "x", .word "'y'", .opening, .word "z", .closing,
      .closing]
    (∀ t ∈ ts, t.WellFormed) ∧ tokenize source = ts
      ∧ Token.LaidOut false ts source.toList
      ∧ source.toList.filter (!Text.isBlank ·) = "(x'y'(z))".toList
      ∧ source.toList.filterMap Token.ofParen? = [.opening, .opening, .closing, .closing]
      ∧ tokenize "( x 'y' ( z ) )" = ts
      ∧ ¬ Token.LaidOut false [.word "x", .word "y"] "xy".toList := by
  intro source ts
  have hx : Token.IsWord "x" := by decide
  have hy : Token.IsWord "y" := by decide
  have hliteral : Token.IsWord "'y'" := by decide
  have hz : Token.IsWord "z" := by decide
  have hts : ∀ t ∈ ts, t.WellFormed := by
    simp only [ts, List.forall_mem_cons, Token.WellFormed]
    exact ⟨trivial, hx, hliteral, trivial, hz, trivial, trivial, List.forall_mem_nil _⟩
  have htokens : tokenize source = ts := by cbv
  obtain ⟨hiff, hchars, -, hparens, hback⟩ := tokenize_removes_layout source
  rw [htokens] at hchars hparens
  refine ⟨hts, htokens, ((hiff ts).mp htokens).2, hchars.symm, hparens.symm, hback ts hts, ?_⟩
  intro hlaid
  obtain ⟨htouching, -⟩ := tokenize_removes_layout "xy"
  have hwords : ∀ t ∈ [Token.word "x", .word "y"], t.WellFormed :=
    List.forall_mem_cons.mpr ⟨hx, List.forall_mem_singleton.mpr hy⟩
  have htwo := (htouching _).mpr ⟨hwords, hlaid⟩
  have hone : tokenize "xy" = [.word "xy"] := by cbv
  rw [hone] at htwo
  exact absurd (congrArg List.length htwo) (by decide)

end TinyLisp
