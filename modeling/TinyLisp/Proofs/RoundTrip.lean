import TinyLisp.Proofs.Script

/-!
# Written expressions are read back

`Spelled e ts` says that the tokens `ts` spell the expression `e`: a symbol is
its name, a literal its text between quotes, a number any word that is read as
that number, a list its items between parentheses. `Token.LaidOut` says that
characters are the tokens with blanks before, between and behind them, where
only words must be kept apart.

The headline is `reader_image_and_round_trip`. All that is read is a written
expression (`Expr.Written`), and however a written expression is spelled and
laid out, it is read back as it was.
-/

namespace TinyLisp

/-! ## Layouts -/

namespace Token

def isWord : Token → Bool
  | .word _ => true
  | _ => false

/-- The characters are the tokens in order, with runs of blanks around them. The
flag says whether a word stands before, which then must not touch another. -/
inductive LaidOut : Bool → List Token → List Char → Prop where
  | nil {afterWord : Bool} {gap : List Char} (hgap : ∀ c ∈ gap, Text.isBlank c = true) :
      LaidOut afterWord [] gap
  | cons {afterWord : Bool} {gap cs : List Char} {t : Token} {ts : List Token}
      (hgap : ∀ c ∈ gap, Text.isBlank c = true)
      (hapart : afterWord = true → t.isWord = true → gap ≠ [])
      (h : LaidOut t.isWord ts cs) : LaidOut afterWord (t :: ts) (gap ++ (t.text.toList ++ cs))

theorem scan_gap {gap : List Char} (hgap : ∀ c ∈ gap, Text.isBlank c = true) (hne : gap ≠ [])
    (current cs : List Char) : scan current (gap ++ cs) = consWord current (scan [] cs) := by
  induction gap generalizing current with
  | nil => exact absurd rfl hne
  | cons c gap ih =>
      obtain ⟨hc, hrest⟩ := List.forall_mem_cons.mp hgap
      rw [List.cons_append, scan_blank hc]
      by_cases hempty : gap = []
      · rw [hempty, List.nil_append]
      · rw [ih hrest hempty]
        rfl

/-- The characters of a word are taken in one by one. -/
theorem scan_word {word : List Char} (hword : ∀ c ∈ word, IsWordChar c)
    (current cs : List Char) :
    scan current (word ++ cs) = scan (word.reverse ++ current) cs := by
  induction word generalizing current with
  | nil => rfl
  | cons c word ih =>
      obtain ⟨hc, hrest⟩ := List.forall_mem_cons.mp hword
      rw [List.cons_append, scan_wordChar hc, ih hrest, List.reverse_cons, List.append_assoc]
      rfl

theorem consWord_reverse {text : String} (hne : text ≠ "") (ts : List Token) :
    consWord text.toList.reverse ts = .word text :: ts := by
  have hchars : text.toList.reverse ≠ [] := by simpa using hne
  have hword := consWord_of_ne_nil hchars [] ts
  rwa [List.append_nil, List.reverse_nil, List.nil_append, List.reverse_reverse,
    String.ofList_toList] at hword

theorem scan_paren {t : Token} (ht : t.isWord = false) (current cs : List Char) :
    scan current (t.text.toList ++ cs) = consWord current (t :: scan [] cs) := by
  cases t with
  | opening =>
      show scan current ('(' :: cs) = _
      rw [scan, if_pos rfl]
  | closing =>
      show scan current (')' :: cs) = _
      rw [scan, if_neg (by decide), if_pos rfl]
  | word text => cases ht

/-- By induction on the layout. A word in hand goes on until a gap or a
parenthesis, and the flag says that one of them comes. -/
theorem LaidOut.scan_eq {afterWord : Bool} {ts : List Token} {cs : List Char}
    (h : LaidOut afterWord ts cs) (hts : ∀ t ∈ ts, t.WellFormed) {current : List Char}
    (hcurrent : current ≠ [] → afterWord = true) :
    scan current cs = consWord current ts := by
  induction h generalizing current with
  | @nil afterWord gap hgap =>
      by_cases hempty : gap = []
      · rw [hempty, scan]
      · have hscan := scan_gap hgap hempty current []
        rw [List.append_nil] at hscan
        rw [hscan]
        rfl
  | @cons afterWord gap cs t ts hgap hapart hlaid ih =>
      obtain ⟨ht, hrest⟩ := List.forall_mem_cons.mp hts
      cases hisWord : t.isWord with
      | false =>
          have hnext : scan [] cs = ts := ih hrest fun hne => absurd rfl hne
          by_cases hempty : gap = []
          · rw [hempty, List.nil_append, scan_paren hisWord, hnext]
          · rw [scan_gap hgap hempty, scan_paren hisWord, hnext]
            rfl
      | true =>
          have hword : scan [] (t.text.toList ++ cs) = t :: ts := by
            cases t with
            | opening | closing => cases hisWord
            | word text =>
                obtain ⟨hne, hchars⟩ := ht
                show scan [] (text.toList ++ cs) = _
                rw [scan_word hchars, List.append_nil, ih hrest fun _ => rfl]
                exact consWord_reverse hne ts
          by_cases hempty : gap = []
          · cases current with
            | nil =>
                rw [hempty]
                exact hword
            | cons c current =>
                exact absurd hempty (hapart (hcurrent (List.cons_ne_nil c current)) hisWord)
          · rw [scan_gap hgap hempty, hword]

end Token

theorem tokenize_of_laidOut {ts : List Token} {source : String}
    (h : Token.LaidOut false ts source.toList) (hts : ∀ t ∈ ts, t.WellFormed) :
    tokenize source = ts :=
  h.scan_eq hts fun hne => absurd rfl hne

/-! ## Spellings -/

mutual

/-- The tokens spell the expression. -/
inductive Spelled : Expr → List Token → Prop where
  | symbol {name : String} (h : IsSymbolName name) : Spelled (.symbol name) [.word name]
  | literal {text : String} (h : IsLiteralText text) :
      Spelled (.literal text) [.word ("'" ++ text ++ "'")]
  | number {x : Double} {text : String} (hword : Token.IsWord text)
      (h : readAtom text = .ok (.number x)) : Spelled (.number x) [.word text]
  | list {items : List Expr} {ts : List Token} (h : SpelledAll items ts) :
      Spelled (.list items) (.opening :: (ts ++ [.closing]))

/-- The tokens spell the expressions, one after the other. -/
inductive SpelledAll : List Expr → List Token → Prop where
  | nil : SpelledAll [] []
  | cons {e : Expr} {es : List Expr} {ts us : List Token} (h : Spelled e ts)
      (hs : SpelledAll es us) : SpelledAll (e :: es) (ts ++ us)

end

theorem readAtom_symbolName {name : String} (h : IsSymbolName name) :
    readAtom name = .ok (.symbol name) := by
  obtain ⟨⟨hne, -⟩, hfirst⟩ := h
  unfold readAtom
  split
  · rename_i hempty
    exact absurd (String.toList_eq_nil_iff.mp hempty) hne
  · rename_i c rest hchars
    obtain ⟨hdigit, hquote⟩ := hfirst c (by rw [hchars]; rfl)
    rw [hdigit, if_neg Bool.false_ne_true, if_neg hquote]

theorem toList_quotes (text : String) :
    ("'" ++ text ++ "'").toList = '\'' :: (text.toList ++ ['\'']) := by
  rw [String.toList_append, String.toList_append]
  rfl

theorem readAtom_literalText {text : String} (h : IsLiteralText text) :
    readAtom ("'" ++ text ++ "'") = .ok (.literal text) := by
  have hplain : ∀ c ∈ text.toList, (c != '\'') = true := fun c hc => by
    simpa using (h c hc).2
  have htake : (text.toList ++ ['\'']).takeWhile (· != '\'') = text.toList := by
    rw [List.takeWhile_append_of_pos hplain]
    simp
  unfold readAtom
  rw [toList_quotes]
  dsimp only
  rw [if_neg (by decide), if_pos rfl, if_pos (by simp), htake, String.ofList_toList]

theorem isWord_literalText {text : String} (h : IsLiteralText text) :
    Token.IsWord ("'" ++ text ++ "'") := by
  have hquote : Token.IsWordChar '\'' := by decide
  refine ⟨fun hempty => ?_, ?_⟩
  · have hchars := toList_quotes text
    rw [hempty] at hchars
    cases hchars
  · rw [toList_quotes]
    refine List.forall_mem_cons.mpr ⟨hquote, fun c hc => ?_⟩
    rcases List.mem_append.mp hc with htext | hlast
    · exact (h c htext).1
    · rw [List.mem_singleton.mp hlast]
      exact hquote

mutual

theorem Spelled.derives : ∀ {e : Expr} {ts : List Token}, Spelled e ts → Derives ts e
  | _, _, .symbol h => .atom (readAtom_symbolName h)
  | _, _, .literal h => .atom (readAtom_literalText h)
  | _, _, .number _ h => .atom h
  | _, _, .list hs => .list hs.derives

theorem SpelledAll.derives : ∀ {es : List Expr} {ts : List Token}, SpelledAll es ts →
    DerivesAll ts es
  | _, _, .nil => .nil
  | _, _, .cons h hs => .cons h.derives hs.derives

end

mutual

theorem Spelled.wellFormed : ∀ {e : Expr} {ts : List Token}, Spelled e ts →
    ∀ t ∈ ts, t.WellFormed
  | _, _, .symbol h => List.forall_mem_singleton.mpr h.1
  | _, _, .literal h => List.forall_mem_singleton.mpr (isWord_literalText h)
  | _, _, .number h _ => List.forall_mem_singleton.mpr h
  | _, _, .list hs => List.forall_mem_cons.mpr ⟨trivial, List.forall_mem_append.mpr
      ⟨hs.wellFormed, List.forall_mem_singleton.mpr trivial⟩⟩

theorem SpelledAll.wellFormed : ∀ {es : List Expr} {ts : List Token}, SpelledAll es ts →
    ∀ t ∈ ts, t.WellFormed
  | _, _, .nil => fun _ ht => absurd ht List.not_mem_nil
  | _, _, .cons h hs => List.forall_mem_append.mpr ⟨h.wellFormed, hs.wellFormed⟩

end

/-- **The reader gives written expressions, and all of them.** What is read from
a text, alone or among others, is a written expression. And a written expression
that is spelled in any way and laid out in any way, nested no deeper than the
limit, is what is read, with nothing left behind it. -/
theorem reader_image_and_round_trip (limit : Nat) :
    (∀ strict source e, readFirst limit strict source = .ok e → e.Written)
      ∧ (∀ source, ∀ e ∈ (readAll limit source).forms, e.Written)
      ∧ ∀ e ts source, Spelled e ts → Token.LaidOut false ts source.toList →
          e.depth ≤ limit → readFirst limit true source = .ok e := by
  refine ⟨fun _ _ _ h => readFirst_written h, fun _ => readAll_written, ?_⟩
  intro e ts source hspelled hlaid hdepth
  have hparse : parse limit ts = .ok (e, []) :=
    parse_eq_ok_iff.mpr ⟨ts, (List.append_nil ts).symm, hspelled.derives, hdepth⟩
  rw [readFirst, tokenize_of_laidOut hlaid hspelled.wellFormed, hparse]
  rfl

/-- A list that touches the literal before it, a blank that is not ASCII, and a
number with a mark between its digits. -/
theorem reader_image_and_round_trip_nested :
    let e : Expr := .list [.symbol "def", .literal "x",
      .list [.symbol "+", .number (Decimal.toDouble ⟨10, 0⟩)]]
    let ts : List Token := [.opening, .word "def", .word "'x'", .opening, .word "+",
      .word "1_0", .closing, .closing]
    let source := "(def\u3000'x'(+ 1_0))\n"
    Spelled e ts ∧ Token.LaidOut false ts source.toList ∧ e.depth ≤ 2
      ∧ readFirst 2 true source = .ok e ∧ e.Written := by
  intro e ts source
  have hsymbol : ∀ name : String, name = "def" ∨ name = "+" → IsSymbolName name := by
    rintro name (rfl | rfl)
    all_goals
      refine ⟨by decide, fun c hc => ?_⟩
      cases hc
      decide
  have hliteral : IsLiteralText "x" := by decide
  have hnumber : readAtom "1_0" = .ok (.number (Decimal.toDouble ⟨10, 0⟩)) := by
    have hdigits : Decimal.ofChars? ['1', '_', '0'] = some ⟨10, 0⟩ := by decide
    unfold readAtom
    rw [show "1_0".toList = ['1', '_', '0'] from rfl]
    dsimp only
    rw [if_pos (by decide), hdigits]
  have hinner : Spelled (.list [.symbol "+", .number (Decimal.toDouble ⟨10, 0⟩)])
      [.opening, .word "+", .word "1_0", .closing] :=
    .list (.cons (.symbol (hsymbol _ (Or.inr rfl)))
      (.cons (.number (by decide) hnumber) .nil))
  have hspelled : Spelled e ts :=
    .list (.cons (.symbol (hsymbol _ (Or.inl rfl)))
      (.cons (.literal hliteral) (.cons hinner .nil)))
  have hlaid : Token.LaidOut false ts source.toList := by
    have hchars : source.toList = ['(', 'd', 'e', 'f', '\u3000', '\'', 'x', '\'', '(', '+',
        ' ', '1', '_', '0', ')', ')', '\n'] := by decide
    rw [hchars]
    have hnone : ∀ c ∈ ([] : List Char), Text.isBlank c = true := List.forall_mem_nil _
    have hone : ∀ {c : Char}, Text.isBlank c = true → ∀ d ∈ [c], Text.isBlank d = true :=
      fun hc => List.forall_mem_singleton.mpr hc
    refine @Token.LaidOut.cons false [] _ .opening _ hnone (by decide) ?_
    refine @Token.LaidOut.cons false [] _ (.word "def") _ hnone (by decide) ?_
    refine @Token.LaidOut.cons true ['\u3000'] _ (.word "'x'") _ (hone (by decide)) (by decide) ?_
    refine @Token.LaidOut.cons true [] _ .opening _ hnone (by decide) ?_
    refine @Token.LaidOut.cons false [] _ (.word "+") _ hnone (by decide) ?_
    refine @Token.LaidOut.cons true [' '] _ (.word "1_0") _ (hone (by decide)) (by decide) ?_
    refine @Token.LaidOut.cons true [] _ .closing _ hnone (by decide) ?_
    refine @Token.LaidOut.cons false [] _ .closing _ hnone (by decide) ?_
    exact .nil (hone (by decide))
  have hdepth : e.depth ≤ 2 := by decide
  obtain ⟨hfirst, -, hback⟩ := reader_image_and_round_trip 2
  have hread := hback e ts source hspelled hlaid hdepth
  exact ⟨hspelled, hlaid, hdepth, hread, hfirst true source e hread⟩

end TinyLisp
