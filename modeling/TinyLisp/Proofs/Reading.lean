import TinyLisp.Proofs.Grammar

/-!
# What comes out of the reader

The words of a text are never empty and hold neither blanks nor parentheses
(`wellFormed_of_mem_tokenize`). That is all the reader needs to know about its
tokens: whatever it reads is then `Expr.Written`, without functions or null at
any depth and without names, texts or numbers that could not be written down
(`readFirst_written`, `readAll_written`), and whatever it cannot read is a
fault of the text or of its depth (`readFirst_isReading`).
-/

namespace TinyLisp

/-! ## Words -/

namespace Token

def IsWordChar (c : Char) : Prop := c ≠ '(' ∧ c ≠ ')' ∧ Text.isBlank c = false

instance (c : Char) : Decidable (IsWordChar c) :=
  inferInstanceAs (Decidable (c ≠ '(' ∧ c ≠ ')' ∧ Text.isBlank c = false))

def IsWord (text : String) : Prop := text ≠ "" ∧ ∀ c ∈ text.toList, IsWordChar c

instance (text : String) : Decidable (IsWord text) :=
  @instDecidableAnd _ _ inferInstance (List.decidableBAll IsWordChar text.toList)

def WellFormed : Token → Prop
  | .word text => IsWord text
  | _ => True

theorem mem_consWord {current : List Char} {t : Token} {ts : List Token}
    (h : t ∈ consWord current ts) :
    t ∈ ts ∨ current ≠ [] ∧ t = .word (String.ofList current.reverse) := by
  cases current with
  | nil => exact Or.inl h
  | cons c cs =>
      rcases List.mem_cons.mp h with rfl | hts
      · exact Or.inr ⟨List.cons_ne_nil c cs, rfl⟩
      · exact Or.inl hts

theorem isWord_ofList {cs : List Char} (hne : cs ≠ []) (hcs : ∀ c ∈ cs, IsWordChar c) :
    IsWord (String.ofList cs) := by
  refine ⟨fun hempty => hne ?_, by rwa [String.toList_ofList]⟩
  rw [← String.toList_ofList (l := cs), hempty, String.toList_empty]

theorem wellFormed_consWord {current : List Char} {ts : List Token}
    (hcurrent : ∀ c ∈ current, IsWordChar c) (hts : ∀ t ∈ ts, t.WellFormed) :
    ∀ t ∈ consWord current ts, t.WellFormed := by
  intro t ht
  rcases mem_consWord ht with hmem | ⟨hne, rfl⟩
  · exact hts t hmem
  · refine isWord_ofList (by simpa using hne) fun c hc => ?_
    exact hcurrent c (List.mem_reverse.mp hc)

theorem wellFormed_scan {cs current : List Char} (hcurrent : ∀ c ∈ current, IsWordChar c) :
    ∀ t ∈ scan current cs, t.WellFormed := by
  have hnone : ∀ c ∈ ([] : List Char), IsWordChar c := fun c hc => absurd hc List.not_mem_nil
  induction cs generalizing current with
  | nil => exact wellFormed_consWord hcurrent fun t ht => absurd ht List.not_mem_nil
  | cons c cs ih =>
      have hrest := ih hnone
      rw [scan]
      split
      · exact wellFormed_consWord hcurrent (List.forall_mem_cons.mpr ⟨trivial, hrest⟩)
      · split
        · exact wellFormed_consWord hcurrent (List.forall_mem_cons.mpr ⟨trivial, hrest⟩)
        · split
          · exact wellFormed_consWord hcurrent hrest
          · rename_i hopening hclosing hblank
            have hc : IsWordChar c := ⟨hopening, hclosing, by simpa using hblank⟩
            exact ih (List.forall_mem_cons.mpr ⟨hc, hcurrent⟩)

end Token

theorem wellFormed_of_mem_tokenize {source : String} {t : Token} (h : t ∈ tokenize source) :
    t.WellFormed :=
  Token.wellFormed_scan (fun _ hc => absurd hc List.not_mem_nil) t h

/-! ## Written expressions -/

def IsSymbolName (name : String) : Prop :=
  Token.IsWord name
    ∧ ∀ c, name.toList.head? = some c → Text.isAsciiDigit c = false ∧ c ≠ '\''

def IsLiteralText (text : String) : Prop :=
  ∀ c ∈ text.toList, Token.IsWordChar c ∧ c ≠ '\''

instance (text : String) : Decidable (IsLiteralText text) :=
  List.decidableBAll (fun c => Token.IsWordChar c ∧ c ≠ '\'') text.toList

/-- Neither NaN nor negative, and if it is zero then the positive one. -/
def Double.IsUnsigned : Double → Prop
  | .finite negative _ | .infinite negative => negative = false
  | .nan => False

/-- Expressions that a text can hold. -/
inductive Expr.Written : Expr → Prop where
  | symbol {name : String} (h : IsSymbolName name) : Written (.symbol name)
  | literal {text : String} (h : IsLiteralText text) : Written (.literal text)
  | number {x : Double} (h : x.IsUnsigned) : Written (.number x)
  | list {items : List Expr} (h : ∀ e ∈ items, Written e) : Written (.list items)

theorem Double.ofUnits_isUnsigned (num den : Nat) : (ofUnits false num den).IsUnsigned := by
  unfold ofUnits
  dsimp only
  split <;> rfl

theorem Decimal.toDouble_isUnsigned (d : Decimal) : d.toDouble.IsUnsigned := by
  unfold toDouble
  split
  · split
    · rfl
    · split
      · rfl
      · exact Double.ofUnits_isUnsigned _ _
  · split
    · rfl
    · exact Double.ofUnits_isUnsigned _ _

theorem readAtom_written {text : String} {e : Expr} (hword : Token.IsWord text)
    (h : readAtom text = .ok e) : e.Written := by
  obtain ⟨-, hchars⟩ := hword
  unfold readAtom at h
  split at h
  · cases h
  · rename_i c rest htext
    split at h
    · split at h
      · cases h
        exact .number (Decimal.toDouble_isUnsigned _)
      · cases h
    · rename_i hdigit
      split at h
      · split at h
        · cases h
          refine .literal fun d hd => ?_
          rw [String.toList_ofList] at hd
          have hmem : d ∈ text.toList := by
            rw [htext]
            exact List.mem_cons_of_mem _ ((List.takeWhile_sublist _).subset hd)
          have hquote := List.all_eq_true.mp List.all_takeWhile d hd
          exact ⟨hchars d hmem, by simpa using hquote⟩
        · cases h
      · rename_i hquote
        cases h
        refine .symbol ⟨⟨fun hempty => ?_, hchars⟩, fun d hd => ?_⟩
        · rw [hempty] at htext
          cases htext
        · rw [htext] at hd
          cases hd
          exact ⟨by simpa using hdigit, hquote⟩

mutual

theorem Derives.written : ∀ {p : List Token} {e : Expr}, Derives p e →
    (∀ t ∈ p, t.WellFormed) → e.Written
  | _, _, .atom h, hp => readAtom_written (hp _ (List.mem_singleton.mpr rfl)) h
  | _, _, .list hs, hp =>
      .list (hs.written fun t ht =>
        hp t (List.mem_cons_of_mem _ (List.mem_append_left _ ht)))

theorem DerivesAll.written : ∀ {p : List Token} {es : List Expr}, DerivesAll p es →
    (∀ t ∈ p, t.WellFormed) → ∀ e ∈ es, e.Written
  | _, _, .nil, _ => fun _ he => absurd he List.not_mem_nil
  | _, _, .cons h hs, hp =>
      List.forall_mem_cons.mpr
        ⟨h.written fun t ht => hp t (List.mem_append_left _ ht),
          hs.written fun t ht => hp t (List.mem_append_right _ ht)⟩

end

theorem readForms_written {limit bound : Nat} {ts : List Token}
    (hts : ∀ t ∈ ts, t.WellFormed) : ∀ e ∈ (readForms limit bound ts).forms, e.Written := by
  intro e he
  induction bound generalizing ts with
  | zero => exact absurd he List.not_mem_nil
  | succ bound ih =>
      cases ts with
      | nil => exact absurd he List.not_mem_nil
      | cons t ts =>
          rw [readForms] at he
          cases hparse : parse limit (t :: ts) with
          | error reason =>
              rw [hparse] at he
              exact absurd he List.not_mem_nil
          | ok pair =>
              obtain ⟨first, rest⟩ := pair
              obtain ⟨p, heq, hp, -⟩ := parse_eq_ok_iff.mp hparse
              rw [hparse] at he
              rw [heq] at hts
              rcases List.mem_cons.mp he with rfl | hrest
              · exact hp.written fun t ht => hts t (List.mem_append_left _ ht)
              · exact ih (fun t ht => hts t (List.mem_append_right _ ht)) hrest

theorem readAll_written {limit : Nat} {source : String} :
    ∀ e ∈ (readAll limit source).forms, e.Written :=
  readForms_written fun _ => wellFormed_of_mem_tokenize

theorem readFirst_eq_ok {limit : Nat} {strict : Bool} {source : String} {e : Expr}
    (h : readFirst limit strict source = .ok e) :
    ∃ rest, parse limit (tokenize source) = .ok (e, rest) := by
  unfold readFirst at h
  split at h
  · cases h
  · rename_i first rest hparse
    split at h
    · cases h
    · cases h
      exact ⟨rest, hparse⟩

theorem readFirst_written {limit : Nat} {strict : Bool} {source : String} {e : Expr}
    (h : readFirst limit strict source = .ok e) : e.Written := by
  obtain ⟨rest, hparse⟩ := readFirst_eq_ok h
  obtain ⟨p, heq, hp, -⟩ := parse_eq_ok_iff.mp hparse
  refine hp.written fun t ht => @wellFormed_of_mem_tokenize source t ?_
  rw [heq]
  exact List.mem_append_left _ ht

/-! ## What cannot be read -/

/-- Reasons for which the reader stops on a text. -/
inductive Stop.IsReading : Stop → Prop where
  | fault (cause : ReadFault) : IsReading cause.stop
  | nesting : IsReading (.fault (.nesting "read"))

theorem readAtom_fault {text : String} {reason : Stop} (hword : Token.IsWord text)
    (h : readAtom text = .error reason) : ∃ cause : ReadFault, reason = cause.stop := by
  rcases readAtom_eq_error h with ⟨hempty, -⟩ | hreason | hreason
  · exact absurd hempty hword.1
  · exact ⟨_, hreason⟩
  · exact ⟨_, hreason⟩

theorem readList_isReading : ∀ {ts : List Token} {room : Nat} {items : List Expr}
    {outer : List (List Expr)} {reason : Stop}, (∀ t ∈ ts, t.WellFormed) →
    readList room items outer ts = .error reason → reason.IsReading
  | [], _, _, _, _, _, h => by
      rw [readList] at h
      cases h
      exact .fault _
  | .opening :: ts, 0, _, _, _, _, h => by
      rw [readList] at h
      cases h
      exact .nesting
  | .opening :: ts, room + 1, _, _, _, hts, h => by
      rw [readList] at h
      exact readList_isReading (List.forall_mem_cons.mp hts).2 h
  | .closing :: ts, _, _, [], _, _, h => by
      rw [readList] at h
      cases h
  | .closing :: ts, _, _, _ :: _, _, hts, h => by
      rw [readList] at h
      exact readList_isReading (List.forall_mem_cons.mp hts).2 h
  | .word text :: ts, _, _, _, _, hts, h => by
      obtain ⟨hword, hrest⟩ := List.forall_mem_cons.mp hts
      rw [readList] at h
      cases hatom : readAtom text with
      | ok atom =>
          rw [hatom] at h
          exact readList_isReading hrest h
      | error cause =>
          rw [hatom] at h
          cases h
          obtain ⟨cause, rfl⟩ := readAtom_fault hword hatom
          exact .fault cause

theorem parse_isReading {limit : Nat} {ts : List Token} {reason : Stop}
    (hts : ∀ t ∈ ts, t.WellFormed) (h : parse limit ts = .error reason) :
    reason.IsReading := by
  match ts, limit with
  | [], _ =>
      cases h
      exact .fault _
  | .opening :: ts, 0 =>
      cases h
      exact .nesting
  | .opening :: ts, room + 1 =>
      exact readList_isReading (List.forall_mem_cons.mp hts).2 h
  | .closing :: ts, _ =>
      cases h
      exact .fault _
  | .word text :: ts, _ =>
      rw [parse] at h
      cases hatom : readAtom text with
      | ok atom => rw [hatom] at h; cases h
      | error cause =>
          rw [hatom] at h
          cases h
          obtain ⟨cause, rfl⟩ := readAtom_fault (List.forall_mem_cons.mp hts).1 hatom
          exact .fault cause

theorem readFirst_isReading {limit : Nat} {strict : Bool} {source : String} {reason : Stop}
    (h : readFirst limit strict source = .error reason) : reason.IsReading := by
  unfold readFirst at h
  split at h
  · rename_i cause hparse
    cases h
    exact parse_isReading (fun _ => wellFormed_of_mem_tokenize) hparse
  · split at h
    · cases h
      exact .fault _
    · cases h

theorem readForms_isReading {limit bound : Nat} {ts : List Token} {reason : Stop}
    (hts : ∀ t ∈ ts, t.WellFormed) (h : (readForms limit bound ts).failure = some reason) :
    reason.IsReading := by
  induction bound generalizing ts with
  | zero => cases h
  | succ bound ih =>
      cases ts with
      | nil => cases h
      | cons t ts =>
          rw [readForms] at h
          cases hparse : parse limit (t :: ts) with
          | error cause =>
              rw [hparse] at h
              cases h
              exact parse_isReading hts hparse
          | ok pair =>
              obtain ⟨first, rest⟩ := pair
              obtain ⟨p, heq, -, -⟩ := parse_eq_ok_iff.mp hparse
              rw [hparse] at h
              rw [heq] at hts
              exact ih (fun t ht => hts t (List.mem_append_right _ ht)) h

theorem readAll_isReading {limit : Nat} {source : String} {reason : Stop}
    (h : (readAll limit source).failure = some reason) : reason.IsReading :=
  readForms_isReading (fun _ => wellFormed_of_mem_tokenize) h

end TinyLisp
