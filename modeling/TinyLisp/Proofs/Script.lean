import TinyLisp.Proofs.Joining

/-!
# A text after another

What becomes of the expressions of a text when a second text follows on a new
line. The tokens of both stand one after the other
(`tokenize_append_newline`), and the reader does not look ahead: what it has
read stays read, and what it cannot read stays unreadable, unless all that it
missed was the rest (`parse_append_of_ok`, `parse_append_of_error`).

The headline is `readAll_append_newline`, with the three ways a first text can
end in `Script.Continues`.
-/

namespace TinyLisp

/-! ## Tokens -/

/-- A blank keeps texts apart and is no token itself. -/
theorem tokenize_append_blank {c : Char} (hblank : Text.isBlank c = true) (a b : String) :
    tokenize (a ++ String.singleton c ++ b) = tokenize a ++ tokenize b := by
  have hchars : (String.singleton c ++ b).toList = c :: b.toList := by
    rw [String.toList_append, String.toList_singleton, List.singleton_append]
  have happart : KeptApart a (String.singleton c ++ b) := by
    refine Or.inr (Or.inr (Or.inr ?_))
    rw [hchars, List.head?_cons, Option.any_some, Token.isSeparator, hblank, Bool.or_true]
  have hrest : tokenize (String.singleton c ++ b) = tokenize b := by
    rw [tokenize, hchars, Token.scan_blank hblank]
    rfl
  rw [String.append_assoc, tokenize_append_of_keptApart happart, hrest]

theorem tokenize_append_newline (a b : String) :
    tokenize (a ++ "\n" ++ b) = tokenize a ++ tokenize b :=
  @tokenize_append_blank '\n' (by decide) a b

/-! ## One expression -/

/-- The text ended too early, and more of it might help. -/
def Stop.IsEndOfInput : Stop → Prop
  | .fault (.reading (.endOfInput _)) => True
  | _ => False

theorem readList_append_of_error {reason : Stop} (hreason : ¬ reason.IsEndOfInput)
    (us : List Token) : ∀ {ts : List Token} {room : Nat} {items : List Expr}
    {outer : List (List Expr)}, readList room items outer ts = .error reason →
      readList room items outer (ts ++ us) = .error reason
  | [], _, _, _, h => by
      rw [readList] at h
      cases h
      exact absurd trivial hreason
  | .opening :: ts, 0, _, _, h => by
      rw [readList] at h
      rw [List.cons_append, readList, h]
  | .opening :: ts, room + 1, _, _, h => by
      rw [readList] at h
      rw [List.cons_append, readList]
      exact readList_append_of_error hreason us h
  | .closing :: ts, _, _, [], h => by
      rw [readList] at h
      cases h
  | .closing :: ts, _, _, _ :: _, h => by
      rw [readList] at h
      rw [List.cons_append, readList]
      exact readList_append_of_error hreason us h
  | .word text :: ts, _, _, _, h => by
      rw [readList] at h
      rw [List.cons_append, readList]
      cases hatom : readAtom text with
      | error stop => rw [hatom] at h; exact h
      | ok atom =>
          rw [hatom] at h
          exact readList_append_of_error hreason us h

/-- An expression that was read stays the first one. -/
theorem parse_append_of_ok {limit : Nat} {ts rest : List Token} {e : Expr}
    (h : parse limit ts = .ok (e, rest)) (us : List Token) :
    parse limit (ts ++ us) = .ok (e, rest ++ us) := by
  obtain ⟨p, rfl, hp, hdepth⟩ := parse_eq_ok_iff.mp h
  exact parse_eq_ok_iff.mpr ⟨p, List.append_assoc .., hp, hdepth⟩

theorem parse_append_of_error {limit : Nat} {ts : List Token} {reason : Stop}
    (h : parse limit ts = .error reason) (hreason : ¬ reason.IsEndOfInput)
    (us : List Token) : parse limit (ts ++ us) = .error reason := by
  match ts, limit with
  | [], _ =>
      cases h
      exact absurd trivial hreason
  | .opening :: ts, 0 => exact h
  | .opening :: ts, room + 1 => exact readList_append_of_error hreason us h
  | .closing :: ts, _ => exact h
  | .word text :: ts, _ =>
      rw [parse] at h
      rw [List.cons_append, parse]
      cases hatom : readAtom text with
      | error stop => rw [hatom] at h; exact h
      | ok atom => rw [hatom] at h; cases h

/-! ## All expressions -/

/-- Reading to the end of the tokens. -/
def readTokens (limit : Nat) (ts : List Token) : Script := readForms limit ts.length ts

/-- A bound that is not below the number of tokens makes no difference. -/
theorem readForms_of_length_le {limit bound : Nat} {ts : List Token}
    (h : ts.length ≤ bound) : readForms limit bound ts = readTokens limit ts := by
  -- both bounds are spent together; after an expression the tokens are fewer
  suffices hboth : ∀ m n (ts : List Token), ts.length ≤ m → ts.length ≤ n →
      readForms limit m ts = readForms limit n ts from hboth _ _ ts h (Nat.le_refl _)
  intro m
  induction m with
  | zero =>
      intro n ts hm _
      obtain rfl := List.length_eq_zero_iff.mp (Nat.le_zero.mp hm)
      cases n <;> rfl
  | succ m ih =>
      intro n ts hm hn
      cases ts with
      | nil => cases n <;> rfl
      | cons t ts =>
          cases n with
          | zero => exact absurd hn (Nat.not_succ_le_zero _)
          | succ n =>
              rw [readForms, readForms]
              cases hparse : parse limit (t :: ts) with
              | error reason => rfl
              | ok pair =>
                  obtain ⟨e, rest⟩ := pair
                  have hlt := parse_length_lt hparse
                  dsimp only
                  rw [ih n rest (by omega) (by omega)]

theorem readTokens_of_ok {limit : Nat} {ts rest : List Token} {e : Expr}
    (h : parse limit ts = .ok (e, rest)) :
    readTokens limit ts =
      ⟨e :: (readTokens limit rest).forms, (readTokens limit rest).failure⟩ := by
  have hlt := parse_length_lt h
  cases ts with
  | nil => cases h
  | cons t ts =>
      rw [readTokens, List.length_cons, readForms, h,
        ← readForms_of_length_le (Nat.le_of_lt_succ hlt)]

theorem readTokens_of_error {limit : Nat} {ts : List Token} {reason : Stop} (hne : ts ≠ [])
    (h : parse limit ts = .error reason) : readTokens limit ts = ⟨[], some reason⟩ := by
  cases ts with
  | nil => exact absurd rfl hne
  | cons t ts => rw [readTokens, List.length_cons, readForms, h]

/-- What a script becomes when a second one follows it: both, if the first was
whole; the first alone, if it broke off for good; and if only its end was
missing, something that starts with the same expressions. -/
inductive Script.Continues (second : Script) : Script → Script → Prop where
  | whole (forms : List Expr) :
      Continues second ⟨forms, none⟩ ⟨forms ++ second.forms, second.failure⟩
  | broken (forms : List Expr) {reason : Stop} (h : ¬ reason.IsEndOfInput) :
      Continues second ⟨forms, some reason⟩ ⟨forms, some reason⟩
  | unended (forms more : List Expr) {reason : Stop} (failure : Option Stop)
      (h : reason.IsEndOfInput) :
      Continues second ⟨forms, some reason⟩ ⟨forms ++ more, failure⟩

theorem Script.Continues.cons {first second joined : Script}
    (h : Script.Continues second first joined) (e : Expr) :
    Script.Continues second ⟨e :: first.forms, first.failure⟩
      ⟨e :: joined.forms, joined.failure⟩ := by
  cases h with
  | whole forms => exact .whole (e :: forms)
  | broken forms hreason => exact .broken (e :: forms) hreason
  | unended forms more failure hreason => exact .unended (e :: forms) more failure hreason

/-- By induction on the number of tokens, one expression at a time. -/
theorem readTokens_append (limit : Nat) (us : List Token) : ∀ (n : Nat) (ts : List Token),
    ts.length ≤ n →
      Script.Continues (readTokens limit us) (readTokens limit ts)
        (readTokens limit (ts ++ us))
  | _, [], _ => .whole []
  | 0, _ :: _, hlen => absurd hlen (Nat.not_succ_le_zero _)
  | n + 1, t :: ts, hlen => by
      cases hparse : parse limit (t :: ts) with
      | ok pair =>
          obtain ⟨e, rest⟩ := pair
          have hlt := parse_length_lt hparse
          rw [readTokens_of_ok hparse, readTokens_of_ok (parse_append_of_ok hparse us)]
          exact (readTokens_append limit us n rest (by omega)).cons e
      | error reason =>
          rw [readTokens_of_error (List.cons_ne_nil t ts) hparse]
          by_cases hreason : reason.IsEndOfInput
          · exact .unended [] _ _ hreason
          · have hjoined := parse_append_of_error hparse hreason us
            rw [List.cons_append] at hjoined ⊢
            rw [readTokens_of_error (List.cons_ne_nil t (ts ++ us)) hjoined]
            exact .broken [] hreason

theorem readAll_append_newline (limit : Nat) (a b : String) :
    Script.Continues (readAll limit b) (readAll limit a)
      (readAll limit (a ++ "\n" ++ b)) := by
  have h := readTokens_append limit (tokenize b) _ (tokenize a) (Nat.le_refl _)
  rwa [← tokenize_append_newline] at h

end TinyLisp
