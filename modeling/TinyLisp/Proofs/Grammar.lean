import Mathlib
import TinyLisp.Reader

/-!
# The grammar of expressions

`Derives p e` says that the tokens `p` are, from the first to the last, the
expression `e`: a word is the atom that it stands for, and a list is an
opening parenthesis, its items one after the other, and a closing
parenthesis. Nothing is said about how the tokens are read.

The reader accepts exactly this grammar, as far as lists nest no deeper than
the limit (`parse_eq_ok_iff_derives`), and an expression is never a proper
prefix of another one (`Derives.unique_of_append`).

The reader keeps the lists that are open on a stack, while a derivation is a
tree. What ties the two together is `Finishes`: the demand that the lists on
a stack make on the tokens to come.
-/

namespace TinyLisp

/-! ## Atoms -/

theorem readAtom_depth {text : String} {e : Expr} (h : readAtom text = .ok e) :
    e.depth = 0 := by
  unfold readAtom at h
  split at h
  · cases h
  · split at h
    · split at h
      · cases h; rfl
      · cases h
    · split at h
      · split at h
        · cases h; rfl
        · cases h
      · cases h; rfl

theorem readAtom_eq_error {text : String} {reason : Stop} (h : readAtom text = .error reason) :
    text = "" ∧ reason = .emptyToken ∨ reason = (ReadFault.invalidNumber text).stop
      ∨ reason = (ReadFault.unterminatedLiteral text).stop := by
  unfold readAtom at h
  split at h
  · rename_i hempty
    cases h
    exact Or.inl ⟨String.toList_eq_nil_iff.mp hempty, rfl⟩
  · split at h
    · split at h
      · cases h
      · cases h
        exact Or.inr (Or.inl rfl)
    · split at h
      · split at h
        · cases h
        · cases h
          exact Or.inr (Or.inr rfl)
      · cases h

/-! ## Derivations -/

mutual

/-- The tokens are the expression. -/
inductive Derives : List Token → Expr → Prop where
  | atom {text : String} {e : Expr} (h : readAtom text = .ok e) : Derives [.word text] e
  | list {p : List Token} {es : List Expr} (h : DerivesAll p es) :
      Derives (.opening :: (p ++ [.closing])) (.list es)

/-- The tokens are the expressions, one after the other. -/
inductive DerivesAll : List Token → List Expr → Prop where
  | nil : DerivesAll [] []
  | cons {p q : List Token} {e : Expr} {es : List Expr} (h : Derives p e)
      (hs : DerivesAll q es) : DerivesAll (p ++ q) (e :: es)

end

theorem Derives.ne_nil {p : List Token} {e : Expr} (h : Derives p e) : p ≠ [] := by
  cases h with
  | atom _ => exact List.cons_ne_nil _ _
  | list _ => exact List.cons_ne_nil _ _

/-! ## What is derived is read

Inside a list, the tokens of an expression put that expression on top of the
items read so far and leave all else as it was. -/

mutual

theorem Derives.readList_append : ∀ {p : List Token} {e : Expr}, Derives p e →
    ∀ {room : Nat}, e.depth ≤ room → ∀ (items : List Expr) (outer : List (List Expr))
      (rest : List Token),
      readList room items outer (p ++ rest) = readList room (e :: items) outer rest
  | _, _, .atom h, room, _, items, outer, rest => by
      show readList room items outer (.word _ :: rest) = _
      rw [readList, h]
  | _, _, @Derives.list p es hs, room, hroom, items, outer, rest => by
      cases room with
      | zero => exact absurd hroom (Nat.not_succ_le_zero _)
      | succ room =>
          have hes : Expr.depthAll es ≤ room := Nat.le_of_succ_le_succ hroom
          calc readList (room + 1) items outer (.opening :: (p ++ [.closing]) ++ rest)
              = readList room [] (items :: outer) (p ++ .closing :: rest) := by
                rw [List.cons_append, List.append_assoc, readList]; rfl
            _ = readList room es.reverse (items :: outer) (.closing :: rest) := by
                rw [hs.readList_append hes, List.append_nil]
            _ = readList (room + 1) (.list es :: items) outer rest := by
                rw [readList, List.reverse_reverse]

theorem DerivesAll.readList_append : ∀ {p : List Token} {es : List Expr},
    DerivesAll p es → ∀ {room : Nat}, Expr.depthAll es ≤ room →
    ∀ (items : List Expr) (outer : List (List Expr)) (rest : List Token),
      readList room items outer (p ++ rest) =
        readList room (es.reverse ++ items) outer rest
  | _, _, .nil, _, _, _, _, _ => rfl
  | _, _, @DerivesAll.cons _ _ e es h hs, room, hroom, items, outer, rest => by
      have he : e.depth ≤ room := Nat.le_trans (Nat.le_max_left ..) hroom
      have hes : Expr.depthAll es ≤ room := Nat.le_trans (Nat.le_max_right ..) hroom
      rw [List.append_assoc, h.readList_append he, hs.readList_append hes,
        List.reverse_cons, List.append_assoc, List.singleton_append]

end

/-! ## What is read is derived -/

/-- What the list being read and the lists around it demand of the tokens
to come, so that the outermost of them is read as `e` and `rest` is left:
the innermost list is finished first and is then an item of the next. -/
def Finishes (room : Nat) (items : List Expr) :
    List (List Expr) → List Token → Expr → List Token → Prop
  | [], ts, e, rest =>
      ∃ p es, ts = p ++ .closing :: rest ∧ DerivesAll p es ∧ Expr.depthAll es ≤ room
        ∧ e = .list (items.reverse ++ es)
  | above :: outer, ts, e, rest =>
      ∃ p es mid, ts = p ++ .closing :: mid ∧ DerivesAll p es ∧ Expr.depthAll es ≤ room
        ∧ Finishes (room + 1) (.list (items.reverse ++ es) :: above) outer mid e rest

/-- An item in front of the tokens, not read yet, is as good as one that is
already among the items. -/
theorem Finishes.of_item {room : Nat} {items : List Expr} {outer : List (List Expr)}
    {p ts rest : List Token} {item e : Expr} (hitem : Derives p item)
    (hdepth : item.depth ≤ room) (h : Finishes room (item :: items) outer ts e rest) :
    Finishes room items outer (p ++ ts) e rest := by
  have hmore : ∀ es, (item :: items).reverse ++ es = items.reverse ++ item :: es := by
    intro es
    rw [List.reverse_cons, List.append_assoc, List.singleton_append]
  cases outer with
  | nil =>
      obtain ⟨q, es, rfl, hes, hroom, rfl⟩ := h
      exact ⟨p ++ q, item :: es, (List.append_assoc ..).symm, .cons hitem hes,
        Nat.max_le.mpr ⟨hdepth, hroom⟩, by rw [hmore]⟩
  | cons above outer =>
      obtain ⟨q, es, mid, rfl, hes, hroom, hfin⟩ := h
      exact ⟨p ++ q, item :: es, mid, (List.append_assoc ..).symm, .cons hitem hes,
        Nat.max_le.mpr ⟨hdepth, hroom⟩, by rwa [hmore] at hfin⟩

theorem Finishes.of_opening {room : Nat} {items : List Expr} {outer : List (List Expr)}
    {ts rest : List Token} {e : Expr}
    (h : Finishes room [] (items :: outer) ts e rest) :
    Finishes (room + 1) items outer (.opening :: ts) e rest := by
  obtain ⟨p, es, mid, rfl, hes, hroom, hfin⟩ := h
  have hlist := hfin.of_item (.list hes) (Nat.succ_le_succ hroom)
  rwa [List.cons_append, List.append_assoc] at hlist

theorem Finishes.of_closing {room : Nat} {items above : List Expr}
    {outer : List (List Expr)} {ts rest : List Token} {e : Expr}
    (h : Finishes (room + 1) (.list items.reverse :: above) outer ts e rest) :
    Finishes room items (above :: outer) (.closing :: ts) e rest :=
  ⟨[], [], ts, rfl, .nil, Nat.zero_le _, by rwa [List.append_nil]⟩

/-- The reader only finishes what the tokens finish: by induction on the
tokens, each of them moves the demand of the stack one token on. -/
theorem finishes_of_readList : ∀ {ts : List Token} {room : Nat} {items : List Expr}
    {outer : List (List Expr)} {e : Expr} {rest : List Token},
    readList room items outer ts = .ok (e, rest) → Finishes room items outer ts e rest
  | [], _, _, _, _, _, h => by rw [readList] at h; cases h
  | .opening :: ts, 0, _, _, _, _, h => by rw [readList] at h; cases h
  | .opening :: ts, room + 1, _, _, _, _, h => by
      rw [readList] at h
      exact (finishes_of_readList h).of_opening
  | .closing :: ts, _, items, [], _, _, h => by
      rw [readList] at h
      cases h
      exact ⟨[], [], rfl, .nil, Nat.zero_le _, by rw [List.append_nil]⟩
  | .closing :: ts, _, _, _ :: _, _, _, h => by
      rw [readList] at h
      exact (finishes_of_readList h).of_closing
  | .word text :: ts, room, items, outer, e, rest, h => by
      rw [readList] at h
      cases hatom : readAtom text with
      | error reason => rw [hatom] at h; cases h
      | ok atom =>
          rw [hatom] at h
          have hdepth : atom.depth ≤ room := by rw [readAtom_depth hatom]; exact Nat.zero_le _
          exact (finishes_of_readList h).of_item (.atom hatom) hdepth

/-! ## The reader and the grammar -/

/-- A list is read after its opening parenthesis exactly if the tokens are
its items, a closing parenthesis and what is left. -/
theorem parseSequence_eq_ok_iff {limit : Nat} {ts rest : List Token} {e : Expr} :
    parseSequence limit ts = .ok (e, rest) ↔
      ∃ p es, e = .list es ∧ ts = p ++ .closing :: rest ∧ DerivesAll p es
        ∧ Expr.depthAll es ≤ limit := by
  constructor
  · intro h
    obtain ⟨p, es, hts, hes, hroom, he⟩ := finishes_of_readList h
    exact ⟨p, es, he, hts, hes, hroom⟩
  · rintro ⟨p, es, rfl, rfl, hes, hroom⟩
    rw [parseSequence, hes.readList_append hroom, readList, List.append_nil,
      List.reverse_reverse]

/-- An expression is read exactly if the tokens are its tokens and what is
left. -/
theorem parse_eq_ok_iff {limit : Nat} {ts rest : List Token} {e : Expr} :
    parse limit ts = .ok (e, rest) ↔
      ∃ p, ts = p ++ rest ∧ Derives p e ∧ e.depth ≤ limit := by
  constructor
  · intro h
    match ts, limit with
    | [], _ => cases h
    | .opening :: _, 0 => cases h
    | .opening :: ts, room + 1 =>
        obtain ⟨p, es, rfl, rfl, hes, hroom⟩ := parseSequence_eq_ok_iff.mp h
        exact ⟨.opening :: (p ++ [.closing]), by simp, .list hes, Nat.succ_le_succ hroom⟩
    | .closing :: _, _ => cases h
    | .word text :: ts, _ =>
        rw [parse] at h
        cases hatom : readAtom text with
        | error reason => rw [hatom] at h; cases h
        | ok atom =>
            rw [hatom] at h
            cases h
            exact ⟨[.word text], rfl, .atom hatom, by
              rw [readAtom_depth hatom]; exact Nat.zero_le _⟩
  · rintro ⟨p, rfl, hp, hdepth⟩
    cases hp with
    | atom hatom =>
        show parse limit (.word _ :: rest) = _
        rw [parse, hatom]
    | @list p es hes =>
        cases limit with
        | zero => exact absurd hdepth (Nat.not_succ_le_zero _)
        | succ room =>
            rw [List.cons_append, List.append_assoc, parse]
            exact parseSequence_eq_ok_iff.mpr
              ⟨p, es, rfl, rfl, hes, Nat.le_of_succ_le_succ hdepth⟩

/-- What is left after an expression is shorter than what there was. -/
theorem parse_length_lt {limit : Nat} {ts rest : List Token} {e : Expr}
    (h : parse limit ts = .ok (e, rest)) : rest.length < ts.length := by
  obtain ⟨p, rfl, hp, -⟩ := parse_eq_ok_iff.mp h
  have hpos : 0 < p.length := List.length_pos_iff.mpr hp.ne_nil
  rw [List.length_append]
  omega

/-- Only one prefix of the tokens is an expression, and only one: the reader,
given room enough for both, has read both. -/
theorem Derives.unique_of_append {p q rest rest' : List Token} {e e' : Expr}
    (hp : Derives p e) (hq : Derives q e') (h : p ++ rest = q ++ rest') :
    p = q ∧ e = e' := by
  let limit := max e.depth e'.depth
  have hread : parse limit (p ++ rest) = .ok (e, rest) :=
    parse_eq_ok_iff.mpr ⟨p, rfl, hp, Nat.le_max_left ..⟩
  have hread' : parse limit (p ++ rest) = .ok (e', rest') :=
    parse_eq_ok_iff.mpr ⟨q, h, hq, Nat.le_max_right ..⟩
  obtain ⟨rfl, rfl⟩ := Prod.mk.injEq .. |>.mp (Except.ok.inj (hread.symm.trans hread'))
  exact ⟨List.append_cancel_right h, rfl⟩

/-- **The reader accepts exactly the grammar.** One expression is read if and
only if the tokens start with a derivation of it that nests no deeper than
the limit, and what is left is what follows; the same for the items of a list
up to its closing parenthesis. So at most one prefix of the tokens is an
expression, and it is one expression only. -/
theorem parse_eq_ok_iff_derives (limit : Nat) (ts : List Token) :
    (∀ e rest, parse limit ts = .ok (e, rest) ↔
        ∃ p, ts = p ++ rest ∧ Derives p e ∧ e.depth ≤ limit)
      ∧ (∀ e rest, parseSequence limit ts = .ok (e, rest) ↔
          ∃ p es, e = .list es ∧ ts = p ++ .closing :: rest ∧ DerivesAll p es
            ∧ Expr.depthAll es ≤ limit)
      ∧ ∀ p q rest rest' e e', ts = p ++ rest → ts = q ++ rest' →
          Derives p e → Derives q e' → p = q ∧ rest = rest' ∧ e = e' := by
  refine ⟨fun _ _ => parse_eq_ok_iff, fun _ _ => parseSequence_eq_ok_iff, ?_⟩
  rintro p q rest rest' e e' rfl hq hp hq'
  obtain ⟨rfl, rfl⟩ := hp.unique_of_append hq' hq
  exact ⟨rfl, List.append_cancel_left hq, rfl⟩

/-- A list and a word behind it: the list is read with no level to spare, and no
other prefix of the tokens is an expression. -/
theorem parse_eq_ok_iff_derives_list :
    let ts : List Token := [.opening, .word "a", .closing, .word "b"]
    let p : List Token := [.opening, .word "a", .closing]
    Derives p (.list [.symbol "a"])
      ∧ parse 1 ts = .ok (.list [.symbol "a"], [.word "b"])
      ∧ ∀ q rest e, ts = q ++ rest → Derives q e →
          p = q ∧ [.word "b"] = rest ∧ .list [.symbol "a"] = e := by
  intro ts p
  have hatom : Derives [.word "a"] (.symbol "a") := .atom (by cbv)
  have hp : Derives p (.list [.symbol "a"]) := .list (.cons hatom .nil)
  obtain ⟨hparse, -, hunique⟩ := parse_eq_ok_iff_derives 1 ts
  refine ⟨hp, (hparse _ _).mpr ⟨p, rfl, hp, by decide⟩, fun q rest e hq hderives => ?_⟩
  exact hunique p q [.word "b"] rest _ e rfl hq hp hderives

end TinyLisp
