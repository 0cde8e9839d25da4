import TinyLisp.Proofs.Numerals
import TinyLisp.Proofs.Reading

/-!
# Rendering loses next to nothing

An expression is rendered without any escapes, so the text of a name may look like a tag, a
separator or a bracket. Still, nothing is lost as long as no name and no text holds a closing
parenthesis (`Expr.Plain`), which is so of all that is read (`Expr.Written.plain`).

A rendering says where it ends (`Expr.render_append`): its tag ends with the first comma, the
value of an atom with the first closing parenthesis, and in a list the character after an item
says whether another one follows. So what is rendered can be told but for the sign of a zero
and for which function it is that is shown (`Expr.outline`).

The headline is `rendering_is_faithful`.
-/

namespace TinyLisp

/-- The first occurrence of a mark cuts a text in only one way. -/
theorem append_mark_inj {mark : Char} {xs ys s t : List Char} (hxs : mark ∉ xs) (hys : mark ∉ ys)
    (h : xs ++ mark :: s = ys ++ mark :: t) : xs = ys ∧ s = t := by
  induction xs generalizing ys with
  | nil =>
      cases ys with
      | nil => exact ⟨rfl, (List.cons.inj h).2⟩
      | cons c ys => exact absurd (List.cons.inj h).1 (List.ne_of_not_mem_cons hys)
  | cons c xs ih =>
      cases ys with
      | nil => exact absurd (List.cons.inj h).1.symm (List.ne_of_not_mem_cons hxs)
      | cons d ys =>
          obtain ⟨hhead, htail⟩ := List.cons.inj h
          obtain ⟨heq, hrest⟩ :=
            ih (List.not_mem_of_not_mem_cons hxs) (List.not_mem_of_not_mem_cons hys) htail
          exact ⟨by rw [hhead, heq], hrest⟩

theorem Tag.comma_not_mem_name (tag : Tag) : ',' ∉ tag.name.toList := by
  cases tag <;> decide

theorem Tag.ofName?_name (tag : Tag) : ofName? tag.name = some tag := by
  cases tag <;> decide

theorem Tag.name_inj {s t : Tag} (h : s.name = t.name) : s = t := by
  have hs := ofName?_name s
  rw [h, ofName?_name t] at hs
  exact (Option.some.inj hs).symm

theorem Double.closing_not_mem_text (x : Double) : ')' ∉ x.text.toList := by
  have hunsigned (k : Place) : ')' ∉ (text (.finite false k)).toList := by
    obtain ⟨d, hprinted, -⟩ := text_printedAs k
    intro hmem
    exact Decimal.not_isNumeralChar_paren (Or.inr rfl) (hprinted.writtenAs.isNumeralChar _ hmem)
  rw [← text_unsignZero]
  cases x with
  | finite s k =>
      by_cases hk : k.val = 0
      · rw [unsignZero_of_zero hk]
        exact hunsigned k
      · rw [unsignZero_of_ne hk]
        cases s with
        | false => exact hunsigned k
        | true =>
            rw [text_negative hk, String.toList_append]
            intro hmem
            rcases List.mem_append.mp hmem with h | h
            · exact absurd h (by decide)
            · exact hunsigned k h
  | infinite s => cases s <;> decide
  | nan => decide

namespace Expr

/-! ## What is asked and what is lost -/

mutual

/-- The names and texts that stand in an expression. -/
def texts : Expr → List String
  | .symbol name => [name]
  | .literal text => [text]
  | .list items => textsAll items
  | _ => []

def textsAll : List Expr → List String
  | [] => []
  | e :: es => texts e ++ textsAll es

end

/-- No name and no text of the expression holds a closing parenthesis. -/
def Plain (e : Expr) : Prop := ∀ text ∈ e.texts, ')' ∉ text.toList

/-- The expression with the zeros made one, and the functions made one. -/
def outline (e : Expr) : Expr := e.blur (fun _ => "") (fun _ => .exit)

theorem plain_list {items : List Expr} : (Expr.list items).Plain ↔ ∀ e ∈ items, e.Plain := by
  induction items with
  | nil => simp [Plain, texts, textsAll]
  | cons x xs ih =>
      simp only [Plain, texts, textsAll, List.mem_append] at ih ⊢
      rw [List.forall_mem_cons, ← ih]
      exact ⟨fun h => ⟨fun t ht => h t (.inl ht), fun t ht => h t (.inr ht)⟩,
        fun h t ht => ht.elim (h.1 t) (h.2 t)⟩

theorem Written.plain {e : Expr} (h : e.Written) : e.Plain := by
  induction h with
  | symbol hname =>
      intro text htext hmem
      rw [List.mem_singleton.mp htext] at hmem
      exact (hname.1.2 _ hmem).2.1 rfl
  | literal htext =>
      intro text h hmem
      rw [List.mem_singleton.mp h] at hmem
      exact (htext _ hmem).1.2.1 rfl
  | number => rintro text ⟨⟩
  | list _ ih => exact plain_list.mpr ih

/-- An atom is known by its tag and its value. -/
theorem outline_eq_of_value {a b : Expr} (hatom : a.tag ≠ .list) (htag : a.tag = b.tag)
    (hvalue : a.value = b.value) : a.outline = b.outline := by
  cases a <;> cases b <;> cases htag
  · exact congrArg symbol hvalue
  · exact congrArg literal hvalue
  · exact congrArg number (Double.text_eq_iff.mp hvalue)
  · exact absurd rfl hatom
  · rfl
  · rfl

theorem closing_not_mem_value {a : Expr} (hatom : a.tag ≠ .list) (ha : a.Plain) :
    ')' ∉ a.value.toList := by
  cases a with
  | symbol name => exact ha name List.mem_cons_self
  | literal text => exact ha text List.mem_cons_self
  | number x => exact x.closing_not_mem_text
  | list items => exact absurd rfl hatom
  | fn _ _ | null => simp only [value]; decide

/-! ## Where a rendering ends -/

theorem toList_render (e : Expr) :
    (e.render false).toList
      = '(' :: (e.tag.name.toList ++ ',' :: ' ' :: (e.value.toList ++ [')'])) := by
  simp [render, colorize]

theorem values_eq_map (es : List Expr) : values es = es.map (render false) := by
  induction es with
  | nil => rfl
  | cons e es ih =>
      rw [values, ih]
      rfl

/-- The items of a list as they are rendered, with a comma before each of them. -/
def separated : List Expr → List Char
  | [] => []
  | e :: es => ',' :: ' ' :: ((e.render false).toList ++ separated es)

theorem toList_value_nil : (Expr.list []).value.toList = ['[', ']'] := rfl

theorem toList_value_cons (e : Expr) (es : List Expr) :
    (Expr.list (e :: es)).value.toList
      = '[' :: ((e.render false).toList ++ (separated es ++ [']'])) := by
  have hjoin : (", ".intercalate (values (e :: es))).toList
      = (e.render false).toList ++ separated es := by
    rw [values_eq_map]
    induction es generalizing e with
    | nil => simp [separated]
    | cons next es ih =>
        rw [List.map_cons, List.map_cons, String.intercalate_cons_cons, ← List.map_cons,
          String.toList_append, ih, separated]
        simp
  rw [value, String.toList_append, String.toList_append, hjoin, List.append_assoc]
  simp

/-- The tag of a rendering can be told, and where the value starts. -/
theorem render_append_tag {a b : Expr} {s t : List Char}
    (h : (a.render false).toList ++ s = (b.render false).toList ++ t) :
    a.tag = b.tag ∧ a.value.toList ++ ')' :: s = b.value.toList ++ ')' :: t := by
  simp only [toList_render, List.cons_append, List.append_assoc, List.nil_append] at h
  obtain ⟨hname, hvalue⟩ := append_mark_inj a.tag.comma_not_mem_name b.tag.comma_not_mem_name
    (List.cons.inj h).2
  exact ⟨Tag.name_inj (String.toList_inj.mp hname), (List.cons.inj hvalue).2⟩

theorem render_append_atom {a b : Expr} {s t : List Char} (hatom : a.tag ≠ .list) (ha : a.Plain)
    (hb : b.Plain) (h : (a.render false).toList ++ s = (b.render false).toList ++ t) :
    a.outline = b.outline ∧ s = t := by
  obtain ⟨htag, hvalue⟩ := render_append_tag h
  obtain ⟨hvalue, hrest⟩ := append_mark_inj (closing_not_mem_value hatom ha)
    (closing_not_mem_value (htag ▸ hatom) hb) hvalue
  exact ⟨outline_eq_of_value hatom htag (String.toList_inj.mp hvalue), hrest⟩

/-- With a comma before the first item too, the empty list is no special case. -/
theorem separated_of_value {xs ys : List Expr} {s t : List Char}
    (h : (Expr.list xs).value.toList ++ s = (Expr.list ys).value.toList ++ t) :
    separated xs ++ ']' :: s = separated ys ++ ']' :: t := by
  cases xs with
  | nil =>
      cases ys with
      | nil => exact (List.cons.inj h).2
      | cons y ys =>
          rw [toList_value_nil, toList_value_cons, toList_render] at h
          cases h
  | cons x xs =>
      cases ys with
      | nil =>
          rw [toList_value_nil, toList_value_cons, toList_render] at h
          cases h
      | cons y ys =>
          simp only [toList_value_cons, List.cons_append, List.append_assoc, List.nil_append,
            List.cons.injEq, true_and] at h
          simp only [separated, List.cons_append, List.append_assoc, h]

theorem outline_list (items : List Expr) :
    (Expr.list items).outline = .list (items.map outline) :=
  congrArg Expr.list (blurAll_eq_map items)

mutual

/-- By induction on the first expression. What follows is arbitrary, so that an item of a list
can be cut off before the items after it. -/
theorem render_append : ∀ (a b : Expr) {s t : List Char}, a.Plain → b.Plain →
    (a.render false).toList ++ s = (b.render false).toList ++ t →
    a.outline = b.outline ∧ s = t
  | .list xs, b => by
      intro ha hb h
      obtain ⟨htag, hvalue⟩ := render_append_tag h
      cases b with
      | list ys =>
          obtain ⟨hitems, hrest⟩ := separated_append xs ys (plain_list.mp ha) (plain_list.mp hb)
            (separated_of_value hvalue)
          rw [outline_list, outline_list, hitems]
          exact ⟨rfl, (List.cons.inj hrest).2⟩
      | symbol | literal | number | fn | null => cases htag
  | .symbol _, _ | .literal _, _ | .number _, _ | .fn _ _, _ | .null, _ =>
      render_append_atom (by rintro ⟨⟩)

theorem separated_append : ∀ (xs ys : List Expr) {s t : List Char}, (∀ e ∈ xs, e.Plain) →
    (∀ e ∈ ys, e.Plain) → separated xs ++ ']' :: s = separated ys ++ ']' :: t →
    xs.map outline = ys.map outline ∧ s = t
  | [], [] => by
      intro _ _ h
      exact ⟨rfl, (List.cons.inj h).2⟩
  | [], y :: ys => by
      intro _ _ h
      cases h
  | x :: xs, [] => by
      intro _ _ h
      cases h
  | x :: xs, y :: ys => by
      intro hxs hys h
      obtain ⟨hx, hxs⟩ := List.forall_mem_cons.mp hxs
      obtain ⟨hy, hys⟩ := List.forall_mem_cons.mp hys
      simp only [separated, List.cons_append, List.append_assoc, List.cons.injEq, true_and] at h
      obtain ⟨hhead, hrest⟩ := render_append x y hx hy h
      obtain ⟨htail, hrest⟩ := separated_append xs ys hxs hys hrest
      exact ⟨by rw [List.map_cons, List.map_cons, hhead, htail], hrest⟩

end

theorem render_eq_iff {a b : Expr} (ha : a.Plain) (hb : b.Plain) :
    a.render false = b.render false ↔ a.outline = b.outline := by
  constructor
  · intro h
    exact (@render_append a b [] [] ha hb (by rw [h])).1
  · intro h
    rw [← render_blur false a, ← render_blur false b]
    exact congrArg (render false) h

theorem tag_eq_of_outline_eq {a b : Expr} (h : a.outline = b.outline) : a.tag = b.tag := by
  have htag := congrArg tag h
  rwa [outline, outline, tag_blur, tag_blur] at htag

/-- Lists are rendered alike if they have equally many items, rendered alike in turn. -/
theorem render_list_eq_iff {xs ys : List Expr} (hxs : ∀ e ∈ xs, e.Plain)
    (hys : ∀ e ∈ ys, e.Plain) :
    (Expr.list xs).render false = (Expr.list ys).render false
      ↔ List.Forall₂ (fun x y => x.render false = y.render false) xs ys := by
  rw [render_eq_iff (plain_list.mpr hxs) (plain_list.mpr hys), outline_list, outline_list,
    Expr.list.injEq]
  induction xs generalizing ys with
  | nil => cases ys <;> simp
  | cons x xs ih =>
      cases ys with
      | nil => simp
      | cons y ys =>
          obtain ⟨hx, hxs⟩ := List.forall_mem_cons.mp hxs
          obtain ⟨hy, hys⟩ := List.forall_mem_cons.mp hys
          rw [List.map_cons, List.map_cons, List.cons.injEq, List.forall₂_cons,
            render_eq_iff hx hy, ih hxs hys]

/-- The items of a list that is rendered are rendered too. -/
theorem map_shown {es : List Expr} (h : (Expr.list es).isRenderable = true) :
    es.map (shown false) = (es.map (render false)).map .ok := by
  rw [List.map_map]
  exact List.map_congr_left fun e he => shown_of_isRenderable (isRenderable_of_mem h he) false

theorem forall₂_shown_iff {xs ys : List Expr} (hxs : (Expr.list xs).isRenderable = true)
    (hys : (Expr.list ys).isRenderable = true) :
    List.Forall₂ (fun x y => x.shown false = y.shown false) xs ys
      ↔ List.Forall₂ (fun x y => x.render false = y.render false) xs ys := by
  rw [forall₂_eq_iff_map_eq (shown false), forall₂_eq_iff_map_eq (render false), map_shown hxs,
    map_shown hys]
  exact (List.map_injective_iff.mpr fun _ _ => Except.ok.inj).eq_iff

theorem plain_wrapped {e : Expr} (h : e.Plain) (n : Nat) : (e.wrapped n).Plain := by
  induction n with
  | zero => exact h
  | succ n ih =>
      refine plain_list.mpr fun x hx => ?_
      rw [List.mem_singleton.mp hx]
      exact ih

end Expr

/-- **Rendering is faithful.** In what is read, no name and no text holds a closing
parenthesis. An expression is rendered if its lists nest no deeper than rendering goes, and only
then. Of the expressions that are rendered and of which the first is so, two are rendered alike
exactly if they are the same but for the sign of zeros and for what functions they hold. In
particular they are of one kind, and if they are lists then of equally many items, rendered
alike one by one. -/
theorem rendering_is_faithful :
    (∀ limit strict source e, readFirst limit strict source = .ok e → e.Plain)
      ∧ (∀ limit source, ∀ e ∈ (readAll limit source).forms, e.Plain)
      ∧ (∀ (e : Expr) color, (∃ text, e.shown color = .ok text) ↔ e.depth ≤ renderingLimit)
      ∧ ∀ a b : Expr, a.Plain → b.Plain →
        ∀ s t, a.shown false = .ok s → b.shown false = .ok t →
          (s = t ↔ a.outline = b.outline)
            ∧ (s = t → a.tag = b.tag)
            ∧ ∀ xs ys, a = .list xs → b = .list ys →
              (s = t ↔ List.Forall₂ (fun x y => x.shown false = y.shown false) xs ys) := by
  refine ⟨?_, ?_, fun e color => ?_, ?_⟩
  · intro limit strict source e h
    exact (readFirst_written h).plain
  · intro limit source e he
    exact (readAll_written e he).plain
  · simp only [Expr.shown_eq_ok_iff, exists_and_left, exists_eq', and_true]
    exact decide_eq_true_iff
  · intro a b ha hb s t hs ht
    obtain ⟨hashown, rfl⟩ := Expr.shown_eq_ok_iff.mp hs
    obtain ⟨hbshown, rfl⟩ := Expr.shown_eq_ok_iff.mp ht
    refine ⟨Expr.render_eq_iff ha hb, ?_, ?_⟩
    · intro h
      exact Expr.tag_eq_of_outline_eq ((Expr.render_eq_iff ha hb).mp h)
    · rintro xs ys rfl rfl
      rw [Expr.forall₂_shown_iff hashown hbshown]
      exact Expr.render_list_eq_iff (Expr.plain_list.mp ha) (Expr.plain_list.mp hb)

theorem rendering_is_faithful_nested :
    let a : Expr := .list [.symbol "[SYMBOL,", .number .zero, .list [.fn "+" .add]]
    let b : Expr := .list [.symbol "[SYMBOL,", .number Double.zero.neg, .list [.fn "-" .subtract]]
    readFirst nestingLimit true "(f [SYMBOL,)" = .ok (.list [.symbol "f", .symbol "[SYMBOL,"])
      ∧ (Expr.list [.symbol "f", .symbol "[SYMBOL,"]).Plain
      ∧ a.Plain ∧ b.Plain
      ∧ a.shown false = .ok (a.render false) ∧ b.shown false = .ok (b.render false)
      ∧ a.render false = b.render false := by
  intro a b
  have hread : readFirst nestingLimit true "(f [SYMBOL,)"
      = .ok (.list [.symbol "f", .symbol "[SYMBOL,"]) := by cbv
  have hplain (x : Double) (name : String) (f : Operation) :
      (Expr.list [.symbol "[SYMBOL,", .number x, .list [.fn name f]]).Plain := by
    intro text htext
    rw [List.mem_singleton.mp htext]
    decide
  have ha : a.shown false = .ok (a.render false) := Expr.shown_of_isRenderable rfl false
  have hb : b.shown false = .ok (b.render false) := Expr.shown_of_isRenderable rfl false
  refine ⟨hread, rendering_is_faithful.1 _ _ _ _ hread, hplain _ _ _, hplain _ _ _, ha, hb, ?_⟩
  exact (rendering_is_faithful.2.2.2 a b (hplain _ _ _) (hplain _ _ _) _ _ ha hb).1.mpr rfl

/-- Lists may nest too deep to be rendered, in what is otherwise fit to be. -/
theorem deep_list_not_rendered :
    (Expr.null.wrapped 1200).Plain
      ∧ (∀ color text, (Expr.null.wrapped 1200).shown color ≠ .ok text)
      ∧ (Expr.null.wrapped 1200).shown false = .error .exhausted := by
  have hnot : (Expr.null.wrapped 1200).isRenderable = false :=
    Expr.not_isRenderable_wrapped (by decide) _
  refine ⟨Expr.plain_wrapped (fun _ h => absurd h List.not_mem_nil) 1200, ?_,
    Expr.shown_of_not_isRenderable hnot false⟩
  intro color text h
  exact absurd (Expr.shown_eq_ok_iff.mp h).1 (hnot ▸ Bool.false_ne_true)

/-- A closing parenthesis in a name can pass for the end of the item. -/
example : (Expr.list [.symbol "a), (SYMBOL, b"]).render false
    = (Expr.list [.symbol "a", .symbol "b"]).render false := by decide

end TinyLisp
