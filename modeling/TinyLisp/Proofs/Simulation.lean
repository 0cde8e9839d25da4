import Mathlib.Data.List.Forall2
import Mathlib.Data.List.TakeWhile
import TinyLisp.Eval
import TinyLisp.Proofs.Run

/-!
# Two evaluations side by side

A `Simulation` says what it means for two evaluations to correspond: which
environments, code, values and stores belong together, which lists of events
do, and for which reasons both may stop. It holds the proof that each single
thing an evaluation does respects this. The headline is
`Simulation.evaluate_relates`: then whole evaluations do, however they end.
An instance may excuse the two sides from some event on; of runs in which there
is such an event nothing is said.

The two stores, expressions and environments may be different, and values
need not be equal. A claim about one evaluation is the special case in which
both sides are the same (`Policy`). So this is the one place where the
evaluator is taken apart; what it needs of an instance is about single
bindings, listings and operations.
-/

namespace TinyLisp

/-! ## Correspondence of outcomes, code and operations -/

/-- Both computations end with values that belong together, or both stop for
one and the same reason. -/
inductive SameEnd {α β : Type} (post : α → β → Prop) (stop : Stop → Prop) :
    Except Stop α → Except Stop β → Prop where
  | ok {a : α} {b : β} (h : post a b) : SameEnd post stop (.ok a) (.ok b)
  | error {reason : Stop} (h : stop reason) : SameEnd post stop (.error reason) (.error reason)

theorem SameEnd.imp {α β : Type} {post post' : α → β → Prop} {stop : Stop → Prop}
    {x : Except Stop α} {y : Except Stop β} (h : ∀ a b, post a b → post' a b)
    (hend : SameEnd post stop x y) : SameEnd post' stop x y := by
  cases hend with
  | ok hab => exact .ok (h _ _ hab)
  | error hstop => exact .error hstop

/-- Two expressions of one form. Names and texts are the same, items belong
together; of numbers and functions nothing more is said. -/
inductive Alike (code : Expr → Expr → Prop) : Expr → Expr → Prop where
  | symbol (name : String) : Alike code (.symbol name) (.symbol name)
  | literal (text : String) : Alike code (.literal text) (.literal text)
  | number (x y : Double) : Alike code (.number x) (.number y)
  | list {xs ys : List Expr} (h : List.Forall₂ code xs ys) : Alike code (.list xs) (.list ys)
  | fn (m n : String) (f g : Operation) : Alike code (.fn m f) (.fn n g)
  | null : Alike code .null .null

theorem Alike.refl {code : Expr → Expr → Prop} (e : Expr)
    (hitems : ∀ items, e = .list items → ∀ x ∈ items, code x x) : Alike code e e := by
  cases e with
  | symbol name => exact .symbol name
  | literal text => exact .literal text
  | number x => exact .number x x
  | list items => exact .list (List.forall₂_same.mpr (hitems items rfl))
  | fn name f => exact .fn name name f f
  | null => exact .null

/-- One operation, on environments that belong together. -/
inductive Operation.Matches (env : EnvId → EnvId → Prop) : Operation → Operation → Prop where
  | add : Matches env .add .add
  | subtract : Matches env .subtract .subtract
  | define {i j : EnvId} (h : env i j) : Matches env (.define i) (.define j)
  | echo {i j : EnvId} (h : env i j) : Matches env (.echo i) (.echo j)
  | listing {i j : EnvId} (h : env i j) : Matches env (.listing i) (.listing j)
  | exit : Matches env .exit .exit
  | interrupt : Matches env .interrupt .interrupt

/-! ## Lists and bindings that correspond -/

theorem forall₂_eq_iff_map_eq {α β : Type} (f : α → β) {xs ys : List α} :
    List.Forall₂ (fun x y => f x = f y) xs ys ↔ xs.map f = ys.map f := by
  rw [← List.forall₂_eq_eq_eq, List.forall₂_map_left_iff, List.forall₂_map_right_iff]

namespace Env

variable {value : Expr → Expr → Prop} {bs cs : List (String × Expr)}
  (h : List.Forall₂ (fun b c => b.1 = c.1 ∧ value b.2 c.2) bs cs)
include h

end Env

/-! ## Showing a value -/

namespace Expr

theorem shown_of_isRenderable {e : Expr} (h : e.isRenderable = true) (color : Bool) :
    e.shown color = .ok (e.render color) := by
  rw [shown, if_pos h]

theorem shown_of_not_isRenderable {e : Expr} (h : e.isRenderable = false) (color : Bool) :
    e.shown color = .error .exhausted := by
  rw [shown, h, if_neg Bool.false_ne_true]

theorem shown_eq_ok_iff {e : Expr} {color : Bool} {text : String} :
    e.shown color = .ok text ↔ e.isRenderable = true ∧ e.render color = text := by
  cases h : e.isRenderable with
  | true => rw [shown_of_isRenderable h, Except.ok.injEq, eq_self, true_and]
  | false =>
      rw [shown_of_not_isRenderable h]
      exact ⟨fun h => (nomatch h), fun h => absurd h.1 Bool.false_ne_true⟩

theorem depth_lt_of_mem {e : Expr} {es : List Expr} (h : e ∈ es) : e.depth < (list es).depth := by
  show e.depth < depthAll es + 1
  induction es with
  | nil => cases h
  | cons first rest ih =>
      rw [depthAll]
      rcases List.mem_cons.mp h with rfl | hrest
      · omega
      · have := ih hrest
        omega

theorem isRenderable_of_mem {e : Expr} {es : List Expr} (h : (list es).isRenderable = true)
    (he : e ∈ es) : e.isRenderable = true :=
  decide_eq_true (Nat.le_trans (Nat.le_of_lt (depth_lt_of_mem he)) (of_decide_eq_true h))

/-- An expression with so many lists around it, one inside the other. -/
def wrapped (e : Expr) : Nat → Expr
  | 0 => e
  | n + 1 => .list [e.wrapped n]

theorem depth_wrapped (e : Expr) (n : Nat) : (e.wrapped n).depth = e.depth + n := by
  induction n with
  | zero => rfl
  | succ n ih => rw [wrapped, depth, depthAll, ih, depthAll, Nat.max_zero, Nat.add_assoc]

theorem not_isRenderable_wrapped {n : Nat} (h : renderingLimit < n) (e : Expr) :
    (e.wrapped n).isRenderable = false :=
  decide_eq_false (by rw [depth_wrapped]; omega)

end Expr

/-! ## Listings -/

/-- Whether all values of an environment can be shown, so that a listing of
it is not cut short. -/
def Env.isRenderable (env : Env) : Bool :=
  env.bindings.all fun binding => binding.2.isRenderable

/-- The events of a listing: the bindings before the first whose value
cannot be shown. -/
def Env.listing (env : Env) (id : EnvId) : List Event :=
  (env.bindings.takeWhile fun binding => binding.2.isRenderable).map fun binding =>
    .listed id binding.1 binding.2

theorem Env.exists_of_mem_listing {env : Env} {id : EnvId} {event : Event}
    (h : event ∈ env.listing id) : ∃ b ∈ env.bindings, .listed id b.1 b.2 = event := by
  obtain ⟨b, hb, heq⟩ := List.mem_map.mp h
  exact ⟨b, (List.takeWhile_prefix _).subset hb, heq⟩

theorem listBindings_apply (home : EnvId) (cut : Stop) (bs : List (String × Expr)) (s : Store) :
    listBindings home cut bs s =
      ⟨if bs.all fun binding => binding.2.isRenderable then .ok () else .error cut, s,
        (bs.takeWhile fun binding => binding.2.isRenderable).map fun binding =>
          .listed home binding.1 binding.2⟩ := by
  induction bs with
  | nil => rfl
  | cons binding rest ih =>
      obtain ⟨name, value⟩ := binding
      rw [listBindings]
      by_cases h : value.isRenderable
      · rw [if_pos h, Action.emit_bind_apply, ih]
        simp only [List.all_cons, List.takeWhile_cons, h, Bool.true_and, if_true, List.map_cons]
      · rw [if_neg h]
        simp only [List.all_cons, List.takeWhile_cons, h, Bool.false_and, if_false,
          Bool.false_eq_true, List.map_nil]
        rfl

theorem listEnv_apply (home : EnvId) (cut : Stop) (s : Store) :
    listEnv home cut s =
      ⟨if (s.get home).isRenderable then .ok .null else .error cut, s,
        (s.get home).listing home⟩ := by
  rw [listEnv, Action.getEnv_bind_apply]
  have h : listBindings home cut (s.get home).bindings s =
      ⟨if (s.get home).isRenderable then .ok () else .error cut, s, (s.get home).listing home⟩ :=
    listBindings_apply home cut (s.get home).bindings s
  by_cases hall : (s.get home).isRenderable
  · rw [if_pos hall] at h ⊢
    rw [Action.bind_of_ok _ (by rw [h]), h, Action.pure_apply, List.append_nil]
  · rw [if_neg hall] at h ⊢
    rw [Action.bind_of_error _ (by rw [h]), h]

/-! ## Wrong numbers of arguments -/

theorem applyDefine_of_length_ne {home : EnvId} {args : List Expr} (h : args.length ≠ 2) :
    applyDefine home args = .stop (wrongCount "def" "2" args) := by
  unfold applyDefine
  split
  · exact absurd rfl h
  · exact absurd rfl h
  · rfl

theorem applyOperation_echo_of_length_ne {walk : EnvId → Expr → Action Expr} {home : EnvId}
    {args : List Expr} (h : args.length ≠ 1) :
    applyOperation walk (.echo home) args = .stop (wrongCount "echo" "1" args) := by
  match args with
  | [] => rfl
  | [_] => exact absurd rfl h
  | _ :: _ :: _ => rfl

theorem exitStop_of_two_le {args : List Expr} (h : 2 ≤ args.length) :
    exitStop args = wrongCount "exit" "0 or 1" args := by
  unfold exitStop
  split
  · exact absurd h (Nat.not_succ_le_zero 1)
  · exact absurd h (Nat.not_succ_le_self 1)
  · exact absurd h (Nat.not_succ_le_self 1)
  · rfl

/-! ## Arguments that are no numbers -/

def Expr.number? : Expr → Option Double
  | .number x => some x
  | _ => none

/-- The tag of an expression that is no number. -/
def Expr.mismatch? : Expr → Option Tag
  | .number _ => none
  | e => some e.tag

section

variable {function : String} {vs : List Expr}

theorem numbers_of_mismatch {tag : Tag} (h : vs.findSome? Expr.mismatch? = some tag) :
    numbers function vs =
      .error (EvalFault.typeMismatch Tag.float.name tag.name (some function)).stop := by
  induction vs with
  | nil => cases h
  | cons v rest ih =>
      cases v with
      | number x =>
          rw [numbers, ih h]
          rfl
      | symbol | literal | list | fn | null =>
          cases h
          rfl

theorem numbers_of_no_mismatch (h : vs.findSome? Expr.mismatch? = none) :
    numbers function vs = .ok (vs.filterMap Expr.number?) := by
  induction vs with
  | nil => rfl
  | cons v rest ih =>
      cases v with
      | number x =>
          rw [numbers, ih h]
          rfl
      | symbol | literal | list | fn | null => cases h

theorem numbers_eq_error {reason : Stop} (h : numbers function vs = .error reason) :
    ∃ tag, vs.findSome? Expr.mismatch? = some tag
      ∧ reason = (EvalFault.typeMismatch Tag.float.name tag.name (some function)).stop := by
  cases hm : vs.findSome? Expr.mismatch? with
  | some tag =>
      rw [numbers_of_mismatch hm] at h
      cases h
      exact ⟨tag, rfl, rfl⟩
  | none =>
      rw [numbers_of_no_mismatch hm] at h
      cases h

end

/-! ## Simulations -/

/-- What it means for two evaluations to correspond, with the proof that
every single thing they do respects it. -/
structure Simulation where
  env : EnvId → EnvId → Prop
  /-- Expressions that may be evaluated side by side. -/
  code : Expr → Expr → Prop
  /-- Values that may arise side by side. -/
  value : Expr → Expr → Prop
  store : Store → Store → Prop
  events : List Event → List Event → Prop
  /-- Reasons for which both sides may stop. -/
  stop : Stop → Prop
  /-- Events of the first side after which the sides need not correspond any more. -/
  excuses : Event → Prop
  alike : ∀ {e e'}, code e e' → Alike code e e'
  code_of_value : ∀ {v w}, value v w → code v w
  number : ∀ {x y}, code (.number x) (.number y) → value (.number x) (.number y)
  literal : ∀ text, value (.literal text) (.literal text)
  null : value .null .null
  lookup : ∀ {name i j s t}, code (.symbol name) (.symbol name) → env i j → store s t →
    Option.Rel value ((s.get i).lookup? name) ((t.get j).lookup? name)
  operation : ∀ {m n f g}, value (.fn m f) (.fn n g) → f.Matches env g
  sum : ∀ {xs ys}, List.Forall₂ (fun x y => value (.number x) (.number y)) xs ys →
    value (.number (xs.foldl Double.add .zero)) (.number (ys.foldl Double.add .zero))
  difference : ∀ {xs ys}, List.Forall₂ (fun x y => value (.number x) (.number y)) xs ys →
    value (.number (xs.foldl Double.sub .zero)) (.number (ys.foldl Double.sub .zero))
  truncate : ∀ {x y}, value (.number x) (.number y) → x.truncate? = y.truncate?
  nil : events [] []
  append : ∀ {xs xs' ys ys'}, events xs ys → events xs' ys' → events (xs ++ xs') (ys ++ ys')
  applied : ∀ {m n f g args args'}, value (.fn m f) (.fn n g) → List.Forall₂ value args args' →
    events [.applied m f args] [.applied n g args']
  bound : ∀ {i j v w} (name), env i j → value v w → events [.bound i name v] [.bound j name w]
  bind : ∀ {i j v w s t} (name), env i j → value v w → store s t →
    store (s.put i ((s.get i).bind name v)) (t.put j ((t.get j).bind name w))
  listing : ∀ {m i j args s t}, ¬ excuses (.applied m (.listing i) args) → env i j → store s t →
    events ((s.get i).listing i) ((t.get j).listing j)
  renderable : ∀ {m i j args s t}, ¬ excuses (.applied m (.listing i) args) → env i j →
    store s t → (s.get i).isRenderable = (t.get j).isRenderable
  fault : ∀ cause : EvalFault, stop cause.stop
  nesting : stop (.fault (.nesting "evaluate"))
  exit : ∀ status, stop (.exit status)
  interrupt : ∀ {m n}, value (.fn m .interrupt) (.fn n .interrupt) → stop .interrupted

namespace Simulation

variable {σ : Simulation} {α β γ δ : Type}

/-- Two runs correspond: they leave stores that belong together, with such
events, and end the same way. -/
structure Meet (σ : Simulation) (post : α → β → Prop) (r : Run α) (r' : Run β) : Prop where
  store : σ.store r.store r'.store
  events : σ.events r.events r'.events
  ends : SameEnd post σ.stop r.outcome r'.outcome

/-- A run in which some event excuses from corresponding. -/
def Excused (σ : Simulation) (r : Run α) : Prop := ∃ event ∈ r.events, σ.excuses event

/-- Two actions correspond: from stores that belong together their runs do,
unless the first is excused. -/
def Relates (σ : Simulation) (post : α → β → Prop) (a : Action α) (b : Action β) : Prop :=
  ∀ s t, σ.store s t → σ.Excused (a s) ∨ σ.Meet post (a s) (b t)

theorem Relates.imp {mid post : α → β → Prop} {a : Action α} {b : Action β}
    (h : ∀ x y, mid x y → post x y) (hab : σ.Relates mid a b) : σ.Relates post a b :=
  fun s t hst => (hab s t hst).imp_right fun hmeet => { hmeet with ends := hmeet.ends.imp h }

/-! ## Single actions -/

theorem Relates.pure {post : α → β → Prop} {x : α} {y : β} (h : post x y) :
    σ.Relates post (Pure.pure x) (Pure.pure y) :=
  fun _ _ hst => Or.inr ⟨hst, σ.nil, .ok h⟩

theorem Relates.stop {post : α → β → Prop} {reason : Stop} (h : σ.stop reason) :
    σ.Relates post (.stop reason) (.stop reason) :=
  fun _ _ hst => Or.inr ⟨hst, σ.nil, .error h⟩

theorem Relates.ofExcept {post : α → β → Prop} {x : Except Stop α} {y : Except Stop β}
    (h : SameEnd post σ.stop x y) : σ.Relates post (.ofExcept x) (.ofExcept y) :=
  fun _ _ hst => Or.inr ⟨hst, σ.nil, h⟩

theorem Relates.emit {e e' : Event} (h : σ.events [e] [e']) :
    σ.Relates (fun _ _ => True) (.emit e) (.emit e') :=
  fun _ _ hst => Or.inr ⟨hst, h, .ok trivial⟩

theorem Excused.bind {a : Action α} {s : Store} (h : σ.Excused (a s)) (f : α → Action γ) :
    σ.Excused ((a >>= f) s) := by
  obtain ⟨event, hevent, hexcuses⟩ := h
  refine ⟨event, ?_, hexcuses⟩
  cases hx : (a s).outcome with
  | ok x =>
      rw [Action.bind_of_ok f hx]
      exact List.mem_append_left _ hevent
  | error reason =>
      rw [Action.bind_of_error f hx]
      exact hevent

/-- Sequencing: the second actions start from what the first ones left. -/
theorem Relates.bind {mid : α → β → Prop} {post : γ → δ → Prop} {a : Action α}
    {b : Action β} {f : α → Action γ} {g : β → Action δ} (hab : σ.Relates mid a b)
    (hfg : ∀ x y, mid x y → σ.Relates post (f x) (g y)) :
    σ.Relates post (a >>= f) (b >>= g) := by
  intro s t hst
  rcases hab s t hst with hexcused | ⟨hstore, hevents, hend⟩
  · exact Or.inl (hexcused.bind f)
  generalize hx : (a s).outcome = x at hend
  generalize hy : (b t).outcome = y at hend
  cases hend with
  | ok h =>
      rw [Action.bind_of_ok f hx, Action.bind_of_ok g hy]
      rcases hfg _ _ h _ _ hstore with ⟨event, hevent, hexcuses⟩ | ⟨hstore', hevents', hend'⟩
      · exact Or.inl ⟨event, List.mem_append_right _ hevent, hexcuses⟩
      · exact Or.inr ⟨hstore', σ.append hevents hevents', hend'⟩
  | error h =>
      rw [Action.bind_of_error f hx, Action.bind_of_error g hy]
      exact Or.inr ⟨hstore, hevents, .error h⟩

theorem Relates.lookup {name : String} {i j : EnvId} (henv : σ.env i j)
    (hcode : σ.code (.symbol name) (.symbol name)) :
    σ.Relates σ.value (Action.lookup i name) (Action.lookup j name) := by
  intro s t hst
  have hfound := σ.lookup hcode henv hst
  generalize hx : (s.get i).lookup? name = x at hfound
  generalize hy : (t.get j).lookup? name = y at hfound
  cases hfound with
  | some h =>
      rw [Action.lookup_of_some hx, Action.lookup_of_some hy]
      exact Or.inr ⟨hst, σ.nil, .ok h⟩
  | none =>
      rw [Action.lookup_of_none hx, Action.lookup_of_none hy]
      exact Or.inr ⟨hst, σ.nil, .error (σ.fault _)⟩

theorem Relates.bindName {i j : EnvId} {v w : Expr} (name : String) (henv : σ.env i j)
    (hvalue : σ.value v w) :
    σ.Relates (fun _ _ => True) (Action.bindName i name v) (Action.bindName j name w) :=
  fun _ _ hst => Or.inr ⟨σ.bind name henv hvalue hst, σ.bound name henv hvalue, .ok trivial⟩

/-! ## Applying a function -/

theorem numbers_sameEnd (function : String) {args args' : List Expr}
    (hargs : List.Forall₂ σ.value args args') :
    SameEnd (List.Forall₂ fun x y => σ.value (.number x) (.number y)) σ.stop
      (numbers function args) (numbers function args') := by
  induction hargs with
  | nil => exact .ok .nil
  | @cons v w vs ws hvalue _ ih =>
      have halike := σ.alike (σ.code_of_value hvalue)
      cases halike with
      | number x y =>
          simp only [numbers]
          generalize numbers function vs = xs at ih
          generalize numbers function ws = ys at ih
          cases ih with
          | ok h => exact .ok (.cons hvalue h)
          | error h => exact .error h
      | symbol | literal | list | fn | null => exact .error (σ.fault _)

theorem wrongCount_eq (function expected : String) {args args' : List Expr}
    (hargs : List.Forall₂ σ.value args args') :
    wrongCount function expected args = wrongCount function expected args' := by
  rw [wrongCount, wrongCount, hargs.length_eq]

theorem applyDefine_relates {i j : EnvId} (henv : σ.env i j) {args args' : List Expr}
    (hargs : List.Forall₂ σ.value args args') :
    σ.Relates σ.value (applyDefine i args) (applyDefine j args') := by
  by_cases hlength : args.length = 2
  · match hargs with
    | .cons hname (.cons hvalue .nil) =>
        have halike := σ.alike (σ.code_of_value hname)
        cases halike with
        | literal text =>
            exact .bind (.bindName text henv hvalue) fun _ _ _ => .pure hvalue
        | symbol | number | list | fn | null => exact .stop (σ.fault _)
  · have hlength' : args'.length ≠ 2 := hargs.length_eq ▸ hlength
    rw [applyDefine_of_length_ne hlength, applyDefine_of_length_ne hlength',
      wrongCount_eq "def" "2" hargs]
    exact .stop (σ.fault _)

theorem applyListing_relates {m : String} {i j : EnvId} {args : List Expr}
    (hnot : ¬ σ.excuses (.applied m (.listing i) args)) (henv : σ.env i j) :
    σ.Relates σ.value (applyListing i) (applyListing j) := by
  intro s t hst
  rw [applyListing, applyListing, listEnv_apply, listEnv_apply, σ.renderable hnot henv hst]
  refine Or.inr ⟨hst, σ.listing hnot henv hst, ?_⟩
  split
  · exact .ok σ.null
  · exact .error σ.nesting

theorem exitStop_eq {args args' : List Expr} (hargs : List.Forall₂ σ.value args args') :
    exitStop args = exitStop args' ∧ σ.stop (exitStop args) := by
  by_cases hlength : 2 ≤ args.length
  · have hlength' : 2 ≤ args'.length := hargs.length_eq ▸ hlength
    rw [exitStop_of_two_le hlength, exitStop_of_two_le hlength',
      wrongCount_eq "exit" "0 or 1" hargs]
    exact ⟨rfl, σ.fault _⟩
  · match hargs with
    | .nil => exact ⟨rfl, σ.exit 0⟩
    | .cons hvalue .nil =>
        have halike := σ.alike (σ.code_of_value hvalue)
        cases halike with
        | number x y =>
            simp only [exitStop]
            rw [σ.truncate hvalue]
            exact ⟨rfl, σ.exit _⟩
        | symbol | literal | list | fn | null => exact ⟨rfl, σ.fault _⟩
    | .cons _ (.cons _ _) => exact absurd (Nat.le_add_left 2 _) hlength

/-- Applying one operation, where `walk` and `walk'` evaluate expressions in
ways that correspond, and nothing excuses from this application. -/
theorem applyOperation_relates {walk walk' : EnvId → Expr → Action Expr}
    (hwalk : ∀ {i j e e'}, σ.env i j → σ.code e e' →
      σ.Relates σ.value (walk i e) (walk' j e'))
    {m n : String} {f g : Operation} (hfn : σ.value (.fn m f) (.fn n g))
    {args args' : List Expr} (hargs : List.Forall₂ σ.value args args')
    (hnot : ¬ σ.excuses (.applied m f args)) :
    σ.Relates σ.value (applyOperation walk f args) (applyOperation walk' g args') := by
  have hmatch := σ.operation hfn
  cases hmatch with
  | add =>
      exact .bind (.ofExcept (numbers_sameEnd "+" hargs)) fun _ _ h => .pure (σ.sum h)
  | subtract =>
      exact .bind (.ofExcept (numbers_sameEnd "-" hargs)) fun _ _ h => .pure (σ.difference h)
  | define henv => exact applyDefine_relates henv hargs
  | echo henv =>
      by_cases hlength : args.length = 1
      · match hargs with
        | .cons hvalue .nil => exact hwalk henv (σ.code_of_value hvalue)
      · have hlength' : args'.length ≠ 1 := hargs.length_eq ▸ hlength
        rw [applyOperation_echo_of_length_ne hlength,
          applyOperation_echo_of_length_ne hlength', wrongCount_eq "echo" "1" hargs]
        exact .stop (σ.fault _)
  | listing henv => exact applyListing_relates hnot henv
  | exit =>
      obtain ⟨heq, hstop⟩ := exitStop_eq hargs
      show σ.Relates σ.value (.stop (exitStop args)) (.stop (exitStop args'))
      rw [← heq]
      exact .stop hstop
  | interrupt => exact .stop (σ.interrupt hfn)

/-! ## Showing a value -/

mutual

/-- Code that belongs together nests equally deep. -/
theorem depth_eq : ∀ {e e' : Expr}, σ.code e e' → e.depth = e'.depth
  | .list _, _, h => by
      cases σ.alike h with
      | list hitems => exact congrArg (· + 1) (depthAll_eq hitems)
  | .symbol _, _, h | .literal _, _, h | .number _, _, h | .fn _ _, _, h | .null, _, h => by
      cases σ.alike h
      rfl

theorem depthAll_eq : ∀ {es es' : List Expr}, List.Forall₂ σ.code es es' →
    Expr.depthAll es = Expr.depthAll es'
  | [], _, h => by
      cases h
      rfl
  | _ :: _, _, h => by
      cases h with
      | cons he hes => exact congrArg₂ max (depth_eq he) (depthAll_eq hes)

end

/-- Values that belong together can both be shown, or neither. -/
theorem shown_sameEnd {v w : Expr} (hvalue : σ.value v w)
    (hstop : v.isRenderable = false → σ.stop .exhausted) (color : Bool) :
    SameEnd (fun x y => x = v.render color ∧ y = w.render color) σ.stop (v.shown color)
      (w.shown color) := by
  have heq : v.isRenderable = w.isRenderable := by
    rw [Expr.isRenderable, depth_eq (σ.code_of_value hvalue), Expr.isRenderable]
  rw [Expr.shown, Expr.shown, ← heq]
  cases hv : v.isRenderable with
  | true => exact .ok ⟨rfl, rfl⟩
  | false => exact .error (hstop hv)

/-! ## Evaluating an expression -/

theorem evaluateArgs_relates {walk walk' : Expr → Action Expr}
    (hwalk : ∀ {e e'}, σ.code e e' → σ.Relates σ.value (walk e) (walk' e'))
    {es es' : List Expr} (hes : List.Forall₂ σ.code es es') :
    σ.Relates (List.Forall₂ σ.value) (evaluateArgs walk es) (evaluateArgs walk' es') := by
  induction hes with
  | nil => exact .pure .nil
  | cons he _ ih =>
      exact .bind (hwalk he) fun _ _ hv => .bind ih fun _ _ hvs => .pure (.cons hv hvs)

/-- A function is applied, and this is recorded first. An excuse from then on is
found in the record. -/
theorem emit_applyOperation_relates {walk walk' : EnvId → Expr → Action Expr}
    (hwalk : ∀ {i j e e'}, σ.env i j → σ.code e e' →
      σ.Relates σ.value (walk i e) (walk' j e'))
    {m n : String} {f g : Operation} (hfn : σ.value (.fn m f) (.fn n g))
    {args args' : List Expr} (hargs : List.Forall₂ σ.value args args') :
    σ.Relates σ.value (Action.emit (.applied m f args) >>= fun _ => applyOperation walk f args)
      (Action.emit (.applied n g args') >>= fun _ => applyOperation walk' g args') := by
  by_cases hexcuses : σ.excuses (.applied m f args)
  · exact fun s t _ => Or.inl ⟨_, List.mem_cons_self .., hexcuses⟩
  · exact .bind (.emit (σ.applied hfn hargs)) fun _ _ _ =>
      applyOperation_relates hwalk hfn hargs hexcuses

theorem evaluateStep_relates {walk walk' : EnvId → Expr → Action Expr}
    (hwalk : ∀ {i j e e'}, σ.env i j → σ.code e e' →
      σ.Relates σ.value (walk i e) (walk' j e'))
    {i j : EnvId} (henv : σ.env i j) {e e' : Expr} (hcode : σ.code e e') :
    σ.Relates σ.value (evaluateStep walk i e) (evaluateStep walk' j e') := by
  have halike := σ.alike hcode
  cases halike with
  | symbol name => exact .lookup henv hcode
  | literal text => exact .pure (σ.literal text)
  | number x y => exact .pure (σ.number hcode)
  | list hitems =>
      cases hitems with
      | nil => exact .stop (σ.fault _)
      | cons hhead htail =>
          refine .bind (hwalk henv hhead) fun v w hvalue => ?_
          have hkind := σ.alike (σ.code_of_value hvalue)
          cases hkind with
          | fn m n f g =>
              exact .bind (evaluateArgs_relates (hwalk henv) htail) fun _ _ hargs =>
                emit_applyOperation_relates hwalk hvalue hargs
          | symbol | literal | number | list | null => exact .stop (σ.fault _)
  | fn => exact .stop (σ.fault _)
  | null => exact .stop (σ.fault _)

/-- **Evaluations correspond.** In environments that belong together, code
that belongs together is evaluated to values that belong together, or fails
for one reason; by induction on the levels that are left. -/
theorem evaluate_relates (σ : Simulation) (limit : Nat) {i j : EnvId} (henv : σ.env i j)
    {e e' : Expr} (hcode : σ.code e e') :
    σ.Relates σ.value (evaluate limit i e) (evaluate limit j e') := by
  induction limit generalizing i j e e' with
  | zero => exact .stop σ.nesting
  | succ limit ih => exact evaluateStep_relates (fun henv hcode => ih henv hcode) henv hcode

end Simulation

end TinyLisp
