import TinyLisp.Proofs.Loading
import TinyLisp.Proofs.Nesting

/-!
# More levels than needed

How many levels reading and evaluating may go down shows in one way only: when
there are too few of them, the fault that says so is reported. If it is not,
then any larger number of levels gives the same end, the same store and the same
events. If it is, then what was done until then is what is done first with more
levels as well. The headline is `limit_observed_only_by_nesting`.

The evaluator calls itself through one argument, `walk`, and it is monotone in
it (`evaluateStep_shortOf`): if each walk falls short of another one for lack of
levels only, so does the evaluation around it. The rest is one induction on the
smaller number of levels. Nothing is asked of the store: `echo` may evaluate
bound lists, and bound lists may send it down without end.
-/

namespace TinyLisp

/-! ## Falling short -/

/-- A run beside one that had more levels: it is the same, or it ended for lack
of levels and had done until then what the other did first. -/
inductive Run.ShortOf {α : Type} : Run α → Run α → Prop where
  | same (r : Run α) : ShortOf r r
  | short {low high : Run α} {stage : String}
      (houtcome : low.outcome = .error (.fault (.nesting stage)))
      (hevents : low.events <+: high.events) : ShortOf low high

namespace Run.ShortOf

variable {α : Type} {low high : Run α}

theorem eq_of_fits (h : low.ShortOf high) (hfits : low.Fits) : high = low := by
  cases h with
  | same => rfl
  | short houtcome _ => exact absurd houtcome (hfits _)

theorem events_prefix (h : low.ShortOf high) : low.events <+: high.events := by
  cases h with
  | same => exact List.prefix_rfl
  | short _ hevents => exact hevents

end Run.ShortOf

/-- From every store the first action falls short of the second one for lack of
levels only. -/
def Action.ShortOf {α : Type} (low high : Action α) : Prop := ∀ s, (low s).ShortOf (high s)

namespace Action.ShortOf

variable {α β : Type}

theorem refl (action : Action α) : action.ShortOf action := fun s => .same (action s)

/-- Whoever has no level left falls short of everything. -/
theorem nesting (stage : String) (high : Action α) :
    (Action.stop (.fault (.nesting stage))).ShortOf high :=
  fun _ => .short rfl List.nil_prefix

theorem bind {low high : Action α} {next next' : α → Action β} (hfirst : low.ShortOf high)
    (hnext : ∀ a, (next a).ShortOf (next' a)) : (low >>= next).ShortOf (high >>= next') := by
  intro s
  have hs := hfirst s
  generalize hhigh : high s = r at hs
  cases hs with
  | same =>
      cases hend : (low s).outcome with
      | error reason =>
          rw [bind_of_error next hend, bind_of_error next' (by rw [hhigh]; exact hend), hhigh]
          exact .same _
      | ok a =>
          rw [bind_of_ok next hend, bind_of_ok next' (by rw [hhigh]; exact hend), hhigh]
          have hrest := hnext a (low s).store
          generalize hx : next a (low s).store = x at hrest
          generalize hy : next' a (low s).store = y at hrest
          cases hrest with
          | same => exact .same _
          | short houtcome hevents =>
              exact .short houtcome ((List.prefix_append_right_inj _).mpr hevents)
  | short houtcome hevents =>
      rw [bind_of_error next houtcome]
      refine .short rfl (hevents.trans ?_)
      cases hend : (high s).outcome with
      | error reason =>
          rw [bind_of_error next' hend, hhigh]
      | ok a =>
          rw [bind_of_ok next' hend, hhigh]
          exact List.prefix_append ..

theorem map {low high : Action α} (h : low.ShortOf high) (f : α → β) :
    (f <$> low).ShortOf (f <$> high) := by
  rw [map_eq_pure_bind, map_eq_pure_bind]
  exact h.bind fun a => .refl _

end Action.ShortOf

/-! ## The evaluator -/

section

variable {walk walk' : EnvId → Expr → Action Expr} (hwalk : ∀ i e, (walk i e).ShortOf (walk' i e))
include hwalk

theorem applyOperation_shortOf (operation : Operation) (args : List Expr) :
    (applyOperation walk operation args).ShortOf (applyOperation walk' operation args) := by
  cases operation with
  | echo home =>
      match args with
      | [e] => exact hwalk home e
      | [] => exact .refl _
      | _ :: _ :: _ => exact .refl _
  | add | subtract | define | listing | exit | interrupt => exact .refl _

theorem evaluateArgs_shortOf (i : EnvId) (es : List Expr) :
    (evaluateArgs (walk i) es).ShortOf (evaluateArgs (walk' i) es) := by
  induction es with
  | nil => exact .refl _
  | cons e rest ih => exact .bind (hwalk i e) fun _ => .bind ih fun _ => .refl _

/-- One level of evaluation is monotone in the walk that does the levels
below. -/
theorem evaluateStep_shortOf (i : EnvId) (e : Expr) :
    (evaluateStep walk i e).ShortOf (evaluateStep walk' i e) := by
  match e with
  | .list (head :: tail) =>
      refine .bind (hwalk i head) fun value => ?_
      cases value with
      | fn name operation =>
          exact .bind (evaluateArgs_shortOf hwalk i tail) fun args =>
            .bind (.refl _) fun _ => applyOperation_shortOf hwalk operation args
      | symbol | literal | number | list | null => exact .refl _
  | .list [] | .symbol _ | .literal _ | .number _ | .fn _ _ | .null => exact .refl _

end

theorem evaluate_shortOf {n m : Nat} (h : n ≤ m) (i : EnvId) (e : Expr) :
    (evaluate n i e).ShortOf (evaluate m i e) := by
  induction n generalizing m i e with
  | zero => exact .nesting _ _
  | succ n ih =>
      obtain ⟨m, rfl⟩ : ∃ k, m = k + 1 := ⟨m - 1, by omega⟩
      exact evaluateStep_shortOf (fun i e => ih (Nat.le_of_succ_le_succ h) i e) i e

/-! ## The reader -/

/-- Reading with fewer levels beside reading with more: the same, or the levels
ran out. -/
def ShortRead {α : Type} (low high : Except Stop α) : Prop :=
  high = low ∨ low = .error (.fault (.nesting "read"))

/-- By induction on the tokens: an opening parenthesis takes one from the room on
both sides, a closing one gives it back. -/
theorem readList_shortOf : ∀ {ts : List Token} {room room' : Nat} {items : List Expr}
    {outer : List (List Expr)}, room ≤ room' →
    ShortRead (readList room items outer ts) (readList room' items outer ts)
  | [], _, _, _, _, _ => by
      rw [readList, readList]
      exact Or.inl rfl
  | .opening :: ts, 0, _, _, _, _ => by
      rw [readList]
      exact Or.inr rfl
  | .opening :: ts, room + 1, 0, _, _, h => absurd h (Nat.not_succ_le_zero room)
  | .opening :: ts, room + 1, room' + 1, _, _, h => by
      rw [readList, readList]
      exact readList_shortOf (Nat.le_of_succ_le_succ h)
  | .closing :: ts, _, _, _, [], _ => by
      rw [readList, readList]
      exact Or.inl rfl
  | .closing :: ts, _, _, _, _ :: _, h => by
      rw [readList, readList]
      exact readList_shortOf (Nat.succ_le_succ h)
  | .word text :: ts, _, _, _, _, h => by
      rw [readList, readList]
      cases readAtom text with
      | error reason => exact Or.inl rfl
      | ok atom => exact readList_shortOf h

theorem parse_shortOf {n m : Nat} (h : n ≤ m) (ts : List Token) :
    ShortRead (parse n ts) (parse m ts) := by
  match ts, n, m, h with
  | .opening :: ts, 0, _, _ => exact Or.inr rfl
  | .opening :: ts, n + 1, 0, h => exact absurd h (Nat.not_succ_le_zero n)
  | .opening :: ts, n + 1, m + 1, h => exact readList_shortOf (Nat.le_of_succ_le_succ h)
  | [], _, _, _ => exact Or.inl rfl
  | .closing :: ts, _, _, _ => exact Or.inl rfl
  | .word text :: ts, _, _, _ => exact Or.inl rfl

theorem readFirst_shortOf {n m : Nat} (h : n ≤ m) (strict : Bool) (source : String) :
    ShortRead (readFirst n strict source) (readFirst m strict source) := by
  rw [readFirst, readFirst]
  rcases parse_shortOf h (tokenize source) with hsame | hshort
  · rw [hsame]
    exact Or.inl rfl
  · rw [hshort]
    exact Or.inr rfl

/-- A script read with fewer levels beside one read with more: the same, or the
first breaks off where the levels ran out. -/
inductive Script.ShortOf : Script → Script → Prop where
  | same (script : Script) : ShortOf script script
  | short (forms more : List Expr) (failure : Option Stop) :
      ShortOf ⟨forms, some (.fault (.nesting "read"))⟩ ⟨forms ++ more, failure⟩

theorem ofExcept_shortOf {α : Type} {low high : Except Stop α} (h : ShortRead low high) :
    (Action.ofExcept low).ShortOf (Action.ofExcept high) := by
  rcases h with rfl | rfl
  · exact .refl _
  · exact .nesting "read" _

section

variable {n m : Nat} (h : n ≤ m)
include h

theorem evaluateText_shortOf (i : EnvId) (strict : Bool) (source : String) :
    (evaluateText n i strict source).ShortOf (evaluateText m i strict source) :=
  .bind (ofExcept_shortOf (readFirst_shortOf h strict source)) fun e => evaluate_shortOf h i e

namespace Interpreter

end Interpreter

end

/-! ## Calls -/

/-- Two runs that only a report of missing levels can tell apart: without one
they are the same, and in any case the work of the first is done first in the
second. -/
structure Run.ApartByNesting {α : Type} (low high : Run α) : Prop where
  same : low.Fits → (∀ stage, .reported (.nesting stage) ∉ low.events) → high = low
  work : low.events.filter Event.isWork <+: high.events.filter Event.isWork

theorem Run.ApartByNesting.map {α β : Type} {low high : Action α} {s : Store}
    (h : (low s).ApartByNesting (high s)) (f : α → β) :
    ((f <$> low) s).ApartByNesting ((f <$> high) s) := by
  rw [Action.map_apply, Action.map_apply]
  refine ⟨fun hfits hreported => ?_, h.work⟩
  have hfits' : (low s).Fits := by
    intro stage hstage
    refine hfits stage ?_
    rw [hstage]
    rfl
  rw [h.same hfits' hreported]

namespace Repl

end Repl

end TinyLisp
