import TinyLisp.Proofs.Trail

/-!
# The definitions of an evaluation

Only `define` binds names, and it binds all or nothing. In the events of an
evaluation every binding stands right behind the application that made it, and
an application of `define` either binds what it was given or is the last thing
that happens. The headline is `bindings_complete`: this holds however the
evaluation ends, and the bindings among its events, made again in order, give
the store it leaves.

Where an event stands in a trail is found by its move (`Trail.exists_move`). A
trail does not know how the evaluation ends; that an application which
`define` refuses ends it is carried through by `Run.StopsAtMisuse`.
-/

namespace TinyLisp

theorem append_eq_append_cons {α : Type} {xs ys first last : List α} {x : α}
    (h : xs ++ ys = first ++ x :: last) :
    (∃ rest, xs = first ++ x :: rest ∧ last = rest ++ ys) ∨
      ∃ mid, first = xs ++ mid ∧ ys = mid ++ x :: last := by
  obtain ⟨mid, hfirst, hys⟩ | ⟨rest, hxs, hrest⟩ := List.append_eq_append_iff.mp h
  · exact .inr ⟨mid, hfirst, hys⟩
  · cases rest with
    | nil => exact .inr ⟨[], by simpa using hxs.symm, hrest.symm⟩
    | cons y rest =>
        obtain ⟨rfl, hlast⟩ := List.cons.inj hrest
        exact .inl ⟨rest, hxs, hlast⟩

/-! ## Where an event stands -/

/-- Every event of a trail is part of one of its moves. -/
theorem Trail.exists_move {s u : Store} {events first last : List Event} {event : Event}
    (h : Trail s events u) (hevents : events = first ++ event :: last) :
    ∃ before mid rest after, first = before ++ mid ∧ last = rest ++ after ∧
      ∃ t t', Move t (mid ++ event :: rest) t' := by
  induction h generalizing first with
  | nil _ => simp at hevents
  | cons hmove _ ih =>
      obtain ⟨rest, hxs, hlast⟩ | ⟨mid, hfirst, hys⟩ := append_eq_append_cons hevents
      · exact ⟨[], first, rest, _, rfl, hlast, _, _, hxs ▸ hmove⟩
      · obtain ⟨before, mid', rest, after, hmid, hlast, hmove'⟩ := ih hys
        exact ⟨_ ++ before, mid', rest, after, by rw [hfirst, hmid, List.append_assoc], hlast,
          hmove'⟩

theorem Move.of_bound {s t : Store} {events mid rest : List Event} {id : EnvId} {name : String}
    {value : Expr} (h : Move s events t) (hevents : events = mid ++ .bound id name value :: rest) :
    ∃ function, mid = [.applied function (.define id) [.literal name, value]] := by
  cases h with
  | quiet function _ => simp [List.cons_eq_append_iff] at hevents
  | define function home name' value' =>
      obtain ⟨hmid, ⟨rfl, rfl, rfl⟩, -⟩ :
          mid = [.applied function (.define home) [.literal name', value']] ∧
            (id = home ∧ name = name' ∧ value = value') ∧ rest = [] := by
        simpa [List.cons_eq_append_iff] using hevents
      exact ⟨function, hmid⟩
  | listing function home args =>
      obtain ⟨mid', -, hrest⟩ : ∃ mid', mid = _ :: mid' ∧
          (s.get home).listing home = mid' ++ .bound id name value :: rest := by
        simpa [List.cons_eq_append_iff] using hevents
      have hmem : Event.bound id name value ∈ (s.get home).listing home := by simp [hrest]
      simp [Env.listing] at hmem

theorem Move.of_define {s t : Store} {events mid rest : List Event} {function : String}
    {home : EnvId} {args : List Expr} (h : Move s events t)
    (hevents : events = mid ++ .applied function (.define home) args :: rest) :
    Operation.Quiet (.define home) args ∨
      ∃ name value, args = [.literal name, value] ∧ rest = [.bound home name value] := by
  cases h with
  | @quiet operation args' function' hquiet =>
      obtain ⟨-, ⟨-, rfl, rfl⟩, -⟩ : mid = [] ∧
          (function = function' ∧ .define home = operation ∧ args = args') ∧ rest = [] := by
        simpa [List.cons_eq_append_iff] using hevents
      exact .inl hquiet
  | define function' home' name value =>
      obtain ⟨-, ⟨-, rfl, hargs⟩, hrest⟩ : mid = [] ∧
          (function = function' ∧ home = home' ∧ args = [.literal name, value])
            ∧ rest = [.bound home' name value] := by
        simpa [List.cons_eq_append_iff] using hevents
      exact .inr ⟨name, value, hargs, hrest⟩
  | listing function' home' args' =>
      obtain ⟨mid', -, hrest⟩ : ∃ mid', mid = _ :: mid' ∧
          (s.get home').listing home' = mid' ++ .applied function (.define home) args :: rest := by
        simpa [List.cons_eq_append_iff] using hevents
      have hmem : Event.applied function (.define home) args ∈ (s.get home').listing home' := by
        simp [hrest]
      simp [Env.listing] at hmem

/-! ## Arguments that `define` refuses -/

/-- The arguments are not a name and a value, and `reason` says so. -/
inductive Misused : List Expr → Stop → Prop where
  | count {args : List Expr} (h : args.length ≠ 2) :
      Misused args (EvalFault.arityMismatch "def" "2" args.length).stop
  | name {e value : Expr} (h : ∀ text, e ≠ .literal text) :
      Misused [e, value]
        (EvalFault.typeMismatch Tag.literal.name e.tag.name (some "def")).stop

theorem exists_misused {home : EnvId} {args : List Expr}
    (h : Operation.Quiet (.define home) args) : ∃ reason, Misused args reason := by
  by_cases hlength : args.length = 2
  · obtain ⟨e, value, rfl⟩ := List.length_eq_two.mp hlength
    exact ⟨_, .name fun text htext => by subst htext; exact h⟩
  · exact ⟨_, .count hlength⟩

theorem applyDefine_of_misused (home : EnvId) {args : List Expr} {reason : Stop}
    (h : Misused args reason) : applyDefine home args = .stop reason := by
  cases h with
  | count hlength => exact applyDefine_of_length_ne hlength
  | @name e value hliteral =>
      cases e with
      | literal text => exact absurd rfl (hliteral text)
      | symbol | number | list | fn | null => rfl

/-- Nothing happens after an application that `define` refuses, and its
refusal is how the run ends. -/
def Run.StopsAtMisuse {α : Type} (r : Run α) : Prop :=
  ∀ first function home args last reason,
    r.events = first ++ .applied function (.define home) args :: last → Misused args reason →
      last = [] ∧ r.outcome = .error reason

namespace Run.StopsAtMisuse

variable {α β : Type}

theorem of_not_applied {r : Run α} (h : ∀ function operation args,
    .applied function operation args ∉ r.events) : r.StopsAtMisuse := by
  intro first function home args last reason hevents _
  exact absurd (by simp [hevents]) (h function (.define home) args)

theorem bind {first : Action α} {next : α → Action β} {store : Store}
    (hfirst : (first store).StopsAtMisuse) (hnext : ∀ a store, (next a store).StopsAtMisuse) :
    ((first >>= next) store).StopsAtMisuse := by
  intro before function home args last reason hevents hmisused
  cases hrun : (first store).outcome with
  | ok a =>
      rw [Action.bind_of_ok next hrun] at hevents ⊢
      obtain ⟨rest, hin, -⟩ | ⟨mid, -, hin⟩ := append_eq_append_cons hevents
      · -- the first action came to a value, so it refused nothing
        obtain ⟨-, hstop⟩ := hfirst _ _ _ _ _ _ hin hmisused
        exact nomatch hrun.symm.trans hstop
      · exact hnext a _ _ _ _ _ _ _ hin hmisused
  | error reason' =>
      rw [Action.bind_of_error next hrun] at hevents ⊢
      obtain ⟨hlast, hstop⟩ := hfirst _ _ _ _ _ _ hevents hmisused
      exact ⟨hlast, by rw [Except.error.inj (hrun.symm.trans hstop)]⟩

end Run.StopsAtMisuse

/-- The application of a function, with its record. -/
theorem call_stopsAtMisuse {walk : EnvId → Expr → Action Expr}
    (hwalk : ∀ i e store, (walk i e store).StopsAtMisuse) (function : String)
    (operation : Operation) (args : List Expr) (store : Store) :
    ((Action.emit (.applied function operation args) >>= fun _ =>
      applyOperation walk operation args) store).StopsAtMisuse := by
  intro first function' home args' last reason hevents hmisused
  rw [Action.emit_bind_apply] at hevents ⊢
  obtain ⟨-, hcons⟩ | ⟨first', -, hin⟩ := List.cons_eq_append_iff.mp hevents
  · cases hcons
    rw [applyOperation, applyDefine_of_misused home hmisused]
    exact ⟨rfl, rfl⟩
  · -- the record is not the one of this application, but of one inside it
    obtain ⟨home', e, rfl, rfl⟩ | hnone :=
      applyOperation_echo_or_not_applied walk operation args store
    · exact hwalk home' e store _ _ _ _ _ _ hin hmisused
    · exact absurd (by simp [hin]) (hnone function' (.define home) args')

theorem evaluateArgs_stopsAtMisuse {walk : Expr → Action Expr}
    (hwalk : ∀ e store, (walk e store).StopsAtMisuse) (es : List Expr) (store : Store) :
    (evaluateArgs walk es store).StopsAtMisuse := by
  induction es generalizing store with
  | nil => exact .of_not_applied (by simp [evaluateArgs, Action.pure_apply])
  | cons e rest ih =>
      exact .bind (hwalk e store) fun _ store =>
        .bind (ih store) fun _ _ => .of_not_applied (by simp [Action.pure_apply])

theorem evaluate_stopsAtMisuse (limit : Nat) (i : EnvId) (e : Expr) (store : Store) :
    (evaluate limit i e store).StopsAtMisuse := by
  induction limit generalizing i e store with
  | zero => exact .of_not_applied (by simp [evaluate, Action.stop])
  | succ limit ih =>
      cases e with
      | symbol name =>
          exact .of_not_applied (by simp [evaluate, evaluateStep, Action.events_lookup])
      | literal | number | fn | null => exact .of_not_applied (fun _ _ _ => List.not_mem_nil)
      | list items =>
          cases items with
          | nil => exact .of_not_applied (fun _ _ _ => List.not_mem_nil)
          | cons head tail =>
              refine .bind (ih i head store) fun value store => ?_
              cases value with
              | fn name operation =>
                  exact .bind (evaluateArgs_stopsAtMisuse (ih i) tail store) fun args =>
                    call_stopsAtMisuse ih name operation args
              | symbol | literal | number | list | null =>
                  exact .of_not_applied (fun _ _ _ => List.not_mem_nil)

/-! ## All bindings are recorded -/

/-- **The trail of bindings is complete.** However an evaluation ends, its
store is the old one with the recorded bindings made again; each of them stands
right behind an application of `define` to its name and its value, in the
environment of that function; and an application of `define` to anything else
ends the evaluation, without a binding. -/
theorem bindings_complete (limit : Nat) (i : EnvId) (e : Expr) (store : Store) :
    let r := evaluate limit i e store
    r.store = store.replay r.events
      ∧ (∀ first id name value last, r.events = first ++ .bound id name value :: last →
          ∃ before function,
            first = before ++ [.applied function (.define id) [.literal name, value]])
      ∧ ∀ first function home args last,
          r.events = first ++ .applied function (.define home) args :: last →
            (∃ name value rest,
              args = [.literal name, value] ∧ last = .bound home name value :: rest) ∨
            ∃ reason, Misused args reason ∧ last = [] ∧ r.outcome = .error reason := by
  intro r
  have htrail : Trail store r.events r.store := evaluate_trail limit i e store
  refine ⟨htrail.store_eq, fun first id name value last hevents => ?_,
    fun first function home args last hevents => ?_⟩
  · obtain ⟨before, mid, rest, after, hfirst, -, _, _, hmove⟩ := htrail.exists_move hevents
    obtain ⟨function, rfl⟩ := hmove.of_bound rfl
    exact ⟨before, function, hfirst⟩
  · obtain ⟨before, mid, rest, after, -, hlast, _, _, hmove⟩ := htrail.exists_move hevents
    obtain hquiet | ⟨name, value, hargs, rfl⟩ := hmove.of_define rfl
    · obtain ⟨reason, hmisused⟩ := exists_misused hquiet
      obtain ⟨hnil, hstop⟩ := evaluate_stopsAtMisuse limit i e store _ _ _ _ _ _ hevents hmisused
      exact .inr ⟨reason, hmisused, hnil, hstop⟩
    · exact .inl ⟨name, value, after, hargs, hlast⟩

/-- `(def (def 'a' 'b'))`, where `def` binds in an environment other than the
one it is looked up in. The inner binding is made, and stays after the outer
application is refused. -/
theorem bindings_complete_refused :
    let store : Store := ⟨[⟨[("def", .fn "bind" (.define 1))]⟩]⟩
    let inner : Expr := .list [.symbol "def", .literal "a", .literal "b"]
    let r := evaluate 3 0 (.list [.symbol "def", inner]) store
    let call : Event := .applied "bind" (.define 1) [.literal "a", .literal "b"]
    let refused : Event := .applied "bind" (.define 1) [.literal "b"]
    r.events = [call, .bound 1 "a" (.literal "b"), refused]
      ∧ (r.store.get 0).names = ["def"] ∧ (r.store.get 1).names = ["a"]
      ∧ r.store = store.replay r.events
      ∧ (∃ before function,
          [call] = before ++ [.applied function (.define 1) [.literal "a", .literal "b"]])
      ∧ ∃ reason, Misused [.literal "b"] reason ∧ r.outcome = .error reason := by
  intro store inner r call refused
  have hevents : r.events = [call, .bound 1 "a" (.literal "b"), refused] := rfl
  obtain ⟨hstore, hbound, happlied⟩ :=
    bindings_complete 3 0 (.list [.symbol "def", inner]) store
  refine ⟨hevents, rfl, rfl, hstore, hbound [call] _ _ _ [refused] hevents, ?_⟩
  obtain ⟨_, _, _, hargs, -⟩ | ⟨reason, hmisused, -, hstop⟩ :=
    happlied [call, .bound 1 "a" (.literal "b")] _ _ _ [] hevents
  · cases hargs
  · exact ⟨reason, hmisused, hstop⟩

end TinyLisp
