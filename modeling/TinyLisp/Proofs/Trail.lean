import TinyLisp.Proofs.Simulation

/-!
# The trail of an evaluation

What an evaluation does to the store can be read off its events. `Trail` says
which events there can be: applications, one after the other, each followed
by what it does itself. An application of `define` to a name and a value is
followed by that binding, one of `listing` by the bindings there are at that
time, up to one that cannot be shown, and every other application by nothing. The headline is
`evaluate_trail`: every evaluation leaves such a trail, however it ends.

So the store at the end is the store at the start with the bindings of the
trail replayed (`Trail.store_eq`), and whatever is listed was bound when it
was listed (`Store.Shows.mem_bindings`).
-/

namespace TinyLisp

/-! ## Replaying events -/

def Event.replay (store : Store) : Event → Store
  | .bound id name value => store.put id ((store.get id).bind name value)
  | _ => store

/-- The store with all bindings among the events made in order. -/
def Store.replay (store : Store) (events : List Event) : Store :=
  events.foldl Event.replay store

theorem Store.replay_append (store : Store) (xs ys : List Event) :
    store.replay (xs ++ ys) = (store.replay xs).replay ys :=
  List.foldl_append

theorem Store.replay_listing (store : Store) (env : Env) (id : EnvId) :
    store.replay (env.listing id) = store := by
  unfold Env.listing
  generalize env.bindings.takeWhile _ = bindings
  induction bindings with
  | nil => rfl
  | cons _ _ ih => exact ih

/-! ## Trails -/

/-- An application that neither binds nor lists. -/
def Operation.Quiet : Operation → List Expr → Prop
  | .define _, [.literal _, _] => False
  | .listing _, _ => False
  | _, _ => True

/-- One application, with its own events and its own effect on the store. -/
inductive Move : Store → List Event → Store → Prop where
  | quiet {store : Store} {operation : Operation} {args : List Expr} (function : String)
      (h : operation.Quiet args) : Move store [.applied function operation args] store
  | define (store : Store) (function : String) (home : EnvId) (name : String) (value : Expr) :
      Move store
        [.applied function (.define home) [.literal name, value], .bound home name value]
        (store.put home ((store.get home).bind name value))
  | listing (store : Store) (function : String) (home : EnvId) (args : List Expr) :
      Move store
        (.applied function (.listing home) args :: (store.get home).listing home) store

/-- Applications, one after the other. -/
inductive Trail : Store → List Event → Store → Prop where
  | nil (store : Store) : Trail store [] store
  | cons {s t u : Store} {xs ys : List Event} (h : Move s xs t) (hs : Trail t ys u) :
      Trail s (xs ++ ys) u

theorem Move.store_eq {s t : Store} {xs : List Event} (h : Move s xs t) :
    t = s.replay xs := by
  cases h with
  | quiet _ _ => rfl
  | define _ _ _ _ => rfl
  | listing function home args => exact (Store.replay_listing _ _ _).symm

/-- Every listed binding is there when it is listed. -/
def Store.Shows (store : Store) : List Event → Prop
  | [] => True
  | .listed id name value :: rest =>
      (name, value) ∈ (store.get id).bindings ∧ store.Shows rest
  | event :: rest => (event.replay store).Shows rest

theorem Store.shows_append {store : Store} {xs ys : List Event} (hxs : store.Shows xs)
    (hys : (store.replay xs).Shows ys) : store.Shows (xs ++ ys) := by
  induction xs generalizing store with
  | nil => exact hys
  | cons event rest ih =>
      cases event with
      | listed id name value => exact ⟨hxs.1, ih hxs.2 hys⟩
      | bound | applied | loading | loopStarted | loopStopped | reported | prompted
      | answered => exact ih hxs hys

theorem Store.shows_listing {store : Store} {id : EnvId} {bindings : List (String × Expr)}
    (h : ∀ b ∈ bindings, b ∈ (store.get id).bindings) :
    store.Shows (bindings.map fun b => .listed id b.1 b.2) := by
  induction bindings with
  | nil => trivial
  | cons b rest ih =>
      exact ⟨h b (List.mem_cons_self ..), ih fun b' hb' => h b' (List.mem_cons_of_mem _ hb')⟩

theorem Store.Shows.mem_bindings {store : Store} {first last : List Event} {id : EnvId}
    {name : String} {value : Expr}
    (h : store.Shows (first ++ .listed id name value :: last)) :
    (name, value) ∈ ((store.replay first).get id).bindings := by
  induction first generalizing store with
  | nil => exact h.1
  | cons event rest ih =>
      cases event with
      | listed id name value => exact ih h.2
      | bound | applied | loading | loopStarted | loopStopped | reported | prompted
      | answered => exact ih h

theorem Move.shows {s t : Store} {xs : List Event} (h : Move s xs t) : s.Shows xs := by
  cases h with
  | quiet _ _ => trivial
  | define _ _ _ _ => trivial
  | listing function home args =>
      exact Store.shows_listing fun _ hb => (List.takeWhile_prefix _).subset hb

namespace Trail

theorem single {s t : Store} {xs : List Event} (h : Move s xs t) : Trail s xs t := by
  have hs := Trail.cons h (.nil t)
  rwa [List.append_nil] at hs

theorem append {s t u : Store} {xs ys : List Event} (h : Trail s xs t) (h' : Trail t ys u) :
    Trail s (xs ++ ys) u := by
  induction h with
  | nil _ => exact h'
  | cons hmove _ ih =>
      rw [List.append_assoc]
      exact .cons hmove (ih h')

/-- A trail tells all that happened to the store. -/
theorem store_eq {s t : Store} {events : List Event} (h : Trail s events t) :
    t = s.replay events := by
  induction h with
  | nil _ => rfl
  | cons hmove _ ih => rw [Store.replay_append, ← hmove.store_eq, ih]

theorem shows {s t : Store} {events : List Event} (h : Trail s events t) :
    s.Shows events := by
  induction h with
  | nil _ => trivial
  | cons hmove _ ih => exact Store.shows_append hmove.shows (hmove.store_eq ▸ ih)

end Trail

/-! ## Evaluations leave trails -/

def Action.Trails {α : Type} (action : Action α) : Prop :=
  ∀ store, Trail store (action store).events (action store).store

namespace Action.Trails

variable {α β : Type}

theorem pure (a : α) : (Pure.pure a : Action α).Trails := fun store => .nil store

theorem stop (reason : Stop) : (Action.stop reason : Action α).Trails :=
  fun store => .nil store

theorem ofExcept (outcome : Except Stop α) : (Action.ofExcept outcome).Trails :=
  fun store => .nil store

theorem bind {first : Action α} {next : α → Action β} (hfirst : first.Trails)
    (hnext : ∀ a, (next a).Trails) : (first >>= next).Trails := by
  intro store
  cases h : (first store).outcome with
  | ok a =>
      rw [bind_of_ok next h]
      exact (hfirst store).append (hnext a _)
  | error reason =>
      rw [bind_of_error next h]
      exact hfirst store

theorem lookup (id : EnvId) (name : String) : (Action.lookup id name).Trails := by
  intro store
  cases h : (store.get id).lookup? name with
  | some value => rw [lookup_of_some h]; exact .nil store
  | none => rw [lookup_of_none h]; exact .nil store

end Action.Trails

/-- An application that does nothing by itself, and then what `action`
does. -/
theorem trail_of_quiet {α : Type} {operation : Operation} {args : List Expr}
    (function : String) (h : operation.Quiet args) {action : Action α}
    (haction : action.Trails) :
    (Action.emit (.applied function operation args) >>= fun _ => action).Trails :=
  fun store => .cons (.quiet function h) (haction store)

theorem applyDefine_trails (function : String) (home : EnvId) (args : List Expr) :
    (Action.emit (.applied function (.define home) args) >>= fun _ =>
      applyDefine home args).Trails := by
  unfold applyDefine
  split
  · rename_i name value
    exact fun store => .single (.define store function home name value)
  · rename_i e _ hliteral
    have hquiet : Operation.Quiet (.define home) [e, ‹Expr›] := by
      cases e with
      | literal text => exact absurd rfl (hliteral text)
      | symbol | number | list | fn | null => trivial
    exact trail_of_quiet function hquiet (.stop _)
  · rename_i hother
    have hquiet : Operation.Quiet (.define home) args := by
      unfold Operation.Quiet
      split <;> simp_all
    exact trail_of_quiet function hquiet (.stop _)

/-- The application of a function: its record and what the operation does. -/
theorem applyOperation_trails {walk : EnvId → Expr → Action Expr}
    (hwalk : ∀ i e, (walk i e).Trails) (function : String) (operation : Operation)
    (args : List Expr) :
    (Action.emit (.applied function operation args) >>= fun _ =>
      applyOperation walk operation args).Trails := by
  cases operation with
  | add | subtract =>
      exact trail_of_quiet function (by trivial) (.bind (.ofExcept _) fun _ => .pure _)
  | define home => exact applyDefine_trails function home args
  | echo home =>
      refine trail_of_quiet function (by trivial) ?_
      match args with
      | [] => exact .stop _
      | [e] => exact hwalk home e
      | _ :: _ :: _ => exact .stop _
  | listing home =>
      intro store
      rw [Action.emit_bind_apply, applyOperation, applyListing, listEnv_apply]
      exact .single (.listing store function home args)
  | exit | interrupt => exact trail_of_quiet function (by trivial) (.stop _)

/-- Only `echo` leads to more applications, when it evaluates its argument. -/
theorem applyOperation_echo_or_not_applied (walk : EnvId → Expr → Action Expr)
    (operation : Operation) (args : List Expr) (store : Store) :
    (∃ home e, operation = .echo home ∧ args = [e]) ∨ ∀ function operation' args',
      .applied function operation' args' ∉ (applyOperation walk operation args store).events := by
  cases operation with
  | add | subtract =>
      refine .inr fun _ _ _ => ?_
      rw [applyOperation]
      generalize numbers _ args = outcome
      cases outcome <;> exact List.not_mem_nil
  | define home =>
      refine .inr fun _ _ _ => ?_
      rw [applyOperation]
      unfold applyDefine
      split
      · exact fun hmem => nomatch List.mem_singleton.mp hmem
      · exact List.not_mem_nil
      · exact List.not_mem_nil
  | echo home =>
      match args with
      | [e] => exact .inl ⟨home, e, rfl, rfl⟩
      | [] | _ :: _ :: _ => exact .inr fun _ _ _ => List.not_mem_nil
  | listing home =>
      refine .inr fun _ _ _ hmem => ?_
      rw [applyOperation, applyListing, listEnv_apply] at hmem
      obtain ⟨_, _, heq⟩ := Env.exists_of_mem_listing hmem
      cases heq
  | exit | interrupt => exact .inr fun _ _ _ => List.not_mem_nil

theorem evaluateArgs_trails {walk : Expr → Action Expr} (hwalk : ∀ e, (walk e).Trails)
    (es : List Expr) : (evaluateArgs walk es).Trails := by
  induction es with
  | nil => exact .pure _
  | cons e rest ih => exact .bind (hwalk e) fun _ => .bind ih fun _ => .pure _

/-- **Every evaluation leaves a trail**, by induction on the levels left: at
each level the head, the arguments, the application. -/
theorem evaluate_trail (limit : Nat) (i : EnvId) (e : Expr) :
    (evaluate limit i e).Trails := by
  induction limit generalizing i e with
  | zero => exact .stop _
  | succ limit ih =>
      cases e with
      | symbol name => exact .lookup i name
      | literal text => exact .pure _
      | number x => exact .pure _
      | list items =>
          cases items with
          | nil => exact .stop _
          | cons head tail =>
              refine .bind (ih i head) fun value => ?_
              cases value with
              | fn name operation =>
                  exact .bind (evaluateArgs_trails (ih i) tail) fun args =>
                    applyOperation_trails ih name operation args
              | symbol | literal | number | list | null => exact .stop _
      | fn name operation => exact .stop _
      | null => exact .stop _

end TinyLisp
