import Mathlib
import TinyLisp.Proofs.Calls
import TinyLisp.Proofs.Trail

/-!
# The names of an environment

A session may have any number of interpreters, on environments of their own or shared
ones, and may ask anything of them. Whatever is asked and however it ends, what it leaves
is what its bindings make of the store (`Interpreter.perform_store`), on top of one new
environment if one is made. Nothing unbinds a name. So the names of an environment are
all that were ever bound in it, without repetitions and in the order of first binding.
The headline is `names_never_lost`.

The order is given by `List.eraseDups`, which keeps the first of equal elements: the
invariant is that an environment has the names `history.eraseDups`, where the history
only grows at its end.
-/

namespace TinyLisp

/-! ## Names in the order of first binding -/

section

variable {α : Type} [BEq α] [LawfulBEq α]

theorem eraseDups_concat (xs : List α) (a : α) :
    (xs ++ [a]).eraseDups = if a ∈ xs then xs.eraseDups else xs.eraseDups ++ [a] := by
  rw [List.eraseDups_append]
  split
  · rename_i h
    simp [List.removeAll, h]
  · rename_i h
    simp [List.removeAll, h, List.eraseDups_cons]

theorem nodup_eraseDups (xs : List α) : xs.eraseDups.Nodup := by
  induction xs using List.reverseRecOn with
  | nil => exact List.nodup_nil
  | append_singleton xs a ih =>
      rw [eraseDups_concat]
      split
      · exact ih
      · rename_i h
        refine List.nodup_append.mpr ⟨ih, List.nodup_singleton a, ?_⟩
        rintro b hb _ hc rfl
        rw [List.mem_singleton] at hc
        subst hc
        exact h (List.mem_eraseDups.mp hb)

theorem eraseDups_of_nodup {xs : List α} (h : xs.Nodup) : xs.eraseDups = xs := by
  induction xs using List.reverseRecOn with
  | nil => rfl
  | append_singleton xs a ih =>
      obtain ⟨hxs, -, hne⟩ := List.nodup_append.mp h
      rw [eraseDups_concat, if_neg (fun ha => hne a ha a (List.mem_singleton_self a) rfl), ih hxs]

end

/-- The name that an event binds in an environment. -/
def Event.boundIn? (id : EnvId) : Event → Option String
  | .bound i name _ => if i = id then some name else none
  | _ => none

/-- The names that the events bind in an environment, in order. -/
def boundNames (id : EnvId) (events : List Event) : List String :=
  events.filterMap (Event.boundIn? id)

namespace Env

variable {env : Env} {history : List String}

theorem names_bind_of_history (h : env.names = history.eraseDups) (name : String) (value : Expr) :
    (env.bind name value).names = (history ++ [name]).eraseDups := by
  rw [names_bind, eraseDups_concat, h]
  simp only [List.mem_eraseDups]

theorem names_foldl_bind (h : env.names = history.eraseDups) (pairs : List (String × Expr)) :
    (pairs.foldl (fun env pair => env.bind pair.1 pair.2) env).names
      = (history ++ pairs.map (·.1)).eraseDups := by
  induction pairs generalizing env history with
  | nil => rw [List.map_nil, List.append_nil]; exact h
  | cons pair rest ih =>
      rw [List.foldl_cons, ih (names_bind_of_history h pair.1 pair.2), List.map_cons,
        List.append_assoc, List.singleton_append]

end Env

theorem names_replay {store : Store} {id : EnvId} {history : List String}
    (h : (store.get id).names = history.eraseDups) (events : List Event) :
    ((store.replay events).get id).names = (history ++ boundNames id events).eraseDups := by
  induction events generalizing store history with
  | nil => rw [boundNames, List.filterMap_nil, List.append_nil]; exact h
  | cons event rest ih =>
      cases event with
      | bound i name value =>
          show (((store.put i _).replay rest).get id).names = _
          by_cases hi : i = id
          · subst hi
            have hbind := Env.names_bind_of_history h name value
            have hnew : Event.boundIn? i (.bound i name value) = some name := if_pos rfl
            rw [ih (by rw [Store.get_put, if_pos rfl]; exact hbind), boundNames, boundNames,
              List.filterMap_cons_some hnew, List.append_assoc, List.singleton_append]
          · have hother : Event.boundIn? id (.bound i name value) = none := if_neg hi
            rw [ih (by rw [Store.get_put, if_neg (fun heq => hi heq.symm)]; exact h), boundNames,
              boundNames, List.filterMap_cons_none hother]
      | applied | listed | loading | loopStarted | loopStopped | reported | prompted
      | answered => exact ih h

/-! ## What a request leaves behind -/

/-- The bindings of the new environment that a request asks for, if it asks for one. -/
def Request.bindings? : Request → Option (List (String × Expr))
  | .create _ _ bindings => some bindings
  | _ => none

/-- The store in which a request is dealt with: with the new environment, if there is to
be one, before anything more is bound. -/
def Store.founded (store : Store) (request : Request) : Store :=
  request.bindings?.elim store fun bindings => store.put store.fresh (Env.ofPairs bindings)

/-- All that an action does to the store is to bind what its events say. -/
def Action.Replays {α : Type} (action : Action α) : Prop :=
  ∀ store, (action store).store = store.replay (action store).events

theorem Action.Trails.replays {α : Type} {action : Action α} (h : action.Trails) :
    action.Replays :=
  fun store => (h store).store_eq

namespace Action.Replays

variable {α β : Type}

theorem pure (a : α) : (Pure.pure a : Action α).Replays := fun _ => rfl

theorem stop (reason : Stop) : (Action.stop reason : Action α).Replays := fun _ => rfl

theorem ofExcept (outcome : Except Stop α) : (Action.ofExcept outcome).Replays := fun _ => rfl

theorem getEnv (id : EnvId) : (Action.getEnv id).Replays := fun _ => rfl

theorem bindName (id : EnvId) (name : String) (value : Expr) :
    (Action.bindName id name value).Replays := fun _ => rfl

theorem lookup (id : EnvId) (name : String) : (Action.lookup id name).Replays :=
  (Action.Trails.lookup id name).replays

theorem bind {first : Action α} {next : α → Action β} (hfirst : first.Replays)
    (hnext : ∀ a, (next a).Replays) : (first >>= next).Replays := by
  intro store
  cases h : (first store).outcome with
  | ok a => rw [bind_of_ok next h, hnext a, hfirst store, Store.replay_append]
  | error reason => rw [bind_of_error next h, hfirst store]

theorem map {action : Action α} (h : action.Replays) (f : α → β) : (f <$> action).Replays := by
  intro store
  rw [map_apply]
  exact h store

theorem attempt {action : Action α} (h : action.Replays) : action.attempt.Replays := h

theorem bindNames (id : EnvId) (pairs : List (String × Expr)) :
    (Action.bindNames id pairs).Replays := by
  induction pairs with
  | nil => exact .pure ()
  | cons pair rest ih => exact .bind (.bindName id pair.1 pair.2) fun _ => ih

end Action.Replays

theorem evaluate_replays (limit : Nat) (env : EnvId) (e : Expr) :
    (evaluate limit env e).Replays :=
  (evaluate_trail limit env e).replays

/-- The record of an application, which a trail starts with, changes nothing. -/
theorem applyOperation_replays (limit : Nat) (operation : Operation) (args : List Expr) :
    (applyOperation (evaluate limit) operation args).Replays :=
  fun store => (applyOperation_trails (evaluate_trail limit) "" operation args store).store_eq

theorem listEnv_replays (home : EnvId) (cut : Stop) : (listEnv home cut).Replays := by
  intro store
  rw [listEnv_apply]
  exact (Store.replay_listing store _ home).symm

theorem evaluateText_replays (limit : Nat) (env : EnvId) (strict : Bool) (source : String) :
    (evaluateText limit env strict source).Replays :=
  .bind (.ofExcept _) fun e => evaluate_replays limit env e

theorem finish_replays (script : Script) : script.finish.Replays := by
  unfold Script.finish
  split
  · exact .stop _
  · exact .pure _

theorem evaluateForms_replays (limit : Nat) (env : EnvId) (es : List Expr) :
    (evaluateForms limit env es).Replays := by
  induction es with
  | nil => exact .pure _
  | cons e rest ih => exact .bind (evaluate_replays limit env e) fun _ => .bind ih fun _ => .pure _

theorem evaluateLast_replays (limit : Nat) (env : EnvId) (last : Expr) (es : List Expr) :
    (evaluateLast limit env last es).Replays := by
  induction es generalizing last with
  | nil => exact .pure _
  | cons e rest ih => exact .bind (evaluate_replays limit env e) fun value => ih value

theorem Repl.step_replays (repl : Repl) (line : String) : (repl.step line).Replays := by
  unfold Repl.step
  split
  · exact .pure _
  · refine .bind (evaluateText_replays _ _ _ _).attempt fun outcome => ?_
    split
    · exact .bind (.ofExcept _) fun _ => .pure _
    · exact .bind (fun _ => rfl) fun _ => .pure _
    · exact .stop _

namespace Interpreter

theorem evalAll_replays (interpreter : Interpreter) (source : String) :
    (interpreter.evalAll source).Replays :=
  .bind (evaluateForms_replays _ _ _) fun _ => .bind (finish_replays _) fun _ => .pure _

theorem load_replays (interpreter : Interpreter) (files : Files) (path : Path) :
    (interpreter.load files path).Replays :=
  .bind (fun _ => rfl) fun _ => .bind (.ofExcept _) fun _ =>
    .bind (evaluateLast_replays _ _ _ _) fun _ => .bind (finish_replays _) fun _ => .pure _

theorem on_replays (env : EnvId) (strict : Bool) : (Interpreter.on env strict).Replays :=
  .bind (.bindNames _ _) fun _ => .pure _

/-- **All that a request does to the store** is to bind what its events say, however it
ends. -/
theorem perform_store (interpreter : Interpreter) (files : Files) (request : Request)
    (store : Store) :
    (interpreter.perform files request store).store
      = (store.founded request).replay (interpreter.perform files request store).events := by
  cases request with
  | eval source => exact (evaluateText_replays _ _ _ source).map _ store
  | evalAll source => exact (interpreter.evalAll_replays source).map _ store
  | evalAs strict source => exact (evaluateText_replays _ _ strict source).map _ store
  | load path => exact (interpreter.load_replays files _).map _ store
  | evaluate e => exact (evaluate_replays _ _ e).map _ store
  | call name args =>
      refine Action.Replays.bind (.lookup _ name) (fun function => ?_) store
      refine .bind (.ofExcept args) fun args => ?_
      cases function with
      | fn _ operation =>
          cases operation with
          | listing home => exact (listEnv_replays home .exhausted).map _
          | add | subtract | define | echo | exit | interrupt =>
              exact (applyOperation_replays _ _ args).map _
      | symbol | literal | number | list | null => exact .stop _
  | lookup name => exact (Action.Replays.lookup _ name).map _ store
  | bind name value => rfl
  | update pairs => exact Action.Replays.bind (.bindNames _ _) (fun _ => .pure _) store
  | contains name => rfl
  | items => rfl
  | describe => rfl
  | summary => rfl
  | step color line => exact (Repl.step_replays _ line).map _ store
  | create name strict bindings =>
      have hon := Action.Replays.bind (on_replays store.fresh strict)
        (fun made => .bind (.getEnv made.env) fun env => .pure (Reply.created name made env.size))
        (store.put store.fresh (Env.ofPairs bindings))
      rw [perform, created, create, Action.bind_assoc]
      exact hon
  | share name strict env =>
      exact Action.Replays.bind (on_replays env strict)
        (fun _ => .bind (.getEnv _) fun _ => .pure _) store
  | copy name target newName =>
      exact Action.Replays.bind (.lookup _ name)
        (fun value => .bind (.bindName target newName value) fun _ => .pure _) store

end Interpreter

/-! ## Sessions -/

/-- Something that is asked of an interpreter in the course of a session. -/
structure Deed where
  interpreter : Interpreter
  /-- The files there are at the time. -/
  files : Files
  request : Request

/-- The names that an environment is made with, if a request asks for it. -/
def Request.founding (store : Store) (id : EnvId) (request : Request) : List String :=
  request.bindings?.elim [] fun bindings =>
    if id = store.fresh then bindings.map (·.1) else []

/-- The names that a deed binds in an environment, in order. -/
def Deed.names (deed : Deed) (store : Store) (id : EnvId) : List String :=
  deed.request.founding store id
    ++ boundNames id (deed.interpreter.perform deed.files deed.request store).events

namespace Session

/-- The session after a deed, whether it succeeded or failed. -/
def step (session : Session) (deed : Deed) : Session :=
  (session.perform deed.files deed.interpreter deed.request).2.2

def after (session : Session) (deeds : List Deed) : Session := deeds.foldl step session

/-- All names that the deeds bind in an environment, in order and with repetitions. -/
def history (session : Session) (id : EnvId) : List Deed → List String
  | [] => []
  | deed :: rest => deed.names session.store id ++ (session.step deed).history id rest

end Session

theorem Store.get_fresh (store : Store) : store.get store.fresh = {} := by
  simp [Store.get, Store.fresh]

theorem names_founded {store : Store} {id : EnvId} {history : List String}
    (h : (store.get id).names = history.eraseDups) (request : Request) :
    ((store.founded request).get id).names
      = (history ++ request.founding store id).eraseDups := by
  unfold Store.founded Request.founding
  cases request.bindings? with
  | none =>
      show (store.get id).names = (history ++ []).eraseDups
      rw [List.append_nil, h]
  | some bindings =>
      show ((store.put store.fresh _).get id).names = (history ++ if _ then _ else _).eraseDups
      rw [Store.get_put]
      split
      · rename_i hid
        rw [hid, Store.get_fresh] at h
        have hnone : history = [] := by
          cases history with
          | nil => rfl
          | cons name rest => rw [List.eraseDups_cons] at h; cases h
        rw [hnone]
        exact Env.names_foldl_bind rfl bindings
      · rw [List.append_nil, h]

namespace Session

variable {session : Session} {id : EnvId}

/-- One deed adds to the history of every environment what it binds there. -/
theorem names_step {past : List String} (h : (session.store.get id).names = past.eraseDups)
    (deed : Deed) :
    ((session.step deed).store.get id).names
      = (past ++ deed.names session.store id).eraseDups := by
  show ((deed.interpreter.perform deed.files deed.request session.store).store.get id).names = _
  rw [Interpreter.perform_store, names_replay (names_founded h deed.request), List.append_assoc]
  rfl

theorem names_after {past : List String} (h : (session.store.get id).names = past.eraseDups)
    (deeds : List Deed) :
    ((session.after deeds).store.get id).names = (past ++ session.history id deeds).eraseDups := by
  induction deeds generalizing session past with
  | nil => rw [history, List.append_nil]; exact h
  | cons deed rest ih =>
      show (((session.step deed).after rest).store.get id).names = _
      rw [ih (names_step h deed), history, List.append_assoc]

end Session

/-! ## Where a name is missing -/

theorem Env.lookup?_eq_none_iff {env : Env} {name : String} :
    env.lookup? name = none ↔ name ∉ env.names := by
  unfold lookup? names
  induction env.bindings with
  | nil => simp [lookupIn]
  | cons b rest ih =>
      obtain ⟨n, v⟩ := b
      by_cases hn : n = name
      · simp [lookupIn, hn]
      · have hne : ¬ name = n := fun h => hn h.symm
        simp [lookupIn, hn, hne, ih]

/-- If the run failed for want of a name, then the name was not bound where it was looked
up: in the given environment, or in the home of an `echo` that was applied. -/
def Run.Misses {α : Type} (r : Run α) (env : EnvId) : Prop :=
  ∀ name, r.outcome = .error (EvalFault.unboundSymbol name).stop →
    ∃ home, (home = env ∨ ∃ function args, .applied function (.echo home) args ∈ r.events)
      ∧ name ∉ (r.store.get home).names

namespace Run.Misses

variable {α β : Type} {env : EnvId}

theorem of_ne {r : Run α}
    (h : ∀ name, r.outcome ≠ .error (EvalFault.unboundSymbol name).stop) : r.Misses env :=
  fun name hname => absurd hname (h name)

theorem bind {first : Action α} {next : α → Action β} {s : Store}
    (hfirst : (first s).Misses env)
    (hnext : ∀ a, (first s).outcome = .ok a → (next a (first s).store).Misses env) :
    ((first >>= next) s).Misses env := by
  intro name hname
  cases h : (first s).outcome with
  | error reason =>
      rw [Action.bind_of_error next h] at hname ⊢
      cases hname
      exact hfirst name h
  | ok a =>
      rw [Action.bind_of_ok next h] at hname ⊢
      obtain ⟨home, hhome, hmissing⟩ := hnext a h name hname
      refine ⟨home, hhome.imp_right ?_, hmissing⟩
      rintro ⟨function, args, happlied⟩
      exact ⟨function, args, List.mem_append_right _ happlied⟩

end Run.Misses

theorem lookup_misses (env : EnvId) (name : String) (s : Store) :
    (Action.lookup env name s).Misses env := by
  cases h : (s.get env).lookup? name with
  | some value => exact .of_ne fun _ hname => by rw [Action.lookup_of_some h] at hname; cases hname
  | none =>
      intro missing hname
      rw [Action.lookup_of_none h] at hname ⊢
      cases hname
      exact ⟨env, Or.inl rfl, Env.lookup?_eq_none_iff.mp h⟩

/-- An application: its record names the home, if it is one of `echo`. -/
theorem applyOperation_misses {walk : EnvId → Expr → Action Expr}
    (hwalk : ∀ home e s, (walk home e s).Misses home) (env : EnvId) (function : String)
    (operation : Operation) (args : List Expr) (s : Store) :
    ((Action.emit (.applied function operation args) >>= fun _ =>
      applyOperation walk operation args) s).Misses env := by
  cases operation with
  | echo home =>
      match args with
      | [e] =>
          intro name hname
          obtain ⟨other, hother, hmissing⟩ := hwalk home e s name hname
          refine ⟨other, Or.inr ?_, hmissing⟩
          rcases hother with rfl | ⟨f, values, happlied⟩
          · exact ⟨function, [e], List.mem_cons_self ..⟩
          · exact ⟨f, values, List.mem_cons_of_mem _ happlied⟩
      | [] => exact .of_ne fun _ h => nomatch h
      | _ :: _ :: _ => exact .of_ne fun _ h => nomatch h
  | add | subtract =>
      refine .bind (.of_ne fun _ h => nomatch h) fun _ _ =>
        .bind (.of_ne fun name h => ?_) fun _ _ => .of_ne fun _ h => nomatch h
      obtain ⟨tag, -, hreason⟩ := numbers_eq_error h
      cases hreason
  | define home =>
      refine .bind (.of_ne fun _ h => nomatch h) fun _ _ => ?_
      show (applyDefine home args s).Misses env
      unfold applyDefine
      split <;> exact .of_ne fun _ h => nomatch h
  | exit =>
      refine .of_ne fun name h => ?_
      have hstop : exitStop args = (EvalFault.unboundSymbol name).stop := Except.error.inj h
      unfold exitStop at hstop
      split at hstop <;> cases hstop
  | listing home =>
      refine .bind (.of_ne fun _ h => nomatch h) fun _ _ => .of_ne fun name h => ?_
      rw [applyOperation, applyListing, listEnv_apply] at h
      dsimp only at h
      split at h <;> cases h
  | interrupt =>
      refine .of_ne fun name h => ?_
      cases h

theorem evaluateArgs_misses {walk : Expr → Action Expr} {env : EnvId}
    (hwalk : ∀ e s, (walk e s).Misses env) (es : List Expr) (s : Store) :
    (evaluateArgs walk es s).Misses env := by
  induction es generalizing s with
  | nil => exact .of_ne fun _ h => nomatch h
  | cons e rest ih =>
      exact .bind (hwalk e s) fun _ _ => .bind (ih _) fun _ _ => .of_ne fun _ h => nomatch h

/-- By induction on the levels left: a look-up that fails is the last thing that an
evaluation does. -/
theorem evaluate_misses (limit : Nat) (env : EnvId) (e : Expr) (s : Store) :
    (evaluate limit env e s).Misses env := by
  induction limit generalizing env e s with
  | zero => exact .of_ne fun _ h => nomatch h
  | succ limit ih =>
      match e with
      | .symbol name => exact lookup_misses env name s
      | .list (head :: tail) =>
          refine .bind (ih env head s) fun value _ => ?_
          cases value with
          | fn name operation =>
              exact .bind (evaluateArgs_misses (ih env) tail _) fun args _ =>
                applyOperation_misses ih env name operation args _
          | symbol | literal | number | list | null => exact .of_ne fun _ h => nomatch h
      | .list [] | .literal _ | .number _ | .fn _ _ | .null => exact .of_ne fun _ h => nomatch h

/-! ## Names of a session -/

/-- No environment has a name twice. -/
def Store.Distinct (store : Store) : Prop := ∀ id, (store.get id).names.Nodup

theorem distinct_start (name : String) (strict : Bool) :
    (Session.start name strict).1.store.Distinct := by
  intro id
  show ((Interpreter.create {} strict {}).store.get id).names.Nodup
  by_cases hid : id = Store.fresh {}
  · rw [hid, Env.names, Interpreter.bindings_create]
    decide
  · rw [Interpreter.get_create_of_ne {} strict hid]
    simp [Store.get, Env.names]

theorem prefix_names_replay {store : Store} (h : store.Distinct) (id : EnvId)
    (events : List Event) :
    (store.get id).names <+: ((store.replay events).get id).names := by
  rw [names_replay (eraseDups_of_nodup (h id)).symm, List.eraseDups_append,
    eraseDups_of_nodup (h id)]
  exact List.prefix_append ..

namespace Session

variable {session : Session} (h : session.store.Distinct) (deeds : List Deed)
include h

theorem names_after_of_distinct (id : EnvId) :
    ((session.after deeds).store.get id).names
      = ((session.store.get id).names ++ session.history id deeds).eraseDups :=
  names_after (eraseDups_of_nodup (h id)).symm deeds

theorem distinct_after : (session.after deeds).store.Distinct := by
  intro id
  rw [names_after_of_distinct h deeds id]
  exact nodup_eraseDups _

theorem prefix_names_after (id : EnvId) :
    (session.store.get id).names <+: ((session.after deeds).store.get id).names := by
  rw [names_after_of_distinct h deeds id, List.eraseDups_append, eraseDups_of_nodup (h id)]
  exact List.prefix_append ..

end Session

/-- **Names are never lost, repeated or moved.** In a new session no environment has a
name twice. If that is so, then it stays so, whatever is done in the session, and the
names that an environment has are still its first ones, in the same order. They have
values, so an environment never gets smaller. All its names together are those ever bound
in it, in the order of first binding, and that is the order in which its bindings are
given and listed, where a listing is cut short by a value that cannot be shown. An
evaluation that fails for want of a name does so because the name was never bound where
it was looked up, and that is in the environment of the evaluation or in the home of an
`echo` that it applied. -/
theorem names_never_lost :
    (∀ name strict, (Session.start name strict).1.store.Distinct)
      ∧ ∀ session : Session, session.store.Distinct → ∀ deeds : List Deed,
        let later := (session.after deeds).store
        later.Distinct
          ∧ (∀ id,
              let before := session.store.get id
              let now := later.get id
              before.names <+: now.names ∧ before.size ≤ now.size
                ∧ now.names = (before.names ++ session.history id deeds).eraseDups
                ∧ (∀ name ∈ before.names,
                    ∃ value, (Action.lookup id name later).outcome = .ok value)
                ∧ ∃ bindings, bindings.map (·.1) = now.names
                    ∧ (∀ strict limit files,
                        (Interpreter.perform ⟨id, strict, limit⟩ files .items later).outcome
                          = .ok (.items bindings))
                    ∧ (applyListing id later).events
                        = (bindings.takeWhile (·.2.isRenderable)).map
                            fun b => .listed id b.1 b.2)
          ∧ ∀ limit env e name,
              let r := evaluate limit env e later
              r.outcome = .error (EvalFault.unboundSymbol name).stop →
                ∃ home, (home = env
                    ∨ ∃ function args, .applied function (.echo home) args ∈ r.events)
                  ∧ name ∉ (session.store.get home).names ∧ name ∉ (r.store.get home).names := by
  refine ⟨distinct_start, fun session hdistinct deeds => ?_⟩
  intro later
  have hlater : later.Distinct := Session.distinct_after hdistinct deeds
  have hgrows := Session.prefix_names_after hdistinct deeds
  refine ⟨hlater, fun id => ?_, fun limit env e name => ?_⟩
  · intro before now
    refine ⟨hgrows id, ?_, Session.names_after_of_distinct hdistinct deeds id, ?_, ?_⟩
    · have hlength := (hgrows id).length_le
      simp only [Env.names, List.length_map] at hlength
      exact hlength
    · intro name hname
      cases hfound : now.lookup? name with
      | some value => exact ⟨value, by rw [Action.lookup_of_some hfound]⟩
      | none => exact absurd ((hgrows id).subset hname) (Env.lookup?_eq_none_iff.mp hfound)
    · refine ⟨now.bindings, rfl, fun _ _ _ => rfl, ?_⟩
      rw [applyListing, listEnv_apply]
      rfl
  · intro r hname
    obtain ⟨home, hhome, hmissing⟩ := evaluate_misses limit env e later name hname
    have hkept : (later.get home).names <+: (r.store.get home).names := by
      show _ <+: ((evaluate limit env e later).store.get home).names
      rw [evaluate_replays limit env e later]
      exact prefix_names_replay hlater home _
    exact ⟨home, hhome, fun hbound => hmissing (((hgrows home).trans hkept).subset hbound),
      hmissing⟩

/-- A second interpreter gets the first one's `def` as `put`. It uses it for a new name, and
fails later in the same text; then a third interpreter is made on its environment. -/
theorem names_never_lost_shared :
    let first : Interpreter := ⟨0, false, nestingLimit⟩
    let second : Interpreter := ⟨1, false, nestingLimit⟩
    let deed := fun interpreter => Deed.mk interpreter fun _ => .error .notFound
    let session := (Session.start "first" false).1.after
      [deed first (.create "second" false [("b", .null), ("a", .null), ("b", .literal "c")]),
        deed first (.copy "def" 1 "put")]
    let deeds := [deed second (.evalAll "(put 'y' b) (b)"), deed second (.share "third" true 1)]
    let later := (session.after deeds).store
    session.store.Distinct ∧ later.Distinct
      ∧ (session.store.get 1).names = ["b", "a", "+", "-", "def", "echo", "env", "exit", "put"]
      ∧ session.history 1 deeds = ["+", "-", "def", "echo", "env", "exit"]
      ∧ (later.get 1).names = ["b", "a", "+", "-", "def", "echo", "env", "exit", "put"]
      ∧ (later.get 0).names = ["+", "-", "def", "echo", "env", "exit", "y"]
      ∧ ∃ value, (Action.lookup 1 "put" later).outcome = .ok value := by
  intro first second deed session deeds later
  obtain ⟨hstart, h⟩ := names_never_lost
  obtain ⟨hsession, -, -⟩ := h _ (hstart "first" false)
    [deed first (.create "second" false [("b", .null), ("a", .null), ("b", .literal "c")]),
      deed first (.copy "def" 1 "put")]
  obtain ⟨hlater, hnames, -⟩ := h session hsession deeds
  have hbefore : (session.store.get 1).names
      = ["b", "a", "+", "-", "def", "echo", "env", "exit", "put"] := by cbv
  have hhistory : session.history 1 deeds = ["+", "-", "def", "echo", "env", "exit"] := by cbv
  have hother : (later.get 0).names = ["+", "-", "def", "echo", "env", "exit", "y"] := by cbv
  obtain ⟨-, -, horder, hbound, -⟩ := hnames 1
  refine ⟨hsession, hlater, hbefore, hhistory, ?_, hother, hbound "put" ?_⟩
  · rw [horder, hbefore, hhistory]
    decide
  · rw [hbefore]
    decide

end TinyLisp
