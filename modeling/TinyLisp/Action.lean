import TinyLisp.Event

/-!
# Actions

An action runs on a store and ends with a value or a reason to stop, the
store it leaves behind, and the events it caused. Effects are never undone:
an action that stops has still left its store and its events.
-/

namespace TinyLisp

/-- The end of an action. -/
structure Run (α : Type) where
  outcome : Except Stop α
  store : Store
  events : List Event

def Action (α : Type) : Type := Store → Run α

namespace Action

def pure {α : Type} (a : α) : Action α := fun store => ⟨.ok a, store, []⟩

/-- Runs one action and then, if it had a value, the next. -/
def bind {α β : Type} (first : Action α) (next : α → Action β) : Action β := fun store =>
  let r := first store
  match r.outcome with
  | .ok a =>
    let s := next a r.store
    ⟨s.outcome, s.store, r.events ++ s.events⟩
  | .error stop => ⟨.error stop, r.store, r.events⟩

instance : Monad Action where
  pure := Action.pure
  bind := Action.bind

variable {α β γ : Type}

theorem bind_of_ok {first : Action α} {store : Store} {a : α} (next : α → Action β)
    (h : (first store).outcome = .ok a) :
    (first >>= next) store =
      ⟨(next a (first store).store).outcome, (next a (first store).store).store,
        (first store).events ++ (next a (first store).store).events⟩ := by
  show Action.bind first next store = _
  simp only [Action.bind, h]

theorem bind_of_error {first : Action α} {store : Store} {reason : Stop}
    (next : α → Action β) (h : (first store).outcome = .error reason) :
    (first >>= next) store = ⟨.error reason, (first store).store, (first store).events⟩ := by
  show Action.bind first next store = _
  simp only [Action.bind, h]

/-- Actions are run in the order in which they are written, however they
are grouped. -/
theorem bind_assoc (first : Action α) (next : α → Action β) (last : β → Action γ) :
    first >>= next >>= last = first >>= fun a => next a >>= last := by
  funext store
  cases h : (first store).outcome with
  | error reason =>
    rw [bind_of_error _ h]
    exact (bind_of_error last (by rw [bind_of_error next h])).trans
      (by rw [bind_of_error next h])
  | ok a =>
    rw [bind_of_ok _ h]
    cases k : (next a (first store).store).outcome with
    | error reason =>
      rw [bind_of_error last (by rw [bind_of_ok next h]; exact k), bind_of_error last k,
        bind_of_ok next h]
    | ok b =>
      rw [bind_of_ok last (by rw [bind_of_ok next h]; exact k), bind_of_ok last k,
        bind_of_ok next h, List.append_assoc]

/-- Ends without a value. -/
def stop (reason : Stop) : Action α := fun store => ⟨.error reason, store, []⟩

/-- Ends as the given outcome says, without effects. -/
def ofExcept (outcome : Except Stop α) : Action α := fun store => ⟨outcome, store, []⟩

def emit (event : Event) : Action Unit := fun store => ⟨.ok (), store, [event]⟩

/-- Runs an action and hands on how it ended. -/
def attempt (action : Action α) : Action (Except Stop α) := fun store =>
  let r := action store
  ⟨.ok r.outcome, r.store, r.events⟩

/-- The environment with the given handle. -/
def getEnv (id : EnvId) : Action Env := fun store => ⟨.ok (store.get id), store, []⟩

/-- Binds a name in an environment. -/
def bindName (id : EnvId) (name : String) (value : Expr) : Action Unit := fun store =>
  ⟨.ok (), store.put id ((store.get id).bind name value), [.bound id name value]⟩

/-- Binds each pair in turn. -/
def bindNames (id : EnvId) : List (String × Expr) → Action Unit
  | [] => Action.pure ()
  | (name, value) :: rest => do
    bindName id name value
    bindNames id rest

/-- What a name is bound to in an environment. -/
def lookup (id : EnvId) (name : String) : Action Expr := do
  match (← getEnv id).lookup? name with
  | some value => return value
  | none => stop (EvalFault.unboundSymbol name).stop

/-- Makes an environment with the given bindings. -/
def newEnv (env : Env) : Action EnvId := fun store =>
  ⟨.ok store.fresh, store.put store.fresh env, []⟩

end Action

end TinyLisp
