import TinyLisp.Action

/-!
# How actions run

The laws of actions as a monad, and what the derived actions do to a store.
-/

namespace TinyLisp.Action

variable {α β : Type}

theorem pure_apply (a : α) (store : Store) :
    (Pure.pure a : Action α) store = ⟨.ok a, store, []⟩ := rfl

/-- Applying a function to the value of an action changes its value only. -/
theorem map_apply (f : α → β) (action : Action α) (store : Store) :
    (f <$> action) store =
      ⟨f <$> (action store).outcome, (action store).store, (action store).events⟩ := by
  show (action >>= fun a => Pure.pure (f a)) store = _
  cases h : (action store).outcome with
  | ok a => rw [bind_of_ok _ h, pure_apply, List.append_nil]; rfl
  | error reason => rw [bind_of_error _ h]; rfl

instance : LawfulMonad Action :=
  LawfulMonad.mk' Action
    (fun action => by
      funext store
      rw [map_apply]
      show (⟨Except.map id _, _, _⟩ : Run _) = _
      rw [Except.map_id]
      rfl)
    (fun _ _ => rfl)
    (fun first next last => bind_assoc first next last)

/-- What an action gives that does nothing goes on to the next. -/
theorem bind_of_quiet {first : Action α} {store : Store} {a : α}
    (h : first store = ⟨.ok a, store, []⟩) (next : α → Action β) :
    (first >>= next) store = next a store := by
  rw [bind_of_ok next (by rw [h]), h]
  rfl

theorem getEnv_bind_apply (id : EnvId) (next : Env → Action α) (store : Store) :
    (getEnv id >>= next) store = next (store.get id) store := rfl

theorem emit_bind_apply (event : Event) (next : Unit → Action α) (store : Store) :
    (emit event >>= next) store =
      ⟨(next () store).outcome, (next () store).store, event :: (next () store).events⟩ := rfl

theorem attempt_bind_apply (action : Action α) (next : Except Stop α → Action β)
    (store : Store) :
    (action.attempt >>= next) store =
      ⟨(next (action store).outcome (action store).store).outcome,
        (next (action store).outcome (action store).store).store,
        (action store).events ++ (next (action store).outcome (action store).store).events⟩ :=
  rfl

theorem lookup_of_some {store : Store} {id : EnvId} {name : String} {value : Expr}
    (h : (store.get id).lookup? name = some value) :
    lookup id name store = ⟨.ok value, store, []⟩ := by
  rw [lookup, getEnv_bind_apply, h]
  rfl

theorem lookup_of_none {store : Store} {id : EnvId} {name : String}
    (h : (store.get id).lookup? name = none) :
    lookup id name store = ⟨.error (EvalFault.unboundSymbol name).stop, store, []⟩ := by
  rw [lookup, getEnv_bind_apply, h]
  rfl

theorem events_lookup (id : EnvId) (name : String) (store : Store) :
    (lookup id name store).events = [] := by
  cases h : (store.get id).lookup? name with
  | some value => rw [lookup_of_some h]
  | none => rw [lookup_of_none h]

/-! ## Binding several names -/

/-- The store with each pair bound in turn in one environment. -/
def storeBinding (id : EnvId) (pairs : List (String × Expr)) (store : Store) : Store :=
  pairs.foldl (fun s pair => s.put id ((s.get id).bind pair.1 pair.2)) store

theorem bindNames_apply (id : EnvId) (pairs : List (String × Expr)) (store : Store) :
    bindNames id pairs store =
      ⟨.ok (), storeBinding id pairs store,
        pairs.map fun pair => .bound id pair.1 pair.2⟩ := by
  induction pairs generalizing store with
  | nil => rfl
  | cons pair rest ih =>
      obtain ⟨name, value⟩ := pair
      rw [bindNames, bind_of_ok _ (show (bindName id name value store).outcome = .ok () from rfl),
        ih]
      rfl

theorem get_storeBinding (id other : EnvId) (pairs : List (String × Expr)) (store : Store) :
    (storeBinding id pairs store).get other =
      if other = id then pairs.foldl (fun env pair => env.bind pair.1 pair.2) (store.get id)
      else store.get other := by
  induction pairs generalizing store with
  | nil =>
      split
      · rename_i h; rw [h]; rfl
      · rfl
  | cons pair rest ih =>
      show (storeBinding id rest _).get other = _
      rw [ih, Store.get_put, Store.get_put, if_pos rfl]
      split <;> rfl

end TinyLisp.Action
