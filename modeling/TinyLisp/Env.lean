import TinyLisp.Expr

/-!
# Environments

An environment binds names to expressions and remembers the order in which
the names were first bound: binding a name again changes its value and
keeps its place. The store holds all environments of a session, known by
their handles; a handle that was never given out stands for an environment
without bindings.
-/

namespace TinyLisp

/-- Names with their values, in the order of first binding. -/
structure Env where
  bindings : List (String × Expr) := []

namespace Env

/-- The bindings with `name` bound to `value`: in its place if the name
has one, else at the end. -/
def bindIn (name : String) (value : Expr) : List (String × Expr) → List (String × Expr)
  | [] => [(name, value)]
  | (n, v) :: rest =>
    if n = name then (n, value) :: rest else (n, v) :: bindIn name value rest

def bind (env : Env) (name : String) (value : Expr) : Env :=
  ⟨bindIn name value env.bindings⟩

/-- The environment that binds each pair in turn to the empty one. -/
def ofPairs (pairs : List (String × Expr)) : Env :=
  pairs.foldl (fun env pair => env.bind pair.1 pair.2) {}

/-- The value of the first binding of a name. -/
def lookupIn (name : String) : List (String × Expr) → Option Expr
  | [] => none
  | (n, v) :: rest => if n = name then some v else lookupIn name rest

def lookup? (env : Env) (name : String) : Option Expr := lookupIn name env.bindings

def contains (env : Env) (name : String) : Bool := (env.lookup? name).isSome

def names (env : Env) : List String := env.bindings.map (·.1)

/-- The number of bindings. -/
def size (env : Env) : Nat := env.bindings.length

/-! ### What binding a name changes -/

theorem lookupIn_bindIn (name other : String) (value : Expr) (bs : List (String × Expr)) :
    lookupIn other (bindIn name value bs) =
      if other = name then some value else lookupIn other bs := by
  induction bs with
  | nil => simp [bindIn, lookupIn, eq_comm]
  | cons b rest ih =>
    obtain ⟨n, v⟩ := b
    by_cases hn : n = name
    · subst hn
      by_cases h : n = other
      · simp [bindIn, lookupIn, h]
      · have h' : ¬ other = n := fun e => h e.symm
        simp [bindIn, lookupIn, h, h']
    · by_cases ho : n = other
      · subst ho
        simp [bindIn, lookupIn, hn]
      · simp [bindIn, lookupIn, hn, ho, ih]

/-- A name is looked up as its latest value. -/
theorem lookup?_bind (env : Env) (name other : String) (value : Expr) :
    (env.bind name value).lookup? other =
      if other = name then some value else env.lookup? other :=
  lookupIn_bindIn name other value env.bindings

theorem map_fst_bindIn (name : String) (value : Expr) (bs : List (String × Expr)) :
    (bindIn name value bs).map (·.1) =
      if name ∈ bs.map (·.1) then bs.map (·.1) else bs.map (·.1) ++ [name] := by
  induction bs with
  | nil => simp [bindIn]
  | cons b rest ih =>
    obtain ⟨n, v⟩ := b
    by_cases hn : n = name
    · simp [bindIn, hn]
    · have hne : ¬ name = n := fun h => hn h.symm
      rw [bindIn, if_neg hn, List.map_cons, ih, List.map_cons]
      by_cases hr : name ∈ rest.map (·.1)
      · rw [if_pos hr, if_pos (List.mem_cons_of_mem _ hr)]
      · rw [if_neg hr, if_neg (by simpa only [List.mem_cons, hne, false_or] using hr)]
        rfl

/-- A name that is bound already keeps its place, a new one comes last. -/
theorem names_bind (env : Env) (name : String) (value : Expr) :
    (env.bind name value).names =
      if name ∈ env.names then env.names else env.names ++ [name] :=
  map_fst_bindIn name value env.bindings

end Env

/-- The environments of a session, in the order of their handles. -/
structure Store where
  envs : List Env := []

namespace Store

/-- The list with `env` at a position, filled up with empty environments
if it ends before. -/
def putAt : Nat → Env → List Env → List Env
  | 0, env, [] => [env]
  | 0, env, _ :: rest => env :: rest
  | i + 1, env, [] => {} :: putAt i env []
  | i + 1, env, first :: rest => first :: putAt i env rest

def get (store : Store) (id : EnvId) : Env := store.envs[id]?.getD {}

def put (store : Store) (id : EnvId) (env : Env) : Store := ⟨putAt id env store.envs⟩

/-- A handle that was not given out yet. -/
def fresh (store : Store) : EnvId := store.envs.length

theorem getD_putAt (i j : Nat) (env : Env) (envs : List Env) :
    (putAt i env envs)[j]?.getD {} = if j = i then env else envs[j]?.getD {} := by
  induction i generalizing j envs with
  | zero => cases envs <;> cases j <;> simp [putAt]
  | succ i ih =>
    cases envs with
    | nil => cases j <;> simp [putAt, ih]
    | cons first rest => cases j <;> simp [putAt, ih]

/-- What is put under one handle is seen there and nowhere else. -/
theorem get_put (store : Store) (id other : EnvId) (env : Env) :
    (store.put id env).get other = if other = id then env else store.get other :=
  getD_putAt id other env store.envs

end Store

end TinyLisp
