import TinyLisp.Repl

/-!
# Sessions

A session is a number of interpreters, known by names, on one store of
environments. They may share environments, and values may be copied from
one to another. A request is one thing asked of one interpreter; a request
that fails leaves the session going, with the effects it had before it
failed.
-/

namespace TinyLisp

/-- The interpreters of a session by name, the latest first. -/
abbrev Interpreters := List (String × Interpreter)

inductive Request where
  /-- Evaluate the first expression of a text. -/
  | eval (source : String)
  /-- Evaluate all expressions of a text. -/
  | evalAll (source : String)
  /-- Evaluate the first expression, strictly or not whatever the
  interpreter's own mode. -/
  | evalAs (strict : Bool) (source : String)
  | load (path : String)
  | evaluate (e : Expr)
  /-- Apply the function bound to a name to arguments as they are. That
  the arguments cannot be had shows only after the name is looked up. -/
  | call (name : String) (args : Except Stop (List Expr))
  | lookup (name : String)
  | bind (name : String) (value : Expr)
  /-- Bind all pairs. Of those with one name, the first gives the place
  and the last the value. -/
  | update (pairs : List (String × Expr))
  | contains (name : String)
  | items
  /-- All bindings, spelled out. -/
  | describe
  /-- The number of bindings, as a text. -/
  | summary
  /-- Answer a line as the interactive loop does. -/
  | step (color : Bool) (line : String)
  /-- Make an interpreter on a new environment with the given bindings. -/
  | create (name : String) (strict : Bool) (bindings : List (String × Expr))
  /-- Make an interpreter on the environment of another one. -/
  | share (name : String) (strict : Bool) (env : EnvId)
  /-- Bind the value of a name to another name in an environment. -/
  | copy (name : String) (target : EnvId) (newName : String)

inductive Reply where
  | value (e : Expr)
  | values (es : List Expr)
  | done
  | truth (b : Bool)
  | items (bindings : List (String × Expr))
  | text (s : String)
  | answer (line : Option String)
  /-- A new interpreter and its number of bindings. -/
  | created (name : String) (interpreter : Interpreter) (size : Nat)

/-- All bindings of an environment, spelled out. -/
def Env.describe (env : Env) : String :=
  "\x7b" ++ ", ".intercalate (env.bindings.map fun (name, value) => name ++ ": " ++ value.describe)
    ++ "\x7d"

/-- The number of bindings of an environment, as a text. -/
def Env.summary (env : Env) : String := "<Environment " ++ env.size.repr ++ " bindings>"

/-- The answer to a request for a new interpreter. -/
def created (name : String) (make : Action Interpreter) : Action Reply := do
  let interpreter ← make
  let env ← Action.getEnv interpreter.env
  return .created name interpreter env.size

/-- Does what is asked of an interpreter. -/
def Interpreter.perform (interpreter : Interpreter) (files : Files) : Request → Action Reply
  | .eval source => .value <$> interpreter.eval source
  | .evalAll source => .values <$> interpreter.evalAll source
  | .evalAs strict source => .value <$> evaluateText interpreter.limit interpreter.env strict source
  | .load path => .value <$> interpreter.load files (Path.ofText path)
  | .evaluate e => .value <$> TinyLisp.evaluate interpreter.limit interpreter.env e
  | .call name args => do
    let function ← Action.lookup interpreter.env name
    let args ← Action.ofExcept args
    match function with
    -- No evaluation is under way that would make the cut of a listing a fault.
    | .fn _ (.listing home) => .value <$> listEnv home .exhausted
    | .fn _ operation =>
      .value <$> applyOperation (TinyLisp.evaluate interpreter.limit) operation args
    | value => .stop (.notFunction value.variant)
  | .lookup name => .value <$> Action.lookup interpreter.env name
  | .bind name value => do
    Action.bindName interpreter.env name value
    return .done
  | .update pairs => do
    Action.bindNames interpreter.env (Env.ofPairs pairs).bindings
    return .done
  | .contains name => do return .truth ((← Action.getEnv interpreter.env).contains name)
  | .items => do return .items (← Action.getEnv interpreter.env).bindings
  | .describe => do return .text (← Action.getEnv interpreter.env).describe
  | .summary => do return .text (← Action.getEnv interpreter.env).summary
  | .step color line => .answer <$> Repl.step ⟨interpreter, "", color⟩ line
  | .create name strict bindings => created name (Interpreter.create (Env.ofPairs bindings) strict)
  | .share name strict env => created name (Interpreter.on env strict)
  | .copy name target newName => do
    let value ← Action.lookup interpreter.env name
    Action.bindName target newName value
    return .done

structure Session where
  interpreters : Interpreters
  store : Store

namespace Session

/-- A session with one interpreter, and the events of making it. -/
def start (name : String) (strict : Bool) : Session × List Event :=
  let r := Interpreter.create {} strict {}
  (⟨r.outcome.toOption.toList.map (name, ·), r.store⟩, r.events)

def find? (session : Session) (name : String) : Option Interpreter :=
  session.interpreters.lookup name

/-- Does what is asked of an interpreter and keeps what it leaves
behind. -/
def perform (session : Session) (files : Files) (interpreter : Interpreter)
    (request : Request) : Except Stop Reply × List Event × Session :=
  let r := interpreter.perform files request session.store
  let interpreters :=
    match r.outcome with
    | .ok (.created name made _) => (name, made) :: session.interpreters
    | _ => session.interpreters
  (r.outcome, r.events, ⟨interpreters, r.store⟩)

/-- The number of bindings in the environment of the interpreter that has
the given name now. -/
def size (session : Session) (name : String) : Nat :=
  match session.find? name with
  | some interpreter => (session.store.get interpreter.env).size
  | none => 0

end Session

end TinyLisp
