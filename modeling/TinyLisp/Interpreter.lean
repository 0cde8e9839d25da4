import TinyLisp.Eval
import TinyLisp.Files
import TinyLisp.Reader

/-!
# Interpreters

An interpreter evaluates source text in one environment, which it supplies
with the predefined functions when it is made. What is defined stays
defined between one text and the next.
-/

namespace TinyLisp

structure Interpreter where
  env : EnvId
  /-- Whether nothing may follow an expression that is evaluated alone. -/
  strict : Bool
  /-- How deep lists may nest, in reading and in evaluating. -/
  limit : Nat := nestingLimit

/-- The predefined functions of an environment, in the order in which they
are bound. -/
def predefined (home : EnvId) : List (String × Expr) :=
  [ ("+", .fn "+" .add),
    ("-", .fn "-" .subtract),
    ("def", .fn "def" (.define home)),
    ("echo", .fn "echo" (.echo home)),
    ("env", .fn "env" (.listing home)),
    ("exit", .fn "exit" .exit) ]

/-- Evaluates the first expression of a text in an environment. -/
def evaluateText (limit : Nat) (env : EnvId) (strict : Bool) (source : String) :
    Action Expr := do
  let e ← Action.ofExcept (readFirst limit strict source)
  evaluate limit env e

/-- The values of a number of expressions, in order. -/
def evaluateForms (limit : Nat) (env : EnvId) : List Expr → Action (List Expr)
  | [] => return []
  | e :: rest => do
    let value ← evaluate limit env e
    let values ← evaluateForms limit env rest
    return value :: values

/-- The value of the last of a number of expressions, which are evaluated
in order; the given value if there are none. -/
def evaluateLast (limit : Nat) (env : EnvId) (last : Expr) : List Expr → Action Expr
  | [] => return last
  | e :: rest => do
    let value ← evaluate limit env e
    evaluateLast limit env value rest

/-- Stops if a script has an end that cannot be read. -/
def Script.finish (script : Script) : Action Unit :=
  match script.failure with
  | some reason => .stop reason
  | none => return ()

namespace Interpreter

/-- An interpreter on an environment of the store, in which the predefined
functions are bound (again). -/
def on (env : EnvId) (strict : Bool) : Action Interpreter := do
  Action.bindNames env (predefined env)
  return { env, strict }

/-- An interpreter on a new environment with the given bindings. -/
def create (bindings : Env) (strict : Bool) : Action Interpreter := do
  let env ← Action.newEnv bindings
  on env strict

/-- Evaluates the first expression of a text. -/
def eval (interpreter : Interpreter) (source : String) : Action Expr :=
  evaluateText interpreter.limit interpreter.env interpreter.strict source

/-- Evaluates all expressions of a text. An end that cannot be read is
found when all before it is done. -/
def evalAll (interpreter : Interpreter) (source : String) : Action (List Expr) := do
  let script := readAll interpreter.limit source
  let values ← evaluateForms interpreter.limit interpreter.env script.forms
  script.finish
  return values

/-- Evaluates all expressions of a file. The value is that of the last
one, null if there is none. -/
def load (interpreter : Interpreter) (files : Files) (path : Path) : Action Expr := do
  Action.emit (.loading path.text)
  let source ← Action.ofExcept (files.readText path)
  let script := readAll interpreter.limit source
  let value ← evaluateLast interpreter.limit interpreter.env .null script.forms
  script.finish
  return value

end Interpreter

end TinyLisp
