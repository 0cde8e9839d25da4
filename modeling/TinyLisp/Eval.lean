import TinyLisp.Action

/-!
# Evaluation

There are no special forms. The head of a list must have a function as its
value, the arguments are evaluated from left to right, and then the
function is applied to their values. `evaluate` goes down a limited number
of levels; a level is used up by each list around an expression and by each
value that is evaluated once more.
-/

namespace TinyLisp

/-! ## Applying a function -/

/-- The numbers among the arguments of a function, if all are. -/
def numbers (function : String) : List Expr → Except Stop (List Double)
  | [] => .ok []
  | .number x :: rest => (x :: ·) <$> numbers function rest
  | e :: _ => .error (EvalFault.typeMismatch Tag.float.name e.tag.name (some function)).stop

/-- The failure of a function applied to so many arguments. -/
def wrongCount (function expected : String) (args : List Expr) : Stop :=
  (EvalFault.arityMismatch function expected args.length).stop

/-- Binds the literal in the first argument to the second one. -/
def applyDefine (home : EnvId) : List Expr → Action Expr
  | [.literal name, value] => do
    Action.bindName home name value
    return value
  | [e, _] =>
    .stop (EvalFault.typeMismatch Tag.literal.name e.tag.name (some "def")).stop
  | args => .stop (wrongCount "def" "2" args)

/-- Lists bindings in turn, up to the first whose value cannot be shown,
and stops there for the given reason. -/
def listBindings (home : EnvId) (cut : Stop) : List (String × Expr) → Action Unit
  | [] => return ()
  | (name, value) :: rest =>
    if value.isRenderable then do
      Action.emit (.listed home name value)
      listBindings home cut rest
    else .stop cut

/-- Lists the bindings of an environment. -/
def listEnv (home : EnvId) (cut : Stop) : Action Expr := do
  let env ← Action.getEnv home
  listBindings home cut env.bindings
  return .null

/-- Lists the bindings of an environment as part of an evaluation, where a
value that cannot be shown is a fault. -/
def applyListing (home : EnvId) : Action Expr := listEnv home (.fault (.nesting "evaluate"))

/-- The reason to stop that the arguments of `exit` amount to. A number is
cut off toward zero; one that is not finite stands for failure. -/
def exitStop : List Expr → Stop
  | [] => .exit 0
  | [.number x] => .exit (x.truncate?.getD 1)
  | [e] => (EvalFault.typeMismatch Tag.float.name e.tag.name (some "exit")).stop
  | args => wrongCount "exit" "0 or 1" args

/-- Applies an operation to values, where `walk` evaluates an expression
in an environment. -/
def applyOperation (walk : EnvId → Expr → Action Expr) :
    Operation → List Expr → Action Expr
  | .add, args => do
    return .number ((← Action.ofExcept (numbers "+" args)).foldl Double.add .zero)
  | .subtract, args => do
    return .number ((← Action.ofExcept (numbers "-" args)).foldl Double.sub .zero)
  | .define home, args => applyDefine home args
  | .echo home, [e] => walk home e
  | .echo _, args => .stop (wrongCount "echo" "1" args)
  | .listing home, _ => applyListing home
  | .exit, args => .stop (exitStop args)
  | .interrupt, _ => .stop .interrupted

/-! ## Evaluating an expression -/

/-- The values of the arguments, from left to right. -/
def evaluateArgs (walk : Expr → Action Expr) : List Expr → Action (List Expr)
  | [] => return []
  | e :: rest => do
    let value ← walk e
    let values ← evaluateArgs walk rest
    return value :: values

/-- Evaluates an expression, where `walk` does so one level down. -/
def evaluateStep (walk : EnvId → Expr → Action Expr) (env : EnvId) : Expr → Action Expr
  | .number x => return .number x
  | .literal text => return .literal text
  | .symbol name => Action.lookup env name
  | .list [] => .stop EvalFault.emptyList.stop
  | .list (head :: tail) => do
    match ← walk env head with
    | .fn name operation =>
      let args ← evaluateArgs (walk env) tail
      Action.emit (.applied name operation args)
      applyOperation walk operation args
    | value => .stop (EvalFault.notCallable value.tag.name).stop
  | .fn _ _ => .stop EvalFault.unexpectedFunction.stop
  | .null => .stop EvalFault.nullValue.stop

/-- Evaluates an expression in an environment, going down at most `limit`
levels. -/
def evaluate : (limit : Nat) → EnvId → Expr → Action Expr
  | 0, _, _ => .stop (.fault (.nesting "evaluate"))
  | limit + 1, env, e => evaluateStep (evaluate limit) env e

end TinyLisp
