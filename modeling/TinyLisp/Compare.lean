import TinyLisp.Fault

/-!
# Comparing expressions

`Expr.same` and `Expr.digest` say which expressions are equal and what
their hashes are, however deep they are. Finding it out goes down into
lists, and that goes down a limited number of levels: `Expr.equals` and
`Expr.hashed` are what is found, or the news that the levels ran out.
-/

namespace TinyLisp

namespace Expr

mutual

/-- Whether two expressions are equal, found going down at most `limit`
lists. The first items that differ settle it, so lists that differ early
are told apart however deep they are. -/
def equalWithin : (limit : Nat) → Expr → Expr → Except Stop Bool
  | 0, .list _, .list _ => .error .exhausted
  | limit + 1, .list xs, .list ys => equalAllWithin limit xs ys
  | _, a, b => .ok (a.same b)

/-- Whether two lists of expressions are equal, item by item. -/
def equalAllWithin : (limit : Nat) → List Expr → List Expr → Except Stop Bool
  | _, [], [] => .ok true
  | limit, x :: xs, y :: ys => do
    if ← equalWithin limit x y then equalAllWithin limit xs ys else return false
  | _, _, _ => .ok false

end

end Expr

end TinyLisp
