import TinyLisp.Number.Double

/-!
# Expressions

Programs and values are the same data: symbols, quoted literals, numbers,
lists, functions and null. The functions are a closed set of operations.
Those that act on an environment carry a handle to it, so a function that
is passed around keeps acting on the environment it was made for.
-/

namespace TinyLisp

/-- A handle to an environment of the store. -/
abbrev EnvId := Nat

/-- What a function does when it is applied. -/
inductive Operation where
  | add
  | subtract
  /-- Binds a name in its home environment. -/
  | define (home : EnvId)
  /-- Evaluates its argument once more, in its home environment. -/
  | echo (home : EnvId)
  /-- Lists the bindings of its home environment. -/
  | listing (home : EnvId)
  | exit
  /-- Breaks off the evaluation, as the user does from the keyboard. -/
  | interrupt
  deriving DecidableEq

/-- The environment that an operation acts on. -/
def Operation.home? : Operation → Option EnvId
  | .define home | .echo home | .listing home => some home
  | _ => none

/-- The word for an operation, the same for every home. -/
def Operation.word : Operation → String
  | .add => "add"
  | .subtract => "sub"
  | .define _ => "define"
  | .echo _ => "echo"
  | .listing _ => "dump_env"
  | .exit => "exit_session"
  | .interrupt => "interrupt"

inductive Expr where
  /-- Stands for what its name is bound to. -/
  | symbol (name : String)
  /-- A quoted atom, which stands for itself. -/
  | literal (text : String)
  | number (value : Double)
  /-- An application, when evaluated. -/
  | list (items : List Expr)
  | fn (name : String) (operation : Operation)
  /-- The result of what is done for its effect only. -/
  | null

/-- The kinds of expression. -/
inductive Tag where
  | symbol
  | literal
  | float
  | list
  | fn
  | null
  deriving DecidableEq

def Tag.name : Tag → String
  | .symbol => "SYMBOL"
  | .literal => "LITERAL"
  | .float => "FLOAT"
  | .list => "LIST"
  | .fn => "FN"
  | .null => "NULL"

/-- All tags. -/
def Tag.all : List Tag := [.symbol, .literal, .float, .list, .fn, .null]

def Tag.ofName? (name : String) : Option Tag := Tag.all.find? (·.name == name)

namespace Expr

def tag : Expr → Tag
  | .symbol _ => .symbol
  | .literal _ => .literal
  | .number _ => .float
  | .list _ => .list
  | .fn _ _ => .fn
  | .null => .null

/-- The word for the form of an expression. -/
def variant : Expr → String
  | .symbol _ => "Symbol"
  | .literal _ => "Literal"
  | .number _ => "Float"
  | .list _ => "List"
  | .fn _ _ => "Callable"
  | .null => "NullType"

/-- Null and the empty list count as false, all else as true. -/
def truthy : Expr → Bool
  | .null | .list [] => false
  | _ => true

/-! ## Depth -/

mutual

/-- How deep lists nest in an expression. -/
def depth : Expr → Nat
  | .list items => depthAll items + 1
  | _ => 0

/-- How deep lists nest in the deepest of the expressions. -/
def depthAll : List Expr → Nat
  | [] => 0
  | e :: es => max e.depth (depthAll es)

end

/-! ## Equality -/

mutual

/-- Structural equality of expressions that were built apart. Numbers are
compared as numbers, so the zeros are equal and NaN equals nothing;
functions are compared by name and operation, whatever their home. -/
def same : Expr → Expr → Bool
  | .symbol a, .symbol b => a == b
  | .literal a, .literal b => a == b
  | .number x, .number y => x.same y
  | .list xs, .list ys => sameAll xs ys
  | .fn m f, .fn n g => m == n && f.word == g.word
  | .null, .null => true
  | _, _ => false

def sameAll : List Expr → List Expr → Bool
  | [], [] => true
  | x :: xs, y :: ys => same x y && sameAll xs ys
  | _, _ => false

end

mutual

/-- A hash that respects `same`: it does not see the sign of a zero or the
home of a function. -/
def digest : Expr → UInt64
  | .symbol name => mixHash 1 (hash name)
  | .literal text => mixHash 2 (hash text)
  | .number (.finite negative place) =>
    mixHash 3 (mixHash (hash (negative && place.val != 0)) (hash place.val))
  | .number (.infinite negative) => mixHash 4 (hash negative)
  | .number .nan => 5
  | .list items => mixHash 6 (digestAll items)
  | .fn name operation => mixHash 7 (mixHash (hash name) (hash operation.word))
  | .null => 8

def digestAll : List Expr → UInt64
  | [] => 9
  | x :: xs => mixHash (digest x) (digestAll xs)

end

end Expr

end TinyLisp
