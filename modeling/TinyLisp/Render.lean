import TinyLisp.Fault
import TinyLisp.Number.Text

/-!
# How expressions are shown

`Expr.render` is the form for the user, `(TAG, value)`, with the tag grey
and the value in the colour of its kind if colour is wanted. It is made
going down into every list, and that goes down a limited number of levels:
`Expr.shown` is the form, or the news that it could not be made.
`Expr.describe` is the form for the log, with every text quoted.
-/

namespace TinyLisp

/-- How deep lists may nest in an expression that is shown. -/
def renderingLimit : Nat := 240

/-- The colour in which the values of a kind are shown. -/
def Tag.color? : Tag → Option Text.Color
  | .float => some .blue
  | .literal => some .green
  | .fn => some .magenta
  | _ => none

/-- The text in the colour of a tag, if colour is wanted and the tag is
known and has one. -/
def colorize (color : Bool) (tag : Option Tag) (text : String) : String :=
  if color then
    match tag.bind Tag.color? with
    | some c => Text.paint c text
    | none => text
  else text

namespace Expr

mutual

/-- The value of an expression without its tag, never coloured. -/
def value : Expr → String
  | .symbol name => name
  | .literal text => text
  | .number x => x.text
  | .list items => "[" ++ ", ".intercalate (values items) ++ "]"
  | .fn _ _ => "..."
  | .null => "null"

/-- The items of a list, each with its tag. -/
def values : List Expr → List String
  | [] => []
  | x :: xs => ("(" ++ x.tag.name ++ ", " ++ value x ++ ")") :: values xs

end

/-- An expression with its tag. -/
def render (color : Bool) (e : Expr) : String :=
  let tag := if color then Text.paint .grey e.tag.name else e.tag.name
  "(" ++ tag ++ ", " ++ colorize color (some e.tag) e.value ++ ")"

/-- A name with the expression it is bound to. -/
def renderBinding (color : Bool) (name : String) (e : Expr) : String :=
  name ++ " = " ++ e.render color

/-- Whether the form of an expression can be made. Every list is gone
into, so it can exactly if none is nested too deep. -/
def isRenderable (e : Expr) : Bool := e.depth ≤ renderingLimit

/-- An expression with its tag, if that can be made. -/
def shown (color : Bool) (e : Expr) : Except Stop String :=
  if e.isRenderable then .ok (e.render color) else .error .exhausted

mutual

/-- An expression spelled out as the constructors it is built from. -/
def describe : Expr → String
  | .symbol name => "Symbol(name=" ++ Text.quoted name ++ ")"
  | .literal text => "Literal(text=" ++ Text.quoted text ++ ")"
  | .number x => "Float(value=" ++ x.spelling ++ ")"
  | .list [item] => "List(items=(" ++ describe item ++ ",))"
  | .list items => "List(items=(" ++ ", ".intercalate (describeAll items) ++ "))"
  | .fn name operation =>
    "Callable(name=" ++ Text.quoted name ++ ", fn=<function " ++ operation.word ++ ">)"
  | .null => "Null"

def describeAll : List Expr → List String
  | [] => []
  | x :: xs => describe x :: describeAll xs

end

end Expr

end TinyLisp
