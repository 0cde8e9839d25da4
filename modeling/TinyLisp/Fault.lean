import TinyLisp.Expr
import TinyLisp.Text.Ansi
import TinyLisp.Text.Quoted
import TinyLisp.Text.Utf8

/-!
# What can go wrong

A `Fault` is an error of the user's program, in reading it or in
evaluating it. A `Stop` is any reason for a computation to end without a
value: a fault, a request to exit, an interrupt from the keyboard, a file
that cannot be read, or an expression nested deeper than a walk over it
goes. Every wording is given here, once.
-/

namespace TinyLisp

/-- Faults of a text that is no expression. -/
inductive ReadFault where
  | general (message : String)
  /-- The text ends before the expression does. -/
  | endOfInput (message : String)
  /-- A closing parenthesis stands where no list is open. -/
  | unmatchedClose (message : String)
  | unterminatedLiteral (token : String)
  /-- The token starts with a digit and is not a number. -/
  | invalidNumber (token : String)
  /-- Tokens follow the one expression that was asked for. -/
  | trailingTokens (tokens : List String)

/-- Faults of an expression that has no value. -/
inductive EvalFault where
  | general (message : String)
  | unboundSymbol (name : String)
  | emptyList
  /-- The head of a list is something else than a function. -/
  | notCallable (tag : String)
  | unexpectedFunction
  | nullValue
  /-- An argument of the wrong kind, with the function it was given to. -/
  | typeMismatch (expected actual : String) (function : Option String)
  | arityMismatch (function expected : String) (actual : Int)

inductive Fault where
  | general (message : String)
  | reading (fault : ReadFault)
  | evaluation (fault : EvalFault)
  /-- Lists are nested deeper than the given stage goes. -/
  | nesting (stage : String)

namespace ReadFault

def endOfText : ReadFault := .endOfInput "Unexpected end of input"

def unclosedList : ReadFault := .endOfInput "Unexpected end of input, expected ')'"

def strayClose : ReadFault := .unmatchedClose "Unexpected ')'"

def message : ReadFault → String
  | .general message | .endOfInput message | .unmatchedClose message => message
  | .unterminatedLiteral token =>
    "Unterminated literal " ++ Text.quoted token ++ ", expected closing quote"
  | .invalidNumber token => "Invalid number " ++ Text.quoted token
  | .trailingTokens tokens => "Unexpected trailing tokens: " ++ " ".intercalate tokens

/-- The names of the fault and of the families it belongs to, narrowest
first. -/
def kinds (fault : ReadFault) : List String :=
  let families := ["SkateSyntaxError", "SkateError"]
  match fault with
  | .general _ => families
  | .endOfInput _ => "UnexpectedEndOfInput" :: families
  | .unmatchedClose _ => "UnmatchedCloseParen" :: families
  | .unterminatedLiteral _ => "UnterminatedLiteral" :: families
  | .invalidNumber _ => "InvalidNumber" :: families
  | .trailingTokens _ => "TrailingTokens" :: families

end ReadFault

namespace EvalFault

def message : EvalFault → String
  | .general message => message
  | .unboundSymbol name =>
    "Attempted to access variable '" ++ name ++ "', but it is not defined"
  | .emptyList => "Expected at least one item in list"
  | .notCallable tag =>
    "Expected first element in a list to be a function, got '" ++ tag ++ "'"
  | .unexpectedFunction => "Unexpected function"
  | .nullValue => "Cannot evaluate null"
  | .typeMismatch expected actual function =>
    let place :=
      match function with
      | some name => if name.isEmpty then "" else " in " ++ name
      | none => ""
    "Expected '" ++ expected ++ "', got '" ++ actual ++ "'" ++ place
  | .arityMismatch function expected actual =>
    function ++ " takes " ++ expected ++ " argument(s), got " ++ actual.repr

/-- The names of the fault and of the families it belongs to, narrowest
first. -/
def kinds (fault : EvalFault) : List String :=
  let families := ["SkateEvalError", "SkateError"]
  match fault with
  | .general _ => families
  | .unboundSymbol _ => "UnboundSymbol" :: families
  | .emptyList => "EmptyList" :: families
  | .notCallable _ => "NotCallable" :: families
  | .unexpectedFunction => "UnexpectedCallable" :: families
  | .nullValue => "CannotEvaluateNull" :: families
  | .typeMismatch .. => "TypeMismatch" :: families
  | .arityMismatch .. => "ArityMismatch" :: families

end EvalFault

namespace Fault

def message : Fault → String
  | .general message => message
  | .reading fault => fault.message
  | .evaluation fault => fault.message
  | .nesting stage => "Expression nested too deeply to " ++ stage

def kinds : Fault → List String
  | .general _ => ["SkateError"]
  | .reading fault => fault.kinds
  | .evaluation fault => fault.kinds
  | .nesting _ => ["NestingTooDeep", "SkateError"]

end Fault

/-- Why a file cannot be had as text. -/
inductive FileFault where
  | notFound
  | notDirectory
  | isDirectory
  | undecodable (fault : Text.Utf8Fault)

def FileFault.message (path : String) : FileFault → String
  | .notFound => "[Errno 2] No such file or directory: " ++ Text.quoted path
  | .notDirectory => "[Errno 20] Not a directory: " ++ Text.quoted path
  | .isDirectory => "[Errno 21] Is a directory: " ++ Text.quoted path
  | .undecodable fault => fault.message

/-- Why a computation ended without a value. -/
inductive Stop where
  | fault (cause : Fault)
  | exit (status : Int)
  | interrupted
  /-- A token without characters, which no text contains. -/
  | emptyToken
  /-- An integer past all numbers was to be made a number. -/
  | overflow
  /-- A value other than a function was called from outside the language. -/
  | notFunction (variant : String)
  | unreadable (path : String) (cause : FileFault)
  /-- A walk over an expression ran out of levels where nothing makes that
  a fault. -/
  | exhausted

namespace Stop

def message : Stop → String
  | .fault cause => cause.message
  | .exit status => "exit " ++ status.repr
  | .interrupted => ""
  | .emptyToken => "string index out of range"
  | .overflow => "int too large to convert to float"
  | .notFunction variant => "'" ++ variant ++ "' object is not callable"
  | .unreadable path cause => cause.message path
  | .exhausted => "maximum recursion depth exceeded"

/-- The names of a fault or of the request to exit, narrowest first. -/
def kinds : Stop → List String
  | .fault cause => cause.kinds
  | .exit _ => ["ExitRequested"]
  | _ => []

/-- The line that reports an error to the user. -/
def report (stop : Stop) (color : Bool) : String :=
  let line := "Error: " ++ stop.kinds.headD "" ++ ": " ++ stop.message
  if color then Text.paint .red line else line

end Stop

/-- The number nearest to an integer. -/
def Expr.ofInt (n : Int) : Except Stop Expr :=
  match Double.ofInt? n with
  | some x => .ok (.number x)
  | none => .error .overflow

/-- A fault in reading, as a reason to stop. -/
def ReadFault.stop (fault : ReadFault) : Stop := .fault (.reading fault)

/-- A fault in evaluating, as a reason to stop. -/
def EvalFault.stop (fault : EvalFault) : Stop := .fault (.evaluation fault)

end TinyLisp
