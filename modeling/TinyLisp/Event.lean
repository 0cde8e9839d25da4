import TinyLisp.Env
import TinyLisp.Fault
import TinyLisp.Render

/-!
# Events

What a computation does apart from its result is a list of events in the
order in which they happen. What is printed and what is logged are both
read off this list.
-/

namespace TinyLisp

inductive Event where
  /-- A name was bound. -/
  | bound (env : EnvId) (name : String) (value : Expr)
  /-- A function is about to be applied to the values of its arguments. -/
  | applied (name : String) (operation : Operation) (args : List Expr)
  /-- A binding was listed for the user. -/
  | listed (env : EnvId) (name : String) (value : Expr)
  /-- A file is about to be read. -/
  | loading (path : String)
  | loopStarted
  | loopStopped (status : Int)
  /-- A fault was reported to the user instead of a value. -/
  | reported (fault : Fault)
  /-- The user was asked for a line. -/
  | prompted (prompt : String)
  /-- A line was printed for the user. -/
  | answered (line : String)

/-! ## The log -/

/-- How much a log record matters, least first. -/
inductive Level where
  | notset
  | debug
  | info
  | warning
  | error
  | critical
  deriving DecidableEq

namespace Level

def rank : Level → Nat
  | .notset => 0
  | .debug => 1
  | .info => 2
  | .warning => 3
  | .error => 4
  | .critical => 5

def name : Level → String
  | .notset => "NOTSET"
  | .debug => "DEBUG"
  | .info => "INFO"
  | .warning => "WARNING"
  | .error => "ERROR"
  | .critical => "CRITICAL"

/-- The level with a name in capitals; two of them have two names. -/
def ofName? (name : String) : Option Level :=
  if name = "FATAL" then some .critical
  else if name = "WARN" then some .warning
  else [notset, debug, info, warning, error, critical].find? (·.name == name)

end Level

/-- A line of the log. -/
structure Record where
  level : Level
  source : String
  message : String

def Record.line (r : Record) : String := r.level.name ++ " " ++ r.source ++ ": " ++ r.message

namespace Event

/-- The log record of an event. -/
def record? : Event → Option Record
  | .bound _ name value =>
    some ⟨.debug, "skate.types.environment", "bind " ++ name ++ " = " ++ value.describe⟩
  | .applied name _ args =>
    some ⟨.debug, "skate.evaluation.evaluator",
      "apply " ++ name ++ " to " ++ args.length.repr ++ " argument(s)"⟩
  | .loading path => some ⟨.info, "skate.interpreter", "loading " ++ path⟩
  | .loopStarted => some ⟨.info, "skate.repl", "repl started"⟩
  | .loopStopped status =>
    some ⟨.info, "skate.repl", "repl stopped with status " ++ status.repr⟩
  | .reported fault =>
    some ⟨.info, "skate.repl", fault.kinds.headD "" ++ ": " ++ fault.message⟩
  | .listed .. | .prompted _ | .answered _ => none

/-- The log line of an event, if it matters at least as much as `level`. -/
def logLine? (level : Level) (event : Event) : Option String :=
  event.record?.bind fun r => if level.rank ≤ r.level.rank then some r.line else none

/-- The line that a listing printed. -/
def listedLine? : Event → Option String
  | .listed _ name value => some (value.renderBinding false name)
  | _ => none

def prompt? : Event → Option String
  | .prompted prompt => some prompt
  | _ => none

def answer? : Event → Option String
  | .answered line => some line
  | _ => none

/-- What an event puts on the screen. -/
def screen : Event → String
  | .listed _ name value => value.renderBinding false name ++ "\n"
  | .prompted prompt => prompt
  | .answered line => line ++ "\n"
  | _ => ""

end Event

/-- The log of the events, as far as it matters at least as much as
`level`. -/
def logLines (level : Level) (events : List Event) : List String :=
  events.filterMap (Event.logLine? level)

/-- The lines that listings printed, each with its end mark. -/
def listedText (events : List Event) : String :=
  String.join ((events.filterMap Event.listedLine?).map (· ++ "\n"))

end TinyLisp
