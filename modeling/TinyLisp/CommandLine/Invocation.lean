import TinyLisp.CommandLine.Options
import TinyLisp.Event
import TinyLisp.Settings

/-!
# What the command line asks for

Of several things that are wrong, the first in this order counts: an
option in front of the command that is not in order, a missing or unknown
command, the log level, and then the words after the command.
-/

namespace TinyLisp.CommandLine

/-- What there is to do. A mode that is not given is left to the
settings. -/
inductive Command where
  | repl (prompt : Option String) (strict : Option Bool) (loads : List String) (color : Bool)
  | eval (code : String) (strict : Option Bool)
  | run (path : String)

inductive Invocation where
  | version
  | help
  /-- The command line is not in order, perhaps with a word on why. -/
  | misuse (detail : Option String)
  | command (level : Level) (command : Command)

/-- The options before the command. -/
def rootOptions : Options where
  switches := ["--version", "--help"]
  settings := ["--log-level"]

def replOptions : Options where
  switches := ["--strict", "--lenient", "--color", "--help"]
  settings := ["--prompt", "--load"]
  letters := [('l', "--load")]

def evalOptions : Options where
  switches := ["--strict", "--lenient", "--help"]

def runOptions : Options where
  switches := ["--help"]

/-- The switches among the arguments, in order. -/
def switches (arguments : List Argument) : List String := arguments.filterMap Argument.switch?

/-- The operands among the arguments, in order. -/
def operands (arguments : List Argument) : List String := arguments.filterMap Argument.operand?

/-- The values of a setting, in order. -/
def valuesOf (name : String) (arguments : List Argument) : List String :=
  arguments.filterMap (Argument.value? name)

/-- The mode that the last switch for it sets. -/
def strictness (arguments : List Argument) : Option Bool :=
  ((switches arguments).filter fun s => s == "--strict" || s == "--lenient").getLast?.map
    (· == "--strict")

/-- Reads the words after a command, given what its arguments mean. -/
def readCommand (level : Level) (options : Options) (words : List String)
    (meaning : List Argument → Option Command) : Invocation :=
  match options.scan true words with
  | none => .misuse none
  | some arguments =>
    if (switches arguments).contains "--help" then .help
    else
      match meaning arguments with
      | some command => .command level command
      | none => .misuse none

def replCommand (arguments : List Argument) : Option Command :=
  match operands arguments with
  | [] =>
    some (.repl (valuesOf "--prompt" arguments).getLast? (strictness arguments)
      (valuesOf "--load" arguments) ((switches arguments).contains "--color"))
  | _ => none

def evalCommand (arguments : List Argument) : Option Command :=
  match operands arguments with
  | [code] => some (.eval code (strictness arguments))
  | _ => none

def runCommand (arguments : List Argument) : Option Command :=
  match operands arguments with
  | [path] => some (.run path)
  | _ => none

/-- The name of the log level in use. One that is given and not empty
counts, in capitals, before the one of the settings. -/
def levelName (settings : Settings) (arguments : List Argument) : String :=
  match (valuesOf "--log-level" arguments).getLast? with
  | some given => Text.upper (if given.isEmpty then settings.logLevel else given)
  | none => Text.upper settings.logLevel

def unknownLevel (name : String) : String :=
  "Invalid value for --log-level / SKATE_LOG_LEVEL: unknown level " ++ Text.quoted name
    ++ ", expected one of DEBUG, INFO, WARNING, ERROR, CRITICAL"

/-- Reads the words from the command on. -/
def readOperands (level : String) : List String → Invocation
  | [] => .misuse none
  | name :: words =>
    let withLevel (read : Level → Invocation) : Invocation :=
      match Level.ofName? level with
      | some level => read level
      | none => .misuse (some (unknownLevel level))
    if name = "repl" then withLevel fun level => readCommand level replOptions words replCommand
    else if name = "eval" then
      withLevel fun level => readCommand level evalOptions words evalCommand
    else if name = "run" then
      withLevel fun level => readCommand level runOptions words runCommand
    else .misuse none

/-- Reads a command line. -/
def Invocation.ofWords (settings : Settings) (words : List String) : Invocation :=
  match rootOptions.scan false words with
  | none => .misuse none
  | some arguments =>
    match switches arguments with
    | "--version" :: _ => .version
    | _ :: _ => .help
    | [] => readOperands (levelName settings arguments) (operands arguments)

end TinyLisp.CommandLine
