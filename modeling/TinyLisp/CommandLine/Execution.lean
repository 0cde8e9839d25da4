import TinyLisp.CommandLine.Invocation
import TinyLisp.Repl
import TinyLisp.Text.Lines

/-!
# Carrying out commands

A command runs on the settings, the files and the lines of input it finds,
and ends with a verdict: the status to exit with and perhaps a complaint.
What it prints and logs is in its events.
-/

namespace TinyLisp.CommandLine

/-- What a command finds when it starts. -/
structure World where
  vars : Variables
  files : Files
  /-- The text on standard input. -/
  input : String

/-- How a command ends. -/
structure Verdict where
  status : Int
  complaint : Option String := none

/-- What is left of a run when it is over. -/
structure Outcome where
  status : Int
  stdout : String
  stderr : String

def usageError : String := "usage error"

/-- A line for the user. It stands for the output routine of the command
line's own library: that strips a line of its escape sequences unless it
goes to a terminal, and the output here is taken to go to none. -/
def say (line : String) : Action Unit := Action.emit (.answered (Text.stripAnsi line))

/-- How a command ends that was stopped: with the status asked for, or
with a complaint, which takes the way of `say`. -/
def stopped (complaint : Stop → String) : Stop → Verdict
  | .exit status => ⟨status, none⟩
  | reason => ⟨1, some (Text.stripAnsi (complaint reason))⟩

/-! ## Evaluating text

The environment of a command holds what texts have defined, and no text
has a list as its value. So a value is rendered here without looking at
how deep it is. -/

/-- Evaluates one expression and prints its value. -/
def evalOne (strict : Bool) (code : String) : Action Verdict := do
  let interpreter ← Interpreter.create {} strict
  match ← (interpreter.eval code).attempt with
  | .ok value =>
    say (value.render false)
    return ⟨0, none⟩
  | .error reason => return stopped (·.report false) reason

/-- Evaluates expressions in order and prints the value of each. -/
def printForms (limit : Nat) (env : EnvId) : List Expr → Action Unit
  | [] => return ()
  | e :: rest => do
    let value ← evaluate limit env e
    say (value.render false)
    printForms limit env rest

/-- Evaluates all expressions of a text and prints the value of each. -/
def printAll (interpreter : Interpreter) (source : String) : Action Unit := do
  let script := readAll interpreter.limit source
  printForms interpreter.limit interpreter.env script.forms
  script.finish

/-- Runs the program in a file. A path that leads to no file is a misuse
of the command. -/
def runFile (files : Files) (path : String) : Action Verdict := do
  match files path with
  | .error _ => return ⟨2, some usageError⟩
  | .ok _ =>
    let interpreter ← Interpreter.create {} false
    match files.readText (Path.ofText path) with
    | .error reason =>
      let complaint := "Failed to read " ++ (Path.ofText path).text ++ ": " ++ reason.message
      return ⟨1, some (Text.stripAnsi complaint)⟩
    | .ok source =>
      match ← (printAll interpreter source).attempt with
      | .ok () => return ⟨0, none⟩
      | .error reason => return stopped (·.report false) reason

/-! ## The interactive loop -/

/-- Loads files in order. Gives a verdict if one of them ends the
command. -/
def loadAll (interpreter : Interpreter) (files : Files) : List Path → Action (Option Verdict)
  | [] => return none
  | path :: rest => do
    match ← (interpreter.load files path).attempt with
    | .ok _ => loadAll interpreter files rest
    | .error reason =>
      return some (stopped (fun r => "Failed to load " ++ path.text ++ ": " ++ r.message) reason)

/-- Makes ready for the loop: an interpreter on which all files are
loaded, or the verdict if that fails. -/
def prepare (files : Files) (strict : Bool) (paths : List Path) :
    Action (Except Verdict Interpreter) := do
  let interpreter ← Interpreter.create {} strict
  match ← loadAll interpreter files paths with
  | some verdict => return .error verdict
  | none => return .ok interpreter

/-- Loads files and then answers lines. -/
def interact (files : Files) (strict : Bool) (paths : List Path) (prompt : String)
    (color : Bool) (lines : List String) : Action Verdict := do
  match ← prepare files strict paths with
  | .error verdict => return verdict
  | .ok interpreter =>
    let status ← Repl.run ⟨interpreter, prompt, color⟩ (lines.map .line)
    return ⟨status, none⟩

/-! ## Commands -/

/-- The files that are loaded before the loop starts. -/
def loadPaths (settings : Settings) (loads : List String) : List Path :=
  settings.loadPaths ++ loads.map Path.ofText

def Command.perform (world : World) : Command → Action Verdict
  | .eval code strict => evalOne (strict.getD (Settings.of world.vars).strict) code
  | .run path => runFile world.files path
  | .repl prompt strict loads color =>
    let settings := Settings.of world.vars
    interact world.files (strict.getD settings.strict) (loadPaths settings loads)
      (prompt.getD settings.prompt) color (Text.lines world.input)

/-- A line with its end mark, nothing if there is none. -/
def lineOf : Option String → String
  | some line => line ++ "\n"
  | none => ""

/-- The outcome of a run of a command that is logged at a level. -/
def Outcome.ofRun (level : Level) (r : Run Verdict) : Outcome :=
  let verdict :=
    match r.outcome with
    | .ok verdict => verdict
    | .error reason => stopped (·.report false) reason
  { status := verdict.status
    stdout := String.join (r.events.map Event.screen)
    stderr := String.join ((logLines level r.events).map (· ++ "\n")) ++ lineOf verdict.complaint }

def versionLine : String := "skate 0.1.0"

def helpText : String :=
  "Usage: skate [--version] [--log-level LEVEL] COMMAND\n\n"
    ++ "A tiny Lisp: floats, literals and a handful of builtins.\n\n"
    ++ "  repl [--prompt TEXT] [--strict|--lenient] [--load FILE]... [--color]\n"
    ++ "  eval CODE [--strict|--lenient]\n"
    ++ "  run FILE\n"

/-- Carries out what a command line asks for. -/
def Invocation.outcome (world : World) : Invocation → Outcome
  | .version => ⟨0, versionLine ++ "\n", ""⟩
  | .help => ⟨0, helpText, ""⟩
  | .misuse none => ⟨2, "", usageError ++ "\n"⟩
  | .misuse (some detail) => ⟨2, "", usageError ++ ": " ++ detail ++ "\n"⟩
  | .command level asked => .ofRun level (asked.perform world {})

/-- Carries out a command line. -/
def execute (world : World) (words : List String) : Outcome :=
  (Invocation.ofWords (Settings.of world.vars) words).outcome world

end TinyLisp.CommandLine
