import TinyLisp.Interpreter

/-!
# The interactive loop

One line at a time: it is read, evaluated and answered with its value or
with the fault that kept it from having one. A fault ends its line only.
The loop itself ends at the end of the input, at a command to quit, when a
line asks to exit, or when the value of a line is nested too deeply to be
shown, which is no fault and breaks it off.
-/

namespace TinyLisp

/-- What the user enters when asked for a line. -/
inductive Input where
  | line (text : String)
  /-- Breaks off the entry of a line. -/
  | interrupt

structure Repl where
  interpreter : Interpreter
  prompt : String
  color : Bool

namespace Repl

def isQuit (line : String) : Bool :=
  let command := Text.trim line
  command == ":quit" || command == ":q"

/-- Evaluates a line and gives its answer, none for a blank line. -/
def step (repl : Repl) (line : String) : Action (Option String) := do
  if Text.isBlankText line then return none
  match ← (repl.interpreter.eval line).attempt with
  | .ok value => return some (← Action.ofExcept (value.shown repl.color))
  | .error (.fault fault) =>
    Action.emit (.reported fault)
    return some ((Stop.fault fault).report repl.color)
  | .error reason => .stop reason

/-- Asks for a line and deals with what is entered. Gives the status to
exit with if the loop is over. -/
def turn (repl : Repl) (input : Input) : Action (Option Int) := do
  Action.emit (.prompted repl.prompt)
  match input with
  | .interrupt =>
    Action.emit (.answered "")
    return none
  | .line line =>
    if isQuit line then return some 0
    match ← (repl.step line).attempt with
    | .ok none => return none
    | .ok (some answer) =>
      Action.emit (.answered answer)
      return none
    | .error (.exit status) => return some status
    | .error .interrupted =>
      Action.emit (.answered "Interrupted")
      return none
    | .error reason => .stop reason

/-- Takes turns until one ends the loop or the input ends. -/
def turns (repl : Repl) : List Input → Action Int
  | [] => do
    Action.emit (.prompted repl.prompt)
    return 0
  | input :: rest => do
    match ← repl.turn input with
    | some status => return status
    | none => repl.turns rest

/-- The whole loop. Its value is the status to exit with. -/
def run (repl : Repl) (inputs : List Input) : Action Int := do
  Action.emit .loopStarted
  let status ← repl.turns inputs
  Action.emit (.loopStopped status)
  return status

end Repl

end TinyLisp
