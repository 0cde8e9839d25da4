import TinyLisp.CommandLine.Execution

/-!
# The program

Reads what the command line, the system's variables, the files and
standard input hold, and prints what comes of it. All that it decides is
decided in the modules it imports.
-/

namespace TinyLisp.Program

open CommandLine

/-- The variables that are looked at. -/
def variableNames : List String :=
  ["SKATE_PROMPT", "SKATE_STRICT", "SKATE_LOG_LEVEL", "SKATE_LOAD_PATH"]

def readVariables : IO Variables :=
  variableNames.filterMapM fun name => do
    return (← IO.getEnv name).map (name, ·)

/-- Why the system could not read a file. -/
def faultOf : IO.Error → FileFault
  | .inappropriateType _ code _ =>
    if code = 21 then .isDirectory else .notDirectory
  | _ => .notFound

def readBytes (path : String) : IO (Except FileFault (List UInt8)) := do
  try
    return .ok (← IO.FS.readBinFile path).toList
  catch error =>
    return .error (faultOf error)

/-- The files at the given paths, read in advance. Programs cannot change
files, so it makes no difference when they are read. -/
def readFiles (paths : List String) : IO Files := do
  let contents ← paths.mapM fun path => do return (path, ← readBytes path)
  return fun path => (contents.lookup path).getD (.error .notFound)

/-- The texts of the paths that a command reads. -/
def pathsOf (settings : Settings) : Invocation → List String
  | .command _ (.run path) => [path, (Path.ofText path).text]
  | .command _ (.repl _ _ loads _) => (loadPaths settings loads).map Path.text
  | _ => []

/-- The status as the system takes it. -/
def exitCode (status : Int) : UInt32 := UInt32.ofNat (status % 256).toNat

/-- Prints what a number of events put on the screen and in the log. -/
def present (level : Level) (events : List Event) : IO Unit := do
  let out ← IO.getStdout
  for event in events do
    out.putStr event.screen
    match event.logLine? level with
    | some line => IO.eprintln line
    | none => pure ()
  out.flush

/-- Takes turns with the user, beginning with the lines that are entered
already. -/
partial def converse (level : Level) (repl : Repl) (store : Store) (entered : List String) :
    IO Int := do
  present level [.prompted repl.prompt]
  let entered ← if entered.isEmpty then Text.lines <$> (← IO.getStdin).getLine else pure entered
  match entered with
  | [] => return 0
  | line :: rest =>
    let r := repl.turn (.line line) store
    -- the prompt was shown before the line was read
    present level (r.events.drop 1)
    match r.outcome with
    | .ok none => converse level repl r.store rest
    | .ok (some status) => return status
    | .error reason =>
      IO.eprintln (reason.report false)
      return 1

def interactive (level : Level) (repl : Repl) (store : Store) : IO UInt32 := do
  present level [.loopStarted]
  let status ← converse level repl store []
  present level [.loopStopped status]
  return exitCode status

def conclude (outcome : Outcome) : IO UInt32 := do
  IO.print outcome.stdout
  IO.eprint outcome.stderr
  return exitCode outcome.status

def start (words : List String) : IO UInt32 := do
  let vars ← readVariables
  let settings := Settings.of vars
  let invocation := Invocation.ofWords settings words
  let files ← readFiles (pathsOf settings invocation)
  match invocation with
  | .command level (.repl prompt strict loads color) =>
    let r := prepare files (strict.getD settings.strict) (loadPaths settings loads) {}
    match r.outcome with
    | .ok (.ok interpreter) =>
      present level r.events
      interactive level ⟨interpreter, prompt.getD settings.prompt, color⟩ r.store
    | .ok (.error verdict) => conclude (.ofRun level ⟨.ok verdict, r.store, r.events⟩)
    | .error reason => conclude (.ofRun level ⟨.error reason, r.store, r.events⟩)
  | _ => conclude (invocation.outcome ⟨vars, files, ""⟩)

end TinyLisp.Program

def main (words : List String) : IO UInt32 := TinyLisp.Program.start words
