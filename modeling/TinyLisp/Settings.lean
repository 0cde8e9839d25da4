import TinyLisp.Files
import TinyLisp.Text.Blank
import TinyLisp.Text.Upper

/-!
# Settings

What the user can preset by environment variables of the system.
-/

namespace TinyLisp

/-- The variables of the system that are set. -/
abbrev Variables := List (String × String)

/-- What the variables preset. -/
structure Settings where
  prompt : String
  strict : Bool
  logLevel : String
  loadPaths : List Path

namespace Settings

/-- Whether a text says yes. Only ASCII letters have to be lowered: no
other character has one of the letters of these words as its small form. -/
def saysYes (text : String) : Bool :=
  ["1", "true", "yes", "on"].contains
    (String.ofList ((Text.trim text).toList.map Char.toLower))

/-- The switch that a variable sets. One that is unset or blank leaves it
as it is. -/
def flag (vars : Variables) (name : String) (unset : Bool) : Bool :=
  match vars.lookup name with
  | none => unset
  | some text => if Text.isBlankText text then unset else saysYes text

/-- The paths in a variable, between colons. Blank ones do not count. -/
def paths (vars : Variables) (name : String) : List Path :=
  let pieces := ((vars.lookup name).getD "").toList.splitOn ':'
  ((pieces.map fun piece => Text.trim (String.ofList piece)).filter (· != "")).map Path.ofText

def of (vars : Variables) : Settings where
  prompt := (vars.lookup "SKATE_PROMPT").getD "Lisp > "
  strict := flag vars "SKATE_STRICT" false
  logLevel := Text.upper ((vars.lookup "SKATE_LOG_LEVEL").getD "WARNING")
  loadPaths := paths vars "SKATE_LOAD_PATH"

end Settings

end TinyLisp
