/-!
# Options on the command line

The words of a command line are options and operands. An option is a word
with dashes in front: a *switch* stands alone, a *setting* takes a value,
either after `=` or from the next word, whatever that word looks like. A
setting may also have a letter, with the value right behind it or in the
next word. After `--` all words are operands.
-/

namespace TinyLisp.CommandLine

/-- The options that a command knows. -/
structure Options where
  switches : List String
  settings : List String := []
  /-- Letters that stand for settings. -/
  letters : List (Char × String) := []

/-- A word of the command line with its part. -/
inductive Argument where
  | switch (name : String)
  | setting (name value : String)
  | operand (text : String)

/-- What a word turns out to be, seen by itself. -/
inductive Word where
  /-- Makes all words after it operands. -/
  | divider
  | operand
  | switch (name : String)
  | setting (name value : String)
  /-- A setting whose value is the next word. -/
  | awaiting (name : String)
  | unknown

namespace Options

/-- A word that starts with a dash and a letter: the letter of a setting,
perhaps with its value. -/
def classifyLetter (options : Options) : List Char → Word
  | '-' :: letter :: value =>
    match options.letters.lookup letter with
    | some name => if value.isEmpty then .awaiting name else .setting name (String.ofList value)
    | none => .unknown
  | _ => .unknown

/-- A word that starts with a dash: its name, up to an equals sign, and
the value behind that. -/
def classifyOption (options : Options) (chars : List Char) : Word :=
  let name := String.ofList (chars.takeWhile (· != '='))
  let value := chars.dropWhile (· != '=')
  if options.switches.contains name then if value.isEmpty then .switch name else .unknown
  else if options.settings.contains name then
    if value.isEmpty then .awaiting name else .setting name (String.ofList (value.drop 1))
  else if chars.take 2 == ['-', '-'] then .unknown
  else options.classifyLetter chars

def classify (options : Options) (word : String) : Word :=
  match word.toList with
  | ['-', '-'] => .divider
  | '-' :: c :: rest => options.classifyOption ('-' :: c :: rest)
  | _ => .operand

/-- The parts of all words, if they are in order. Unless options and
operands may be mixed, all words after the first operand are operands
too. -/
def scan (options : Options) (mixed : Bool) : List String → Option (List Argument)
  | [] => some []
  | word :: rest =>
    match options.classify word with
    | .divider => some (rest.map .operand)
    | .operand =>
      if mixed then (.operand word :: ·) <$> options.scan mixed rest
      else some ((word :: rest).map .operand)
    | .switch name => (.switch name :: ·) <$> options.scan mixed rest
    | .setting name value => (.setting name value :: ·) <$> options.scan mixed rest
    | .awaiting name =>
      match rest with
      | [] => none
      | value :: rest => (.setting name value :: ·) <$> options.scan mixed rest
    | .unknown => none

end Options

namespace Argument

def operand? : Argument → Option String
  | .operand text => some text
  | _ => none

def switch? : Argument → Option String
  | .switch name => some name
  | _ => none

/-- The value of the setting with the given name. -/
def value? (name : String) : Argument → Option String
  | .setting n value => if n = name then some value else none
  | _ => none

end Argument

end TinyLisp.CommandLine
