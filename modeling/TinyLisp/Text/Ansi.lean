/-!
# Terminal colours

Colour is switched on and off by escape sequences in the text itself.
Output that does not go to a terminal is stripped of them.
-/

namespace TinyLisp.Text

/-- The character that starts an escape sequence. -/
def escape : Char := '\x1b'

/-- The colours in use, as the parameter of the sequence that sets them. -/
inductive Color where
  | grey
  | red
  | green
  | blue
  | magenta

def Color.code : Color → String
  | .grey => "\x1b[90m"
  | .red => "\x1b[91m"
  | .green => "\x1b[92m"
  | .blue => "\x1b[94m"
  | .magenta => "\x1b[95m"

/-- The text in a colour, followed by a return to the normal one. -/
def paint (color : Color) (s : String) : String := color.code ++ s ++ "\x1b[0m"

/-- Whether a character may stand among the parameters of a sequence. -/
def isParameter (c : Char) : Bool := ('0' ≤ c && c ≤ '9') || c == ';' || c == '?'

/-- Strips escape sequences: an escape, an opening bracket, parameters and
an ASCII letter. `pending` holds, newest first, the characters that may
turn out to be the start of one. -/
def stripFrom : List Char → List Char → List Char
  | pending, [] => pending.reverse
  | [], c :: cs => if c = escape then stripFrom [c] cs else c :: stripFrom [] cs
  | [e], c :: cs =>
    if c = '[' then stripFrom [c, e] cs
    else if c = escape then e :: stripFrom [c] cs
    else e :: c :: stripFrom [] cs
  | pending, c :: cs =>
    if isParameter c then stripFrom (c :: pending) cs
    else if c.isAlpha then stripFrom [] cs
    else if c = escape then pending.reverse ++ stripFrom [c] cs
    else pending.reverse ++ c :: stripFrom [] cs

/-- The text without its escape sequences, as the library that prints for
the command line leaves it where the output is no terminal. -/
def stripAnsi (s : String) : String := String.ofList (stripFrom [] s.toList)

end TinyLisp.Text
