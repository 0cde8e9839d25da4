/-!
# Lines

A text is cut into lines at `\n`, `\r\n` and `\r`. A last line counts also
without an end mark.
-/

namespace TinyLisp.Text

/-- The lines that `cs` makes up, the first of them starting with the
characters `current`, held newest first. -/
def linesFrom : List Char → List Char → List (List Char)
  | [], [] => []
  | current, [] => [current.reverse]
  | current, '\r' :: '\n' :: rest => current.reverse :: linesFrom [] rest
  | current, c :: rest =>
    if c = '\n' ∨ c = '\r' then current.reverse :: linesFrom [] rest
    else linesFrom (c :: current) rest

/-- The lines of a text, without their end marks. -/
def lines (s : String) : List String := (linesFrom [] s.toList).map String.ofList

end TinyLisp.Text
