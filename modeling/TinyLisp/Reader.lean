import TinyLisp.Fault
import TinyLisp.Number.Decimal
import TinyLisp.Token

/-!
# The reader

From tokens to expressions. A word that starts with a digit is a number,
one that starts with a quote is a literal, any other a symbol; lists nest
up to a limit. The lists that are open while reading are kept on a stack,
so one pass over the tokens reads an expression of any depth.

`readFirst` reads the first expression of a text, `readAll` all of them.
-/

namespace TinyLisp

/-- How deep lists may nest, in reading and in evaluating. -/
def nestingLimit : Nat := 400

/-! ## Atoms -/

/-- The expression that a word stands for. What follows the second quote
of a literal does not count. -/
def readAtom (text : String) : Except Stop Expr :=
  match text.toList with
  | [] => .error .emptyToken
  | c :: rest =>
    if Text.isAsciiDigit c then
      match Decimal.ofChars? (c :: rest) with
      | some d => .ok (.number d.toDouble)
      | none => .error (ReadFault.invalidNumber text).stop
    else if c = '\'' then
      if rest.contains '\'' then .ok (.literal (String.ofList (rest.takeWhile (· != '\''))))
      else .error (ReadFault.unterminatedLiteral text).stop
    else .ok (.symbol text)

/-! ## One expression -/

/-- Reads on inside a list: `items` are the items read so far, newest
first, `outer` the same for the lists around it, innermost first, and
`room` says how many more lists may open inside. Ends with the outermost
list and the tokens after it. -/
def readList (room : Nat) (items : List Expr) (outer : List (List Expr)) :
    List Token → Except Stop (Expr × List Token)
  | [] => .error ReadFault.unclosedList.stop
  | .opening :: rest =>
    match room with
    | 0 => .error (.fault (.nesting "read"))
    | room + 1 => readList room [] (items :: outer) rest
  | .closing :: rest =>
    match outer with
    | [] => .ok (.list items.reverse, rest)
    | above :: outer => readList (room + 1) (.list items.reverse :: above) outer rest
  | .word text :: rest =>
    match readAtom text with
    | .ok atom => readList room (atom :: items) outer rest
    | .error stop => .error stop

/-- The first expression of the tokens and the tokens after it. -/
def parse (limit : Nat) : List Token → Except Stop (Expr × List Token)
  | [] => .error ReadFault.endOfText.stop
  | .opening :: rest =>
    match limit with
    | 0 => .error (.fault (.nesting "read"))
    | room + 1 => readList room [] [] rest
  | .closing :: _ => .error ReadFault.strayClose.stop
  | .word text :: rest =>
    match readAtom text with
    | .ok atom => .ok (atom, rest)
    | .error stop => .error stop

/-- The list whose opening parenthesis stands before the tokens, and the
tokens after it. -/
def parseSequence (limit : Nat) (tokens : List Token) : Except Stop (Expr × List Token) :=
  readList limit [] [] tokens

/-- The first expression of a text. In strict mode nothing may follow
it. -/
def readFirst (limit : Nat) (strict : Bool) (source : String) : Except Stop Expr :=
  match parse limit (tokenize source) with
  | .error stop => .error stop
  | .ok (e, rest) =>
    if strict && !rest.isEmpty then
      .error (ReadFault.trailingTokens (rest.map Token.text)).stop
    else .ok e

/-! ## All expressions -/

/-- A text read to its end: its expressions up to the first that cannot be
read, and why that one cannot. -/
structure Script where
  forms : List Expr
  failure : Option Stop

/-- Reads expressions up to the end of the tokens, or as many as the bound
says. -/
def readForms (limit : Nat) : Nat → List Token → Script
  | 0, _ => ⟨[], none⟩
  | _ + 1, [] => ⟨[], none⟩
  | bound + 1, t :: ts =>
    match parse limit (t :: ts) with
    | .error stop => ⟨[], some stop⟩
    | .ok (e, rest) =>
      let script := readForms limit bound rest
      ⟨e :: script.forms, script.failure⟩

/-- All expressions of a text. Each takes up at least one token, so the
number of tokens bounds the number of expressions. -/
def readAll (limit : Nat) (source : String) : Script :=
  let tokens := tokenize source
  readForms limit tokens.length tokens

end TinyLisp
