import TinyLisp.Text.Blank

/-!
# Tokens

The reader works on tokens: parentheses, which are always tokens of their
own, and words, the runs of other characters between blanks and
parentheses. There are no comments and no escapes.
-/

namespace TinyLisp

inductive Token where
  | opening
  | closing
  | word (text : String)
  deriving DecidableEq

namespace Token

def text : Token → String
  | .opening => "("
  | .closing => ")"
  | .word text => text

/-- The token that a text taken as a whole stands for. -/
def ofText (text : String) : Token :=
  if text = "(" then .opening else if text = ")" then .closing else .word text

theorem text_ofText (s : String) : (ofText s).text = s := by
  unfold ofText
  split
  · rename_i h; exact h.symm
  · split
    · rename_i h; exact h.symm
    · rfl

/-- Puts the word with the given characters, newest first, before the
tokens, unless it has none. -/
def consWord : List Char → List Token → List Token
  | [], tokens => tokens
  | chars, tokens => .word (String.ofList chars.reverse) :: tokens

/-- The tokens of `cs`, the first of them continuing the word with the
characters `current`, held newest first. -/
def scan : List Char → List Char → List Token
  | current, [] => consWord current []
  | current, c :: cs =>
    if c = '(' then consWord current (.opening :: scan [] cs)
    else if c = ')' then consWord current (.closing :: scan [] cs)
    else if Text.isBlank c then consWord current (scan [] cs)
    else scan (c :: current) cs

end Token

/-- The tokens of a text. -/
def tokenize (source : String) : List Token := Token.scan [] source.toList

end TinyLisp
