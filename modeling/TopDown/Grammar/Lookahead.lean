/-!
# Lookaheads

What a parser can see ahead of it: a terminal of the language or the end of the input.
-/

namespace TopDown

inductive Lookahead where
  | terminal (name : String)
  | endOfInput
deriving DecidableEq, Repr

def Lookahead.render : Lookahead → String
  | .terminal name => "'" ++ name ++ "'"
  | .endOfInput => "EOF"

/-- Terminals come in the order of their names, character by character; the end of input comes last.
-/
def Lookahead.le : Lookahead → Lookahead → Bool
  | .terminal left, .terminal right => decide (left ≤ right)
  | .terminal _, .endOfInput => true
  | .endOfInput, .terminal _ => false
  | .endOfInput, .endOfInput => true

end TopDown
