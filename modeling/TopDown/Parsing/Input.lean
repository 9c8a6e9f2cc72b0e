import TopDown.Grammar.Lookahead

/-!
# Inputs of a parser

A parser looks at one token of its input at a time. The last token stands at the end of the input
and is never passed.
-/

namespace TopDown

/-- Tokens of the language to be parsed. -/
class InputToken (τ : Type) where
  /-- The terminal that a token matches, or the end of the input. -/
  kind : τ → Lookahead
  text : τ → String

/-- Why a parse fails. -/
inductive ParseError (τ : Type) where
  /-- A token that cannot come next, and the lookaheads that could. -/
  | unexpectedToken (expected : List Lookahead) (found : τ)
  /-- More expansions were open than a grammar without overlaps allows. -/
  | depthExceeded
deriving DecidableEq

def renderLookaheads : List Lookahead → String
  | [] => "nothing"
  | [lookahead] => lookahead.render
  | lookaheads => "one of " ++ ", ".intercalate (lookaheads.map Lookahead.render)

def ParseError.message {τ : Type} [InputToken τ] : ParseError τ → String
  | .unexpectedToken expected found =>
      "unexpected token " ++ InputToken.text found ++ ", expected " ++ renderLookaheads expected
  | .depthExceeded => "too many open expansions"

/-- The tokens that lie ahead before the last one, and the number of tokens that were passed. -/
structure Input (τ : Type) where
  ahead : List τ
  last : τ
  position : Nat
deriving DecidableEq

namespace Input

variable {τ : Type}

def ofTokens (tokens : List τ) (last : τ) : Input τ :=
  { ahead := tokens, last := last, position := 0 }

def peek (input : Input τ) : τ :=
  input.ahead.headD input.last

/-- Gives the current token, and passes it unless it is the last. -/
def next (input : Input τ) : τ × Input τ :=
  match input.ahead with
  | [] => (input.last, input)
  | token :: rest => (token, { input with ahead := rest, position := input.position + 1 })

def has [InputToken τ] (input : Input τ) (kinds : List Lookahead) : Bool :=
  kinds.contains (InputToken.kind input.peek)

/-- Gives the current token if it is of one of the kinds, and otherwise stays where it is. -/
def expect [InputToken τ] (input : Input τ) (kinds : List Lookahead) :
    Except (ParseError τ) τ × Input τ :=
  if input.has kinds then (.ok input.next.1, input.next.2)
  else (.error (.unexpectedToken kinds input.peek), input)

end Input

end TopDown
