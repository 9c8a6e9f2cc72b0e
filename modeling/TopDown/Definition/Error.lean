import TopDown.Definition.Token
import TopDown.Text.CharLiteral

/-!
# Errors in a grammar definition
-/

namespace TopDown.Definition

/-- The kinds of a list of three or more, the last of them behind an `or`. -/
def renderAlternatives : List TokenKind → String
  | [] => ""
  | [last] => "or " ++ last.render
  | kind :: rest => kind.render ++ ", " ++ renderAlternatives rest

def renderExpected : List TokenKind → String
  | [] => "nothing"
  | [kind] => kind.render
  | [first, second] => first.render ++ " or " ++ second.render
  | kinds => "one of " ++ renderAlternatives kinds

inductive Error where
  /-- A character that begins no token. -/
  | invalidCharacter (char : Char) (location : Location)
  /-- A terminal whose closing quote does not come before the end of its line. -/
  | unclosedTerminal (start : Location)
  /-- A token that cannot stand where it was found. -/
  | unexpectedToken (expected : List TokenKind) (found : Token)
deriving DecidableEq, Repr

namespace Error

def location : Error → Location
  | .invalidCharacter _ location => location
  | .unclosedTerminal start => start
  | .unexpectedToken _ found => found.location

def message : Error → String
  | .invalidCharacter char location =>
      "invalid character " ++ Text.charLiteral char ++ " at " ++ location.render
  | .unclosedTerminal start => "unclosed terminal starting at " ++ start.render
  | .unexpectedToken expected found =>
      "unexpected " ++ found.render ++ " at " ++ found.location.render ++ ", expected " ++
        renderExpected expected

end Error

end TopDown.Definition
