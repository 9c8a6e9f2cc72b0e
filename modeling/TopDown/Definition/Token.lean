import TopDown.Definition.Location

/-!
# Tokens of a grammar definition

A token is a lexeme and the place where it begins. A lexeme knows the characters it is written with,
so the size of a token is not stored.
-/

namespace TopDown.Definition

abbrev quoteMark : Char := '\x27'

/-- The classes of tokens, which are what the reader of a definition looks at. -/
inductive TokenKind where
  | nonterminal
  | terminal
  | colon
  | semicolon
  | pipe
  | empty
  | endOfText
deriving DecidableEq, Repr

def TokenKind.render : TokenKind → String
  | .nonterminal => "non-terminal"
  | .terminal => "terminal"
  | .colon => "`:`"
  | .semicolon => "`;`"
  | .pipe => "`|`"
  | .empty => "`!`"
  | .endOfText => "end of input"

inductive Lexeme where
  | nonterminal (name : String)
  | terminal (name : String)
  | colon
  | semicolon
  | pipe
  | empty
  | endOfText
deriving DecidableEq, Repr

namespace Lexeme

def kind : Lexeme → TokenKind
  | .nonterminal _ => .nonterminal
  | .terminal _ => .terminal
  | .colon => .colon
  | .semicolon => .semicolon
  | .pipe => .pipe
  | .empty => .empty
  | .endOfText => .endOfText

/-- The characters that a lexeme is written with. -/
def source : Lexeme → List Char
  | .nonterminal name => name.toList
  | .terminal name => quoteMark :: name.toList ++ [quoteMark]
  | .colon => [':']
  | .semicolon => [';']
  | .pipe => ['|']
  | .empty => ['!']
  | .endOfText => []

/-- What a lexeme says: its characters, except that a terminal drops its quotes. -/
def text : Lexeme → String
  | .terminal name => name
  | lexeme => String.ofList lexeme.source

def render : Lexeme → String
  | .nonterminal name => "non-terminal `" ++ name ++ "`"
  | .terminal name => "terminal '" ++ name ++ "'"
  | lexeme => lexeme.kind.render

end Lexeme

structure Token where
  lexeme : Lexeme
  location : Location
deriving DecidableEq, Repr

namespace Token

def kind (token : Token) : TokenKind :=
  token.lexeme.kind

def text (token : Token) : String :=
  token.lexeme.text

/-- The number of bytes that a token takes in the text. -/
def size (token : Token) : Nat :=
  utf8Length token.lexeme.source

def render (token : Token) : String :=
  token.lexeme.render

end Token

end TopDown.Definition
