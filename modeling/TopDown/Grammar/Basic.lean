/-!
# Grammars

A context-free grammar is a list of rules over named symbols. The order of the rules is kept,
because the left-hand side of the first one is the start symbol.
-/

namespace TopDown

/-- A symbol of a production. A terminal and a nonterminal of one name are different symbols. -/
inductive Symbol where
  | terminal (name : String)
  | nonterminal (name : String)
deriving DecidableEq, Repr

def Symbol.name : Symbol → String
  | .terminal name => name
  | .nonterminal name => name

def Symbol.terminal? : Symbol → Option String
  | .terminal name => some name
  | .nonterminal _ => none

/-- A terminal is written between single quotes. -/
def Symbol.render : Symbol → String
  | .terminal name => "'" ++ name ++ "'"
  | .nonterminal name => name

/-- One alternative of a nonterminal. The empty production derives the empty sequence. -/
structure Rule where
  lhs : String
  production : List Symbol
deriving DecidableEq, Repr

def Rule.isEmpty (rule : Rule) : Bool :=
  rule.production.isEmpty

/-- The right-hand side of a rule: each symbol after a space, or `!` for the empty production. -/
def Rule.renderProduction (rule : Rule) : String :=
  match rule.production with
  | [] => " !"
  | symbols => String.join (symbols.map fun symbol => " " ++ symbol.render)

def Rule.render (rule : Rule) : String :=
  rule.lhs ++ ":" ++ rule.renderProduction ++ ";"

structure Grammar where
  rules : List Rule
deriving DecidableEq, Repr

def Grammar.start? (grammar : Grammar) : Option String :=
  grammar.rules.head?.map Rule.lhs

/-- One rule a line, in a form that the reader of grammar definitions takes back. -/
def Grammar.render (grammar : Grammar) : String :=
  String.join (grammar.rules.map fun rule => rule.render ++ "\n")

end TopDown
