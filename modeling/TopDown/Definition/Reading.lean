import TopDown.Definition.TokenStream
import TopDown.Grammar.Basic

/-!
# Reading a grammar definition

A definition is one or more rules. A rule is a name, a colon, alternatives between pipes, and a
semicolon; an alternative is one or more symbols, or `!` for the empty production. Every alternative
gives a rule of the grammar. The reader takes one token after another, and the stage that it has
reached decides which kinds of tokens may come next.
-/

namespace TopDown.Definition

/-- What the tokens read so far leave unfinished. -/
inductive Stage where
  /-- Between two rules. -/
  | betweenRules
  /-- Behind the name of a rule. -/
  | afterName (name : String)
  /-- At the start of an alternative of `name`. -/
  | alternative (name : String)
  /-- Behind the symbols of an alternative, of which there is at least one. -/
  | afterSymbols (name : String) (symbols : List Symbol)
  /-- Behind the mark of the empty production. -/
  | afterEmpty (name : String)
deriving DecidableEq, Repr

/-- The rules that are complete, and the stage of the reader. -/
structure Reading where
  rules : List Rule
  stage : Stage
deriving DecidableEq, Repr

namespace Reading

def start : Reading :=
  { rules := [], stage := .betweenRules }

/-- Ends an alternative. -/
def addRule (reading : Reading) (lhs : String) (production : List Symbol) (stage : Stage) :
    Reading :=
  { rules := reading.rules ++ [{ lhs := lhs, production := production }], stage := stage }

/-- Takes a token, or refuses it. -/
def take? (reading : Reading) (lexeme : Lexeme) : Option Reading :=
  match reading.stage, lexeme with
  | .betweenRules, .nonterminal name => some { reading with stage := .afterName name }
  | .afterName name, .colon => some { reading with stage := .alternative name }
  | .alternative name, .empty => some { reading with stage := .afterEmpty name }
  | .alternative name, .terminal symbol =>
      some { reading with stage := .afterSymbols name [.terminal symbol] }
  | .alternative name, .nonterminal symbol =>
      some { reading with stage := .afterSymbols name [.nonterminal symbol] }
  | .afterSymbols name symbols, .terminal symbol =>
      some { reading with stage := .afterSymbols name (symbols ++ [.terminal symbol]) }
  | .afterSymbols name symbols, .nonterminal symbol =>
      some { reading with stage := .afterSymbols name (symbols ++ [.nonterminal symbol]) }
  | .afterSymbols name symbols, .pipe => some (reading.addRule name symbols (.alternative name))
  | .afterSymbols name symbols, .semicolon => some (reading.addRule name symbols .betweenRules)
  | .afterEmpty name, .pipe => some (reading.addRule name [] (.alternative name))
  | .afterEmpty name, .semicolon => some (reading.addRule name [] .betweenRules)
  | _, _ => none

/-- A definition may end behind a rule. -/
def isComplete (reading : Reading) : Bool :=
  reading.stage = .betweenRules && !reading.rules.isEmpty

/-- The kinds that an error names when a token is refused. -/
def expected (reading : Reading) : List TokenKind :=
  match reading.stage with
  | .betweenRules => if reading.rules.isEmpty then [.nonterminal] else [.nonterminal, .endOfText]
  | .afterName _ => [.colon]
  | .alternative _ => [.nonterminal, .terminal]
  | .afterSymbols _ _ => [.pipe, .semicolon]
  | .afterEmpty _ => [.pipe, .semicolon]

/-- Reads on to the end of the text. A token is judged before the one behind it is read. -/
def finish (reading : Reading) (stream : TokenStream) : Except Error Grammar :=
  if stream.upcoming.lexeme = .endOfText then
    if reading.isComplete then .ok { rules := reading.rules }
    else .error (.unexpectedToken reading.expected stream.upcoming)
  else
    match reading.take? stream.upcoming.lexeme with
    | none => .error (.unexpectedToken reading.expected stream.upcoming)
    | some reading =>
        match _hnext : stream.next with
        | (.ok _, after) => reading.finish after
        | (.error error, _) => .error error
termination_by stream.room
decreasing_by exact TokenStream.room_next_lt _hnext ‹_›

end Reading

/-- Reads the grammar that a text defines. -/
def parse (text : String) : Except Error Grammar :=
  match TokenStream.ofText? text with
  | .ok stream => Reading.start.finish stream
  | .error error => .error error

end TopDown.Definition
