import TopDown.Grammar.Basic
import TopDown.Grammar.Lookahead

/-!
# Numbered grammars

The analysis of a grammar works on numbers. Nonterminals are numbered by their first appearance as a
left-hand side, so the start symbol is number zero; terminals are numbered by their first appearance
in a production, and the end of the input takes the number after the last terminal. Rules are
numbered in the order of the grammar.
-/

namespace TopDown

/-- The names of a grammar, each at the place that is its number. -/
structure Numbering where
  terminals : List String
  nonterminals : List String
deriving DecidableEq, Repr

inductive NumberedSymbol where
  | terminal (id : Nat)
  | nonterminal (id : Nat)
deriving DecidableEq, Repr

namespace Numbering

def terminalId? (numbering : Numbering) (name : String) : Option Nat :=
  numbering.terminals.idxOf? name

def nonterminalId? (numbering : Numbering) (name : String) : Option Nat :=
  numbering.nonterminals.idxOf? name

def nonterminalName? (numbering : Numbering) (id : Nat) : Option String :=
  numbering.nonterminals[id]?

/-- What is said of a number that no nonterminal has. -/
def unknownNonterminalMessage (id : Nat) : String :=
  "no non-terminal with id " ++ toString id

def symbol? (numbering : Numbering) : Symbol → Option NumberedSymbol
  | .terminal name => (numbering.terminalId? name).map .terminal
  | .nonterminal name => (numbering.nonterminalId? name).map .nonterminal

def start : Nat := 0

/-- The number that stands for the end of the input. -/
def endOfInput (numbering : Numbering) : Nat :=
  numbering.terminals.length

/-- The number of lookaheads: every terminal, and the end of the input. -/
def lookaheadCount (numbering : Numbering) : Nat :=
  numbering.terminals.length + 1

def lookahead (numbering : Numbering) (id : Nat) : Lookahead :=
  match numbering.terminals[id]? with
  | some name => .terminal name
  | none => .endOfInput

def lookaheadId? (numbering : Numbering) : Lookahead → Option Nat
  | .terminal name => numbering.terminalId? name
  | .endOfInput => some numbering.endOfInput

end Numbering

/-- The nonterminals in the order of their first rules, and the terminals in the order of their
first use. -/
def Grammar.numbering (grammar : Grammar) : Numbering :=
  { terminals :=
      (grammar.rules.flatMap fun rule => rule.production.filterMap Symbol.terminal?).eraseDups
    nonterminals := (grammar.rules.map Rule.lhs).eraseDups }

structure NumberedRule where
  lhs : Nat
  production : List NumberedSymbol
deriving DecidableEq, Repr

/-- A grammar, its numbering, and its rules by numbers. -/
structure NumberedGrammar where
  grammar : Grammar
  numbering : Numbering
  rules : List NumberedRule
deriving DecidableEq, Repr

/-- Why a grammar cannot be numbered. -/
inductive GrammarDefect where
  /-- Without rules there is no start symbol. -/
  | noRules
  /-- A production uses a nonterminal that has no rule. -/
  | undefinedNonterminal (name : String) (rule : Rule)
deriving DecidableEq, Repr

def GrammarDefect.message : GrammarDefect → String
  | .noRules => "grammar has no rules"
  | .undefinedNonterminal name rule =>
      "undefined non-terminal `" ++ name ++ "` in rule `" ++ rule.render ++ "`"

/-- A rule by numbers. Its leftmost symbol without a number is reported. -/
def Numbering.rule (numbering : Numbering) (rule : Rule) : Except GrammarDefect NumberedRule := do
  let production ← rule.production.mapM fun symbol =>
    match numbering.symbol? symbol with
    | some id => .ok id
    | none => .error (.undefinedNonterminal symbol.name rule)
  return { lhs := numbering.nonterminals.idxOf rule.lhs, production := production }

/-- Numbers a grammar. The first rule that uses an undefined nonterminal is reported. -/
def Grammar.number (grammar : Grammar) : Except GrammarDefect NumberedGrammar :=
  if grammar.rules.isEmpty then .error .noRules
  else do
    let rules ← grammar.rules.mapM grammar.numbering.rule
    return { grammar := grammar, numbering := grammar.numbering, rules := rules }

namespace NumberedGrammar

/-- The rules of a nonterminal, in the order of the grammar. -/
def alternatives (grammar : NumberedGrammar) (nonterminal : Nat) : List Nat :=
  grammar.rules.zipIdx.filterMap fun entry =>
    if entry.1.lhs = nonterminal then some entry.2 else none

def nonterminalCount (grammar : NumberedGrammar) : Nat :=
  grammar.numbering.nonterminals.length

def production (grammar : NumberedGrammar) (rule : Nat) : List NumberedSymbol :=
  (grammar.rules[rule]?.map NumberedRule.production).getD []

/-- A rule in the words of the grammar. -/
def rule? (grammar : NumberedGrammar) (rule : Nat) : Option Rule :=
  grammar.grammar.rules[rule]?

end NumberedGrammar

end TopDown
